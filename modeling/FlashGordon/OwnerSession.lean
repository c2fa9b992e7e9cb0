import FlashGordon.Transport

/-! The owner session transactions of the depth-B coordinator (`runtime.c`): one operation on the state slot
of rank 0 and of every peer, with one reply a peer, and the rollback of a PREPARE that fails. A worker takes
the requests of its control channel in order and what it does depends on nothing else, so here it takes a
request when it is sent. What can go wrong is part of a peer: whether a request reaches it, how its device
answers, whether its reply gets out and whether the reply arrives intact. -/

namespace FlashGordon.OwnerSession

inductive Operation where
  | prepare
  | commit
  | restore
  deriving DecidableEq

/-- `FG_OWNER_SESSION_MAX`. -/
def ownerSessionMax : Nat := 2

/-- What the device answers: selecting a session, opening the state file a batch slot may need, the snapshot
and the rollback. -/
structure Device where
  setActive : Operation → Except Error Unit
  openState : Except Error Unit
  snapshot : Except Error Unit
  rollback : Except Error Unit

/-- `depthb_owner_runtime`: `available` says that there is an owner executor. -/
structure Owner where
  available : Bool
  sessionCount : Nat
  checkpointValid : Nat → Bool

def Owner.release (owner : Owner) (slot : UInt8) : Owner :=
  { owner with checkpointValid := Function.update owner.checkpointValid slot.toNat false }

def depthbOwnerPrepare (device : Device) (owner : Owner) (slot : UInt8) : Except Error Unit × Owner :=
  if !owner.available || ownerSessionMax ≤ slot.toNat || owner.sessionCount ≤ slot.toNat then
    (.error ⟨.mismatch, s!"owner state slot {slot} is not allocated"⟩, owner)
  else
    let owner := owner.release slot
    match device.setActive .prepare with
    | .error err => (.error err, owner)
    | .ok () =>
      match device.openState with
      | .error err => (.error err, owner)
      | .ok () =>
        match device.snapshot with
        | .error err => (.error err, owner)
        | .ok () =>
          (.ok (), { owner with checkpointValid := Function.update owner.checkpointValid slot.toNat true })

def depthbOwnerCommit (device : Device) (owner : Owner) (slot : UInt8) : Except Error Unit × Owner :=
  if !owner.available || ownerSessionMax ≤ slot.toNat then
    (.error ⟨.mismatch, "invalid owner session commit"⟩, owner)
  else (device.setActive .commit, owner.release slot)

/-- `depthb_owner_restore`: the checkpoint is rolled back if there is one, and is gone either way. -/
def depthbOwnerRestore (device : Device) (owner : Owner) (slot : UInt8) : Except Error Unit × Owner :=
  if !owner.available || ownerSessionMax ≤ slot.toNat then
    (.error ⟨.mismatch, "invalid owner session restore"⟩, owner)
  else
    let status := if owner.checkpointValid slot.toNat then device.rollback else .ok ()
    let active := device.setActive .restore
    (match status with
      | .ok () => active
      | .error err => .error err, owner.release slot)

def ownerOperation (operation : Operation) : Device → Owner → UInt8 → Except Error Unit × Owner :=
  match operation with
  | .prepare => depthbOwnerPrepare
  | .commit => depthbOwnerCommit
  | .restore => depthbOwnerRestore

/-- A frame that stands on a control channel to rank 0: left from an earlier exchange, or the reply to an
operation of this one. An earlier frame carries an earlier generation, so it answers nothing asked now. -/
inductive Arrived where
  | earlier
  | reply (operation : Operation) (intact : Bool)
  deriving DecidableEq

structure Peer where
  running : Bool
  sessionId : UInt64
  owner : Owner
  device : Device
  reachable : Operation → Except Error Unit
  replySent : Operation → Bool
  intact : Operation → Bool
  frames : List Arrived

/-- The worker loop ends: every checkpoint is released and the process is gone. -/
def Peer.stop (peer : Peer) : Peer :=
  { peer with running := false, owner := { peer.owner with checkpointValid := fun _ => false } }

/-- `handle_owner_session_transaction` in the worker loop, which ends at the first error. -/
def Peer.serve (operation : Operation) (session : UInt64) (slot : UInt8) (peer : Peer) : Peer :=
  if !peer.running then peer
  else if !peer.owner.available || peer.sessionId = 0 || peer.sessionId ≠ session then peer.stop
  else
    match ownerOperation operation peer.device peer.owner slot with
    | (.error _, owner) => Peer.stop { peer with owner := owner }
    | (.ok (), owner) =>
      if peer.replySent operation then
        { peer with
          owner := owner
          frames := peer.frames ++ [.reply operation (peer.intact operation)] }
      else Peer.stop { peer with owner := owner }

/-- The loop that sends the request to every peer in turn, up to the first that cannot be reached. -/
def sendAll (operation : Operation) (session : UInt64) (slot : UInt8) :
    List Peer → List Peer × Except Error Unit
  | [] => ([], .ok ())
  | peer :: rest =>
    match peer.reachable operation with
    | .error err => (peer :: rest, .error err)
    | .ok () =>
      let sent := sendAll operation session slot rest
      (peer.serve operation session slot :: sent.1, sent.2)

/-- The loop that reads one reply of every peer in turn, up to the first that does not come or does not fit.
Without a frame it waits for a running peer forever. -/
def receiveAll (operation : Operation) : Nat → List Peer → Option (List Peer × Except Error Unit)
  | _, [] => some ([], .ok ())
  | rank, peer :: rest =>
    match peer.frames with
    | [] => if peer.running then none else some (peer :: rest, .error ⟨.io, "peer closed fabric socket"⟩)
    | frame :: frames =>
      let read := { peer with frames := frames }
      if frame = .reply operation true then
        (receiveAll operation (rank + 1) rest).map fun received => (read :: received.1, received.2)
      else
        some (read :: rest,
          .error ⟨.mismatch, s!"owner session transaction reply mismatch from rank {rank}"⟩)

structure Fleet where
  owner : Owner
  device : Device
  sessionId : UInt64
  generation : UInt32
  transport : Transport.State
  peers : List Peer

/-- The part of `coordinator_owner_transaction` before its first send: the checks, the generation and rank
0's own operation. -/
def beginTransaction (operation : Operation) (slot : UInt8) (fleet : Fleet) : Except Error Unit × Fleet :=
  if !fleet.owner.available then (.error ⟨.unavailable, "depth-B owner state is unavailable"⟩, fleet)
  else
    let fleet := { fleet with generation := fleet.generation + 1 }
    if fleet.sessionId = 0 ∨ fleet.generation = 0 then
      (.error ⟨.mismatch, "depth-B session transaction nonce is invalid"⟩, fleet)
    else
      let done := ownerOperation operation fleet.device fleet.owner slot
      (done.1, { fleet with owner := done.2 })

/-- The part that sends to every peer and then reads from every peer. -/
def exchange (operation : Operation) (slot : UInt8) (fleet : Fleet) : Option (Except Error Unit × Fleet) :=
  match sendAll operation fleet.sessionId slot fleet.peers with
  | (peers, .error err) => some (.error err, { fleet with peers := peers })
  | (peers, .ok ()) =>
    (receiveAll operation 1 peers).map fun received => (received.2, { fleet with peers := received.1 })

/-- The frames unread when a call begins belong to earlier exchanges. -/
def Fleet.aged (fleet : Fleet) : Fleet :=
  { fleet with
    peers := fleet.peers.map fun peer => { peer with frames := peer.frames.map fun _ => .earlier } }

/-- The rollback that a failed PREPARE calls, its own status ignored. -/
def rollBack (slot : UInt8) (fleet : Fleet) : Option Fleet :=
  match beginTransaction .restore slot fleet with
  | (.error _, fleet) => some fleet
  | (.ok (), fleet) => (exchange .restore slot fleet).map Prod.snd

/-- `coordinator_owner_transaction`; `none` when it waits forever. -/
def coordinatorOwnerTransaction (operation : Operation) (slot : UInt8) (fleet : Fleet) :
    Option (Except Error Unit × Fleet) :=
  match beginTransaction operation slot fleet.aged with
  | (.error err, fleet) => some (.error err, fleet)
  | (.ok (), fleet) =>
    (exchange operation slot fleet).bind fun exchanged =>
      match exchanged.1 with
      | .ok () => some exchanged
      | .error err =>
        if operation = .prepare then (rollBack slot exchanged.2).map fun fleet => (.error err, fleet)
        else some exchanged

/-! ## What a failed PREPARE should leave -/

def Fleet.Holds (slot : UInt8) (fleet : Fleet) : Prop :=
  fleet.owner.checkpointValid slot.toNat = true ∨
    ∃ peer ∈ fleet.peers, peer.running = true ∧ peer.owner.checkpointValid slot.toNat = true

def Fleet.Unread (fleet : Fleet) : Prop :=
  ∃ peer ∈ fleet.peers, ∃ operation intact, .reply operation intact ∈ peer.frames

/-- No rank is left prepared and no reply unread, or the transport says so. -/
def Settled (slot : UInt8) (fleet : Fleet) : Prop :=
  fleet.transport = .poisoned ∨ ¬fleet.Holds slot ∧ ¬fleet.Unread

end FlashGordon.OwnerSession
