import FlashGordon.Quiescence
import FlashGordon.WireLayer

/-! The start of the fabric (`fabric.c`). Every rank opens its two listeners, connects to each lower rank on
both channels and waits for the answer to its hello, then accepts the higher ranks, first on the control channel
and then on the bulk channel, in the order in which they arrive. The ranks run concurrently; a step is one rank
passing the next call that can block. Endpoints, file descriptors and the I/O ring created at the end are left
out, and sockets do not fail. -/

namespace FlashGordon.Fabric

open Wire Function

/-- What a handshake reads of the manifest. Manifest validation lets only supported versions through. -/
structure Manifest where
  protocolVersion : UInt32
  manifestSha256 : List UInt8
  narrow : protocolVersion.toNat < 65536
  supported : VersionSupported protocolVersion.toUInt16

def frameMagic : UInt32 := 0x31474646

/-- `fabric_hello`, with its numbers in host order. -/
structure Hello where
  magic : UInt32
  version : UInt16
  rank : UInt8
  channel : UInt8
  manifestSha256 : List UInt8
  deriving DecidableEq

def helloFill (m : Manifest) (rank cls : Nat) : Hello where
  magic := frameMagic
  version := m.protocolVersion.toUInt16
  rank := UInt8.ofNat rank
  channel := UInt8.ofNat cls
  manifestSha256 := m.manifestSha256

def HelloValid (hello : Hello) (m : Manifest) (rank cls : Nat) : Prop :=
  hello.magic = frameMagic ∧ VersionSupported hello.version ∧ hello.version.toNat = m.protocolVersion.toNat ∧
    hello.rank.toNat = rank ∧ hello.channel = UInt8.ofNat cls ∧ hello.manifestSha256 = m.manifestSha256

instance (hello : Hello) (m : Manifest) (rank cls : Nat) : Decidable (HelloValid hello m rank cls) := by
  unfold HelloValid
  infer_instance

/-- A connection, named by the rank that opened it and by how many that rank had opened before. -/
structure Fd where
  client : Nat
  index : Nat
  deriving DecidableEq

/-- The listener a connection was made to, and what has been sent over it. -/
structure Conn where
  server : Nat
  channel : Nat
  hello : Option Hello
  reply : Option Hello
  deriving DecidableEq

/-- Where a rank is in `fg_fabric_open`: at `connect`, at the send and at the receive of `outgoing`, at `accept4`
and at the receive of `incoming_any`, or past the loops. -/
inductive Stage where
  | idle
  | connecting (peer cls : Nat)
  | greeting (peer cls : Nat) (fd : Fd)
  | awaiting (peer cls : Nat) (fd : Fd)
  | accepting (cls accepted : Nat)
  | reading (cls accepted : Nat) (fd : Fd)
  | finished
  | failed (err : Error)
  deriving DecidableEq

/-- The ranks and the network between them. `peer (rank, p, c)` is the descriptor of `f->peer[p][c]` at that rank
and `queue (rank, c)` its backlog of connections not yet accepted. -/
structure State where
  stage : Nat → Stage
  peer : Nat × Nat × Nat → Option Fd
  opened : Nat → Nat
  conn : Fd → Conn
  queue : Nat × Nat → List Fd

def initial : State where
  stage := fun _ => .idle
  peer := fun _ => none
  opened := fun _ => 0
  conn := fun _ => ⟨0, 0, none, none⟩
  queue := fun _ => []

/-- The listeners of a rank are open from its start until its loops end. -/
def Stage.Listens : Stage → Prop
  | .idle | .finished | .failed _ => False
  | _ => True

instance (stage : Stage) : Decidable stage.Listens := by
  cases stage <;> simp only [Stage.Listens] <;> infer_instance

def acceptFrom (ranks rank cls accepted : Nat) : Stage :=
  if accepted < ranks then .accepting cls accepted
  else if cls = 0 ∧ rank + 1 < ranks then .accepting 1 (rank + 1)
  else .finished

def connectFrom (ranks rank p cls : Nat) : Stage :=
  if p < rank ∧ cls < 2 then .connecting p cls
  else if p + 1 < rank then .connecting (p + 1) 0
  else acceptFrom ranks rank 0 (rank + 1)

namespace State

variable (s : State)

def goto (rank : Nat) (stage : Stage) : State := { s with stage := Function.update s.stage rank stage }

def fail (rank : Nat) (code : Status) (message : String) : State := s.goto rank (.failed ⟨code, message⟩)

def record (rank peer cls : Nat) (fd : Fd) : State :=
  { s with peer := Function.update s.peer (rank, peer, cls) (some fd) }

/-- `connect_retry` gets through: the connection waits in the listener's queue. -/
def connect (rank peer cls : Nat) : State :=
  let fd : Fd := ⟨rank, s.opened rank⟩
  { s with
    opened := Function.update s.opened rank (s.opened rank + 1)
    conn := Function.update s.conn fd ⟨peer, cls, none, none⟩
    queue := Function.update s.queue (peer, cls) (s.queue (peer, cls) ++ [fd]) }

def sendHello (fd : Fd) (hello : Hello) : State :=
  { s with conn := Function.update s.conn fd { s.conn fd with hello := some hello } }

def sendReply (fd : Fd) (hello : Hello) : State :=
  { s with conn := Function.update s.conn fd { s.conn fd with reply := some hello } }

def accept (rank cls : Nat) (rest : List Fd) : State :=
  { s with queue := Function.update s.queue (rank, cls) rest }

end State

/-- The receive of `outgoing`. A server that no longer listens has closed what it did not accept. -/
def receiveReply (ranks : Nat) (m : Manifest) (s : State) (rank peer cls : Nat) (fd : Fd) : Option State :=
  match (s.conn fd).reply with
  | some theirs =>
    if HelloValid theirs m peer cls then
      some ((s.record rank peer cls fd).goto rank (connectFrom ranks rank peer (cls + 1)))
    else some (s.fail rank .mismatch s!"rank {peer} handshake mismatch")
  | none =>
    if (s.stage peer).Listens then none
    else some (s.fail rank .mismatch s!"rank {peer} handshake mismatch")

/-- The rest of `incoming_any` once the hello has arrived, and the check of its caller for a duplicate. -/
def takeHello (ranks : Nat) (m : Manifest) (s : State) (rank cls accepted : Nat) (fd : Fd) (theirs : Hello) :
    State :=
  let peer := theirs.rank.toNat
  if peer ≤ rank ∨ peer ≥ ranks ∨ ¬HelloValid theirs m peer cls then
    s.fail rank .mismatch s!"incoming rank {peer} handshake mismatch"
  else
    let s := s.sendReply fd (helloFill m rank cls)
    if (s.peer (rank, peer, cls)).isSome then
      s.fail rank .mismatch s!"duplicate rank {peer} channel {cls}"
    else (s.record rank peer cls fd).goto rank (acceptFrom ranks rank cls (accepted + 1))

/-- One rank goes on until its next call that can block; `none` while the call blocks or the rank has left
`fg_fabric_open`. -/
def step (ranks : Nat) (m : Manifest) (s : State) (rank : Nat) : Option State :=
  if ranks ≤ rank then none
  else
    match s.stage rank with
    | .idle =>
      if ¬VersionSupported m.protocolVersion.toUInt16 then
        some (s.fail rank .argument "invalid fabric arguments")
      else some (s.goto rank (connectFrom ranks rank 0 0))
    | .connecting peer cls =>
      if (s.stage peer).Listens then
        some ((s.connect rank peer cls).goto rank (.greeting peer cls ⟨rank, s.opened rank⟩))
      else none
    | .greeting peer cls fd =>
      some ((s.sendHello fd (helloFill m rank cls)).goto rank (.awaiting peer cls fd))
    | .awaiting peer cls fd => receiveReply ranks m s rank peer cls fd
    | .accepting cls accepted =>
      match s.queue (rank, cls) with
      | [] => none
      | fd :: rest => some ((s.accept rank cls rest).goto rank (.reading cls accepted fd))
    | .reading cls accepted fd =>
      match (s.conn fd).hello with
      | none => none
      | some theirs => some (takeHello ranks m s rank cls accepted fd theirs)
    | .finished => none
    | .failed _ => none

def Reachable (ranks : Nat) (m : Manifest) (s : State) : Prop :=
  ∃ schedule, Runs.exec (step ranks m) initial schedule = some s

/-! ## What each update changes -/

section Updates

variable (s : State) (r : Nat) (next : Stage) (fd : Fd) (hello : Hello) (p cls : Nat)

@[grind =] theorem goto_stage (x : Nat) : (s.goto r next).stage x = if x = r then next else s.stage x := by
  simp [State.goto, update_apply]

@[simp, grind =] theorem goto_peer (x : Nat × Nat × Nat) : (s.goto r next).peer x = s.peer x := rfl

@[simp, grind =] theorem goto_opened (x : Nat) : (s.goto r next).opened x = s.opened x := rfl

@[simp, grind =] theorem goto_conn (x : Fd) : (s.goto r next).conn x = s.conn x := rfl

@[simp, grind =] theorem goto_queue (x : Nat × Nat) : (s.goto r next).queue x = s.queue x := rfl

@[grind =] theorem record_peer (x : Nat × Nat × Nat) :
    (s.record r p cls fd).peer x = if x = (r, p, cls) then some fd else s.peer x := by
  simp [State.record, update_apply]

@[simp, grind =] theorem record_stage (x : Nat) : (s.record r p cls fd).stage x = s.stage x := rfl

@[simp, grind =] theorem record_opened (x : Nat) : (s.record r p cls fd).opened x = s.opened x := rfl

@[simp, grind =] theorem record_conn (x : Fd) : (s.record r p cls fd).conn x = s.conn x := rfl

@[simp, grind =] theorem record_queue (x : Nat × Nat) : (s.record r p cls fd).queue x = s.queue x := rfl

@[grind =] theorem sendHello_conn (x : Fd) :
    (s.sendHello fd hello).conn x = if x = fd then { s.conn fd with hello := some hello } else s.conn x := by
  simp [State.sendHello, update_apply]

@[simp, grind =] theorem sendHello_stage (x : Nat) : (s.sendHello fd hello).stage x = s.stage x := rfl

@[simp, grind =] theorem sendHello_peer (x : Nat × Nat × Nat) : (s.sendHello fd hello).peer x = s.peer x := rfl

@[simp, grind =] theorem sendHello_opened (x : Nat) : (s.sendHello fd hello).opened x = s.opened x := rfl

@[simp, grind =] theorem sendHello_queue (x : Nat × Nat) : (s.sendHello fd hello).queue x = s.queue x := rfl

@[grind =] theorem sendReply_conn (x : Fd) :
    (s.sendReply fd hello).conn x = if x = fd then { s.conn fd with reply := some hello } else s.conn x := by
  simp [State.sendReply, update_apply]

@[simp, grind =] theorem sendReply_stage (x : Nat) : (s.sendReply fd hello).stage x = s.stage x := rfl

@[simp, grind =] theorem sendReply_peer (x : Nat × Nat × Nat) : (s.sendReply fd hello).peer x = s.peer x := rfl

@[simp, grind =] theorem sendReply_opened (x : Nat) : (s.sendReply fd hello).opened x = s.opened x := rfl

@[simp, grind =] theorem sendReply_queue (x : Nat × Nat) : (s.sendReply fd hello).queue x = s.queue x := rfl

@[grind =] theorem accept_queue (rest : List Fd) (x : Nat × Nat) :
    (s.accept r cls rest).queue x = if x = (r, cls) then rest else s.queue x := by
  simp [State.accept, update_apply]

@[simp, grind =] theorem accept_stage (rest : List Fd) (x : Nat) : (s.accept r cls rest).stage x = s.stage x := rfl

@[simp, grind =] theorem accept_peer (rest : List Fd) (x : Nat × Nat × Nat) :
    (s.accept r cls rest).peer x = s.peer x := rfl

@[simp, grind =] theorem accept_opened (rest : List Fd) (x : Nat) : (s.accept r cls rest).opened x = s.opened x := rfl

@[simp, grind =] theorem accept_conn (rest : List Fd) (x : Fd) : (s.accept r cls rest).conn x = s.conn x := rfl

@[grind =] theorem connect_opened (x : Nat) :
    (s.connect r p cls).opened x = if x = r then s.opened r + 1 else s.opened x := by
  simp [State.connect, update_apply]

theorem connect_conn (x : Fd) :
    (s.connect r p cls).conn x = if x = ⟨r, s.opened r⟩ then ⟨p, cls, none, none⟩ else s.conn x := by
  simp [State.connect, update_apply]

theorem connect_queue (x : Nat × Nat) :
    (s.connect r p cls).queue x = if x = (p, cls) then s.queue (p, cls) ++ [⟨r, s.opened r⟩] else s.queue x := by
  simp [State.connect, update_apply]

@[simp, grind =] theorem connect_stage (x : Nat) : (s.connect r p cls).stage x = s.stage x := rfl

@[simp, grind =] theorem connect_peer (x : Nat × Nat × Nat) : (s.connect r p cls).peer x = s.peer x := rfl

end Updates

end FlashGordon.Fabric
