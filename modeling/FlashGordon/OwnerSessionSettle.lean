import FlashGordon.OwnerSession

/-! When a failed PREPARE leaves the fleet settled. The coordinator stops at the first failure, with replies
outstanding, and its RESTORE starts over on the same channels; a reply is read only if one of the two loops
gets to it. -/

namespace FlashGordon.OwnerSession

open List

def Peer.reaches (operation : Operation) (peer : Peer) : Bool := (peer.reachable operation).isOk

/-- The worker takes the request and its reply gets out. -/
def Peer.replies (operation : Operation) (session : UInt64) (slot : UInt8) (peer : Peer) : Bool :=
  peer.running && peer.owner.available && peer.sessionId != 0 && peer.sessionId == session &&
    (ownerOperation operation peer.device peer.owner slot).1.isOk && peer.replySent operation

section Serve

variable {operation : Operation} {session : UInt64} {slot : UInt8} {peer : Peer}

theorem serve_cases (operation : Operation) (session : UInt64) (slot : UInt8) (peer : Peer) :
    peer.replies operation session slot = true ∧
        (ownerOperation operation peer.device peer.owner slot).1 = .ok () ∧
        peer.serve operation session slot =
          { peer with
            owner := (ownerOperation operation peer.device peer.owner slot).2
            frames := peer.frames ++ [.reply operation (peer.intact operation)] } ∨
      peer.replies operation session slot = false ∧
        (peer.serve operation session slot).running = false ∧
        (peer.serve operation session slot).frames = peer.frames := by
  unfold Peer.replies Peer.serve
  cases hrunning : peer.running with
  | false => exact .inr ⟨rfl, by simpa using hrunning, by simp⟩
  | true =>
    by_cases hvalid : (!peer.owner.available || peer.sessionId = 0 || peer.sessionId ≠ session) = true
    · right
      rw [if_neg (by decide), if_pos hvalid]
      refine ⟨?_, rfl, rfl⟩
      simp only [Bool.or_eq_true, Bool.not_eq_true', decide_eq_true_eq, ne_eq] at hvalid
      rcases hvalid with (havailable | hzero) | hsession
      · simp [havailable]
      · simp [hzero]
      · simp [hsession]
    · rw [if_neg (by decide), if_neg hvalid]
      simp only [Bool.or_eq_true, Bool.not_eq_true', decide_eq_true_eq, ne_eq, not_or, not_not,
        Bool.not_eq_false] at hvalid
      obtain ⟨⟨havailable, hzero⟩, hsession⟩ := hvalid
      rcases hdone : ownerOperation operation peer.device peer.owner slot with ⟨err | done, owner⟩
      · right
        exact ⟨by simp [Except.isOk, Except.toBool], rfl, rfl⟩
      · dsimp only
        cases hsent : peer.replySent operation with
        | true =>
          left
          refine ⟨?_, rfl, by rw [if_pos rfl]⟩
          rw [hsession] at hzero ⊢
          simp [havailable, hzero, Except.isOk, Except.toBool]
        | false =>
          right
          rw [if_neg (by decide)]
          exact ⟨by simp, rfl, rfl⟩

theorem serve_running : (peer.serve operation session slot).running = peer.replies operation session slot := by
  rcases serve_cases operation session slot peer with ⟨hreplies, -, hserve⟩ | ⟨hreplies, hrunning, -⟩
  · have hrunning : peer.running = true := by
      unfold Peer.replies at hreplies
      simp only [Bool.and_eq_true] at hreplies
      exact hreplies.1.1.1.1.1
    rw [hserve, hreplies]
    exact hrunning
  · rw [hreplies, hrunning]

theorem serve_frames : (peer.serve operation session slot).frames =
    peer.frames ++
      if peer.replies operation session slot then [.reply operation (peer.intact operation)] else [] := by
  rcases serve_cases operation session slot peer with ⟨hreplies, -, hserve⟩ | ⟨hreplies, -, hframes⟩
  · rw [hserve, hreplies]
    rfl
  · rw [hframes, hreplies]
    exact (append_nil _).symm

theorem serve_intact : (peer.serve operation session slot).intact = peer.intact := by
  unfold Peer.serve
  split
  · rfl
  split
  · rfl
  split
  · rfl
  · split <;> rfl

theorem serve_reachable : (peer.serve operation session slot).reachable = peer.reachable := by
  unfold Peer.serve
  split
  · rfl
  split
  · rfl
  split
  · rfl
  · split <;> rfl

theorem serve_restore_released (h : (peer.serve .restore session slot).running = true) :
    (peer.serve .restore session slot).owner.checkpointValid slot.toNat = false := by
  rw [serve_running] at h
  rcases serve_cases .restore session slot peer with ⟨-, hok, hserve⟩ | ⟨hreplies, -⟩
  · rw [hserve]
    show (depthbOwnerRestore peer.device peer.owner slot).2.checkpointValid slot.toNat = false
    have hok' : (depthbOwnerRestore peer.device peer.owner slot).1 = .ok () := hok
    unfold depthbOwnerRestore at hok' ⊢
    split at hok'
    · cases hok'
    next hslot =>
      rw [if_neg hslot]
      exact Function.update_self ..
  · rw [hreplies] at h
    cases h

end Serve

/-! ## The loops, peer by peer -/

def reached (operation : Operation) (peers : List Peer) (i : Nat) : Bool :=
  (peers.take (i + 1)).all (Peer.reaches operation)

theorem sendAll_getElem? (operation : Operation) (session : UInt64) (slot : UInt8) (peers : List Peer) (i : Nat) :
    (sendAll operation session slot peers).1[i]? =
      peers[i]?.map fun peer =>
        if reached operation peers i then peer.serve operation session slot else peer := by
  induction peers generalizing i with
  | nil => rfl
  | cons peer rest ih =>
    rw [sendAll]
    cases hreach : peer.reachable operation with
    | error err =>
      have hnot : reached operation (peer :: rest) i = false := by
        simp [reached, Peer.reaches, hreach, Except.isOk, Except.toBool]
      simp [hnot]
    | ok _ =>
      have hreaches : peer.reaches operation = true := by
        rw [Peer.reaches, hreach]
        rfl
      cases i with
      | zero => simp [reached, hreaches]
      | succ i =>
        have hsame : reached operation (peer :: rest) (i + 1) = reached operation rest i := by
          simp [reached, hreaches]
        simp only [List.getElem?_cons_succ, ih i, hsame]

theorem sendAll_status (operation : Operation) (session : UInt64) (slot : UInt8) (peers : List Peer) :
    (sendAll operation session slot peers).2.isOk = peers.all (Peer.reaches operation) := by
  induction peers with
  | nil => rfl
  | cons peer rest ih =>
    rw [sendAll, all_cons, Peer.reaches]
    cases hreach : peer.reachable operation with
    | error err => rfl
    | ok _ =>
      rw [← ih]
      rfl

def Peer.passes (operation : Operation) (peer : Peer) : Bool :=
  peer.frames.head? == some (.reply operation true)

def Peer.read (peer : Peer) : Peer := { peer with frames := peer.frames.tail }

theorem receiveAll_spec (operation : Operation) (rank : Nat) (peers : List Peer)
    (hwait : ∀ peer ∈ peers, peer.frames = [] → peer.running = false) :
    ∃ after status, receiveAll operation rank peers = some (after, status) ∧
      (∀ i, after[i]? = peers[i]?.map fun peer =>
        if (peers.take i).all (Peer.passes operation) then peer.read else peer) ∧
      status.isOk = peers.all (Peer.passes operation) := by
  induction peers generalizing rank with
  | nil => exact ⟨[], .ok (), rfl, fun i => rfl, rfl⟩
  | cons peer rest ih =>
    have hrest : ∀ other ∈ rest, other.frames = [] → other.running = false :=
      (forall_mem_cons.mp hwait).2
    -- the loop stops here: this peer is read, the others are not
    have hstop : peer.passes operation = false → ∀ i,
        (peer.read :: rest)[i]? = (peer :: rest)[i]?.map fun other =>
          if ((peer :: rest).take i).all (Peer.passes operation) then other.read else other := by
      intro hfails i
      cases i with
      | zero => simp
      | succ i => simp [hfails]
    rw [receiveAll]
    cases hframes : peer.frames with
    | nil =>
      have hfails : peer.passes operation = false := by
        rw [Peer.passes, hframes]
        rfl
      have hread : peer.read = peer := by
        rw [Peer.read, hframes]
        cases peer
        simpa using hframes.symm
      have hstopped := hwait peer mem_cons_self hframes
      rw [hstopped]
      refine ⟨_, _, rfl, fun i => ?_, ?_⟩
      · rw [← hstop hfails i, hread]
      · simp [hfails, Except.isOk, Except.toBool]
    | cons frame frames =>
      have hread : peer.read = { peer with frames := frames } := by
        rw [Peer.read, hframes]
        rfl
      dsimp only
      by_cases hpass : frame = .reply operation true
      · have hpasses : peer.passes operation = true := by
          rw [Peer.passes, hframes, hpass]
          exact beq_self_eq_true _
        obtain ⟨after, status, hreceived, hafter, hstatus⟩ := ih (rank + 1) hrest
        rw [if_pos hpass, hreceived]
        refine ⟨_, _, rfl, fun i => ?_, ?_⟩
        · cases i with
          | zero => simp [hread]
          | succ i => simp [hpasses, hafter i]
        · rw [all_cons, hpasses, Bool.true_and]
          exact hstatus
      · have hfails : peer.passes operation = false := by
          rw [Peer.passes, hframes]
          simpa using hpass
        rw [if_neg hpass]
        refine ⟨_, _, rfl, fun i => ?_, ?_⟩
        · rw [← hstop hfails i, hread]
        · simp [hfails, Except.isOk, Except.toBool]

theorem sendAll_eq_map {operation : Operation} {session : UInt64} {slot : UInt8} {peers : List Peer}
    (h : peers.all (Peer.reaches operation) = true) :
    (sendAll operation session slot peers).1 = peers.map (Peer.serve operation session slot) := by
  apply ext_getElem?
  intro i
  have hreached : reached operation peers i = true :=
    all_eq_true.mpr fun peer hpeer => all_eq_true.mp h peer (mem_of_mem_take hpeer)
  rw [sendAll_getElem?, List.getElem?_map, hreached]
  rfl

/-- The peers below this one all answer, so that the reply loop comes to read it. -/
def reads (operation : Operation) (session : UInt64) (slot : UInt8) (peers : List Peer) (i : Nat) : Bool :=
  peers.all (Peer.reaches operation) &&
    (peers.take i).all fun peer => (peer.serve operation session slot).passes operation

theorem exchange_spec (operation : Operation) (slot : UInt8) (fleet : Fleet) :
    ∃ status after, exchange operation slot fleet = some (status, { fleet with peers := after }) ∧
      ∀ i, after[i]? = fleet.peers[i]?.map fun peer =>
        let sent := if reached operation fleet.peers i then peer.serve operation fleet.sessionId slot else peer
        if reads operation fleet.sessionId slot fleet.peers i then sent.read else sent := by
  have hstatus := sendAll_status operation fleet.sessionId slot fleet.peers
  unfold exchange
  rcases hsend : sendAll operation fleet.sessionId slot fleet.peers with ⟨peers, err | done⟩
  · -- a request did not get out: nothing is read
    rw [hsend] at hstatus
    have hnone : fleet.peers.all (Peer.reaches operation) = false := hstatus.symm
    refine ⟨_, _, rfl, fun i => ?_⟩
    have hpeers := sendAll_getElem? operation fleet.sessionId slot fleet.peers i
    rw [hsend] at hpeers
    simp only [hpeers, reads, hnone, Bool.false_and, Bool.false_eq_true, if_false]
  · rw [hsend] at hstatus
    have hall : fleet.peers.all (Peer.reaches operation) = true := hstatus.symm
    have hpeers : peers = fleet.peers.map (Peer.serve operation fleet.sessionId slot) := by
      rw [← sendAll_eq_map hall, hsend]
    have hwait : ∀ peer ∈ peers, peer.frames = [] → peer.running = false := by
      intro peer hpeer hframes
      rw [hpeers] at hpeer
      obtain ⟨before, -, rfl⟩ := mem_map.mp hpeer
      rw [serve_frames] at hframes
      rw [serve_running]
      by_contra hreplies
      rw [if_pos (Bool.eq_true_of_not_eq_false hreplies)] at hframes
      exact append_ne_nil_of_right_ne_nil _ (cons_ne_nil _ _) hframes
    obtain ⟨after, status, hreceived, hafter, -⟩ := receiveAll_spec operation 1 peers hwait
    refine ⟨status, after, ?_, fun i => ?_⟩
    · dsimp only
      rw [hreceived]
      rfl
    · have hreached : reached operation fleet.peers i = true :=
        all_eq_true.mpr fun peer hpeer => all_eq_true.mp hall peer (mem_of_mem_take hpeer)
      rw [hafter i, hpeers, List.getElem?_map, Option.map_map, ← map_take, all_map]
      simp only [reads, hall, hreached, Bool.true_and, if_true]
      rfl

/-! ## Which replies are sent and which are read -/

section Channels

variable (session : UInt64) (slot : UInt8) (peers : List Peer)

def sendsPrepared (i : Nat) (peer : Peer) : Bool :=
  reached .prepare peers i && peer.replies .prepare session slot

/-- PREPARE is answered at once and properly, nothing stale standing before the reply. -/
def answersPrepare (peer : Peer) : Bool :=
  peer.frames.isEmpty && peer.replies .prepare session slot && peer.intact .prepare

/-- PREPARE's loop comes to read this peer: every request got out, and every lower peer answers. -/
def readsPrepared (i : Nat) : Bool :=
  peers.all (Peer.reaches .prepare) && (peers.take i).all (answersPrepare session slot)

def prepared (i : Nat) (peer : Peer) : Peer :=
  if reached .prepare peers i then peer.serve .prepare session slot else peer

/-- `restores` says that rank 0's own restore lets the rollback go on to the peers. -/
def sendsRestored (restores : Bool) (i : Nat) (peer : Peer) : Bool :=
  restores && reached .restore peers i && (prepared session slot peers i peer).replies .restore session slot

def answersRestore (restores : Bool) (i : Nat) (peer : Peer) : Bool :=
  sendsRestored session slot peers restores i peer && peer.intact .restore &&
    decide (peer.frames.length + (sendsPrepared session slot peers i peer).toNat ≤
      (readsPrepared session slot peers i).toNat)

/-- RESTORE's loop comes to read this peer. -/
def readsRestored (restores : Bool) (i : Nat) : Bool :=
  restores && peers.all (Peer.reaches .restore) &&
    (List.range i).all fun j => peers[j]?.all (answersRestore session slot peers restores j)

/-- Every running peer with a checkpoint is sent RESTORE, and on every channel that carries a reply there are
no more frames than reads. -/
structure Drains (restores : Bool) : Prop where
  released : ∀ i peer, peers[i]? = some peer → (prepared session slot peers i peer).running = true →
    (prepared session slot peers i peer).owner.checkpointValid slot.toNat = true →
    restores = true ∧ reached .restore peers i = true
  read : ∀ i peer, peers[i]? = some peer →
    sendsPrepared session slot peers i peer = true ∨ sendsRestored session slot peers restores i peer = true →
    peer.frames.length + (sendsPrepared session slot peers i peer).toNat +
        (sendsRestored session slot peers restores i peer).toNat ≤
      (readsPrepared session slot peers i).toNat + (readsRestored session slot peers restores i).toNat

end Channels

/-- Rank 0 takes a PREPARE as far as its own state slot. -/
def Fleet.allocates (slot : UInt8) (fleet : Fleet) : Bool :=
  fleet.owner.available && fleet.sessionId != 0 && fleet.generation + 1 != 0 &&
    decide (slot.toNat < ownerSessionMax) && decide (slot.toNat < fleet.owner.sessionCount)

/-- Rank 0's own prepare succeeds. -/
def Fleet.prepares (slot : UInt8) (fleet : Fleet) : Bool :=
  fleet.allocates slot && (fleet.device.setActive .prepare).isOk && fleet.device.openState.isOk &&
    fleet.device.snapshot.isOk

/-- Rank 0's own restore succeeds. -/
def Fleet.restores (fleet : Fleet) : Bool :=
  fleet.device.rollback.isOk && (fleet.device.setActive .restore).isOk

/-- The PREPARE stops before it sends anything and no rank had a checkpoint that stays, or its rollback gets
everywhere it must and every reply is read. -/
def Recoverable (slot : UInt8) (fleet : Fleet) : Prop :=
  if fleet.prepares slot then
    fleet.generation + 2 ≠ 0 ∧ Drains fleet.sessionId slot fleet.aged.peers fleet.restores
  else
    (fleet.owner.checkpointValid slot.toNat = true → fleet.allocates slot = true) ∧
      ∀ peer ∈ fleet.peers, peer.running = true → peer.owner.checkpointValid slot.toNat = false

/-! ## What is left on a channel -/

def replyFrames (operation : Operation) (sent intact : Bool) : List Arrived :=
  if sent then [.reply operation intact] else []

@[simp] theorem length_replyFrames (operation : Operation) (sent intact : Bool) :
    (replyFrames operation sent intact).length = sent.toNat := by
  cases sent <;> rfl

theorem mem_replyFrames {operation : Operation} {sent intact : Bool} {frame : Arrived}
    (h : frame ∈ replyFrames operation sent intact) : ∃ operation intact, frame = .reply operation intact := by
  cases sent with
  | false => cases h
  | true => exact ⟨operation, intact, mem_singleton.mp h⟩

theorem reply_left_iff {n reads : Nat} {replies : List Arrived}
    (hreplies : ∀ frame ∈ replies, ∃ operation intact, frame = .reply operation intact) :
    (∃ operation intact, Arrived.reply operation intact ∈ (List.replicate n Arrived.earlier ++ replies).drop reads) ↔
      replies ≠ [] ∧ reads < n + replies.length := by
  rw [drop_append, length_replicate]
  constructor
  · rintro ⟨operation, intact, hmem⟩
    rcases mem_append.mp hmem with hearlier | hreply
    · have hfalse := eq_of_mem_replicate (mem_of_mem_drop hearlier)
      cases hfalse
    · refine ⟨ne_nil_of_mem (mem_of_mem_drop hreply), ?_⟩
      have hlength := length_pos_of_mem hreply
      rw [length_drop] at hlength
      omega
  · rintro ⟨hsome, hlt⟩
    have hpositive := length_pos_iff.mpr hsome
    have hne : replies.drop (reads - n) ≠ [] := by
      rw [Ne, drop_eq_nil_iff]
      omega
    obtain ⟨frame, hframe⟩ := exists_mem_of_ne_nil _ hne
    obtain ⟨operation, intact, rfl⟩ := hreplies frame (mem_of_mem_drop hframe)
    exact ⟨operation, intact, mem_append_right _ hframe⟩

theorem read_frames (peer : Peer) (again : Bool) :
    (if again then peer.read else peer).frames = peer.frames.drop again.toNat := by
  cases again with
  | false => rfl
  | true => exact (drop_one (l := peer.frames)).symm

section Channels

variable {session : UInt64} {slot : UInt8} {peers : List Peer}

theorem prepared_frames (i : Nat) (peer : Peer) :
    (prepared session slot peers i peer).frames =
      peer.frames ++ replyFrames .prepare (sendsPrepared session slot peers i peer) (peer.intact .prepare) := by
  unfold prepared sendsPrepared
  cases reached .prepare peers i with
  | false => simp [replyFrames]
  | true =>
    rw [if_pos rfl, serve_frames, Bool.true_and]
    rfl

theorem serve_passes_prepare {peer : Peer} (haged : ∀ frame ∈ peer.frames, frame = .earlier) :
    (peer.serve .prepare session slot).passes .prepare = answersPrepare session slot peer := by
  rw [Peer.passes, serve_frames, answersPrepare]
  cases hframes : peer.frames with
  | nil =>
    cases hreplies : peer.replies .prepare session slot <;> cases hintact : peer.intact .prepare <;> simp
  | cons frame rest =>
    have hearlier := haged frame (hframes ▸ mem_cons_self)
    subst hearlier
    simp

theorem reads_prepare (haged : ∀ peer ∈ peers, ∀ frame ∈ peer.frames, frame = .earlier) (i : Nat) :
    reads .prepare session slot peers i = readsPrepared session slot peers i := by
  unfold reads readsPrepared
  congr 1
  apply Bool.eq_iff_iff.mpr
  simp only [all_eq_true]
  constructor <;> intro h peer hpeer
  · rw [← serve_passes_prepare (haged peer (mem_of_mem_take hpeer))]
    exact h peer hpeer
  · rw [serve_passes_prepare (haged peer (mem_of_mem_take hpeer))]
    exact h peer hpeer

variable (session slot peers) in
def afterPrepare (i : Nat) (peer : Peer) : Peer :=
  if readsPrepared session slot peers i then (prepared session slot peers i peer).read
  else prepared session slot peers i peer

variable (session slot peers) in
def afterRollBack (restores : Bool) (i : Nat) (peer : Peer) : Peer :=
  let sent :=
    if restores && reached .restore peers i then
      (afterPrepare session slot peers i peer).serve .restore session slot
    else afterPrepare session slot peers i peer
  if readsRestored session slot peers restores i then sent.read else sent

theorem afterPrepare_frames (i : Nat) (peer : Peer) :
    (afterPrepare session slot peers i peer).frames =
      (peer.frames ++ replyFrames .prepare (sendsPrepared session slot peers i peer)
        (peer.intact .prepare)).drop (readsPrepared session slot peers i).toNat := by
  rw [afterPrepare, read_frames, prepared_frames]

theorem afterPrepare_replies (i : Nat) (peer : Peer) :
    (afterPrepare session slot peers i peer).replies .restore session slot =
      (prepared session slot peers i peer).replies .restore session slot := by
  unfold afterPrepare
  split <;> rfl

theorem afterPrepare_running (i : Nat) (peer : Peer) :
    (afterPrepare session slot peers i peer).running = (prepared session slot peers i peer).running ∧
      (afterPrepare session slot peers i peer).owner = (prepared session slot peers i peer).owner := by
  unfold afterPrepare
  split <;> exact ⟨rfl, rfl⟩

theorem afterPrepare_intact (i : Nat) (peer : Peer) :
    (afterPrepare session slot peers i peer).intact = peer.intact := by
  unfold afterPrepare prepared
  split <;> split <;> first | exact serve_intact | rfl

theorem afterPrepare_reachable (i : Nat) (peer : Peer) :
    (afterPrepare session slot peers i peer).reachable = peer.reachable := by
  unfold afterPrepare prepared
  split <;> split <;> first | exact serve_reachable | rfl

theorem sendsRestored_eq_false {restores : Bool} {i : Nat} {peer : Peer}
    (hreads : readsPrepared session slot peers i = true)
    (hsends : sendsPrepared session slot peers i peer = false) :
    sendsRestored session slot peers restores i peer = false := by
  have hreached : reached .prepare peers i = true := by
    unfold readsPrepared at hreads
    rw [Bool.and_eq_true] at hreads
    exact all_eq_true.mpr fun other hother =>
      all_eq_true.mp hreads.1 other (mem_of_mem_take hother)
  have hreplies : peer.replies .prepare session slot = false := by
    rw [sendsPrepared, hreached, Bool.true_and] at hsends
    exact hsends
  have hrunning : (prepared session slot peers i peer).running = false := by
    rw [prepared, if_pos hreached, serve_running, hreplies]
  rw [sendsRestored, Peer.replies, hrunning]
  simp

theorem afterRollBack_frames (restores : Bool) (i : Nat) (peer : Peer) :
    (afterRollBack session slot peers restores i peer).frames =
      ((afterPrepare session slot peers i peer).frames ++
        replyFrames .restore (sendsRestored session slot peers restores i peer)
          (peer.intact .restore)).drop (readsRestored session slot peers restores i).toNat := by
  rw [afterRollBack, read_frames]
  congr 1
  unfold sendsRestored
  cases hreached : restores && reached .restore peers i with
  | false => simp [replyFrames]
  | true =>
    rw [if_pos rfl, serve_frames, afterPrepare_replies, afterPrepare_intact, Bool.true_and]
    rfl

theorem afterRollBack_unread {restores : Bool} {i : Nat} {peer : Peer}
    (haged : ∀ frame ∈ peer.frames, frame = .earlier) :
    (∃ operation intact,
      .reply operation intact ∈ (afterRollBack session slot peers restores i peer).frames) ↔
      (sendsPrepared session slot peers i peer = true ∨
        sendsRestored session slot peers restores i peer = true) ∧
      (readsPrepared session slot peers i).toNat + (readsRestored session slot peers restores i).toNat <
        peer.frames.length + (sendsPrepared session slot peers i peer).toNat +
          (sendsRestored session slot peers restores i peer).toNat := by
  have hframes : peer.frames = List.replicate peer.frames.length .earlier :=
    eq_replicate_iff.mpr ⟨rfl, haged⟩
  rw [afterRollBack_frames, afterPrepare_frames]
  set sentP := sendsPrepared session slot peers i peer with hsentP
  set sentR := sendsRestored session slot peers restores i peer with hsentR
  set readP := readsPrepared session slot peers i with hreadP
  set readR := readsRestored session slot peers restores i
  by_cases hwasted : peer.frames.length + sentP.toNat < readP.toNat
  · -- the first read found a closed channel
    have hzero : peer.frames = [] ∧ sentP = false ∧ readP = true := by
      cases hP : sentP <;> cases hR : readP <;> rw [hP, hR] at hwasted <;>
        simp only [Bool.toNat_true, Bool.toNat_false] at hwasted
      · omega
      · exact ⟨eq_nil_of_length_eq_zero (by omega), rfl, rfl⟩
      · omega
      · omega
    obtain ⟨hnil, hP, hR⟩ := hzero
    have hsilent : sentR = false := sendsRestored_eq_false hR hP
    simp [hnil, hP, hsilent, replyFrames]
  · have hdrop : readP.toNat ≤ (peer.frames ++ replyFrames .prepare sentP (peer.intact .prepare)).length := by
      rw [length_append, length_replyFrames]
      omega
    rw [← drop_append_of_le_length hdrop, drop_drop, append_assoc, hframes, reply_left_iff]
    · rw [length_append, length_replyFrames, length_replyFrames, length_replicate, ← Nat.add_assoc]
      refine and_congr_left fun _ => ?_
      cases sentP <;> cases sentR <;> simp [replyFrames]
    · intro frame hframe
      rcases mem_append.mp hframe with hfirst | hsecond
      · exact mem_replyFrames hfirst
      · exact mem_replyFrames hsecond

theorem afterRollBack_holds {restores : Bool} {i : Nat} {peer : Peer} :
    (afterRollBack session slot peers restores i peer).running = true ∧
        (afterRollBack session slot peers restores i peer).owner.checkpointValid slot.toNat = true ↔
      ((prepared session slot peers i peer).running = true ∧
        (prepared session slot peers i peer).owner.checkpointValid slot.toNat = true) ∧
      (restores && reached .restore peers i) = false := by
  obtain ⟨hrunning, howner⟩ := @afterPrepare_running session slot peers i peer
  have hread : ∀ (sent : Peer) (again : Bool),
      (if again then sent.read else sent).running = sent.running ∧
        (if again then sent.read else sent).owner = sent.owner := by
    intro sent again
    cases again <;> exact ⟨rfl, rfl⟩
  unfold afterRollBack
  rw [(hread _ _).1, (hread _ _).2]
  cases hreached : restores && reached .restore peers i with
  | false =>
    rw [if_neg (by decide), hrunning, howner]
    simp
  | true =>
    rw [if_pos rfl]
    constructor
    · rintro ⟨hstill, hvalid⟩
      rw [serve_restore_released hstill] at hvalid
      cases hvalid
    · rintro ⟨-, hfalse⟩
      cases hfalse

end Channels

section Rollback

variable {session : UInt64} {slot : UInt8} {peers after : List Peer}

theorem reached_eq {f : Nat → Peer → Peer} (hafter : ∀ i, after[i]? = peers[i]?.map (f i))
    (hf : ∀ i peer, (f i peer).reachable = peer.reachable) (operation : Operation) (i : Nat) :
    reached operation after i = reached operation peers i ∧
      after.all (Peer.reaches operation) = peers.all (Peer.reaches operation) := by
  have hmap : after.map Peer.reachable = peers.map Peer.reachable := by
    apply ext_getElem?
    intro j
    rw [List.getElem?_map, List.getElem?_map, hafter j, Option.map_map]
    cases peers[j]? with
    | none => rfl
    | some peer => exact congrArg some (hf j peer)
  have hall : ∀ (list : List Peer), list.all (Peer.reaches operation) =
      (list.map Peer.reachable).all fun reachable => (reachable operation).isOk := by
    intro list
    rw [all_map]
    rfl
  constructor
  · rw [reached, reached, hall, hall, map_take, map_take, hmap]
  · rw [hall, hall, hmap]

theorem serve_passes_restore {j : Nat} {peer : Peer} (haged : ∀ frame ∈ peer.frames, frame = .earlier)
    (hreached : reached .restore peers j = true) :
    ((afterPrepare session slot peers j peer).serve .restore session slot).passes .restore =
      answersRestore session slot peers true j peer := by
  have hsends : sendsRestored session slot peers true j peer =
      (prepared session slot peers j peer).replies .restore session slot := by
    rw [sendsRestored, hreached, Bool.true_and, Bool.true_and]
  rw [Peer.passes, serve_frames, afterPrepare_replies, afterPrepare_intact, afterPrepare_frames, answersRestore, hsends]
  set before := peer.frames ++ replyFrames .prepare (sendsPrepared session slot peers j peer)
    (peer.intact .prepare) with hbefore
  have hlength : before.length = peer.frames.length + (sendsPrepared session slot peers j peer).toNat := by
    rw [hbefore, length_append, length_replyFrames]
  rw [← hlength]
  cases hleft : before.drop (readsPrepared session slot peers j).toNat with
  | nil =>
    have hle : before.length ≤ (readsPrepared session slot peers j).toNat := drop_eq_nil_iff.mp hleft
    rw [nil_append, decide_eq_true hle, Bool.and_true]
    cases (prepared session slot peers j peer).replies .restore session slot <;>
      cases peer.intact .restore <;> rfl
  | cons frame rest =>
    have hle : ¬before.length ≤ (readsPrepared session slot peers j).toNat := by
      rw [← drop_eq_nil_iff, hleft]
      exact cons_ne_nil _ _
    have hne : frame ≠ .reply .restore true := by
      have hmem : frame ∈ before := mem_of_mem_drop (hleft ▸ mem_cons_self)
      rcases mem_append.mp hmem with hstale | hprepared
      · rw [haged frame hstale]
        exact fun heq => nomatch heq
      · unfold replyFrames at hprepared
        split at hprepared
        · rw [mem_singleton.mp hprepared]
          exact fun heq => nomatch heq
        · cases hprepared
    rw [decide_eq_false hle, Bool.and_false, cons_append, List.head?_cons]
    exact beq_eq_false_iff_ne.mpr fun heq => hne (Option.some.inj heq)

theorem mem_take_iff {peer : Peer} {i : Nat} : peer ∈ peers.take i ↔ ∃ j < i, peers[j]? = some peer := by
  rw [mem_iff_getElem?]
  constructor
  · rintro ⟨j, hj⟩
    rw [List.getElem?_take] at hj
    split at hj
    next hlt => exact ⟨j, hlt, hj⟩
    next => cases hj
  · rintro ⟨j, hlt, hj⟩
    exact ⟨j, by rw [List.getElem?_take, if_pos hlt, hj]⟩

theorem reads_restore (haged : ∀ peer ∈ peers, ∀ frame ∈ peer.frames, frame = .earlier)
    (hafter : ∀ i, after[i]? = peers[i]?.map (afterPrepare session slot peers i)) (i : Nat) :
    reads .restore session slot after i = readsRestored session slot peers true i := by
  have hall := (reached_eq hafter afterPrepare_reachable .restore i).2
  rw [reads, readsRestored, hall, Bool.true_and]
  cases hreaches : peers.all (Peer.reaches .restore) with
  | false => rfl
  | true =>
    have hreached : ∀ j, reached .restore peers j = true := fun j =>
      all_eq_true.mpr fun peer hpeer => all_eq_true.mp hreaches peer (mem_of_mem_take hpeer)
    rw [Bool.true_and, Bool.true_and]
    apply Bool.eq_iff_iff.mpr
    simp only [all_eq_true, mem_range, Option.all_eq_true]
    constructor
    · intro h j hj peer hpeer
      have hmem : afterPrepare session slot peers j peer ∈ after.take i := by
        apply mem_take_iff.mpr
        exact ⟨j, hj, by rw [hafter j, hpeer]; rfl⟩
      rw [← serve_passes_restore (haged peer (mem_of_getElem? hpeer)) (hreached j)]
      exact h _ hmem
    · intro h peer hmem
      obtain ⟨j, hj, hpeer⟩ := mem_take_iff.mp hmem
      rw [hafter j] at hpeer
      obtain ⟨before, hbefore, rfl⟩ := Option.map_eq_some_iff.mp hpeer
      rw [serve_passes_restore (haged before (mem_of_getElem? hbefore)) (hreached j)]
      exact h j hj before hbefore

theorem exchange_restore {fleet : Fleet} (hsession : fleet.sessionId = session) (hpeers : fleet.peers = after)
    (haged : ∀ peer ∈ peers, ∀ frame ∈ peer.frames, frame = .earlier)
    (hafter : ∀ i, after[i]? = peers[i]?.map (afterPrepare session slot peers i)) :
    ∃ status rolled, exchange .restore slot fleet = some (status, { fleet with peers := rolled }) ∧
      ∀ i, rolled[i]? = peers[i]?.map (afterRollBack session slot peers true i) := by
  obtain ⟨status, rolled, hexchange, hrolled⟩ := exchange_spec .restore slot fleet
  refine ⟨status, rolled, hexchange, fun i => ?_⟩
  rw [hrolled i, hpeers, hsession, hafter i, Option.map_map,
    (reached_eq hafter afterPrepare_reachable .restore i).1, reads_restore haged hafter i]
  rfl

end Rollback

section Own

variable {slot : UInt8} {fleet : Fleet}

theorem isOk_iff {result : Except Error Unit} : result.isOk = true ↔ result = .ok () := by
  cases result <;> simp [Except.isOk, Except.toBool]

theorem beginTransaction_prepare (h : fleet.prepares slot = true) :
    ∃ owner, beginTransaction .prepare slot fleet =
        (.ok (), { fleet with generation := fleet.generation + 1, owner := owner }) ∧
      owner.available = true ∧ owner.checkpointValid slot.toNat = true := by
  simp only [Fleet.prepares, Fleet.allocates, Bool.and_eq_true, bne_iff_ne, decide_eq_true_eq, isOk_iff] at h
  obtain ⟨⟨⟨⟨⟨⟨⟨havailable, hsession⟩, hgeneration⟩, hslot⟩, hcount⟩, hactive⟩, hopen⟩, hsnapshot⟩ := h
  have hallocated : ¬(!fleet.owner.available || ownerSessionMax ≤ slot.toNat ||
      fleet.owner.sessionCount ≤ slot.toNat) = true := by
    simp [havailable, hslot, hcount]
  refine ⟨{ fleet.owner with
    checkpointValid :=
      Function.update (Function.update fleet.owner.checkpointValid slot.toNat false) slot.toNat true },
    ?_, havailable, Function.update_self ..⟩
  unfold beginTransaction ownerOperation depthbOwnerPrepare
  rw [if_neg (by simp [havailable])]
  dsimp only
  rw [if_neg (not_or.mpr ⟨hsession, hgeneration⟩), if_neg hallocated, hactive, hopen, hsnapshot]
  rfl

theorem beginTransaction_refused (h : fleet.prepares slot = false) :
    ∃ err after, beginTransaction .prepare slot fleet = (.error err, after) ∧
      after.transport = fleet.transport ∧ after.peers = fleet.peers ∧
      (after.owner.checkpointValid slot.toNat = true ↔
        fleet.owner.checkpointValid slot.toNat = true ∧ fleet.allocates slot = false) := by
  unfold beginTransaction
  by_cases havailable : fleet.owner.available = true
  · rw [if_neg (by simp [havailable])]
    by_cases hnonce : fleet.sessionId = 0 ∨ fleet.generation + 1 = 0
    · rw [if_pos hnonce]
      refine ⟨_, _, rfl, rfl, rfl, ?_⟩
      have hrefused : fleet.allocates slot = false := by
        rcases hnonce with hsession | hgeneration
        · simp [Fleet.allocates, hsession]
        · simp [Fleet.allocates, hgeneration]
      simp [hrefused]
    · rw [if_neg hnonce]
      rw [not_or] at hnonce
      unfold ownerOperation depthbOwnerPrepare
      by_cases hallocated : (!fleet.owner.available || ownerSessionMax ≤ slot.toNat ||
          fleet.owner.sessionCount ≤ slot.toNat) = true
      · dsimp only
        rw [if_pos hallocated]
        refine ⟨_, _, rfl, rfl, rfl, ?_⟩
        have hrefused : fleet.allocates slot = false := by
          simp only [havailable, Bool.not_true, Bool.false_or, Bool.or_eq_true, decide_eq_true_eq] at hallocated
          rcases hallocated with hmax | hcount
          · simp [Fleet.allocates, Nat.not_lt.mpr hmax]
          · simp [Fleet.allocates, Nat.not_lt.mpr hcount]
        simp [hrefused]
      · dsimp only
        rw [if_neg hallocated]
        have hallocates : fleet.allocates slot = true := by
          simp only [havailable, Bool.not_true, Bool.false_or, Bool.or_eq_true, decide_eq_true_eq, not_or,
            Nat.not_le] at hallocated
          simp [Fleet.allocates, havailable, hnonce.1, hnonce.2, hallocated.1, hallocated.2]
        have hreleased : (fleet.owner.release slot).checkpointValid slot.toNat = false := Function.update_self ..
        -- one of the three device calls fails, the checkpoint is gone already
        have hfails : fleet.device.setActive .prepare = .ok () → fleet.device.openState = .ok () →
            fleet.device.snapshot ≠ .ok () := by
          intro hactive hopen hsnapshot
          rw [Fleet.prepares, hallocates, hactive, hopen, hsnapshot] at h
          cases h
        rcases hactive : fleet.device.setActive .prepare with err | done
        · exact ⟨_, _, rfl, rfl, rfl, by simp [hallocates, hreleased]⟩
        rcases hopen : fleet.device.openState with err | opened
        · exact ⟨_, _, rfl, rfl, rfl, by simp [hallocates, hreleased]⟩
        rcases hsnapshot : fleet.device.snapshot with err | taken
        · exact ⟨_, _, rfl, rfl, rfl, by simp [hallocates, hreleased]⟩
        · exact absurd hsnapshot (hfails hactive hopen)
  · have hunavailable : fleet.owner.available = false := Bool.eq_false_of_not_eq_true havailable
    rw [if_pos (by simp [hunavailable])]
    refine ⟨_, _, rfl, rfl, rfl, ?_⟩
    simp [Fleet.allocates, hunavailable]

theorem beginTransaction_restore (havailable : fleet.owner.available = true) (hsession : fleet.sessionId ≠ 0)
    (hslot : slot.toNat < ownerSessionMax) (hvalid : fleet.owner.checkpointValid slot.toNat = true) :
    ∃ status after, beginTransaction .restore slot fleet = (status, after) ∧
      after = { fleet with generation := fleet.generation + 1, owner := after.owner } ∧
      (fleet.generation + 1 = 0 → status ≠ .ok () ∧ after.owner.checkpointValid slot.toNat = true) ∧
      (fleet.generation + 1 ≠ 0 → (status = .ok () ↔ fleet.restores = true) ∧
        after.owner.checkpointValid slot.toNat = false) := by
  unfold beginTransaction
  rw [if_neg (by simp [havailable])]
  by_cases hgeneration : fleet.generation + 1 = 0
  · rw [if_pos (.inr hgeneration)]
    exact ⟨_, _, rfl, rfl, fun _ => ⟨by simp, hvalid⟩, fun hne => absurd hgeneration hne⟩
  · have hallowed : ¬(!fleet.owner.available || ownerSessionMax ≤ slot.toNat) = true := by
      simp [havailable, hslot]
    rw [if_neg (not_or.mpr ⟨hsession, hgeneration⟩)]
    unfold ownerOperation depthbOwnerRestore
    dsimp only
    rw [if_neg hallowed, if_pos hvalid]
    refine ⟨_, _, rfl, rfl, fun heq => absurd heq hgeneration, fun _ => ⟨?_, Function.update_self ..⟩⟩
    unfold Fleet.restores
    rw [Bool.and_eq_true, isOk_iff, isOk_iff]
    rcases fleet.device.rollback with err | done
    · simp
    · simp

end Own

/-! ## When the fleet is settled -/

section Settled

variable {slot : UInt8} {fleet : Fleet} {session : UInt64} {peers : List Peer}

theorem clean_iff_drains {restores : Bool} (howner : fleet.owner.checkpointValid slot.toNat = false)
    (haged : ∀ peer ∈ peers, ∀ frame ∈ peer.frames, frame = .earlier)
    (hpeers : ∀ i, fleet.peers[i]? = peers[i]?.map (afterRollBack session slot peers restores i)) :
    ¬fleet.Holds slot ∧ ¬fleet.Unread ↔ Drains session slot peers restores := by
  have hget : ∀ {i peer}, peers[i]? = some peer →
      fleet.peers[i]? = some (afterRollBack session slot peers restores i peer) := by
    intro i peer hpeer
    rw [hpeers i, hpeer]
    rfl
  have hfrom : ∀ peer ∈ fleet.peers, ∃ i before, peers[i]? = some before ∧
      afterRollBack session slot peers restores i before = peer := by
    intro peer hpeer
    obtain ⟨i, hi⟩ := mem_iff_getElem?.mp hpeer
    rw [hpeers i] at hi
    obtain ⟨before, hbefore, rfl⟩ := Option.map_eq_some_iff.mp hi
    exact ⟨i, before, hbefore, rfl⟩
  constructor
  · rintro ⟨hholds, hunread⟩
    refine ⟨fun i peer hpeer hrunning hvalid => ?_, fun i peer hpeer hsends => ?_⟩
    · by_contra hnot
      apply hholds
      have hreached : (restores && reached .restore peers i) = false := by
        rw [← Bool.not_eq_true, Bool.and_eq_true]
        exact hnot
      exact .inr ⟨_, mem_of_getElem? (hget hpeer), afterRollBack_holds.mpr ⟨⟨hrunning, hvalid⟩, hreached⟩⟩
    · by_contra hlt
      apply hunread
      refine ⟨_, mem_of_getElem? (hget hpeer), ?_⟩
      exact (afterRollBack_unread (haged peer (mem_of_getElem? hpeer))).mpr ⟨hsends, Nat.not_le.mp hlt⟩
  · intro hdrains
    constructor
    · rintro (hown | ⟨peer, hpeer, hstill⟩)
      · rw [howner] at hown
        cases hown
      · obtain ⟨i, before, hbefore, rfl⟩ := hfrom peer hpeer
        obtain ⟨⟨hrunning, hvalid⟩, hreached⟩ := afterRollBack_holds.mp hstill
        obtain ⟨hrestores, hreach⟩ := hdrains.released i before hbefore hrunning hvalid
        rw [hrestores, hreach] at hreached
        cases hreached
    · rintro ⟨peer, hpeer, hreply⟩
      obtain ⟨i, before, hbefore, rfl⟩ := hfrom peer hpeer
      obtain ⟨hsends, hlt⟩ := (afterRollBack_unread (haged before (mem_of_getElem? hbefore))).mp hreply
      exact Nat.not_le.mpr hlt (hdrains.read i before hbefore hsends)

theorem aged_frames (fleet : Fleet) : ∀ peer ∈ fleet.aged.peers, ∀ frame ∈ peer.frames, frame = .earlier := by
  intro peer hpeer frame hframe
  obtain ⟨before, -, rfl⟩ := mem_map.mp hpeer
  obtain ⟨stale, -, rfl⟩ := mem_map.mp hframe
  rfl

theorem refused_settled_iff {after : Fleet} (hprepares : fleet.prepares slot = false)
    (htransport : after.transport = fleet.transport) (hpeers : after.peers = fleet.aged.peers)
    (howner : after.owner.checkpointValid slot.toNat = true ↔
      fleet.owner.checkpointValid slot.toNat = true ∧ fleet.allocates slot = false) :
    Settled slot after ↔ fleet.transport = .poisoned ∨ Recoverable slot fleet := by
  have hunread : ¬after.Unread := by
    rintro ⟨peer, hpeer, operation, intact, hreply⟩
    rw [hpeers] at hpeer
    cases aged_frames fleet peer hpeer _ hreply
  have hholds : (∃ peer ∈ after.peers, peer.running = true ∧ peer.owner.checkpointValid slot.toNat = true) ↔
      ∃ peer ∈ fleet.peers, peer.running = true ∧ peer.owner.checkpointValid slot.toNat = true := by
    rw [hpeers, Fleet.aged]
    simp only [mem_map, exists_exists_and_eq_and]
  have hvalid : (fleet.owner.checkpointValid slot.toNat = true → fleet.allocates slot = true) ↔
      ¬(fleet.owner.checkpointValid slot.toNat = true ∧ fleet.allocates slot = false) := by
    rw [not_and, Bool.not_eq_false]
  have hnone : (∀ peer ∈ fleet.peers, peer.running = true → peer.owner.checkpointValid slot.toNat = false) ↔
      ¬∃ peer ∈ fleet.peers, peer.running = true ∧ peer.owner.checkpointValid slot.toNat = true := by
    simp only [not_exists, not_and, Bool.not_eq_true]
  rw [Settled, Recoverable, hprepares, if_neg Bool.false_ne_true, htransport, Fleet.Holds, howner, hholds,
    not_or, hvalid, hnone, and_iff_left hunread]

theorem rollBack_settled {after : List Peer} {owner : Owner} (hprepares : fleet.prepares slot = true)
    (havailable : owner.available = true) (howner : owner.checkpointValid slot.toNat = true)
    (hafter : ∀ i, after[i]? =
      fleet.aged.peers[i]?.map (afterPrepare fleet.sessionId slot fleet.aged.peers i)) :
    ∃ rolled, rollBack slot { fleet.aged with
        generation := fleet.generation + 1, owner := owner, peers := after } = some rolled ∧
      (Settled slot rolled ↔ fleet.transport = .poisoned ∨ Recoverable slot fleet) := by
  have hgiven := hprepares
  simp only [Fleet.prepares, Fleet.allocates, Bool.and_eq_true, bne_iff_ne, decide_eq_true_eq] at hgiven
  obtain ⟨⟨⟨⟨⟨⟨⟨-, hsession⟩, -⟩, hslot⟩, -⟩, -⟩, -⟩, -⟩ := hgiven
  obtain ⟨status, begun, hbegin, heq, hround, hgoes⟩ := @beginTransaction_restore slot
    { fleet.aged with generation := fleet.generation + 1, owner := owner, peers := after } havailable hsession
    hslot howner
  have hnext : fleet.generation + 1 + 1 = fleet.generation + 2 := by
    rw [UInt32.add_assoc]
    rfl
  rw [rollBack, hbegin]
  by_cases hgeneration : fleet.generation + 2 = 0
  · -- the generation comes round to zero: rank 0 keeps its checkpoint
    obtain ⟨hfails, hkeeps⟩ := hround (hnext.trans hgeneration)
    have hholds : begun.Holds slot := .inl hkeeps
    rcases status with err | done
    · refine ⟨begun, rfl, ?_⟩
      rw [Settled, Recoverable, hprepares, if_pos rfl, heq]
      constructor
      · rintro (hpoisoned | ⟨hclean, -⟩)
        · exact .inl hpoisoned
        · exact absurd (heq ▸ hholds) hclean
      · rintro (hpoisoned | ⟨hne, -⟩)
        · exact .inl hpoisoned
        · exact absurd hgeneration hne
    · exact absurd rfl hfails
  · obtain ⟨hstatus, hreleased⟩ := hgoes fun hzero => hgeneration (hnext.symm.trans hzero)
    have hsettled : ∀ rolled : Fleet, rolled.transport = fleet.transport →
        rolled.owner.checkpointValid slot.toNat = false →
        (∀ i, rolled.peers[i]? = fleet.aged.peers[i]?.map
          (afterRollBack fleet.sessionId slot fleet.aged.peers fleet.restores i)) →
        (Settled slot rolled ↔ fleet.transport = .poisoned ∨ Recoverable slot fleet) := by
      intro rolled htransport hreleased hpeers
      rw [Settled, Recoverable, hprepares, if_pos rfl, htransport,
        clean_iff_drains hreleased (aged_frames fleet) hpeers, and_iff_right hgeneration]
    rcases status with err | done
    · -- rank 0's own restore fails: nothing goes out
      have hrestores : fleet.restores = false := by
        rw [← Bool.not_eq_true]
        exact fun htrue => nomatch hstatus.mpr htrue
      refine ⟨begun, rfl, hsettled begun (by rw [heq]; rfl) hreleased fun i => ?_⟩
      rw [heq, hrestores]
      exact hafter i
    · obtain ⟨status, rolled, hexchange, hrolled⟩ := @exchange_restore fleet.sessionId slot fleet.aged.peers after
        begun (by rw [heq]; rfl) (by rw [heq]) (aged_frames fleet) hafter
      dsimp only
      rw [hexchange]
      refine ⟨_, rfl, hsettled _ (by rw [heq]; rfl) hreleased fun i => ?_⟩
      have hrestores : fleet.restores = true := hstatus.mp rfl
      rw [hrestores]
      exact hrolled i

theorem exchanged_ok {operation : Operation} {slot : UInt8} {fleet begun after : Fleet}
    (hbegin : beginTransaction operation slot fleet.aged = (.ok (), begun))
    (hexchange : exchange operation slot begun = some (.ok (), after)) :
    coordinatorOwnerTransaction operation slot fleet = some (.ok (), after) := by
  rw [coordinatorOwnerTransaction, hbegin]
  dsimp only
  rw [hexchange]
  rfl

theorem prepare_failed {slot : UInt8} {fleet begun after : Fleet} {err : Error}
    (hbegin : beginTransaction .prepare slot fleet.aged = (.ok (), begun))
    (hexchange : exchange .prepare slot begun = some (.error err, after)) :
    coordinatorOwnerTransaction .prepare slot fleet = (rollBack slot after).map fun fleet => (.error err, fleet) := by
  rw [coordinatorOwnerTransaction, hbegin]
  dsimp only
  rw [hexchange]
  rfl

/-- `coordinator_owner_transaction` always comes back from a PREPARE, and when it comes back with an error
the fleet is settled exactly when the transport was poisoned before or the failure is a recoverable one. -/
theorem prepare_settled_iff (slot : UInt8) (fleet : Fleet) :
    ∃ status after, coordinatorOwnerTransaction .prepare slot fleet = some (status, after) ∧
      ∀ err, status = .error err →
        (Settled slot after ↔ fleet.transport = .poisoned ∨ Recoverable slot fleet) := by
  cases hprepares : fleet.prepares slot with
  | false =>
    obtain ⟨err, after, hbegin, htransport, hpeers, howner⟩ :=
      @beginTransaction_refused slot fleet.aged hprepares
    refine ⟨.error err, after, ?_, fun _ _ => refused_settled_iff hprepares htransport hpeers howner⟩
    rw [coordinatorOwnerTransaction, hbegin]
  | true =>
    obtain ⟨owner, hbegin, havailable, howner⟩ := @beginTransaction_prepare slot fleet.aged hprepares
    obtain ⟨status, after, hexchange, hafter⟩ := exchange_spec .prepare slot
      { fleet.aged with generation := fleet.generation + 1, owner := owner }
    have hpeers : ∀ i, after[i]? = fleet.aged.peers[i]?.map (afterPrepare fleet.sessionId slot fleet.aged.peers i) := by
      intro i
      rw [hafter i]
      simp only [reads_prepare (aged_frames fleet)]
      rfl
    rcases status with err | done
    · obtain ⟨rolled, hrolled, hsettled⟩ := rollBack_settled hprepares havailable howner hpeers
      rw [prepare_failed hbegin hexchange, hrolled]
      exact ⟨_, _, rfl, fun _ _ => hsettled⟩
    · exact ⟨_, _, exchanged_ok hbegin hexchange, fun err herr => by cases herr⟩

/-- A worker whose device takes every operation but, when told so, the snapshot. -/
def steadyPeer (snapshot : Except Error Unit) : Peer where
  running := true
  sessionId := 7
  owner := ⟨true, 2, fun _ => false⟩
  device := ⟨fun _ => .ok (), .ok (), snapshot, .ok ()⟩
  reachable := fun _ => .ok ()
  replySent := fun _ => true
  intact := fun _ => true
  frames := []

/-- A fresh fleet in which one worker, rank 3, cannot take its snapshot. -/
def failingFleet : Fleet where
  owner := ⟨true, 2, fun _ => false⟩
  device := ⟨fun _ => .ok (), .ok (), .ok (), .ok ()⟩
  sessionId := 7
  generation := 0
  transport := .ready
  peers :=
    [steadyPeer (.ok ()), steadyPeer (.ok ()), steadyPeer (.error ⟨.oom, "snapshot"⟩), steadyPeer (.ok ()),
      steadyPeer (.ok ()), steadyPeer (.ok ()), steadyPeer (.ok ())]

/-- Its PREPARE comes back with an error and a transport that is ready, and ranks 4 to 7 have each left two
replies unread. -/
theorem failingFleet_unsettled :
    ∃ err after, coordinatorOwnerTransaction .prepare 0 failingFleet = some (.error err, after) ∧
      after.transport = .ready ∧
      after.peers.map Peer.frames =
        [[], [], [], [.reply .prepare true, .reply .restore true], [.reply .prepare true, .reply .restore true],
          [.reply .prepare true, .reply .restore true], [.reply .prepare true, .reply .restore true]] ∧
      ¬Settled 0 after := by
  refine ⟨_, _, rfl, rfl, rfl, ?_⟩
  rintro (hpoisoned | ⟨-, hread⟩)
  · cases hpoisoned
  · exact hread ⟨_, mem_of_getElem? (i := 3) rfl, .prepare, true, mem_cons_self⟩

end Settled

end FlashGordon.OwnerSession
