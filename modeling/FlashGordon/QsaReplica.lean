import FlashGordon.Ring
import FlashGordon.Runs
import FlashGordon.Status

/-! The replica queue of the QSA page appends (`qsa_replica.c`). A producer reserves payload buffers, fills
them and commits; a sender thread takes the batch at the head, sends it with the lock released and then
takes the lock again to retire it. A step is one critical section of either thread, a write of the producer
into a buffer it holds, or the send itself. The model keeps beside the queue what the two threads hold and
two records: the batches committed and the batches handed to the transport. -/

namespace FlashGordon.QsaReplica

/-- `FG_QSA_REPLICA_DEPTH`. -/
def replicaDepth : Nat := 64

structure Item where
  owner : UInt32
  batchId : UInt32
  bytes : UInt32
  sessionId : UInt64
  deriving DecidableEq

/-- `fg_qsa_replica`. A slot's payload is `none` until the slot is first reserved; `status` holds the
error beside its code. -/
structure Replica (Bytes : Type) where
  items : Nat → Item
  payloads : Nat → Option Bytes
  status : Except Error Unit
  head : Nat
  count : Nat
  reserved : Nat
  payloadBytes : UInt32
  payloadLive : Nat

variable {Bytes : Type}

def Replica.slot (replica : Replica Bytes) (i : Nat) : Nat :=
  Ring.slot replicaDepth replica.head (replica.count + i)

/-- The buffer loop of a reservation; `malloc` says what the `i`-th allocation gives, `none` when it fails. -/
def reserveBuffers (malloc : Nat → Option Bytes) : List Nat → Replica Bytes →
    Except Error (List Nat) × Replica Bytes
  | [], replica => (.ok [], replica)
  | i :: rest, replica =>
    match replica.payloads (replica.slot i), malloc i with
    | none, none =>
      (.error ⟨.oom, "allocate bounded QSA replica slot"⟩, { replica with reserved := 0 })
    | none, some bytes =>
      let allocated : Replica Bytes :=
        { replica with
          payloads := Function.update replica.payloads (replica.slot i) (some bytes)
          payloadLive := replica.payloadLive + 1 }
      ((reserveBuffers malloc rest allocated).1.map (replica.slot i :: ·),
        (reserveBuffers malloc rest allocated).2)
    | some _, _ =>
      ((reserveBuffers malloc rest replica).1.map (replica.slot i :: ·),
        (reserveBuffers malloc rest replica).2)

/-- `fg_qsa_replica_reserve`. -/
def reserve (replica : Replica Bytes) (count : Nat) (malloc : Nat → Option Bytes) :
    Except Error (List Nat) × Replica Bytes :=
  if count = 0 ∨ replicaDepth < count then
    (.error ⟨.argument, "invalid QSA replica reservation"⟩, replica)
  else
    match replica.status with
    | .error err => (.error err, replica)
    | .ok () =>
      if replica.reserved ≠ 0 ∨ replicaDepth < replica.count + count then
        (.error ⟨.limit, "QSA replica queue is backpressured; session must reset"⟩, replica)
      else reserveBuffers malloc (List.range count) { replica with reserved := count }

def Item.Invalid (payloadBytes : UInt32) (item : Item) : Prop :=
  item.owner = 0 ∨ rankCount ≤ item.owner.toNat ∨ item.sessionId = 0 ∨ item.bytes = 0 ∨
    payloadBytes < item.bytes

instance (payloadBytes : UInt32) (item : Item) : Decidable (item.Invalid payloadBytes) :=
  inferInstanceAs (Decidable (_ ∨ _ ∨ _ ∨ _ ∨ _))

/-- The item loop of a commit: each valid item goes to its slot before the next one is looked at. -/
def commitItems : Nat → List Item → Replica Bytes → Except Error Unit × Replica Bytes
  | _, [], replica => (.ok (), replica)
  | i, item :: rest, replica =>
    if item.Invalid replica.payloadBytes then
      (.error ⟨.argument, "invalid QSA replica item"⟩, { replica with reserved := 0 })
    else
      commitItems (i + 1) rest { replica with items := Function.update replica.items (replica.slot i) item }

/-- `fg_qsa_replica_commit`. -/
def commit (replica : Replica Bytes) (items : List Item) : Except Error Unit × Replica Bytes :=
  if items.length = 0 ∨ replicaDepth < items.length then
    (.error ⟨.argument, "invalid QSA replica commit"⟩, replica)
  else
    match replica.status with
    | .error err => (.error err, { replica with reserved := 0 })
    | .ok () =>
      if replica.reserved ≠ items.length then
        (.error ⟨.mismatch, "QSA replica reservation mismatch"⟩, replica)
      else
        match commitItems 0 items replica with
        | (.error err, written) => (.error err, written)
        | (.ok (), written) =>
          (.ok (), { written with count := written.count + items.length, reserved := 0 })

/-- `fg_qsa_replica_cancel`. -/
def cancel (replica : Replica Bytes) : Replica Bytes := { replica with reserved := 0 }

/-- `fg_qsa_replica_drain`; `none` while it waits. -/
def drain (replica : Replica Bytes) : Option (Except Error Unit) :=
  match replica.status with
  | .error err => some (.error err)
  | .ok () => if replica.count = 0 ∧ replica.reserved = 0 then some (.ok ()) else none

/-- What `replica_main` does with the lock once the send has returned. -/
def retire (replica : Replica Bytes) (outcome : Except Error Unit) : Replica Bytes :=
  match outcome with
  | .error err => { replica with status := .error err, count := 0 }
  | .ok () => { replica with head := (replica.head + 1) % replicaDepth, count := replica.count - 1 }

inductive Sender where
  | idle
  | sending (slot : Nat) (item : Item)
  | sent (outcome : Except Error Unit)

abbrev Batch (Bytes : Type) : Type := Item × Option Bytes

structure System (Bytes : Type) where
  replica : Replica Bytes
  /-- The slots whose buffers the producer has reserved and may write. -/
  buffers : List Nat
  sender : Sender
  committed : List (Batch Bytes)
  handed : List (Batch Bytes)

def initial (payloadBytes : UInt32) : System Bytes where
  replica :=
    { items := fun _ => ⟨0, 0, 0, 0⟩
      payloads := fun _ => none
      status := .ok ()
      head := 0
      count := 0
      reserved := 0
      payloadBytes := payloadBytes
      payloadLive := 0 }
  buffers := []
  sender := .idle
  committed := []
  handed := []

inductive Action (Bytes : Type) where
  | reserve (count : Nat) (malloc : Nat → Option Bytes)
  | fill (buffer : Nat) (bytes : Bytes)
  | commit (items : List Item)
  | cancel
  | drain
  | take
  | send (outcome : Except Error Unit)
  | retire

/-- The batches a commit puts behind the queue, read off the slots it filled. -/
def Replica.batch (replica : Replica Bytes) (slot : Nat) : Batch Bytes :=
  (replica.items slot, replica.payloads slot)

/-- One step of either thread; `none` where the thread cannot take it. -/
def step (system : System Bytes) : Action Bytes → Option (System Bytes)
  | .reserve count malloc =>
    match reserve system.replica count malloc with
    | (.ok buffers, replica) => some { system with replica := replica, buffers := buffers }
    | (.error _, replica) => some { system with replica := replica }
  | .fill buffer bytes =>
    if buffer ∈ system.buffers then
      some { system with
        replica :=
          { system.replica with
            payloads := Function.update system.replica.payloads buffer (some bytes) } }
    else none
  | .commit items =>
    match commit system.replica items with
    | (.ok (), replica) => some { system with
        replica := replica
        buffers := []
        committed := system.committed ++
          (List.range items.length).map fun i => replica.batch (system.replica.slot i) }
    -- the reservation, and the buffers with it, outlive a commit only when it fails on its arguments
    | (.error _, replica) => some { system with
        replica := replica
        buffers := if replica.reserved = 0 then [] else system.buffers }
  | .cancel => some { system with replica := cancel system.replica, buffers := [] }
  | .drain => (drain system.replica).map fun _ => system
  | .take =>
    match system.sender with
    | .idle =>
      if system.replica.count = 0 then none
      else some { system with
        sender := .sending system.replica.head (system.replica.items system.replica.head) }
    | _ => none
  | .send outcome =>
    match system.sender with
    | .sending slot item => some { system with
        sender := .sent outcome
        handed := system.handed ++ [(item, system.replica.payloads slot)] }
    | _ => none
  | .retire =>
    match system.sender with
    | .sent outcome => some { system with replica := retire system.replica outcome, sender := .idle }
    | _ => none

/-! ## The queue behind the slots -/

def Replica.queue (replica : Replica Bytes) : List (Batch Bytes) :=
  Ring.contents replicaDepth replica.head replica.count replica.batch

/-- The two queues agree in everything but the slots beyond the last element and the reservation. -/
structure SameQueue (replica after : Replica Bytes) : Prop where
  head : after.head = replica.head
  count : after.count = replica.count
  status : after.status = replica.status
  queue : after.queue = replica.queue

theorem SameQueue.refl (replica : Replica Bytes) : SameQueue replica replica := ⟨rfl, rfl, rfl, rfl⟩

theorem SameQueue.trans {first second third : Replica Bytes} (h : SameQueue first second)
    (h' : SameQueue second third) : SameQueue first third :=
  ⟨h'.head.trans h.head, h'.count.trans h.count, h'.status.trans h.status, h'.queue.trans h.queue⟩

variable {replica after : Replica Bytes}

theorem SameQueue.slot (h : SameQueue replica after) (i : Nat) : after.slot i = replica.slot i := by
  simp only [Replica.slot, h.head, h.count]

theorem queue_congr (hhead : after.head = replica.head) (hcount : after.count = replica.count)
    (h : ∀ i < replica.count, after.batch (Ring.slot replicaDepth replica.head i) =
      replica.batch (Ring.slot replicaDepth replica.head i)) : after.queue = replica.queue := by
  rw [Replica.queue, hhead, hcount]
  exact Ring.contents_congr h

variable {replica : Replica Bytes}

theorem Replica.slot_ne {i j : Nat} (hj : j < replica.count)
    (hi : replica.count + i < replicaDepth) : Ring.slot replicaDepth replica.head j ≠ replica.slot i :=
  Ring.slot_ne_of_free hj (Nat.le_add_right _ i) hi

variable {i : Nat}

theorem payload_sameQueue (hi : replica.count + i < replicaDepth) (payload : Option Bytes) (live : Nat) :
    SameQueue replica
      { replica with
        payloads := Function.update replica.payloads (replica.slot i) payload
        payloadLive := live } := by
  refine ⟨rfl, rfl, rfl, queue_congr rfl rfl ?_⟩
  intro j hj
  simp only [Replica.batch, Function.update_of_ne (Replica.slot_ne hj hi)]

theorem item_sameQueue (hi : replica.count + i < replicaDepth) (item : Item) :
    SameQueue replica { replica with items := Function.update replica.items (replica.slot i) item } := by
  refine ⟨rfl, rfl, rfl, queue_congr rfl rfl ?_⟩
  intro j hj
  simp only [Replica.batch, Function.update_of_ne (Replica.slot_ne hj hi)]

theorem reserveBuffers_spec (malloc : Nat → Option Bytes) {offsets : List Nat}
    (h : ∀ i ∈ offsets, replica.count + i < replicaDepth) :
    SameQueue replica (reserveBuffers malloc offsets replica).2 ∧
    (((reserveBuffers malloc offsets replica).1 = .ok (offsets.map replica.slot) ∧
        (reserveBuffers malloc offsets replica).2.reserved = replica.reserved) ∨
      ∃ err, (reserveBuffers malloc offsets replica).1 = .error err ∧
        (reserveBuffers malloc offsets replica).2.reserved = 0) := by
  induction offsets generalizing replica with
  | nil => exact ⟨.refl replica, .inl ⟨rfl, rfl⟩⟩
  | cons i rest ih =>
    have hi := h i List.mem_cons_self
    have hrest : ∀ j ∈ rest, replica.count + j < replicaDepth :=
      fun j hj => h j (List.mem_cons_of_mem i hj)
    simp only [reserveBuffers]
    split
    · exact ⟨⟨rfl, rfl, rfl, rfl⟩, .inr ⟨_, rfl, rfl⟩⟩
    next bytes _ _ =>
      have hsame := payload_sameQueue hi (some bytes) (replica.payloadLive + 1)
      obtain ⟨htail, hres | ⟨err, herr, hzero⟩⟩ := @ih { replica with
        payloads := Function.update replica.payloads (replica.slot i) (some bytes)
        payloadLive := replica.payloadLive + 1 } hrest
      · refine ⟨hsame.trans htail, .inl ⟨?_, hres.2⟩⟩
        rw [hres.1]
        rfl
      · refine ⟨hsame.trans htail, .inr ⟨err, ?_, hzero⟩⟩
        rw [herr]
        rfl
    · obtain ⟨htail, hres | ⟨err, herr, hzero⟩⟩ := ih hrest
      · refine ⟨htail, .inl ⟨?_, hres.2⟩⟩
        rw [hres.1]
        rfl
      · refine ⟨htail, .inr ⟨err, ?_, hzero⟩⟩
        rw [herr]
        rfl

theorem commitItems_spec {items : List Item} (h : replica.count + (i + items.length) ≤ replicaDepth) :
    SameQueue replica (commitItems i items replica).2 ∧
    (((commitItems i items replica).1 = .ok () ∧
        (commitItems i items replica).2.reserved = replica.reserved) ∨
      ∃ err, (commitItems i items replica).1 = .error err ∧ (commitItems i items replica).2.reserved = 0) := by
  induction items generalizing i replica with
  | nil => exact ⟨.refl replica, .inl ⟨rfl, rfl⟩⟩
  | cons item rest ih =>
    rw [List.length_cons] at h
    simp only [commitItems]
    split
    · exact ⟨⟨rfl, rfl, rfl, rfl⟩, .inr ⟨_, rfl, rfl⟩⟩
    · have hi : replica.count + i < replicaDepth := by omega
      have hrest : replica.count + (i + 1 + rest.length) ≤ replicaDepth := by omega
      obtain ⟨htail, hres⟩ :=
        @ih { replica with items := Function.update replica.items (replica.slot i) item } (i + 1) hrest
      exact ⟨(item_sameQueue hi item).trans htail, hres⟩

theorem reserve_cases (replica : Replica Bytes) (count : Nat) (malloc : Nat → Option Bytes) :
    (∃ err, reserve replica count malloc = (.error err, replica)) ∨
    ∃ after, SameQueue replica after ∧ replica.count + count ≤ replicaDepth ∧
      ((reserve replica count malloc = (.ok ((List.range count).map replica.slot), after) ∧
          after.reserved = count) ∨
        ∃ err, reserve replica count malloc = (.error err, after) ∧ after.reserved = 0 ∧
          replica.reserved = 0) := by
  unfold reserve
  split
  · exact .inl ⟨_, rfl⟩
  split
  · exact .inl ⟨_, rfl⟩
  split
  · exact .inl ⟨_, rfl⟩
  next hroom =>
    rw [not_or, not_not, not_lt] at hroom
    have hfree : ∀ i ∈ List.range count, replica.count + i < replicaDepth := by
      intro i hi
      have := List.mem_range.mp hi
      omega
    obtain ⟨hsame, hres⟩ := @reserveBuffers_spec _ { replica with reserved := count } malloc _ hfree
    refine .inr ⟨_, ⟨hsame.head, hsame.count, hsame.status, hsame.queue⟩, hroom.2, ?_⟩
    rcases hres with ⟨hok, hreserved⟩ | ⟨err, herr, hzero⟩
    · exact .inl ⟨Prod.ext hok rfl, hreserved⟩
    · exact .inr ⟨err, Prod.ext herr rfl, hzero, hroom.1⟩

theorem commit_cases (replica : Replica Bytes) (items : List Item)
    (h : replica.count + replica.reserved ≤ replicaDepth) :
    (∃ err, commit replica items = (.error err, replica)) ∨
    (∃ err after, commit replica items = (.error err, after) ∧ SameQueue replica after ∧
      after.reserved = 0) ∨
    ∃ written, SameQueue replica written ∧ replica.status = .ok () ∧ replica.reserved = items.length ∧
      commit replica items =
        (.ok (), { written with count := written.count + items.length, reserved := 0 }) := by
  unfold commit
  split
  · exact .inl ⟨_, rfl⟩
  split
  · exact .inr (.inl ⟨_, _, rfl, ⟨rfl, rfl, rfl, rfl⟩, rfl⟩)
  next hok =>
    split
    · exact .inl ⟨_, rfl⟩
    next hreserved =>
    rw [not_not] at hreserved
    have hroom : replica.count + (0 + items.length) ≤ replicaDepth := by omega
    obtain ⟨hsame, hres⟩ := commitItems_spec hroom
    split
    next err written hitems =>
      rw [hitems] at hsame hres
      rcases hres with ⟨hok, -⟩ | ⟨-, -, hzero⟩
      · cases hok
      · exact .inr (.inl ⟨err, written, rfl, hsame, hzero⟩)
    next written hitems =>
      rw [hitems] at hsame
      exact .inr (.inr ⟨written, hsame, hok, hreserved, rfl⟩)

/-! ## Runs of the two threads -/

def System.pending (system : System Bytes) : List (Batch Bytes) :=
  match system.sender with
  | .sent _ => system.replica.queue.tail
  | _ => system.replica.queue

def Sender.AtHead (replica : Replica Bytes) : Sender → Prop
  | .idle => True
  | .sending slot item => 0 < replica.count ∧ slot = replica.head ∧ item = replica.items replica.head
  | .sent _ => 0 < replica.count

/-- What holds between the steps: while no send has failed, the committed batches are those handed out
followed by those pending, and the producer holds the slots right behind the queue. -/
structure Sound (system : System Bytes) : Prop where
  head_lt : system.replica.head < replicaDepth
  room : system.replica.count + system.replica.reserved ≤ replicaDepth
  atHead : system.sender.AtHead system.replica
  buffers : system.replica.status = .ok () →
    system.buffers = (List.range system.replica.reserved).map system.replica.slot
  queued : system.replica.status = .ok () → system.committed = system.handed ++ system.pending
  failed : ∀ err, system.replica.status = .error err →
    system.sender = .idle ∧ system.replica.count = 0 ∧ system.handed <+: system.committed

theorem initial_sound (payloadBytes : UInt32) : Sound (initial payloadBytes : System Bytes) where
  head_lt := show 0 < 64 by decide
  room := show 0 ≤ 64 by decide
  atHead := trivial
  buffers _ := rfl
  queued _ := rfl
  failed _ h := by cases h

theorem Replica.queue_eq_cons (hhead : replica.head < replicaDepth) (hcount : 0 < replica.count) :
    replica.queue = replica.batch replica.head :: (retire replica (.ok ())).queue := by
  obtain ⟨count, hcount⟩ := Nat.exists_eq_add_one.mpr hcount
  rw [Replica.queue, hcount]
  show _ = _ :: Ring.contents _ _ (replica.count - 1) _
  rw [hcount, Ring.contents_succ hhead]
  rfl

theorem SameQueue.batch_head (h : SameQueue replica after)
    (hhead : replica.head < replicaDepth) (hcount : 0 < replica.count) :
    after.batch replica.head = replica.batch replica.head := by
  have hqueue := h.queue
  rw [Replica.queue_eq_cons hhead hcount, Replica.queue_eq_cons (h.head ▸ hhead) (h.count ▸ hcount), h.head] at hqueue
  exact (List.cons.inj hqueue).1

theorem Sender.AtHead.sameQueue {sender : Sender}
    (h : sender.AtHead replica) (hsame : SameQueue replica after) (hhead : replica.head < replicaDepth) :
    sender.AtHead after := by
  cases sender with
  | idle => trivial
  | sending slot item =>
    obtain ⟨hcount, hslot, hitem⟩ := h
    refine ⟨hsame.count ▸ hcount, hslot.trans hsame.head.symm, ?_⟩
    rw [hsame.head, hitem]
    exact (congrArg Prod.fst (hsame.batch_head hhead hcount)).symm
  | sent outcome => exact Nat.lt_of_lt_of_eq h hsame.count.symm

variable {system : System Bytes}

theorem Sound.replace (h : Sound system) {after : Replica Bytes} {buffers : List Nat}
    (hsame : SameQueue system.replica after) (hroom : after.count + after.reserved ≤ replicaDepth)
    (hbuffers : system.replica.status = .ok () → buffers = (List.range after.reserved).map after.slot) :
    Sound { system with replica := after, buffers := buffers } where
  head_lt := hsame.head.symm ▸ h.head_lt
  room := hroom
  atHead := h.atHead.sameQueue hsame h.head_lt
  buffers hok := hbuffers (hsame.status.symm.trans hok)
  queued hok := by
    have hqueued := h.queued (hsame.status.symm.trans hok)
    simp only [System.pending, hsame.queue] at hqueued ⊢
    exact hqueued
  failed err herr := by
    obtain ⟨hidle, hcount, hhanded⟩ := h.failed err (hsame.status.symm.trans herr)
    exact ⟨hidle, hsame.count.trans hcount, hhanded⟩

variable {system after : System Bytes}

theorem Sound.reserve (h : Sound system) {count : Nat}
    {malloc : Nat → Option Bytes} (hstep : step system (.reserve count malloc) = some after) :
    Sound after := by
  simp only [step] at hstep
  rcases reserve_cases system.replica count malloc with
    ⟨err, heq⟩ | ⟨replica, hsame, hroom, ⟨heq, hreserved⟩ | ⟨err, heq, hreserved, hnone⟩⟩
  · rw [heq] at hstep
    exact Option.some.inj hstep ▸ h
  · rw [heq] at hstep
    obtain rfl := Option.some.inj hstep
    refine h.replace hsame (by rwa [hsame.count, hreserved]) fun _ => ?_
    rw [hreserved]
    exact List.map_congr_left fun i _ => (hsame.slot i).symm
  · rw [heq] at hstep
    obtain rfl := Option.some.inj hstep
    refine h.replace hsame ?_ fun hok => ?_
    · rw [hsame.count, hreserved]
      omega
    · rw [h.buffers hok, hreserved, hnone]
      rfl

variable {buffer : Nat}

theorem Sound.exists_of_mem_buffers (h : Sound system)
    (hok : system.replica.status = .ok ()) (hmem : buffer ∈ system.buffers) :
    ∃ i, system.replica.count + i < replicaDepth ∧ buffer = system.replica.slot i := by
  rw [h.buffers hok, List.mem_map] at hmem
  obtain ⟨i, hi, rfl⟩ := hmem
  have hlt := List.mem_range.mp hi
  have hroom := h.room
  exact ⟨i, by omega, rfl⟩

theorem Sound.fill (h : Sound system) {bytes : Bytes}
    (hstep : step system (.fill buffer bytes) = some after) : Sound after := by
  simp only [step, Option.ite_none_right_eq_some, Option.some.injEq] at hstep
  obtain ⟨hmem, rfl⟩ := hstep
  have hsame : SameQueue system.replica
      { system.replica with payloads := Function.update system.replica.payloads buffer (some bytes) } := by
    cases hstatus : system.replica.status with
    | ok _ =>
      obtain ⟨i, hi, rfl⟩ := h.exists_of_mem_buffers hstatus hmem
      exact payload_sameQueue hi (some bytes) system.replica.payloadLive
    | error err =>
      -- the queue is empty after a failure, so no cell of it can be hit
      have hcount := (h.failed err hstatus).2.1
      refine ⟨rfl, rfl, rfl, queue_congr rfl rfl fun i hi => ?_⟩
      omega
  exact h.replace hsame h.room h.buffers

theorem queue_append {replica written : Replica Bytes} (hsame : SameQueue replica written) (more : Nat) :
    ({ written with count := written.count + more, reserved := 0 } : Replica Bytes).queue =
      replica.queue ++ (List.range more).map fun i => written.batch (replica.slot i) := by
  rw [← hsame.queue]
  show Ring.contents _ _ _ _ = _
  rw [Ring.contents_add]
  congr 1
  apply List.map_congr_left
  intro i _
  exact congrArg written.batch (hsame.slot i)

theorem Sound.pending_append (h : Sound system) {after : Replica Bytes}
    {more : List (Batch Bytes)} (hqueue : after.queue = system.replica.queue ++ more) :
    ({ system with replica := after } : System Bytes).pending = system.pending ++ more := by
  have hat := h.atHead
  cases hsender : system.sender with
  | idle | sending slot item =>
    simp only [System.pending, hsender]
    exact hqueue
  | sent outcome =>
    rw [hsender] at hat
    have hne : system.replica.queue ≠ [] := by
      rw [Replica.queue_eq_cons h.head_lt hat]
      exact List.cons_ne_nil _ _
    simp only [System.pending, hsender]
    rw [hqueue, List.tail_append_of_ne_nil hne]

theorem Sender.AtHead.grow {sender : Sender} (h : sender.AtHead replica)
    (more : Nat) : sender.AtHead { replica with count := replica.count + more, reserved := 0 } := by
  cases sender with
  | idle => trivial
  | sending slot item => exact ⟨Nat.lt_of_lt_of_le h.1 (Nat.le_add_right _ _), h.2⟩
  | sent outcome => exact Nat.lt_of_lt_of_le h (Nat.le_add_right _ _)

section

variable (h : Sound system)
include h

theorem Sound.commit {items : List Item}
    (hstep : step system (.commit items) = some after) : Sound after := by
  simp only [step] at hstep
  rcases commit_cases system.replica items h.room with
    ⟨err, heq⟩ | ⟨err, replica, heq, hsame, hzero⟩ | ⟨written, hsame, hok, hreserved, heq⟩
  · rw [heq] at hstep
    obtain rfl := Option.some.inj hstep
    refine h.replace (.refl _) h.room fun hok => ?_
    split
    next hzero => rw [hzero]; rfl
    · exact h.buffers hok
  · rw [heq] at hstep
    obtain rfl := Option.some.inj hstep
    refine h.replace hsame ?_ fun _ => ?_
    · have := h.room
      rw [hsame.count, hzero]
      omega
    · rw [if_pos hzero, hzero]
      rfl
  · rw [heq] at hstep
    obtain rfl := Option.some.inj hstep
    have hroom := h.room
    have hstatus := hsame.status.trans hok
    refine ⟨hsame.head.symm ▸ h.head_lt, ?_, (h.atHead.sameQueue hsame h.head_lt).grow _,
      fun _ => rfl, fun _ => ?_, fun err herr => ?_⟩
    · show written.count + items.length + 0 ≤ replicaDepth
      rw [hsame.count]
      omega
    · have hpending := h.pending_append (queue_append hsame items.length)
      show system.committed ++ _ = system.handed ++ System.pending _
      rw [h.queued hok, List.append_assoc]
      exact congrArg (system.handed ++ ·) hpending.symm
    · cases hstatus.symm.trans herr

theorem Sound.take (hstep : step system .take = some after) : Sound after := by
  simp only [step] at hstep
  split at hstep
  next hidle =>
    simp only [Option.ite_none_left_eq_some, Option.some.injEq] at hstep
    obtain ⟨hcount, rfl⟩ := hstep
    refine ⟨h.head_lt, h.room, ⟨Nat.pos_of_ne_zero hcount, rfl, rfl⟩, h.buffers, fun hok => ?_, ?_⟩
    · have hqueued := h.queued hok
      simpa only [System.pending, hidle] using hqueued
    · intro err herr
      exact absurd (h.failed err herr).2.1 hcount
  · cases hstep

theorem Sound.status_ok (hbusy : system.sender ≠ .idle) : system.replica.status = .ok () := by
  cases hstatus : system.replica.status with
  | ok _ => rfl
  | error err => exact absurd (h.failed err hstatus).1 hbusy

theorem Sound.send {outcome : Except Error Unit}
    (hstep : step system (.send outcome) = some after) : Sound after := by
  simp only [step] at hstep
  split at hstep
  next slot item hsending =>
    obtain rfl := Option.some.inj hstep
    have hok := h.status_ok (by simp [hsending])
    have hat := h.atHead
    rw [hsending] at hat
    obtain ⟨hcount, rfl, rfl⟩ := hat
    refine ⟨h.head_lt, h.room, hcount, h.buffers, fun _ => ?_, fun err herr => ?_⟩
    · have hqueued := h.queued hok
      simp only [System.pending, hsending] at hqueued ⊢
      rw [hqueued, Replica.queue_eq_cons h.head_lt hcount, List.append_assoc]
      rfl
    · cases hok.symm.trans herr
  · cases hstep

theorem Sound.retire (hstep : step system .retire = some after) : Sound after := by
  simp only [step] at hstep
  split at hstep
  next outcome hsent =>
    obtain rfl := Option.some.inj hstep
    have hok := h.status_ok (by simp [hsent])
    have hat := h.atHead
    have hqueued := h.queued hok
    have hroom := h.room
    rw [hsent] at hat
    simp only [System.pending, hsent] at hqueued
    rw [Replica.queue_eq_cons h.head_lt hat, List.tail_cons] at hqueued
    cases outcome with
    | ok _ =>
      refine ⟨Nat.mod_lt _ (by decide), ?_, trivial, fun _ => ?_, fun _ => hqueued, fun err herr => ?_⟩
      · show system.replica.count - 1 + system.replica.reserved ≤ replicaDepth
        omega
      · -- the head moves on and the count goes down, so the slots behind the queue stay the same
        rw [h.buffers hok]
        apply List.map_congr_left
        intro i _
        show Ring.slot _ _ _ = Ring.slot _ ((system.replica.head + 1) % replicaDepth) _
        rw [Ring.slot_advance]
        congr 1
        show system.replica.count + i = system.replica.count - 1 + i + 1
        have : 0 < system.replica.count := hat
        omega
      · cases hok.symm.trans herr
    | error err =>
      refine ⟨h.head_lt, ?_, trivial, fun hok => ?_, fun hok => ?_, fun _ _ => ⟨rfl, rfl, ?_⟩⟩
      · show 0 + system.replica.reserved ≤ replicaDepth
        omega
      · cases hok
      · cases hok
      · rw [hqueued]
        exact List.prefix_append _ _
  · cases hstep

end

variable {action : Action Bytes}

theorem step_sound (h : Sound system) (hstep : step system action = some after) : Sound after := by
  cases action with
  | reserve count malloc => exact h.reserve hstep
  | fill buffer bytes => exact h.fill hstep
  | commit items => exact h.commit hstep
  | cancel =>
    obtain rfl := Option.some.inj hstep
    exact h.replace ⟨rfl, rfl, rfl, rfl⟩ (Nat.le_trans (Nat.le_add_right _ _) h.room) fun _ => rfl
  | drain =>
    simp only [step, Option.map_eq_some_iff] at hstep
    obtain ⟨-, -, rfl⟩ := hstep
    exact h
  | take => exact h.take hstep
  | send outcome => exact h.send hstep
  | retire => exact h.retire hstep

/-- A send has failed: the sender is on its way to say so, or has said it. -/
def System.Broken (system : System Bytes) : Prop :=
  (∃ err, system.replica.status = .error err) ∨ ∃ err, system.sender = .sent (.error err)

theorem step_producer (h : Sound system) (hstep : step system action = some after) (htake : action ≠ .take)
    (hsend : ∀ outcome, action ≠ .send outcome) (hretire : action ≠ .retire) :
    after.sender = system.sender ∧ after.handed = system.handed ∧
      after.replica.status = system.replica.status := by
  cases action with
  | reserve count malloc =>
    simp only [step] at hstep
    rcases reserve_cases system.replica count malloc with
      ⟨_, heq⟩ | ⟨replica, hsame, -, ⟨heq, -⟩ | ⟨_, heq, -⟩⟩ <;>
      rw [heq] at hstep <;> obtain rfl := Option.some.inj hstep
    · exact ⟨rfl, rfl, rfl⟩
    · exact ⟨rfl, rfl, hsame.status⟩
    · exact ⟨rfl, rfl, hsame.status⟩
  | fill buffer bytes =>
    simp only [step, Option.ite_none_right_eq_some, Option.some.injEq] at hstep
    obtain ⟨-, rfl⟩ := hstep
    exact ⟨rfl, rfl, rfl⟩
  | commit items =>
    simp only [step] at hstep
    rcases commit_cases system.replica items h.room with
      ⟨_, heq⟩ | ⟨_, replica, heq, hsame, -⟩ | ⟨written, hsame, -, -, heq⟩ <;>
      rw [heq] at hstep <;> obtain rfl := Option.some.inj hstep
    · exact ⟨rfl, rfl, rfl⟩
    · exact ⟨rfl, rfl, hsame.status⟩
    · exact ⟨rfl, rfl, hsame.status⟩
  | cancel =>
    obtain rfl := Option.some.inj hstep
    exact ⟨rfl, rfl, rfl⟩
  | drain =>
    simp only [step, Option.map_eq_some_iff] at hstep
    obtain ⟨-, -, rfl⟩ := hstep
    exact ⟨rfl, rfl, rfl⟩
  | take => exact absurd rfl htake
  | send outcome => exact absurd rfl (hsend outcome)
  | retire => exact absurd rfl hretire

variable {err : Error}

theorem step_status_error
    (h : Sound system) (herr : system.replica.status = .error err) (hstep : step system action = some after) :
    after.replica.status = .error err ∧ after.handed = system.handed := by
  obtain ⟨hidle, hcount, -⟩ := h.failed err herr
  obtain ⟨-, hhanded, hstatus⟩ := step_producer h hstep (by rintro rfl; simp [step, hidle, hcount] at hstep)
    (by rintro outcome rfl; simp [step, hidle] at hstep) (by rintro rfl; simp [step, hidle] at hstep)
  exact ⟨hstatus.trans herr, hhanded⟩

theorem step_broken (h : Sound system) (hbroken : system.Broken) (hstep : step system action = some after) :
    after.Broken ∧ after.handed = system.handed := by
  rcases hbroken with ⟨err, herr⟩ | ⟨err, hsent⟩
  · obtain ⟨hstatus, hhanded⟩ := step_status_error h herr hstep
    exact ⟨.inl ⟨err, hstatus⟩, hhanded⟩
  · by_cases hretire : action = .retire
    · subst hretire
      simp only [step, hsent, Option.some.injEq] at hstep
      subst hstep
      exact ⟨.inl ⟨err, rfl⟩, rfl⟩
    · obtain ⟨hsender, hhanded, -⟩ := step_producer h hstep (by rintro rfl; simp [step, hsent] at hstep)
        (by rintro outcome rfl; simp [step, hsent] at hstep) hretire
      exact ⟨.inr ⟨err, hsender.trans hsent⟩, hhanded⟩

variable {actions : List (Action Bytes)}

theorem exec_sound (h : Sound system) (hrun : Runs.exec step system actions = some after) : Sound after :=
  Runs.exec_invariant_always (fun _ _ _ hs hstep => step_sound hs hstep) h hrun

theorem exec_broken (h : Sound system) (hbroken : system.Broken) (hrun : Runs.exec step system actions = some after) :
    after.handed = system.handed :=
  (Runs.exec_frozen (fun _ _ _ => step_sound) (fun _ _ _ => step_broken) h hbroken hrun).2.2

theorem exec_status_error (h : Sound system) (herr : system.replica.status = .error err)
    (hrun : Runs.exec step system actions = some after) : after.replica.status = .error err :=
  (Runs.exec_frozen (fun _ _ _ => step_sound) (fun _ _ _ => step_status_error) h herr hrun).2.1

/-! ## The sender alone empties the queue -/

/-- The steps of a sender whose sends succeed. -/
def Action.Delivers : Action Bytes → Prop
  | .take => True
  | .send outcome => outcome = .ok ()
  | .retire => True
  | _ => False

/-- A run of such steps after which the transport has everything that was committed. -/
def System.Empties (system : System Bytes) : Prop :=
  ∃ more after, (∀ action ∈ more, Action.Delivers action) ∧ Runs.exec step system more = some after ∧
    after.handed = system.committed

theorem System.Empties.step {system next : System Bytes} (hnext : next.Empties)
    (hstep : step system action = some next) (hdelivers : action.Delivers)
    (hcommitted : next.committed = system.committed) : system.Empties := by
  obtain ⟨more, after, hmore, hrun, hhanded⟩ := hnext
  refine ⟨action :: more, after, ?_, ?_, hhanded.trans hcommitted⟩
  · rintro other (_ | ⟨_, hother⟩)
    · exact hdelivers
    · exact hmore other hother
  · exact Runs.exec_cons_eq_some.mpr ⟨next, hstep, hrun⟩

theorem Sound.empties (h : Sound system) (hok : system.replica.status = .ok ())
    (hsent : ∀ err, system.sender ≠ .sent (.error err)) : system.Empties := by
  -- the batches still queued, and within one batch the sender's place in its loop
  induction hcount : system.replica.count generalizing system with
  | zero =>
    have hqueued := h.queued hok
    have hqueue : system.replica.queue = [] := by rw [Replica.queue, hcount]; rfl
    refine ⟨[], system, by simp, rfl, ?_⟩
    rw [hqueued, System.pending]
    cases hsender : system.sender <;> simp [hqueue]
  | succ count ih =>
    have hretired : ∀ (after : System Bytes), Sound after → after.replica.status = .ok () →
        after.replica.count = count + 1 → after.sender = .sent (.ok ()) → after.Empties := by
      intro after hs hs' hc hsender
      have hstep : QsaReplica.step after .retire =
          some { after with replica := QsaReplica.retire after.replica (.ok ()), sender := .idle } := by
        simp only [QsaReplica.step, hsender]
      refine (ih (hs.retire hstep) hs' (by simp) ?_).step hstep trivial rfl
      show after.replica.count - 1 = count
      omega
    have hdelivered : ∀ (after : System Bytes) slot item, Sound after → after.replica.status = .ok () →
        after.replica.count = count + 1 → after.sender = .sending slot item → after.Empties := by
      intro after slot item hs hs' hc hsender
      have hstep : QsaReplica.step after (.send (.ok ())) = some { after with
          sender := .sent (.ok ())
          handed := after.handed ++ [(item, after.replica.payloads slot)] } := by
        simp only [QsaReplica.step, hsender]
      exact (hretired _ (hs.send hstep) hs' hc rfl).step hstep rfl rfl
    cases hsender : system.sender with
    | idle =>
      have hstep : QsaReplica.step system .take = some { system with
          sender := .sending system.replica.head (system.replica.items system.replica.head) } := by
        simp [QsaReplica.step, hsender, hcount]
      exact (hdelivered _ _ _ (h.take hstep) hok hcount rfl).step hstep trivial rfl
    | sending slot item => exact hdelivered system slot item h hok hcount hsender
    | sent outcome =>
      cases outcome with
      | ok _ => exact hretired system h hok hcount hsender
      | error err => exact absurd hsender (hsent err)

/-! ## What the queue promises -/

theorem Sound.buffer_ne (h : Sound system) (hmem : buffer ∈ system.buffers) (hi : i < system.replica.count) :
    buffer ≠ Ring.slot replicaDepth system.replica.head i := by
  cases hstatus : system.replica.status with
  | ok _ =>
    obtain ⟨j, hj, rfl⟩ := h.exists_of_mem_buffers hstatus hmem
    exact (Replica.slot_ne hi hj).symm
  | error err =>
    have hcount := (h.failed err hstatus).2.1
    omega

theorem Sound.handed_inOrder (h : Sound system) : system.handed <+: system.committed := by
  cases hstatus : system.replica.status with
  | ok _ =>
    rw [h.queued hstatus]
    exact List.prefix_append _ _
  | error err => exact (h.failed err hstatus).2.2

theorem Sound.drained (h : Sound system)
    (hdrain : drain system.replica = some (.ok ())) : system.handed = system.committed := by
  unfold drain at hdrain
  split at hdrain
  · cases hdrain
  next hok =>
    simp only [Option.ite_none_right_eq_some, and_true] at hdrain
    have hqueue : system.replica.queue = [] := by rw [Replica.queue, hdrain.1]; rfl
    rw [h.queued hok, System.pending]
    cases hsender : system.sender <;> simp [hqueue]

theorem drain_error (h : drain replica = some (.error err)) : replica.status = .error err := by
  unfold drain at h
  split at h
  next hstatus => rw [hstatus, Except.error.inj (Option.some.inj h)]
  · split at h <;> cases h

/-- Every entry into the queue with a sticky error answers with it. -/
structure Replica.Refuses (replica : Replica Bytes) (err : Error) : Prop where
  reserve : ∀ count malloc, 0 < count → count ≤ replicaDepth → (reserve replica count malloc).1 = .error err
  commit : ∀ items, 0 < items.length → items.length ≤ replicaDepth → (commit replica items).1 = .error err
  drain : drain replica = some (.error err)

theorem refuses_of_status (h : replica.status = .error err) : replica.Refuses err where
  reserve count malloc hpos hle := by
    unfold QsaReplica.reserve
    rw [if_neg (by omega), h]
  commit items hpos hle := by
    unfold QsaReplica.commit
    rw [if_neg (by omega), h]
  drain := by
    unfold QsaReplica.drain
    rw [h]

/-- For every interleaving of the two threads. The batches handed to the transport are the committed
ones, in order and each once: nothing committed is missing while no send has failed, and the sender's own
steps hand out the rest. At most `replicaDepth` batches are queued or in flight, no reserved buffer belongs
to one of them, and a drain that answers `FG_OK` has seen them all sent. A failed send is the last one, and
every later reservation, commit and drain answers with its error. -/
theorem replica_exact (payloadBytes : UInt32) {actions : List (Action Bytes)} {system : System Bytes}
    (hrun : Runs.exec step (initial payloadBytes) actions = some system) :
    system.handed <+: system.committed ∧
    (system.replica.status = .ok () → system.committed = system.handed ++ system.pending) ∧
    (¬ system.Broken → system.Empties) ∧
    system.replica.count ≤ replicaDepth ∧
    (∀ buffer ∈ system.buffers, ∀ i < system.replica.count,
      buffer ≠ Ring.slot replicaDepth system.replica.head i) ∧
    (∀ buffer ∈ system.buffers, ∀ slot item, system.sender = .sending slot item → buffer ≠ slot) ∧
    (drain system.replica = some (.ok ()) → system.handed = system.committed) ∧
    (∀ err, drain system.replica = some (.error err) → system.replica.status = .error err) ∧
    (∀ err, system.sender = .sent (.error err) → ∀ after, step system .retire = some after →
      after.replica.status = .error err) ∧
    (system.Broken → ∀ more after, Runs.exec step system more = some after → after.handed = system.handed) ∧
    ∀ err, system.replica.status = .error err → ∀ more after, Runs.exec step system more = some after →
      after.replica.Refuses err := by
  have h := exec_sound (initial_sound payloadBytes) hrun
  refine ⟨h.handed_inOrder, h.queued, fun hwhole => ?_, Nat.le_trans (Nat.le_add_right _ _) h.room,
    fun buffer hmem i hi => h.buffer_ne hmem hi, fun buffer hmem slot item hsending => ?_, h.drained,
    fun err => drain_error, fun err hsent after hstep => ?_,
    fun hbroken more after hmore => exec_broken h hbroken hmore,
    fun err herr more after hmore => refuses_of_status (exec_status_error h herr hmore)⟩
  · have hok : system.replica.status = .ok () := by
      cases hstatus : system.replica.status with
      | ok _ => rfl
      | error err => exact absurd (.inl ⟨err, hstatus⟩) hwhole
    exact h.empties hok fun err hsent => hwhole (.inr ⟨err, hsent⟩)
  · have hat := h.atHead
    rw [hsending] at hat
    obtain ⟨hcount, rfl, -⟩ := hat
    have hne := h.buffer_ne hmem hcount
    rwa [Ring.slot_zero h.head_lt] at hne
  · simp only [step, hsent, Option.some.injEq] at hstep
    rw [← hstep]
    rfl

/-- Two batches are committed while the first is taken; the second send fails. -/
def failingActions : List (Action Nat) :=
  [.reserve 1 some, .fill 0 7, .commit [⟨1, 0, 8, 5⟩], .take, .reserve 1 some, .fill 1 9, .send (.ok ()),
    .commit [⟨2, 0, 8, 5⟩], .retire, .take, .send (.error ⟨.io, "send"⟩), .retire]

theorem replica_exact_failing : ∃ system, Runs.exec step (initial 64) failingActions = some system ∧
    system.handed = [(⟨1, 0, 8, 5⟩, some 7), (⟨2, 0, 8, 5⟩, some 9)] ∧
    system.replica.Refuses ⟨.io, "send"⟩ := by
  refine ⟨_, rfl, rfl, ?_⟩
  exact (@replica_exact Nat 64 failingActions _ rfl).2.2.2.2.2.2.2.2.2.2 _ rfl [] _ rfl

end FlashGordon.QsaReplica
