import FlashGordon.IoQueues
import FlashGordon.Runs
import FlashGordon.Status

/-! The read-ahead pool of `qsa_state.c`: reads of pages of the state file go through a ring of their own into the
pages of one pool, and a reap hands the pages of a layer back. The kernel may take a part of what is submitted, may
fail a submission, and completes reads at any time. -/

namespace FlashGordon.QsaPrefetch

/-- `FG_QSA_PREFETCH_PAGES`. -/
def prefetchPages : Nat := 256

/-- `FG_Q38_QSA_STATE_PAGE_BYTES`. -/
def pageBytes : Nat := 8192

inductive SlotState where
  | free
  | inFlight
  | ready
  | failed
  deriving DecidableEq

/-- `fg_qsa_prefetch_slot`. -/
structure Slot where
  layerSlot : Nat
  block : Nat
  tag : Nat
  result : Int
  state : SlotState

def Slot.clear : Slot := ⟨0, 0, 0, 0, .free⟩

/-- The submission entry of `fg_uring_prep_read`, with its buffer as the number of a page of the pool. -/
structure Read where
  page : Nat
  offset : Nat
  tag : Nat
  deriving DecidableEq

structure Outcome (Page : Type) where
  result : Int
  bytes : Page

/-- The part of `fg_qsa_state` that reads ahead. `poolFreed` says that the pool and its ring were given back, `closed`
that the store itself was; `done` is every read that the kernel completed so far. -/
structure State (Page : Type) where
  ring : IoQueues Read (Outcome Page)
  done : List (Read × Outcome Page)
  pool : Nat → Page
  slots : Nat → Slot
  next : Nat
  pending : Nat
  tag : Nat
  disabled : Bool
  abandoned : Bool
  poolFreed : Bool
  closed : Bool

/-- What does not change while the store is open. -/
structure Store where
  layerCount : Nat
  blocksPerLayer : Nat
  hasRing : Bool
  sqEntries : Nat

def Store.pageOffset (store : Store) (layerSlot block : Nat) : Nat :=
  (1 + layerSlot * store.blocksPerLayer + block) * pageBytes

section Operations

variable {Page Records : Type}

/-- The kernel completes the `i`-th of the reads that it took. -/
def State.post (s : State Page) (i : Nat) (outcome : Outcome Page) : State Page :=
  match s.ring.inFlight[i]? with
  | none => s
  | some read => { s with
      ring := s.ring.post i outcome
      done := s.done ++ [(read, outcome)]
      pool := Function.update s.pool read.page outcome.bytes }

def State.postAll (s : State Page) (posts : List (Nat × Outcome Page)) : State Page :=
  posts.foldl (fun s posted => s.post posted.1 posted.2) s

def State.slotOf (s : State Page) (tag : Nat) : Option Nat :=
  (List.range prefetchPages).find? fun i => (s.slots i).state = .inFlight ∧ (s.slots i).tag = tag

/-- `prefetch_complete`. -/
def State.complete (s : State Page) (tag : Nat) (result : Int) : State Page :=
  match s.slotOf tag with
  | none => s
  | some i =>
    { s with slots := Function.update s.slots i { s.slots i with
      result
      state := if result = pageBytes then .ready else .failed } }

/-- `fg_uring_peek` and the loop over what it found. -/
def State.drain (s : State Page) : State Page :=
  let ready := s.ring.completed.take prefetchPages
  ready.foldl (fun s completion => s.complete completion.1.tag completion.2.result)
    { s with ring := s.ring.read prefetchPages }

def State.staged (s : State Page) (layerSlot block : Nat) : Bool :=
  (List.range prefetchPages).any fun i =>
    (s.slots i).state ≠ .free ∧ (s.slots i).layerSlot = layerSlot ∧ (s.slots i).block = block

/-- The first free slot from `prefetch_next` on. -/
def State.chosen (s : State Page) : Option Nat :=
  ((List.range prefetchPages).map fun offset => (s.next + offset) % prefetchPages).find? fun i =>
    (s.slots i).state = .free

/-- The read of a block goes into a free page. -/
def State.stage (store : Store) (s : State Page) (layerSlot block i : Nat) : State Page :=
  { s with
    ring := s.ring.push [⟨i, store.pageOffset layerSlot block, s.tag + 1⟩]
    slots := Function.update s.slots i ⟨layerSlot, block, s.tag + 1, 0, .inFlight⟩
    next := (i + 1) % prefetchPages
    pending := s.pending + 1
    tag := s.tag + 1 }

/-- The loop of `fg_qsa_state_prefetch`. -/
def stageAll (store : Store) (layerSlot : Nat) : List Nat → State Page → State Page
  | [], s => s
  | block :: rest, s =>
    if store.blocksPerLayer ≤ block then stageAll store layerSlot rest s
    else if s.staged layerSlot block then stageAll store layerSlot rest s
    else
      match s.chosen with
      | none => s
      | some i =>
        if store.sqEntries ≤ s.ring.queued.length then { s with tag := s.tag + 1 }
        else stageAll store layerSlot rest (s.stage store layerSlot block i)

/-- `fg_uring_flush`: what the kernel takes, and whether it fails the call. -/
structure Flush where
  taken : Nat
  failed : Bool

/-- `fg_uring_flush` and what the prefetch makes of its answer. -/
def State.flush (s : State Page) (flush : Flush) : State Page :=
  let n := min flush.taken (min s.pending s.ring.queued.length)
  let s := { s with ring := s.ring.take n }
  if flush.failed ∨ n ≠ s.pending then { s with disabled := true, pending := 0, slots := fun _ => .clear }
  else { s with pending := 0 }

/-- `fg_qsa_state_prefetch`. -/
def prefetch (store : Store) (s : State Page) (layerSlot : Nat) (blocks : List Nat) (flush : Flush) :
    Except Error Unit × State Page :=
  if blocks = [] ∨ store.layerCount ≤ layerSlot then (.error ⟨.argument, "invalid QSA prefetch request"⟩, s)
  else if s.disabled ∨ ¬store.hasRing then (.ok (), s)
  else
    let s := stageAll store layerSlot blocks s
    if s.pending = 0 then (.ok (), s) else (.ok (), s.flush flush)

/-- A page that a reap returns. The tag says which read it came from; the caller does not see it. -/
structure Returned (Records : Type) where
  layerSlot : Nat
  block : Nat
  records : Records
  tag : Nat

def State.release (s : State Page) (i : Nat) : State Page :=
  { s with slots := Function.update s.slots i { s.slots i with state := .free } }

/-- One turn of the loop of `fg_qsa_state_prefetch_reap`; `decode` is `decode_page`. -/
def reapSlot (decode : Page → Nat → Nat → Option Records) (layerSlot capacity : Nat)
    (acc : State Page × List (Returned Records)) (i : Nat) : State Page × List (Returned Records) :=
  let (s, out) := acc
  let entry := s.slots i
  if capacity ≤ out.length then acc
  else if entry.state = .free then acc
  else if entry.state = .failed then (s.release i, out)
  else if entry.state ≠ .ready ∨ entry.layerSlot ≠ layerSlot then acc
  else
    match decode (s.pool i) entry.layerSlot entry.block with
    | none => (s.release i, out)
    | some records => (s.release i, out ++ [⟨layerSlot, entry.block, records, entry.tag⟩])

/-- `fg_qsa_state_prefetch_reap`. -/
def reap (decode : Page → Nat → Nat → Option Records) (store : Store) (s : State Page) (layerSlot capacity : Nat) :
    Except Error (List (Returned Records)) × State Page :=
  if capacity = 0 ∨ store.layerCount ≤ layerSlot then
    (.error ⟨.argument, "invalid QSA prefetch reap request"⟩, s)
  else if s.disabled ∨ ¬store.hasRing then (.ok [], s)
  else
    let (s, out) := (List.range prefetchPages).foldl (reapSlot decode layerSlot capacity) (s.drain, [])
    (.ok out, s)

def State.busy (s : State Page) : Bool := (List.range prefetchPages).any fun i => (s.slots i).state = .inFlight

/-- The wait of a cancel: as many looks at the completion queue as are left, with what the kernel posts before each. -/
def spin : Nat → List (List (Nat × Outcome Page)) → State Page → State Page
  | 0, _, s => s
  | fuel + 1, script, s =>
    if s.busy then spin fuel script.tail ((s.postAll (script.headD [])).drain) else s

/-- `fg_qsa_state_prefetch_cancel`. -/
def cancel (store : Store) (script : List (List (Nat × Outcome Page))) (s : State Page) : State Page :=
  if store.hasRing then
    let s := spin 250 script s
    if s.busy then { s with disabled := true, abandoned := true }
    else { s with pending := 0, slots := fun _ => .clear }
  else s

/-- `fg_qsa_state_close`. -/
def close (store : Store) (script : List (List (Nat × Outcome Page))) (s : State Page) : State Page :=
  let s := cancel store script s
  { s with poolFreed := !s.abandoned, closed := true }

end Operations

structure System (Page Records : Type) where
  state : State Page
  returned : List (Returned Records)

inductive Action (Page : Type) where
  | prefetch (layerSlot : Nat) (blocks : List Nat) (flush : Flush)
  | reap (layerSlot capacity : Nat)
  | cancel (script : List (List (Nat × Outcome Page)))
  | reset (script : List (List (Nat × Outcome Page)))
  | close (script : List (List (Nat × Outcome Page)))
  | kernel (i : Nat) (outcome : Outcome Page)

variable {Page Records : Type}

/-- The part of `fg_qsa_state_open` that sets up the read-ahead. -/
def openState (store : Store) (pool : Nat → Page) : State Page where
  ring := .empty
  done := []
  pool := pool
  slots := fun _ => .clear
  next := 0
  pending := 0
  tag := 0
  disabled := !store.hasRing
  abandoned := false
  poolFreed := false
  closed := false

def init (store : Store) (pool : Nat → Page) : System Page Records := ⟨openState store pool, []⟩

/-- One call, or one completion by the kernel. A closed store is not called again. -/
def step (decode : Page → Nat → Nat → Option Records) (store : Store) (s : System Page Records) (action : Action Page) :
    Option (System Page Records) :=
  match action with
  | .kernel i outcome => some { s with state := s.state.post i outcome }
  | .prefetch layerSlot blocks flush =>
    if s.state.closed then none else some { s with state := (prefetch store s.state layerSlot blocks flush).2 }
  | .reap layerSlot capacity =>
    if s.state.closed then none
    else
      match reap decode store s.state layerSlot capacity with
      | (.ok out, state) => some ⟨state, s.returned ++ out⟩
      | (.error _, state) => some { s with state }
  | .cancel script => if s.state.closed then none else some { s with state := cancel store script s.state }
  -- A reset also writes the file header, which goes through the other ring.
  | .reset script => if s.state.closed then none else some { s with state := cancel store script s.state }
  | .close script => if s.state.closed then none else some { s with state := close store script s.state }

end FlashGordon.QsaPrefetch
