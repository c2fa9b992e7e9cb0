import Mathlib.Data.Fintype.Basic
import FlashGordon.Status

/-! The table of decode sequences and its scheduler (`decode_batch.c`). The table is an array of eight
cells with a live prefix of length `count`; a cell at or beyond `count` keeps what was last written
there, and an open step may still address it. Table and step pointers are never null here; the nullable
pointers that a caller passes (policy, position, outcome, hooks) are options. -/

namespace FlashGordon

/-- `fg_sampler_state`: the word of the xorshift generator. -/
structure SamplerState where
  state : UInt64 := 0
  deriving DecidableEq

def samplerDefaultSeed : UInt64 := 0x9e3779b97f4a7c15

def samplerStateInit (seed : UInt64) : SamplerState where
  state := if seed ≠ 0 then seed else samplerDefaultSeed

namespace DecodeBatch

/-- `FG_DECODE_BATCH_MAX`, the slots of one step. -/
def batchMax : Nat := 2

/-- The cells of the table, `FG_DECODE_BATCH_SEQUENCE_MAX` of them. -/
abbrev Index := Fin 8

abbrev Positions := Vector UInt32 4

abbrev QsaRecords := Vector UInt64 48

structure Sequence where
  sequenceId : UInt64 := 0
  stateGeneration : UInt64 := 0
  samplerGeneration : UInt64 := 0
  stateSlot : UInt32 := 0
  tokenIndex : UInt32 := 0
  position : Positions := Vector.replicate 4 0
  committedTokens : UInt32 := 0
  contextTokens : UInt32 := 0
  qsaRecords : QsaRecords := Vector.replicate 48 0
  sampler : SamplerState := {}
  ready : Bool := false
  inFlight : Bool := false
  readySince : UInt64 := 0
  steps : UInt64 := 0
  deriving DecidableEq

/-- A slot of a scheduled batch. `sequence` is the table cell it was taken from. -/
structure Slot where
  sequence : Index
  stateSlot : UInt32
  tokenIndex : UInt32
  position : Positions
  deriving DecidableEq

structure Table where
  sequences : Index → Sequence := fun _ => {}
  count : Nat := 0
  count_le : count ≤ 8 := by decide
  depth : UInt32 := 0
  step : UInt64 := 0
  restored : Bool := false

structure Policy where
  maxBatch : UInt32
  qsaScanBudgetBytes : UInt64
  qsaLayerCount : UInt32
  deriving DecidableEq

def qsaScanBudgetDefault : UInt64 := (640 : UInt64) <<< (20 : UInt64)

def qsaBytesPerToken (policy : Option Policy) (contextTokens : UInt32) : UInt64 :=
  let layers : UInt64 := match policy with
    | some p => if p.qsaLayerCount ≠ 0 then p.qsaLayerCount.toUInt64 else 12
    | none => 12
  let context := contextTokens.toUInt64
  let indexScan := context * 148
  let blocks := min (context / 4) 512
  let selection := blocks * 4944 * 2
  let attention := min (blocks * 4) context * 1088
  (indexScan + selection + attention + 5080) * layers

/-- The descending loop of `fg_decode_batch_choose_batch`: the largest batch, from `cap` down, whose
scans fit the budget. -/
def largestWithin (budget scan : UInt64) : Nat → Nat
  | 0 => 1
  | 1 => 1
  | n + 2 => if UInt64.ofNat (n + 2) * scan ≤ budget then n + 2 else largestWithin budget scan (n + 1)

/-- The cap of `fg_decode_batch_choose_batch`: the policy's batch, or the maximum, within the depth. -/
def batchCap (policy : Option Policy) (depth : UInt32) : Nat :=
  let asked := match policy with
    | some p => p.maxBatch.toNat
    | none => batchMax
  let cap := if asked = 0 ∨ batchMax < asked then batchMax else asked
  let cap := if depth.toNat ≠ 0 ∧ depth.toNat < cap then depth.toNat else cap
  if cap = 0 then 1 else cap

def chooseBatch (policy : Option Policy) (contextTokens depth : UInt32) : Nat :=
  let budget := match policy with
    | some p => if p.qsaScanBudgetBytes ≠ 0 then p.qsaScanBudgetBytes else qsaScanBudgetDefault
    | none => qsaScanBudgetDefault
  largestWithin budget (qsaBytesPerToken policy contextTokens) (batchCap policy depth)

/-- `fg_decode_batch_table_init`. -/
def tableInit (depth : UInt32) : Except Error Table :=
  if depth.toNat = 0 ∨ batchMax < depth.toNat then
    .error ⟨.argument, "invalid decode batch table depth"⟩
  else .ok { depth := depth }

namespace Table

/-- The loop `for (i = 0; i < table->count; i++)`. -/
def indices (table : Table) : List Index := (List.finRange 8).filter (·.val < table.count)

def set (table : Table) (i : Index) (sequence : Sequence) : Table :=
  { table with sequences := Function.update table.sequences i sequence }

def modify (table : Table) (i : Index) (f : Sequence → Sequence) : Table :=
  table.set i (f (table.sequences i))

end Table

/-- `find_sequence` and `fg_decode_batch_table_find`. -/
def tableFind (table : Table) (sequenceId : UInt64) : Option Index :=
  if sequenceId = 0 then none
  else table.indices.find? fun i => (table.sequences i).sequenceId = sequenceId

def stateSlotUsed (table : Table) (stateSlot : UInt32) : Bool :=
  table.indices.any fun i => (table.sequences i).stateSlot = stateSlot

def sequenceEnter (table : Table) (sequenceId : UInt64) (stateSlot : UInt32) : Except Error Table :=
  if table.depth = 0 ∨ sequenceId = 0 then .error ⟨.argument, "invalid decode batch sequence"⟩
  else if table.depth ≤ stateSlot then
    let depth := table.depth
    .error ⟨.argument, s!"owner state slot {stateSlot} is outside the batch depth {depth}"⟩
  else if (tableFind table sequenceId).isSome then
    .error ⟨.mismatch, s!"decode batch sequence {sequenceId} already exists"⟩
  else if stateSlotUsed table stateSlot then
    .error ⟨.mismatch, s!"owner state slot {stateSlot} is already owned by another sequence"⟩
  else if h : table.count < 8 then
    .ok
      { table with
        sequences := Function.update table.sequences ⟨table.count, h⟩
          { sequenceId := sequenceId, stateSlot := stateSlot, sampler := samplerStateInit sequenceId }
        count := table.count + 1
        count_le := h }
  else .error ⟨.limit, "decode batch table is full"⟩

/-- The compaction of `fg_decode_batch_sequence_leave`: the last entry moves into the gap, whatever
its state. -/
def Table.compact (table : Table) (i : Index) : Table :=
  { table with
    sequences :=
      if i.val + 1 < table.count then
        Function.update table.sequences i
          (table.sequences ⟨table.count - 1, by have := table.count_le; omega⟩)
      else table.sequences
    count := table.count - 1
    count_le := by have := table.count_le; omega }

def sequenceLeave (table : Table) (sequenceId : UInt64) : Except Error Table :=
  if sequenceId = 0 then .error ⟨.argument, "invalid decode batch sequence"⟩
  else match tableFind table sequenceId with
    | none => .error ⟨.mismatch, s!"decode batch sequence {sequenceId} is not bound"⟩
    | some i =>
      if (table.sequences i).inFlight then
        .error ⟨.mismatch, s!"decode batch sequence {sequenceId} is in flight"⟩
      else .ok (table.compact i)

def sequenceReady (table : Table) (sequenceId now : UInt64) : Except Error Table :=
  match tableFind table sequenceId with
  | none => .error ⟨.mismatch, s!"decode batch sequence {sequenceId} is not bound"⟩
  | some i =>
    if (table.sequences i).inFlight then
      .error ⟨.mismatch, s!"decode batch sequence {sequenceId} is in flight"⟩
    else .ok (table.modify i fun sequence => { sequence with ready := true, readySince := now })

/-- The record that an accepted `fg_decode_batch_sequence_frontier` writes: every fourth layer keeps
QSA records, and those restart at the committed frontier. -/
def Sequence.atFrontier (sequence : Sequence) (committedTokens tokenIndex : UInt32) (position : Positions) : Sequence :=
  { sequence with
    committedTokens := committedTokens
    contextTokens := committedTokens
    tokenIndex := tokenIndex
    position := position
    qsaRecords := Vector.ofFn fun layer =>
      if layer.val % 4 = 3 then committedTokens.toUInt64 else sequence.qsaRecords.get layer }

def sequenceFrontier (table : Table) (sequenceId : UInt64) (committedTokens tokenIndex : UInt32)
    (position : Option Positions) : Except Error Table :=
  match tableFind table sequenceId, position with
  | some i, some position =>
    if (table.sequences i).inFlight then
      .error ⟨.mismatch, s!"decode batch sequence {sequenceId} is in flight"⟩
    else if maxContext < committedTokens.toNat ∨ maxContext ≤ tokenIndex.toNat then
      .error ⟨.limit, "decode batch frontier exceeds the context"⟩
    else .ok (table.modify i fun sequence => sequence.atFrontier committedTokens tokenIndex position)
  | _, _ => .error ⟨.argument, "invalid decode batch frontier"⟩

def Sequence.Candidate (sequence : Sequence) : Prop :=
  sequence.ready = true ∧ sequence.inFlight = false

instance (sequence : Sequence) : Decidable sequence.Candidate :=
  inferInstanceAs (Decidable (_ ∧ _))

def Sequence.context (sequence : Sequence) : UInt32 :=
  max (max sequence.contextTokens sequence.committedTokens) sequence.tokenIndex

/-- The live cells the scheduler may take, in table order. -/
def Table.candidates (table : Table) : List Index :=
  table.indices.filter fun i => (table.sequences i).Candidate

def worstContext (table : Table) : UInt32 :=
  table.candidates.foldl (fun worst i => max worst (table.sequences i).context) 0

def older (table : Table) (best : Option Index) (i : Index) : Option Index :=
  match best with
  | none => some i
  | some b =>
    if (table.sequences i).readySince < (table.sequences b).readySince ∨
        ((table.sequences i).readySince = (table.sequences b).readySince ∧ i < b) then some i
    else some b

def pickBest (table : Table) : Option Index := table.candidates.foldl (older table) none

def Sequence.claimed (sequence : Sequence) : Sequence :=
  { sequence with ready := false, inFlight := true }

def slotOf (table : Table) (i : Index) : Slot :=
  let sequence := table.sequences i
  { sequence := i, stateSlot := sequence.stateSlot, tokenIndex := sequence.tokenIndex,
    position := sequence.position }

/-- The assembly loop: at most `limit` times, take the oldest candidate and mark it in flight. -/
def assemble : Nat → Table → Table × List Slot
  | 0, table => (table, [])
  | limit + 1, table =>
    match pickBest table with
    | none => (table, [])
    | some i =>
      let rest := assemble limit (table.modify i Sequence.claimed)
      (rest.1, slotOf table i :: rest.2)

/-- `fg_decode_batch_schedule`; its argument `now` is unused by the source. -/
def schedule (table : Table) (policy : Option Policy) : Except Error (Table × List Slot) :=
  if table.depth = 0 then .error ⟨.argument, "invalid decode batch schedule arguments"⟩
  else
    let candidates := table.candidates.length
    if candidates = 0 then .error ⟨.unavailable, "decode batch has no ready sequence"⟩
    else
      let limit := min (chooseBatch policy (worstContext table) table.depth) candidates
      let assembled := assemble limit table
      if assembled.2 = [] then .error ⟨.unavailable, "decode batch assembly produced no slot"⟩
      else .ok ({ assembled.1 with restored := false }, assembled.2)

section Modify

variable {table : Table} {i j : Index} {f : Sequence → Sequence}

@[simp] theorem Table.modify_sequences_self : (table.modify i f).sequences i = f (table.sequences i) :=
  Function.update_self _ _ _

theorem Table.modify_sequences_of_ne (h : j ≠ i) : (table.modify i f).sequences j = table.sequences j :=
  Function.update_of_ne h _ _

end Modify

section Lookup

variable {table : Table} {sequenceId : UInt64} {i : Index}

@[simp] theorem Table.mem_indices : i ∈ table.indices ↔ i.val < table.count := by
  simp [Table.indices]

theorem tableFind_eq_some (h : tableFind table sequenceId = some i) :
    sequenceId ≠ 0 ∧ i.val < table.count ∧ (table.sequences i).sequenceId = sequenceId := by
  unfold tableFind at h
  split_ifs at h with hzero
  have hid := List.find?_some h
  exact ⟨hzero, Table.mem_indices.mp (List.mem_of_find?_eq_some h), by simpa using hid⟩

theorem tableFind_eq_none (hzero : sequenceId ≠ 0) (h : tableFind table sequenceId = none)
    (hi : i.val < table.count) : (table.sequences i).sequenceId ≠ sequenceId := by
  unfold tableFind at h
  rw [if_neg hzero, List.find?_eq_none] at h
  simpa using h i (Table.mem_indices.mpr hi)

/-- No two live cells agree on `key`. -/
def Table.DistinctBy {κ : Type} (table : Table) (key : Sequence → κ) : Prop :=
  ∀ i j : Index, i.val < table.count → j.val < table.count →
    key (table.sequences i) = key (table.sequences j) → i = j

/-- Live cells hold nonzero, pairwise distinct sequence ids. -/
structure Table.IdsDistinct (table : Table) : Prop where
  ne_zero : ∀ i : Index, i.val < table.count → (table.sequences i).sequenceId ≠ 0
  injective : table.DistinctBy Sequence.sequenceId

theorem tableFind_live (hids : table.IdsDistinct) (hi : i.val < table.count) :
    tableFind table (table.sequences i).sequenceId = some i := by
  cases hfind : tableFind table (table.sequences i).sequenceId with
  | none => exact absurd rfl (tableFind_eq_none (hids.ne_zero i hi) hfind hi)
  | some j =>
    obtain ⟨_, hj, hid⟩ := tableFind_eq_some hfind
    rw [hids.injective j i hj hi hid]

theorem tableFind_congr {other : Table} (hcount : other.count = table.count)
    (hid : ∀ i : Index, i.val < table.count →
      (other.sequences i).sequenceId = (table.sequences i).sequenceId) (sequenceId : UInt64) :
    tableFind other sequenceId = tableFind table sequenceId := by
  have hindices : other.indices = table.indices := by
    unfold Table.indices
    rw [hcount]
  unfold tableFind
  rw [hindices, Table.indices, List.find?_filter, List.find?_filter]
  congr 2
  funext i
  by_cases hi : i.val < table.count
  · rw [hid i hi]
  · simp [hi]

end Lookup

section Accepted

variable {table after : Table} {sequenceId now : UInt64} {stateSlot committedTokens tokenIndex : UInt32}

theorem sequenceEnter_ok (h : sequenceEnter table sequenceId stateSlot = .ok after) :
    sequenceId ≠ 0 ∧ stateSlot < table.depth ∧ tableFind table sequenceId = none ∧
      (∀ i : Index, i.val < table.count → (table.sequences i).stateSlot ≠ stateSlot) ∧
      ∃ hroom : table.count < 8,
        after.sequences = Function.update table.sequences ⟨table.count, hroom⟩
          { sequenceId := sequenceId, stateSlot := stateSlot, sampler := samplerStateInit sequenceId } ∧
        after.count = table.count + 1 ∧ after.depth = table.depth := by
  unfold sequenceEnter at h
  split_ifs at h with harg hslot hfind hused hroom
  cases h
  refine ⟨fun hzero => harg (.inr hzero), UInt32.not_le.mp hslot, ?_, ?_, hroom, rfl, rfl, rfl⟩
  · exact Option.not_isSome_iff_eq_none.mp hfind
  · intro i hi heq
    refine hused (List.any_eq_true.mpr ⟨i, Table.mem_indices.mpr hi, ?_⟩)
    simpa using heq

theorem sequenceLeave_ok (h : sequenceLeave table sequenceId = .ok after) :
    ∃ i, tableFind table sequenceId = some i ∧ (table.sequences i).inFlight = false ∧
      after = table.compact i := by
  unfold sequenceLeave at h
  split_ifs at h with hzero
  split at h
  · cases h
  next i hfind =>
    split_ifs at h with hflight
    cases h
    exact ⟨i, hfind, by simpa using hflight, rfl⟩

theorem sequenceReady_ok (h : sequenceReady table sequenceId now = .ok after) :
    ∃ i, tableFind table sequenceId = some i ∧ (table.sequences i).inFlight = false ∧
      after = table.modify i fun sequence => { sequence with ready := true, readySince := now } := by
  unfold sequenceReady at h
  split at h
  · cases h
  next i hfind =>
    split_ifs at h with hflight
    cases h
    exact ⟨i, hfind, by simpa using hflight, rfl⟩

theorem sequenceFrontier_ok {position : Option Positions}
    (h : sequenceFrontier table sequenceId committedTokens tokenIndex position = .ok after) :
    ∃ i at_, tableFind table sequenceId = some i ∧ (table.sequences i).inFlight = false ∧
      tokenIndex.toNat < maxContext ∧
      after = table.modify i fun sequence => sequence.atFrontier committedTokens tokenIndex at_ := by
  unfold sequenceFrontier at h
  split at h
  next i at_ hfind =>
    split_ifs at h with hflight hlimit
    cases h
    exact ⟨i, at_, hfind, by simpa using hflight, by omega, rfl⟩
  · cases h

end Accepted

section Membership

variable {κ : Type} {key : Sequence → κ} {table after : Table} {sequenceId : UInt64} {stateSlot : UInt32}
  {i : Index}

def Sequence.entered (sequenceId : UInt64) (stateSlot : UInt32) : Sequence where
  sequenceId := sequenceId
  stateSlot := stateSlot
  sampler := samplerStateInit sequenceId

theorem sequenceEnter_cell (henter : sequenceEnter table sequenceId stateSlot = .ok after) (j : Index) :
    (j.val = table.count ∧ after.sequences j = .entered sequenceId stateSlot) ∨
      (after.sequences j = table.sequences j ∧ (j.val < after.count → j.val < table.count)) := by
  obtain ⟨_, _, _, _, hroom, hsequences, hcount, _⟩ := sequenceEnter_ok henter
  by_cases heq : j.val = table.count
  · have hcell : j = ⟨table.count, hroom⟩ := Fin.ext heq
    refine .inl ⟨heq, ?_⟩
    rw [hsequences, hcell, Function.update_self]
    rfl
  · have hcell : j ≠ ⟨table.count, hroom⟩ := fun h => heq (congrArg Fin.val h)
    exact .inr ⟨by rw [hsequences, Function.update_of_ne hcell], by omega⟩

theorem Table.DistinctBy.enter (h : table.DistinctBy key)
    (henter : sequenceEnter table sequenceId stateSlot = .ok after)
    (hnew : ∀ i : Index, i.val < table.count →
      key (table.sequences i) ≠ key (.entered sequenceId stateSlot)) : after.DistinctBy key := by
  intro j k hj hk heq
  rcases sequenceEnter_cell henter j with ⟨hjc, hjnew⟩ | ⟨hjsame, hjlive⟩ <;>
    rcases sequenceEnter_cell henter k with ⟨hkc, hknew⟩ | ⟨hksame, hklive⟩
  · exact Fin.ext (hjc.trans hkc.symm)
  · rw [hjnew, hksame] at heq
    exact absurd heq.symm (hnew k (hklive hk))
  · rw [hknew, hjsame] at heq
    exact absurd heq (hnew j (hjlive hj))
  · rw [hjsame, hksame] at heq
    exact h j k (hjlive hj) (hklive hk) heq

theorem compact_cell (hi : i.val < table.count) (j : Index) (hj : j.val < (table.compact i).count) :
    ∃ k : Index, k.val < table.count ∧ (table.compact i).sequences j = table.sequences k ∧
      ((j ≠ i ∧ k = j) ∨ (j = i ∧ k.val + 1 = table.count)) := by
  have hcount : (table.compact i).count = table.count - 1 := rfl
  have hle := table.count_le
  by_cases hji : j = i
  · subst hji
    have hmoved : j.val + 1 < table.count := by omega
    refine ⟨⟨table.count - 1, by omega⟩, by simp only; omega, ?_, .inr ⟨rfl, by simp only; omega⟩⟩
    simp only [Table.compact, if_pos hmoved, Function.update_self]
  · refine ⟨j, by omega, ?_, .inl ⟨hji, rfl⟩⟩
    unfold Table.compact
    split_ifs
    · exact Function.update_of_ne hji _ _
    · rfl

theorem Table.DistinctBy.compact (h : table.DistinctBy key) (hi : i.val < table.count) :
    (table.compact i).DistinctBy key := by
  have hcount : (table.compact i).count = table.count - 1 := rfl
  intro j j' hj hj' heq
  obtain ⟨k, hk, hsame, hcell⟩ := compact_cell hi j hj
  obtain ⟨k', hk', hsame', hcell'⟩ := compact_cell hi j' hj'
  rw [hsame, hsame'] at heq
  have hkk := h k k' hk hk' heq
  rcases hcell with ⟨_, rfl⟩ | ⟨rfl, hlast⟩ <;> rcases hcell' with ⟨_, rfl⟩ | ⟨rfl, hlast'⟩
  · exact hkk
  · exact absurd hlast' (by rw [← hkk]; omega)
  · exact absurd hlast (by rw [hkk]; omega)
  · rfl

theorem Table.DistinctBy.congr (h : table.DistinctBy key) (hcount : after.count = table.count)
    (hkey : ∀ i : Index, key (after.sequences i) = key (table.sequences i)) : after.DistinctBy key := by
  intro i j hi hj heq
  rw [hkey, hkey] at heq
  exact h i j (hcount ▸ hi) (hcount ▸ hj) heq

theorem Table.modify_keeps (f : Sequence → Sequence) (hf : ∀ sequence, key (f sequence) = key sequence)
    (j : Index) : key ((table.modify i f).sequences j) = key (table.sequences j) := by
  by_cases hj : j = i
  · subst hj
    rw [Table.modify_sequences_self, hf]
  · rw [Table.modify_sequences_of_ne hj]

theorem Table.IdsDistinct.congr (h : table.IdsDistinct) (hcount : after.count = table.count)
    (hid : ∀ i : Index, (after.sequences i).sequenceId = (table.sequences i).sequenceId) :
    after.IdsDistinct where
  ne_zero := fun i hi => by
    rw [hid]
    exact h.ne_zero i (hcount ▸ hi)
  injective := h.injective.congr hcount hid

theorem sequenceEnter_idsDistinct (h : table.IdsDistinct)
    (henter : sequenceEnter table sequenceId stateSlot = .ok after) : after.IdsDistinct := by
  obtain ⟨hzero, _, hfind, _⟩ := sequenceEnter_ok henter
  refine ⟨fun j hj => ?_, h.injective.enter henter fun i hi => tableFind_eq_none hzero hfind hi⟩
  rcases sequenceEnter_cell henter j with ⟨_, hnew⟩ | ⟨hsame, hlive⟩
  · rwa [hnew]
  · rw [hsame]
    exact h.ne_zero j (hlive hj)

theorem compact_idsDistinct (h : table.IdsDistinct) (hi : i.val < table.count) : (table.compact i).IdsDistinct := by
  refine ⟨fun j hj => ?_, h.injective.compact hi⟩
  obtain ⟨k, hk, hsame, _⟩ := compact_cell hi j hj
  rw [hsame]
  exact h.ne_zero k hk

end Membership

section Schedule

variable {table : Table}

theorem Table.mem_candidates {i : Index} :
    i ∈ table.candidates ↔ i.val < table.count ∧ (table.sequences i).Candidate := by
  simp [Table.candidates]

theorem older_mem {best : Option Index} {i b : Index} (h : older table best i = some b) : b = i ∨ best = some b := by
  unfold older at h
  split at h
  · exact .inl (Option.some.inj h).symm
  · split_ifs at h
    · exact .inl (Option.some.inj h).symm
    · exact .inr h

theorem pickBest_mem {b : Index} (h : pickBest table = some b) : b ∈ table.candidates := by
  have hfold : ∀ (items : List Index) (best : Option Index),
      items.foldl (older table) best = some b → b ∈ items ∨ best = some b := by
    intro items
    induction items with
    | nil => exact fun best hbest => .inr hbest
    | cons i rest ih =>
      intro best hbest
      rcases ih _ hbest with hmem | hold
      · exact .inl (List.mem_cons_of_mem _ hmem)
      · rcases older_mem hold with rfl | hbefore
        · exact .inl List.mem_cons_self
        · exact .inr hbefore
  rcases hfold _ _ h with hmem | hnone
  · exact hmem
  · cases hnone

/-- What the assembly of a batch does to a table: every slot is taken from a different live candidate,
copies its record, and marks it in flight; nothing else changes. -/
structure Assembled (table after : Table) (slots : List Slot) : Prop where
  count_eq : after.count = table.count
  depth_eq : after.depth = table.depth
  nodup : (slots.map Slot.sequence).Nodup
  live : ∀ slot ∈ slots, slot.sequence.val < table.count
  candidate : ∀ slot ∈ slots, (table.sequences slot.sequence).Candidate
  copied : ∀ slot ∈ slots, slot = slotOf table slot.sequence
  claimed : ∀ slot ∈ slots, after.sequences slot.sequence = (table.sequences slot.sequence).claimed
  other : ∀ i, (∀ slot ∈ slots, slot.sequence ≠ i) → after.sequences i = table.sequences i

variable {after : Table} {slots : List Slot}

theorem Assembled.keeps {κ : Type} (key : Sequence → κ)
    (h : Assembled table after slots) (hkey : ∀ sequence, key sequence.claimed = key sequence)
    (i : Index) : key (after.sequences i) = key (table.sequences i) := by
  by_cases hi : ∃ slot ∈ slots, slot.sequence = i
  · obtain ⟨slot, hslot, rfl⟩ := hi
    rw [h.claimed slot hslot, hkey]
  · rw [h.other i fun slot hslot heq => hi ⟨slot, hslot, heq⟩]

theorem Assembled.sequenceId_eq (h : Assembled table after slots)
    (i : Index) : (after.sequences i).sequenceId = (table.sequences i).sequenceId :=
  h.keeps Sequence.sequenceId (fun _ => rfl) i

theorem Sequence.not_candidate_claimed (sequence : Sequence) : ¬ sequence.claimed.Candidate := by
  simp [Sequence.Candidate, Sequence.claimed]

theorem slotOf_claimed (i j : Index) : slotOf (table.modify i Sequence.claimed) j = slotOf table j := by
  by_cases hj : j = i
  · subst hj
    simp only [slotOf, Table.modify_sequences_self, Sequence.claimed]
  · simp only [slotOf, Table.modify_sequences_of_ne hj]

theorem assemble_assembled (limit : Nat) (table : Table) :
    Assembled table (assemble limit table).1 (assemble limit table).2 := by
  induction limit generalizing table with
  | zero => constructor <;> simp [assemble]
  | succ limit ih =>
    unfold assemble
    split
    · constructor <;> simp
    next b hpick =>
      obtain ⟨hlive, hcandidate⟩ := Table.mem_candidates.mp (pickBest_mem hpick)
      have hrest := ih (table.modify b Sequence.claimed)
      -- no later slot is taken from the cell just claimed
      have hne : ∀ slot ∈ (assemble limit (table.modify b Sequence.claimed)).2, slot.sequence ≠ b := by
        intro slot hslot heq
        refine Sequence.not_candidate_claimed (table.sequences b) ?_
        have hclaimed := hrest.candidate slot hslot
        rwa [heq, Table.modify_sequences_self] at hclaimed
      have hsame : ∀ slot ∈ (assemble limit (table.modify b Sequence.claimed)).2,
          (table.modify b Sequence.claimed).sequences slot.sequence = table.sequences slot.sequence :=
        fun slot hslot => Table.modify_sequences_of_ne (hne slot hslot)
      constructor
      · exact hrest.count_eq
      · exact hrest.depth_eq
      · rw [List.map_cons, List.nodup_cons]
        refine ⟨fun hmem => ?_, hrest.nodup⟩
        obtain ⟨slot, hslot, heq⟩ := List.mem_map.mp hmem
        exact hne slot hslot heq
      · intro slot hslot
        rcases List.mem_cons.mp hslot with rfl | hslot
        · exact hlive
        · exact hrest.live slot hslot
      · intro slot hslot
        rcases List.mem_cons.mp hslot with rfl | hslot
        · exact hcandidate
        · exact hsame slot hslot ▸ hrest.candidate slot hslot
      · intro slot hslot
        rcases List.mem_cons.mp hslot with rfl | hslot
        · rfl
        · exact (hrest.copied slot hslot).trans (slotOf_claimed b slot.sequence)
      · intro slot hslot
        rcases List.mem_cons.mp hslot with rfl | hslot
        · refine (hrest.other b fun slot hslot => hne slot hslot).trans ?_
          exact Table.modify_sequences_self
        · rw [hrest.claimed slot hslot, hsame slot hslot]
      · intro i hi
        refine (hrest.other i (List.forall_mem_cons.mp hi).2).trans ?_
        exact Table.modify_sequences_of_ne (hi _ List.mem_cons_self).symm

theorem assemble_length_le (limit : Nat) (table : Table) : (assemble limit table).2.length ≤ limit := by
  induction limit generalizing table with
  | zero => simp [assemble]
  | succ limit ih =>
    unfold assemble
    split
    · simp
    · simpa using ih _

theorem largestWithin_le (budget scan : UInt64) (cap : Nat) (hcap : 0 < cap) : largestWithin budget scan cap ≤ cap := by
  induction cap with
  | zero => omega
  | succ n ih =>
    cases n with
    | zero => simp [largestWithin]
    | succ n =>
      unfold largestWithin
      split_ifs
      · omega
      · omega

theorem batchCap_bounds (policy : Option Policy) (depth : UInt32) :
    0 < batchCap policy depth ∧ batchCap policy depth ≤ batchMax := by
  unfold batchCap batchMax
  dsimp only
  split_ifs <;> omega

theorem chooseBatch_le (policy : Option Policy) (contextTokens depth : UInt32) :
    chooseBatch policy contextTokens depth ≤ batchMax :=
  (largestWithin_le _ _ _ (batchCap_bounds policy depth).1).trans (batchCap_bounds policy depth).2

theorem schedule_ok {policy : Option Policy} (h : schedule table policy = .ok (after, slots)) :
    Assembled table after slots ∧ slots ≠ [] ∧ slots.length ≤ batchMax := by
  unfold schedule at h
  dsimp only at h
  split_ifs at h with hdepth hnone hempty
  cases h
  set limit := min (chooseBatch policy (worstContext table) table.depth) table.candidates.length with hlimit
  have hassembled := assemble_assembled limit table
  refine ⟨?_, hempty, ?_⟩
  · exact ⟨hassembled.count_eq, hassembled.depth_eq, hassembled.nodup, hassembled.live,
      hassembled.candidate, hassembled.copied, hassembled.claimed, hassembled.other⟩
  · have hlength := assemble_length_le limit table
    have hchoose := chooseBatch_le policy (worstContext table) table.depth
    omega

end Schedule

end DecodeBatch

end FlashGordon
