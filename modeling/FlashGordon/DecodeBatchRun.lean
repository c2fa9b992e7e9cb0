import FlashGordon.DecodeBatchStep
import FlashGordon.Runs

/-! Runs of the decode batch: one table, any number of step objects, and the eight operations in any
order. Beside the program's own state a run records, for each step object, the ids of the sequences its
last accepted begin scheduled; no operation reads that record. A step addresses its sequences by table
cell, so everything rests on the cells of open steps staying where they are: the operations keep them
there except for a leave that compacts an in-flight last entry. -/

namespace FlashGordon.DecodeBatch

open Runs Scatter Function

inductive Op where
  | enter (sequenceId : UInt64) (stateSlot : UInt32)
  | leave (sequenceId : UInt64)
  | ready (sequenceId now : UInt64)
  | frontier (sequenceId : UInt64) (committedTokens tokenIndex : UInt32) (position : Option Positions)
  | stepBegin (j : Nat) (policy : Option Policy) (ops : Option Ops)
  | stepAdvance (j : Nat) (slot : UInt32) (outcome : Option Outcome)
  | stepCommit (j : Nat)
  | stepRestore (j : Nat)

structure System where
  table : Table
  steps : Nat → Step := fun _ => {}
  calls : List HookCall := []
  scheduled : Nat → List UInt64 := fun _ => []

namespace System

def withTable (s : System) : Except Error Table → System
  | .ok table => { s with table := table }
  | .error _ => s

def withReply (s : System) (j : Nat) (reply : Reply) : System :=
  { s with table := reply.table, steps := Function.update s.steps j reply.step, calls := reply.calls }

def recordBegin (s : System) (j : Nat) (reply : Reply) : Nat → List UInt64 :=
  match reply.status with
  | .ok () =>
    Function.update s.scheduled j
      (reply.step.entries.map fun entry => (s.table.sequences entry.index).sequenceId)
  | .error _ => s.scheduled

/-- One operation; undefined when it calls a null hook. -/
def take (s : System) : Op → Option System
  | .enter sequenceId stateSlot => some (s.withTable (sequenceEnter s.table sequenceId stateSlot))
  | .leave sequenceId => some (s.withTable (sequenceLeave s.table sequenceId))
  | .ready sequenceId now => some (s.withTable (sequenceReady s.table sequenceId now))
  | .frontier sequenceId committedTokens tokenIndex position =>
    some (s.withTable (sequenceFrontier s.table sequenceId committedTokens tokenIndex position))
  | .stepBegin j policy ops =>
    (stepBegin s.table (s.steps j) s.calls policy ops).map fun reply =>
      { s.withReply j reply with scheduled := s.recordBegin j reply }
  | .stepAdvance j slot outcome =>
    some (match stepAdvance (s.steps j) slot outcome with
      | .ok step => { s with steps := Function.update s.steps j step }
      | .error _ => s)
  | .stepCommit j => some (s.withReply j (stepCommit s.table (s.steps j) s.calls))
  | .stepRestore j => some (s.withReply j (stepRestore s.table (s.steps j) s.calls))

def Reached (depth : UInt32) (ops : List Op) (s : System) : Prop :=
  ∃ table, tableInit depth = .ok table ∧ exec take { table := table } ops = some s

end System

def lookup (table : Table) (sequenceId : UInt64) : Option Sequence :=
  (tableFind table sequenceId).map table.sequences

/-- What a successful commit of step `j` must do to the records: the sequence scheduled in each slot
advances by one token with the outcome recorded for that slot, and every other record stays. -/
structure CommitExact (s : System) (j : Nat) (after : Table) : Prop where
  advanced : ∀ (k : Nat) (sequenceId : UInt64), (s.scheduled j)[k]? = some sequenceId →
    ∃ entry sequence, (s.steps j).entries[k]? = some entry ∧ lookup s.table sequenceId = some sequence ∧
      lookup after sequenceId = some (sequence.advanced entry.outcome)
  unchanged : ∀ sequenceId, sequenceId ∉ s.scheduled j → lookup after sequenceId = lookup s.table sequenceId

/-- A leave that is accepted does not move an in-flight entry into the gap it leaves. -/
def MovesNoFlight (s : System) : Op → Prop
  | .leave sequenceId =>
    ∀ i last : Index, tableFind s.table sequenceId = some i → (s.table.sequences i).inFlight = false →
      last.val + 1 = s.table.count → i ≠ last → (s.table.sequences last).inFlight = false
  | _ => True

structure Holds (table : Table) (cells : List Index) (ids : List UInt64) : Prop where
  nodup : cells.Nodup
  live : ∀ i ∈ cells, i.val < table.count
  inFlight : ∀ i ∈ cells, (table.sequences i).inFlight = true
  ids_eq : cells.map (fun i => (table.sequences i).sequenceId) = ids

/-- The invariant: ids are distinct, every open step holds its cells, and two open steps share none. -/
structure Good (s : System) : Prop where
  ids : s.table.IdsDistinct
  holds : ∀ j, (s.steps j).active = true → Holds s.table (s.steps j).cells (s.scheduled j)
  disjoint : ∀ j k, j ≠ k → (s.steps j).active = true → (s.steps k).active = true →
    ∀ i ∈ (s.steps j).cells, i ∉ (s.steps k).cells

theorem Holds.frame {table after : Table} {cells : List Index} {ids : List UInt64}
    (h : Holds table cells ids)
    (hframe : ∀ i ∈ cells, i.val < after.count ∧ after.sequences i = table.sequences i) :
    Holds after cells ids := by
  refine ⟨h.nodup, fun i hi => (hframe i hi).1, fun i hi => ?_, ?_⟩
  · rw [(hframe i hi).2]
    exact h.inFlight i hi
  · rw [← h.ids_eq]
    exact List.map_congr_left fun i hi => by rw [(hframe i hi).2]

def KeepsFlights (table after : Table) : Prop :=
  ∀ i : Index, i.val < table.count → (table.sequences i).inFlight = true →
    i.val < after.count ∧ after.sequences i = table.sequences i

theorem Good.setTable {s : System} {after : Table} (h : Good s) (hids : after.IdsDistinct)
    (hkeeps : KeepsFlights s.table after) : Good { s with table := after } where
  ids := hids
  holds := fun j hj => (h.holds j hj).frame fun i hi =>
    hkeeps i ((h.holds j hj).live i hi) ((h.holds j hj).inFlight i hi)
  disjoint := h.disjoint

section TableOps

variable {table after : Table} {sequenceId now : UInt64} {stateSlot : UInt32} {i : Index}

theorem keepsFlights_modify {f : Sequence → Sequence} (hi : (table.sequences i).inFlight = false) :
    KeepsFlights table (table.modify i f) := by
  intro j hj hflight
  have hne : j ≠ i := by
    rintro rfl
    simp [hi] at hflight
  exact ⟨hj, Table.modify_sequences_of_ne hne⟩

theorem sequenceEnter_keepsFlights (henter : sequenceEnter table sequenceId stateSlot = .ok after) :
    KeepsFlights table after := by
  obtain ⟨_, _, _, _, _, _, hcount, _⟩ := sequenceEnter_ok henter
  intro j hj _
  rcases sequenceEnter_cell henter j with ⟨heq, _⟩ | ⟨hsame, _⟩
  · exact absurd heq (Nat.ne_of_lt hj)
  · exact ⟨by omega, hsame⟩

theorem compact_keepsFlights (hi : i.val < table.count) (hidle : (table.sequences i).inFlight = false)
    (hlast : ∀ last : Index, last.val + 1 = table.count → i ≠ last →
      (table.sequences last).inFlight = false) : KeepsFlights table (table.compact i) := by
  intro j hj hflight
  have hji : j ≠ i := by
    rintro rfl
    simp [hidle] at hflight
  have hjlast : j.val + 1 ≠ table.count := by
    intro heq
    rw [hlast j heq hji.symm] at hflight
    cases hflight
  have hcount : (table.compact i).count = table.count - 1 := rfl
  have hlive : j.val < (table.compact i).count := by omega
  obtain ⟨k, _, hsame, ⟨_, rfl⟩ | ⟨rfl, _⟩⟩ := compact_cell hi j hlive
  · exact ⟨hlive, hsame⟩
  · exact absurd rfl hji

end TableOps

section Steps

variable {s : System} {j : Nat} {reply : Reply}

theorem Good.withTable {result : Except Error Table} (h : Good s)
    (hok : ∀ after, result = .ok after → after.IdsDistinct ∧ KeepsFlights s.table after) :
    Good (s.withTable result) := by
  cases result with
  | error err => exact h
  | ok after => exact h.setTable (hok after rfl).1 (hok after rfl).2

variable {table : Table}

theorem Good.setStep {step : Step} {calls : List HookCall} {ids : Nat → List UInt64}
    (h : Good s) (hids : table.IdsDistinct)
    (hother : ∀ k, k ≠ j → (s.steps k).active = true → ∀ i ∈ (s.steps k).cells,
      (i.val < table.count ∧ table.sequences i = s.table.sequences i) ∧
        (step.active = true → i ∉ step.cells))
    (hrecord : ∀ k, k ≠ j → ids k = s.scheduled k)
    (hself : step.active = true → Holds table step.cells (ids j)) :
    Good ⟨table, update s.steps j step, calls, ids⟩ where
  ids := hids
  holds := fun k hk => by
    dsimp only at hk ⊢
    by_cases hkj : k = j
    · subst hkj
      rw [update_self] at hk ⊢
      exact hself hk
    · rw [update_of_ne hkj] at hk ⊢
      rw [hrecord k hkj]
      exact (h.holds k hk).frame fun i hi => (hother k hkj hk i hi).1
  disjoint := fun k l hkl hk hl i hi => by
    dsimp only at hk hl hi ⊢
    by_cases hkj : k = j
    · subst hkj
      rw [update_self] at hk hi
      rw [update_of_ne hkl.symm] at hl ⊢
      exact fun hmem => (hother l hkl.symm hl i hmem).2 hk hi
    · rw [update_of_ne hkj] at hk hi
      by_cases hlj : l = j
      · subst hlj
        rw [update_self] at hl ⊢
        exact (hother k hkj hk i hi).2 hl
      · rw [update_of_ne hlj] at hl ⊢
        exact h.disjoint k l hkl hk hl i hi

theorem Good.refused (h : Good s) (hrefused : Refused s.table (s.steps j) reply) :
    Good { s.withReply j reply with scheduled := s.recordBegin j reply } := by
  have hrecord : s.recordBegin j reply = s.scheduled := by
    unfold System.recordBegin
    split
    next hok =>
      exact absurd hok hrefused.status_ne
    · rfl
  have hsame : ∀ i, reply.table.sequences i = s.table.sequences i := fun i =>
    congrFun hrefused.sequences_eq i
  rw [hrecord]
  have hids : reply.table.IdsDistinct := h.ids.congr hrefused.count_eq fun i => by rw [hsame]
  refine h.setStep hids ?_ (fun _ _ => rfl) ?_
  · intro k hk hactive i hi
    refine ⟨⟨hrefused.count_eq ▸ (h.holds k hactive).live i hi, hsame i⟩, fun hopen => ?_⟩
    rcases hrefused.step_eq with hstep | hidle
    · rw [hstep] at hopen ⊢
      exact h.disjoint k j hk hactive hopen i hi
    · rw [hidle] at hopen
      cases hopen
  · intro hopen
    rcases hrefused.step_eq with hstep | hidle
    · rw [hstep] at hopen ⊢
      exact (h.holds j hopen).frame fun i hi =>
        ⟨hrefused.count_eq ▸ (h.holds j hopen).live i hi, hsame i⟩
    · rw [hidle] at hopen
      cases hopen

variable {slots : List Slot}

theorem Assembled.idle {table after : Table} (h : Assembled table after slots)
    {i : Index} (hi : i ∈ slots.map Slot.sequence) : (table.sequences i).inFlight = false := by
  obtain ⟨slot, hslot, rfl⟩ := List.mem_map.mp hi
  exact (h.candidate slot hslot).2

theorem Assembled.keepsFlights {table after : Table} (h : Assembled table after slots) : KeepsFlights table after := by
  intro i hi hflight
  refine ⟨h.count_eq ▸ hi, h.other i fun slot hslot heq => ?_⟩
  have hidle := h.idle (List.mem_map.mpr ⟨slot, hslot, heq⟩)
  rw [hidle] at hflight
  cases hflight

variable {policy : Option Policy} {ops : Option Ops}

theorem Opened.cells_eq (h : Opened table policy ops reply slots) : reply.step.cells = slots.map Slot.sequence := by
  rw [Step.cells, h.entries_eq, map_snapshotEntry_index]

theorem Opened.holds (h : Opened table policy ops reply slots) : Holds reply.table reply.step.cells
      (reply.step.entries.map fun entry => (table.sequences entry.index).sequenceId) := by
  have hcells := h.cells_eq
  refine ⟨hcells ▸ h.assembled.nodup, fun i hi => ?_, fun i hi => ?_, ?_⟩
  · obtain ⟨slot, hslot, rfl⟩ := List.mem_map.mp (hcells ▸ hi)
    exact h.assembled.count_eq ▸ h.assembled.live slot hslot
  · obtain ⟨slot, hslot, rfl⟩ := List.mem_map.mp (hcells ▸ hi)
    rw [h.assembled.claimed slot hslot]
    rfl
  · rw [Step.cells, List.map_map]
    exact List.map_congr_left fun entry _ => h.assembled.sequenceId_eq entry.index

theorem Good.opened (h : Good s) (hopened : Opened s.table policy ops reply slots) :
    Good { s.withReply j reply with scheduled := s.recordBegin j reply } := by
  have hrecord : s.recordBegin j reply = update s.scheduled j
      (reply.step.entries.map fun entry => (s.table.sequences entry.index).sequenceId) := by
    simp [System.recordBegin, hopened.status_eq]
  rw [hrecord]
  refine h.setStep ?_ ?_ (fun k hk => update_of_ne hk _ _) ?_
  · exact h.ids.congr hopened.assembled.count_eq hopened.assembled.sequenceId_eq
  · intro k _ hactive i hi
    have hflight := (h.holds k hactive).inFlight i hi
    refine ⟨hopened.assembled.keepsFlights i ((h.holds k hactive).live i hi) hflight, fun _ hmem => ?_⟩
    rw [hopened.assembled.idle (hopened.cells_eq ▸ hmem)] at hflight
    cases hflight
  · intro _
    rw [update_self]
    exact hopened.holds

theorem Closed.sequenceId_eq {step : Step} {f : Entry → Sequence → Sequence} (h : Closed table step f reply)
    (hf : ∀ entry sequence, (f entry sequence).sequenceId = sequence.sequenceId) (i : Index) :
    (reply.table.sequences i).sequenceId = (table.sequences i).sequenceId := by
  rw [h.sequences_eq]
  exact scatter_forall (P := fun i sequence => sequence.sequenceId = (table.sequences i).sequenceId)
    (fun _ => rfl) (fun entry _ sequence heq => (hf entry sequence).trans heq) i

theorem Good.closed {f : Entry → Sequence → Sequence} (h : Good s) (hactive : (s.steps j).active = true)
    (hclosed : Closed s.table (s.steps j) f reply)
    (hf : ∀ entry sequence, (f entry sequence).sequenceId = sequence.sequenceId) : Good (s.withReply j reply) := by
  refine h.setStep (h.ids.congr hclosed.count_eq (hclosed.sequenceId_eq hf)) ?_ (fun _ _ => rfl) ?_
  · intro k hk hopen i hi
    refine ⟨⟨hclosed.count_eq ▸ (h.holds k hopen).live i hi, ?_⟩, fun hself => ?_⟩
    · rw [hclosed.sequences_eq]
      refine scatter_of_not_mem fun entry hentry heq => ?_
      exact h.disjoint k j hk hopen hactive i hi (List.mem_map.mpr ⟨entry, hentry, heq⟩)
    · rw [hclosed.idle] at hself
      cases hself
  · intro hself
    rw [hclosed.idle] at hself
    cases hself

theorem Good.afterRestore (h : Good s) (calls : List HookCall) :
    Good (s.withReply j (stepRestore s.table (s.steps j) calls)) := by
  by_cases hactive : (s.steps j).active = true
  · exact h.closed hactive (stepRestore_closed _ _ hactive) fun _ _ => rfl
  · rw [stepRestore_inactive (by simpa using hactive), System.withReply, update_eq_self]
    exact ⟨h.ids, h.holds, h.disjoint⟩

theorem Good.afterCommit (h : Good s) : Good (s.withReply j (stepCommit s.table (s.steps j) s.calls)) := by
  rcases stepCommit_cases s.table (s.steps j) s.calls with
    ⟨err, heq⟩ | ⟨_, _, made, htable, hstep, hcalls⟩ | ⟨hactive, _, hclosed⟩
  · rw [heq, System.withReply, update_eq_self]
    exact ⟨h.ids, h.holds, h.disjoint⟩
  · have hrestored := h.afterRestore (j := j) made
    rw [System.withReply] at hrestored ⊢
    rwa [htable, hstep, hcalls]
  · exact h.closed hactive hclosed fun _ _ => rfl

theorem Good.afterAdvance {slot : UInt32} {outcome : Option Outcome} {step : Step} (h : Good s)
    (hok : stepAdvance (s.steps j) slot outcome = .ok step) :
    Good { s with steps := update s.steps j step } := by
  obtain ⟨hactive, recorded, _, rfl⟩ := stepAdvance_ok hok
  have hcells : Step.cells { s.steps j with
      entries := (s.steps j).entries.modify slot.toNat fun entry => { entry with outcome := recorded } } =
        (s.steps j).cells :=
    map_modify_eq (g := Entry.index) (by intro entry; rfl) _ _
  refine h.setStep h.ids (fun k hk hopen i hi => ?_) (fun _ _ => rfl) fun _ => ?_
  · rw [hcells]
    exact ⟨⟨(h.holds k hopen).live i hi, rfl⟩, fun _ => h.disjoint k j hk hopen hactive i hi⟩
  · rw [hcells]
    exact h.holds j hactive

theorem Good.take {op : Op} {after : System} (h : Good s) (hmoves : MovesNoFlight s op)
    (htake : s.take op = some after) : Good after := by
  cases op with
  | enter sequenceId stateSlot =>
    cases htake
    exact h.withTable fun after hok =>
      ⟨sequenceEnter_idsDistinct h.ids hok, sequenceEnter_keepsFlights hok⟩
  | leave sequenceId =>
    cases htake
    refine h.withTable fun after hok => ?_
    obtain ⟨i, hfind, hidle, rfl⟩ := sequenceLeave_ok hok
    have hlive := (tableFind_eq_some hfind).2.1
    exact ⟨compact_idsDistinct h.ids hlive, compact_keepsFlights hlive hidle fun last hlast hne =>
      hmoves i last hfind hidle hlast hne⟩
  | ready sequenceId now =>
    cases htake
    refine h.withTable fun after hok => ?_
    obtain ⟨i, _, hidle, rfl⟩ := sequenceReady_ok hok
    exact ⟨h.ids.congr rfl (Table.modify_keeps _ fun _ => rfl), keepsFlights_modify hidle⟩
  | frontier sequenceId committedTokens tokenIndex position =>
    cases htake
    refine h.withTable fun after hok => ?_
    obtain ⟨i, _, _, hidle, _, rfl⟩ := sequenceFrontier_ok hok
    exact ⟨h.ids.congr rfl (Table.modify_keeps _ fun _ => rfl), keepsFlights_modify hidle⟩
  | stepBegin j policy ops =>
    obtain ⟨reply, hreply, rfl⟩ := Option.map_eq_some_iff.mp htake
    rcases stepBegin_cases hreply with hrefused | ⟨_, slots, hopened⟩
    · exact h.refused hrefused
    · exact h.opened hopened
  | stepAdvance j slot outcome =>
    cases htake
    split
    next step hok =>
      exact h.afterAdvance hok
    · exact h
  | stepCommit j =>
    cases htake
    exact h.afterCommit
  | stepRestore j =>
    cases htake
    exact h.afterRestore s.calls

end Steps

variable {table : Table}

theorem tableInit_ok {depth : UInt32} (h : tableInit depth = .ok table) :
    0 < depth.toNat ∧ depth.toNat ≤ batchMax ∧ table = { depth := depth } := by
  unfold tableInit at h
  split_ifs at h with hdepth
  cases h
  exact ⟨by omega, by omega, rfl⟩

theorem good_init {depth : UInt32} (h : tableInit depth = .ok table) : Good { table := table } := by
  obtain ⟨_, _, rfl⟩ := tableInit_ok h
  refine ⟨⟨fun i hi => absurd hi (Nat.not_lt_zero _), fun i j hi => absurd hi (Nat.not_lt_zero _)⟩, ?_, ?_⟩
  · intro j hactive
    cases hactive
  · intro j k _ hactive
    cases hactive

theorem Closed.tableFind_eq {step : Step} {f : Entry → Sequence → Sequence} {reply : Reply}
    (h : Closed table step f reply)
    (hf : ∀ entry sequence, (f entry sequence).sequenceId = sequence.sequenceId) (sequenceId : UInt64) :
    tableFind reply.table sequenceId = tableFind table sequenceId :=
  tableFind_congr h.count_eq (fun i _ => h.sequenceId_eq hf i) sequenceId

theorem Good.commitExact {s : System} {j : Nat} (h : Good s)
    (hok : (stepCommit s.table (s.steps j) s.calls).status = .ok ()) :
    CommitExact s j (stepCommit s.table (s.steps j) s.calls).table := by
  rcases stepCommit_cases s.table (s.steps j) s.calls with
    ⟨err, heq⟩ | ⟨_, hfailed, _⟩ | ⟨hactive, _, hclosed⟩
  · rw [heq] at hok
    cases hok
  · exact absurd hok hfailed
  have hholds := h.holds j hactive
  have hfind := hclosed.tableFind_eq (fun _ _ => rfl)
  constructor
  · intro k sequenceId hk
    rw [← hholds.ids_eq, Step.cells, List.map_map, List.getElem?_map] at hk
    obtain ⟨entry, hentry, rfl⟩ := Option.map_eq_some_iff.mp hk
    have hmem : entry ∈ (s.steps j).entries := List.mem_of_getElem? hentry
    have hlive := hholds.live entry.index (List.mem_map_of_mem hmem)
    refine ⟨entry, s.table.sequences entry.index, hentry, ?_, ?_⟩
    · rw [lookup, comp_apply, tableFind_live h.ids hlive, Option.map_some]
    · rw [lookup, comp_apply, hfind, tableFind_live h.ids hlive, Option.map_some,
        hclosed.sequences_eq, scatter_of_mem hholds.nodup hmem]
  · intro sequenceId hnot
    rw [lookup, lookup, hfind]
    cases hcell : tableFind s.table sequenceId with
    | none => rfl
    | some i =>
      obtain ⟨_, _, hid⟩ := tableFind_eq_some hcell
      rw [Option.map_some, Option.map_some, hclosed.sequences_eq, scatter_of_not_mem]
      rintro entry hentry rfl
      refine hnot ?_
      rw [← hholds.ids_eq, ← hid]
      exact List.mem_map_of_mem (f := fun i => (s.table.sequences i).sequenceId)
        (List.mem_map_of_mem (f := Entry.index) hentry)

/-- Along every run in which no leave moves an in-flight entry, a successful commit advances exactly
the sequences its begin scheduled, each by one token and with its own slot's outcome. -/
theorem stepCommit_advances_scheduled (depth : UInt32) (table : Table) (ops : List Op) (s : System)
    (j : Nat) (hinit : tableInit depth = .ok table)
    (hmoves : Along System.take MovesNoFlight { table := table } ops)
    (hrun : exec System.take { table := table } ops = some s)
    (hok : (stepCommit s.table (s.steps j) s.calls).status = .ok ()) :
    CommitExact s j (stepCommit s.table (s.steps j) s.calls).table :=
  (exec_invariant (fun _ _ _ hgood hop htake => hgood.take hop htake) (good_init hinit) hmoves
    hrun).commitExact hok

def twoReadyRun : List Op := [.enter 1 0, .enter 2 1, .ready 1 0, .ready 2 1]

/-- One sequence, scheduled alone and advanced once. -/
def soloRun : List Op :=
  [.enter 7 1, .ready 7 1, .stepBegin 0 none none, .stepAdvance 0 0 (some { nextToken := 9 })]

theorem soloRun_commit_advances : ∃ s, exec System.take { table := { depth := 2 } } soloRun = some s ∧
    (stepCommit s.table (s.steps 0) s.calls).status = .ok () ∧
    CommitExact s 0 (stepCommit s.table (s.steps 0) s.calls).table := by
  have hsolo : ∃ s, exec System.take { table := { depth := 2 } } soloRun = some s ∧
      (stepCommit s.table (s.steps 0) s.calls).status = .ok () := by
    refine ⟨_, rfl, ?_⟩
    rfl
  obtain ⟨s, hrun, hok⟩ := hsolo
  have hmoves : ∀ op ∈ soloRun, ∀ s, MovesNoFlight s op := by
    simp [soloRun, MovesNoFlight]
  exact ⟨s, hrun, hok, stepCommit_advances_scheduled 2 { depth := 2 } soloRun s 0 rfl
    (Along.of_forall hmoves _) hrun hok⟩

/-- Sequence 2 is in flight in the last cell when sequence 1 leaves: it moves into the gap, and the
step's cell is given to the entering sequence 3. -/
def movedFlightRun : List Op :=
  [.enter 1 0, .enter 2 1, .ready 2 0, .stepBegin 0 none none, .leave 1, .enter 3 0,
    .stepAdvance 0 0 (some { nextToken := 9 })]

theorem movedFlightRun_commit_not_exact : ∃ s, exec System.take { table := { depth := 2 } } movedFlightRun = some s ∧
      s.scheduled 0 = [2] ∧ (stepCommit s.table (s.steps 0) s.calls).status = .ok () ∧
      ¬ CommitExact s 0 (stepCommit s.table (s.steps 0) s.calls).table := by
  refine ⟨_, rfl, rfl, rfl, fun hexact => ?_⟩
  obtain ⟨entry, sequence, _, hbefore, hafter⟩ := hexact.advanced 0 2 rfl
  have hstays : sequence.tokenIndex = 0 := congrArg Sequence.tokenIndex (Option.some.inj hbefore).symm
  have hmoved : (sequence.advanced entry.outcome).tokenIndex = 0 :=
    congrArg Sequence.tokenIndex (Option.some.inj hafter).symm
  have hnext : sequence.tokenIndex + 1 = 0 := hmoved
  rw [hstays] at hnext
  exact absurd hnext (by decide)

end FlashGordon.DecodeBatch
