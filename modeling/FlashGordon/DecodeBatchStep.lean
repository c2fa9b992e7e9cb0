import FlashGordon.DecodeBatchTable
import FlashGordon.Scatter

/-! The transactional step of the decode batch (`decode_batch.c`): begin, advance, commit, restore and
the device hooks they call. A hook is a nullable function pointer; its answer may depend on every hook
call made before it, which is what its context can remember. Calling a null hook has no behaviour. -/

namespace FlashGordon.DecodeBatch

open Scatter

inductive HookKind where
  | prepare
  | commit
  | restore
  deriving DecidableEq

structure HookCall where
  kind : HookKind
  sequenceId : UInt64
  stateSlot : UInt32
  deriving DecidableEq

abbrev Hook := List HookCall → UInt64 → UInt32 → Except Error Unit

/-- `fg_decode_batch_ops`: every hook is optional. -/
structure Ops where
  prepare : Option Hook := none
  commit : Option Hook := none
  restore : Option Hook := none

structure Outcome where
  valid : Bool := false
  nextToken : UInt32 := 0
  position : Positions := Vector.replicate 4 0
  qsaRecords : QsaRecords := Vector.replicate 48 0
  sampler : SamplerState := {}
  deriving DecidableEq

structure Snapshot where
  sequence : Index
  stateGeneration : UInt64
  samplerGeneration : UInt64
  tokenIndex : UInt32
  position : Positions
  committedTokens : UInt32
  contextTokens : UInt32
  qsaRecords : QsaRecords
  sampler : SamplerState
  deriving DecidableEq

/-- One index of the step's three parallel arrays `batch.slots`, `snapshots` and `outcomes`. A
snapshot is always taken of the slot's own sequence. -/
structure Entry where
  slot : Slot
  snapshot : Snapshot
  outcome : Outcome := {}
  snapshot_sequence : snapshot.sequence = slot.sequence
  deriving DecidableEq

def Entry.index (entry : Entry) : Index := entry.slot.sequence

structure Step where
  active : Bool := false
  entries : List Entry := []
  ops : Option Ops := none
  prepared : Nat := 0

/-- What a step function leaves: the table, the step, the hook calls made so far and its status. -/
structure Reply where
  table : Table
  step : Step
  calls : List HookCall
  status : Except Error Unit

def vocabSize : Nat := 248320

def stepSnapshot (slot : Slot) (sequence : Sequence) : Snapshot where
  sequence := slot.sequence
  stateGeneration := sequence.stateGeneration
  samplerGeneration := sequence.samplerGeneration
  tokenIndex := sequence.tokenIndex
  position := sequence.position
  committedTokens := sequence.committedTokens
  contextTokens := sequence.contextTokens
  qsaRecords := sequence.qsaRecords
  sampler := sequence.sampler

def snapshotEntry (table : Table) (slot : Slot) : Entry where
  slot := slot
  snapshot := stepSnapshot slot (table.sequences slot.sequence)
  snapshot_sequence := rfl

/-- The loops over the slots of a step that rewrite each slot's own sequence. -/
def Table.forSlots (table : Table) (entries : List Entry) (f : Entry → Sequence → Sequence) : Table :=
  { table with sequences := scatter Entry.index f entries table.sequences }

def hookCall (kind : HookKind) (table : Table) (entry : Entry) : HookCall where
  kind := kind
  sequenceId := (table.sequences entry.index).sequenceId
  stateSlot := entry.slot.stateSlot

def stepReleaseSlots (table : Table) (entries : List Entry) (ready : Bool) : Table :=
  table.forSlots entries fun _ sequence => { sequence with inFlight := false, ready := ready }

def prepareLoop (hook : Hook) (table : Table) :
    List Entry → List HookCall → List Entry × List HookCall × Except Error Unit
  | [], calls => ([], calls, .ok ())
  | entry :: rest, calls =>
    let call := hookCall .prepare table entry
    match hook calls call.sequenceId call.stateSlot with
    | .error err => ([], calls ++ [call], .error err)
    | .ok () =>
      let tail := prepareLoop hook table rest (calls ++ [call])
      (entry :: tail.1, tail.2)

/-- The unwinding of a failed prepare: `ops->restore` of every slot already prepared, called without
testing the pointer, answers ignored. -/
def unwindPrepared (restore : Option Hook) (table : Table) (done : List Entry) (calls : List HookCall) :
    Option (List HookCall) :=
  match done, restore with
  | [], _ => some calls
  | _ :: _, none => none
  | _ :: _, some _ => some (calls ++ done.map (hookCall .restore table))

/-- `fg_decode_batch_step_begin`. -/
def stepBegin (table : Table) (step : Step) (calls : List HookCall) (policy : Option Policy)
    (ops : Option Ops) : Option Reply :=
  if step.active then
    some ⟨table, step, calls, .error ⟨.mismatch, "decode batch step is already active"⟩⟩
  else match schedule table policy with
    | .error err => some ⟨table, { ops := ops }, calls, .error err⟩
    | .ok (table, slots) =>
      let entries := slots.map (snapshotEntry table)
      match ops.bind Ops.prepare with
      | none => some ⟨table, { active := true, entries := entries, ops := ops }, calls, .ok ()⟩
      | some prepare =>
        match prepareLoop prepare table entries calls with
        | (done, calls, .error err) =>
          (unwindPrepared (ops.bind Ops.restore) table done calls).map fun calls =>
            ⟨stepReleaseSlots table entries true, {}, calls, .error err⟩
        | (_, calls, .ok ()) =>
          some ⟨table, { active := true, entries := entries, ops := ops, prepared := entries.length },
            calls, .ok ()⟩

/-- `fg_decode_batch_step_advance`. The table is only tested for null. -/
def stepAdvance (step : Step) (slot : UInt32) (outcome : Option Outcome) : Except Error Step :=
  match step.active, outcome with
  | true, some outcome =>
    if step.entries.length ≤ slot.toNat then
      .error ⟨.argument, s!"decode batch slot {slot} is outside the step"⟩
    else if vocabSize ≤ outcome.nextToken.toNat then
      let token := outcome.nextToken
      .error ⟨.format, s!"decode batch slot {slot} token {token} is outside the vocabulary"⟩
    else
      .ok { step with
            entries := step.entries.modify slot.toNat fun entry =>
              { entry with outcome := { outcome with valid := true } } }
  | _, _ => .error ⟨.argument, "invalid decode batch advance"⟩

/-- The restore loop of the hooks: every slot is called, the first failure is kept. -/
def restoreHooks (hook : Hook) (table : Table) :
    List Entry → List HookCall → Except Error Unit → List HookCall × Except Error Unit
  | [], calls, first => (calls, first)
  | entry :: rest, calls, first =>
    let call := hookCall .restore table entry
    let answer := hook calls call.sequenceId call.stateSlot
    let kept := match first with
      | .ok () => answer
      | .error err => .error err
    restoreHooks hook table rest (calls ++ [call]) kept

def Sequence.restored (snapshot : Snapshot) (sequence : Sequence) : Sequence :=
  { sequence with
    stateGeneration := snapshot.stateGeneration
    samplerGeneration := snapshot.samplerGeneration
    tokenIndex := snapshot.tokenIndex
    committedTokens := snapshot.committedTokens
    contextTokens := snapshot.contextTokens
    position := snapshot.position
    qsaRecords := snapshot.qsaRecords
    sampler := snapshot.sampler
    ready := true
    inFlight := false }

/-- `fg_decode_batch_step_restore`. -/
def stepRestore (table : Table) (step : Step) (calls : List HookCall) : Reply :=
  if step.active then
    let hooked := match step.ops.bind Ops.restore with
      | some hook => restoreHooks hook table step.entries calls (.ok ())
      | none => (calls, .ok ())
    { table :=
        { table.forSlots step.entries fun entry => Sequence.restored entry.snapshot with restored := true }
      step :=
        { step with
          active := false
          entries := step.entries.map fun entry => { entry with outcome := {} } }
      calls := hooked.1
      status := hooked.2 }
  else ⟨table, step, calls, .ok ()⟩

/-- The acceptance loop of a commit: every slot has an outcome and has not moved since its snapshot. -/
def commitCheck (table : Table) : Nat → List Entry → Except Error Unit
  | _, [] => .ok ()
  | slot, entry :: rest =>
    let sequence := table.sequences entry.snapshot.sequence
    if !entry.outcome.valid then .error ⟨.mismatch, s!"decode batch slot {slot} has no outcome"⟩
    else if sequence.stateGeneration ≠ entry.snapshot.stateGeneration ∨
        sequence.samplerGeneration ≠ entry.snapshot.samplerGeneration then
      let sequenceId := sequence.sequenceId
      .error ⟨.mismatch, s!"decode batch sequence {sequenceId} moved during the step"⟩
    else commitCheck table (slot + 1) rest

def commitHooks (hook : Hook) (table : Table) :
    List Entry → List HookCall → List HookCall × Except Error Unit
  | [], calls => (calls, .ok ())
  | entry :: rest, calls =>
    let call := hookCall .commit table entry
    match hook calls call.sequenceId call.stateSlot with
    | .error err => (calls ++ [call], .error err)
    | .ok () => commitHooks hook table rest (calls ++ [call])

def Sequence.advanced (outcome : Outcome) (sequence : Sequence) : Sequence :=
  { sequence with
    committedTokens := sequence.committedTokens + 1
    contextTokens := sequence.contextTokens + 1
    tokenIndex := sequence.tokenIndex + 1
    position := outcome.position
    qsaRecords := outcome.qsaRecords
    sampler := outcome.sampler
    samplerGeneration := sequence.samplerGeneration + 1
    stateGeneration := sequence.stateGeneration + 1
    steps := sequence.steps + 1
    ready := false
    inFlight := false }

/-- `fg_decode_batch_step_commit`. -/
def stepCommit (table : Table) (step : Step) (calls : List HookCall) : Reply :=
  if !step.active then ⟨table, step, calls, .error ⟨.argument, "invalid decode batch commit"⟩⟩
  else match commitCheck table 0 step.entries with
    | .error err => ⟨table, step, calls, .error err⟩
    | .ok () =>
      let hooked := match step.ops.bind Ops.commit with
        | some hook => commitHooks hook table step.entries calls
        | none => (calls, .ok ())
      match hooked with
      | (calls, .error err) =>
        let restored := stepRestore table step calls
        match restored.status with
        | .ok () => { restored with status := .error err }
        | .error _ => restored
      | (calls, .ok ()) =>
        { table :=
            { table.forSlots step.entries fun entry => Sequence.advanced entry.outcome with
              step := table.step + 1
              restored := false }
          step := { step with active := false }
          calls := calls
          status := .ok () }

section Restored

variable {table after : Table} {slots : List Slot}

def Step.cells (step : Step) : List Index := step.entries.map Entry.index

@[simp] theorem snapshotEntry_index (slot : Slot) : (snapshotEntry table slot).index = slot.sequence := rfl

theorem map_snapshotEntry_index (slots : List Slot) :
    (slots.map (snapshotEntry table)).map Entry.index = slots.map Slot.sequence := by
  rw [List.map_map]
  rfl

theorem Sequence.released_claimed {sequence : Sequence} (h : sequence.Candidate) :
    { sequence.claimed with inFlight := false, ready := true } = sequence := by
  obtain ⟨hready, hflight⟩ := h
  cases sequence
  simp_all [Sequence.claimed]

theorem Sequence.restored_claimed {sequence : Sequence} (slot : Slot) (h : sequence.Candidate) :
    sequence.claimed.restored (stepSnapshot slot sequence.claimed) = sequence :=
  Sequence.released_claimed h

theorem Assembled.undo (h : Assembled table after slots) {entries : List Entry}
    (hcells : entries.map Entry.index = slots.map Slot.sequence) {f : Entry → Sequence → Sequence}
    (hf : ∀ entry ∈ entries, f entry (after.sequences entry.index) = table.sequences entry.index) :
    (after.forSlots entries f).sequences = table.sequences := by
  refine scatter_eq_of_undo (hcells ▸ h.nodup) hf fun i hi => h.other i fun slot hslot heq => ?_
  have hmem : i ∈ entries.map Entry.index := hcells ▸ List.mem_map.mpr ⟨slot, hslot, heq⟩
  obtain ⟨entry, hentry, hindex⟩ := List.mem_map.mp hmem
  exact hi entry hentry hindex

theorem stepReleaseSlots_assembled (h : Assembled table after slots) :
    (stepReleaseSlots after (slots.map (snapshotEntry after)) true).sequences = table.sequences := by
  refine h.undo (map_snapshotEntry_index slots) fun entry hentry => ?_
  obtain ⟨slot, hslot, rfl⟩ := List.mem_map.mp hentry
  rw [snapshotEntry_index, h.claimed slot hslot]
  exact Sequence.released_claimed (h.candidate slot hslot)

end Restored

section Cases

variable {table : Table} {step : Step} {calls : List HookCall} {policy : Option Policy}
  {ops : Option Ops} {reply : Reply}

structure Opened (table : Table) (policy : Option Policy) (ops : Option Ops) (reply : Reply)
    (slots : List Slot) : Prop where
  schedule_eq : schedule table policy = .ok (reply.table, slots)
  assembled : Assembled table reply.table slots
  slots_ne : slots ≠ []
  length_le : slots.length ≤ batchMax
  active : reply.step.active = true
  entries_eq : reply.step.entries = slots.map (snapshotEntry reply.table)
  ops_eq : reply.step.ops = ops
  status_eq : reply.status = .ok ()

/-- A refused begin: the records, their number and the depth are those before it, and it opens no
step. -/
structure Refused (table : Table) (step : Step) (reply : Reply) : Prop where
  sequences_eq : reply.table.sequences = table.sequences
  count_eq : reply.table.count = table.count
  depth_eq : reply.table.depth = table.depth
  step_eq : reply.step = step ∨ reply.step.active = false
  status_ne : reply.status ≠ .ok ()

theorem stepBegin_cases (h : stepBegin table step calls policy ops = some reply) :
    Refused table step reply ∨
      step.active = false ∧ ∃ slots, Opened table policy ops reply slots := by
  unfold stepBegin at h
  split_ifs at h with hactive
  · cases h
    exact .inl ⟨rfl, rfl, rfl, .inl rfl, by simp⟩
  have hidle : step.active = false := by simpa using hactive
  split at h
  · cases h
    exact .inl ⟨rfl, rfl, rfl, .inr rfl, by simp⟩
  rename_i after slots hschedule
  obtain ⟨hassembled, hne, hle⟩ := schedule_ok hschedule
  dsimp only at h
  split at h
  · cases h
    exact .inr ⟨hidle, slots, hschedule, hassembled, hne, hle, rfl, rfl, rfl, rfl⟩
  split at h
  · obtain ⟨unwound, _, rfl⟩ := Option.map_eq_some_iff.mp h
    exact .inl ⟨stepReleaseSlots_assembled hassembled, hassembled.count_eq, hassembled.depth_eq, .inr rfl, by simp⟩
  · cases h
    exact .inr ⟨hidle, slots, hschedule, hassembled, hne, hle, rfl, rfl, rfl, rfl⟩

theorem stepAdvance_ok {slot : UInt32} {outcome : Option Outcome} {after : Step}
    (h : stepAdvance step slot outcome = .ok after) :
    step.active = true ∧ ∃ recorded, slot.toNat < step.entries.length ∧
      after = { step with entries := step.entries.modify slot.toNat fun entry =>
        { entry with outcome := recorded } } := by
  unfold stepAdvance at h
  split at h
  next recorded hactive =>
    split_ifs at h with hslot
    cases h
    exact ⟨hactive, _, Nat.lt_of_not_le hslot, rfl⟩
  · cases h

/-- Closing a step: its slots' records are rewritten by `f`, one after another, and the step is idle
afterwards. -/
structure Closed (table : Table) (step : Step) (f : Entry → Sequence → Sequence) (reply : Reply) :
    Prop where
  sequences_eq : reply.table.sequences = scatter Entry.index f step.entries table.sequences
  count_eq : reply.table.count = table.count
  depth_eq : reply.table.depth = table.depth
  idle : reply.step.active = false

theorem stepRestore_inactive (h : step.active = false) :
    stepRestore table step calls = ⟨table, step, calls, .ok ()⟩ := by
  simp [stepRestore, h]

theorem stepRestore_closed (table : Table) (calls : List HookCall) (h : step.active = true) :
    Closed table step (fun entry => Sequence.restored entry.snapshot) (stepRestore table step calls) := by
  unfold stepRestore
  rw [if_pos h]
  exact ⟨rfl, rfl, rfl, rfl⟩

theorem stepCommit_cases (table : Table) (step : Step) (calls : List HookCall) :
    (∃ err, stepCommit table step calls = ⟨table, step, calls, .error err⟩) ∨
      (step.active = true ∧ (stepCommit table step calls).status ≠ .ok () ∧
        ∃ made, (stepCommit table step calls).table = (stepRestore table step made).table ∧
          (stepCommit table step calls).step = (stepRestore table step made).step ∧
          (stepCommit table step calls).calls = (stepRestore table step made).calls) ∨
      (step.active = true ∧ (stepCommit table step calls).status = .ok () ∧
        Closed table step (fun entry => Sequence.advanced entry.outcome) (stepCommit table step calls)) := by
  unfold stepCommit
  split_ifs with hactive
  · exact .inl ⟨_, rfl⟩
  have hopen : step.active = true := by simpa using hactive
  split
  · exact .inl ⟨_, rfl⟩
  dsimp only
  split
  next made err _ =>
    refine .inr (.inl ⟨hopen, ?_⟩)
    split
    · exact ⟨by simp, made, rfl, rfl, rfl⟩
    next failed hfailed =>
      exact ⟨by simp [hfailed], made, rfl, rfl, rfl⟩
  · exact .inr (.inr ⟨hopen, rfl, rfl, rfl, rfl, rfl⟩)

end Cases

end FlashGordon.DecodeBatch
