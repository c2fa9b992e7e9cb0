import FlashGordon.DecodeBatchRun

/-! The decode batch step as a transaction: whatever closes a step other than a successful commit gives
every record back and undoes each prepared slot once on the device. The one exception is the unwinding
of a failed prepare, which calls the restore hook without testing that there is one. -/

namespace FlashGordon.DecodeBatch

open Runs Scatter List

def SameRecords (table after : Table) : Prop :=
  after.sequences = table.sequences ∧ after.count = table.count

def slotCall (kind : HookKind) (table : Table) (slot : Slot) : HookCall where
  kind := kind
  sequenceId := (table.sequences slot.sequence).sequenceId
  stateSlot := slot.stateSlot

/-- The hook accepts the first `k` of the pending calls and fails on the next one. -/
def FailsAt (hook : Hook) : List HookCall → List HookCall → Nat → Prop
  | _, [], _ => False
  | calls, call :: _, 0 => hook calls call.sequenceId call.stateSlot ≠ .ok ()
  | calls, call :: rest, k + 1 =>
    hook calls call.sequenceId call.stateSlot = .ok () ∧ FailsAt hook (calls ++ [call]) rest k

/-- Among the calls made since `before`, the restore calls are exactly the expected ones, in order. -/
def RestoresOnce (before after expected : List HookCall) : Prop :=
  ∃ made, after = before ++ made ∧ made.filter (fun call => call.kind = .restore) = expected

def restoreCalls (ops : Option Ops) (table : Table) (slots : List Slot) : List HookCall :=
  if (ops.bind Ops.restore).isSome then slots.map (slotCall .restore table) else []

/-- Any number of advance calls, accepted or rejected. -/
def advanceAll (step : Step) : List (UInt32 × Option Outcome) → Step
  | [] => step
  | (slot, outcome) :: rest =>
    match stepAdvance step slot outcome with
    | .ok next => advanceAll next rest
    | .error _ => advanceAll step rest

/-- The transaction law of a step begun on `table` with `policy` and `ops`. -/
structure Transactional (table : Table) (calls : List HookCall) (policy : Option Policy)
    (ops : Option Ops) : Prop where
  /-- A prepare that fails at slot `k` returns, with every record as before and the slots prepared so
  far restored once each. -/
  prepare_failed : ∀ (step : Step) (prepare : Hook) (after : Table) (slots : List Slot) (k : Nat),
    step.active = false → ops.bind Ops.prepare = some prepare →
    schedule table policy = .ok (after, slots) →
    FailsAt prepare calls (slots.map (slotCall .prepare table)) k →
    ∃ reply, stepBegin table step calls policy ops = some reply ∧ reply.status ≠ .ok () ∧
      SameRecords table reply.table ∧
      RestoresOnce calls reply.calls (restoreCalls ops table (slots.take k))
  /-- An opened step that is advanced in any way and then restored. -/
  restored : ∀ (step : Step) (reply : Reply) (after : Table) (slots : List Slot)
    (advances : List (UInt32 × Option Outcome)),
    stepBegin table step calls policy ops = some reply → reply.status = .ok () →
    schedule table policy = .ok (after, slots) →
    let closed := stepRestore reply.table (advanceAll reply.step advances) reply.calls
    SameRecords table closed.table ∧ RestoresOnce reply.calls closed.calls (restoreCalls ops table slots)
  /-- An opened step whose commit hook fails at slot `k`. -/
  commit_failed : ∀ (step : Step) (reply : Reply) (after : Table) (slots : List Slot)
    (advances : List (UInt32 × Option Outcome)) (commit : Hook) (k : Nat),
    stepBegin table step calls policy ops = some reply → reply.status = .ok () →
    schedule table policy = .ok (after, slots) →
    commitCheck reply.table 0 (advanceAll reply.step advances).entries = .ok () →
    ops.bind Ops.commit = some commit →
    FailsAt commit reply.calls (slots.map (slotCall .commit table)) k →
    let closed := stepCommit reply.table (advanceAll reply.step advances) reply.calls
    closed.status ≠ .ok () ∧ SameRecords table closed.table ∧
      RestoresOnce reply.calls closed.calls (restoreCalls ops table slots)
  /-- A commit rejected for a missing outcome or a moved generation. -/
  commit_rejected : ∀ (current : Table) (step : Step) (made : List HookCall) (err : Error),
    step.active = true → commitCheck current 0 step.entries = .error err →
    stepCommit current step made = ⟨current, step, made, .error err⟩

/-- The prepare hook fails after it has accepted a slot, and there is no restore hook to undo it. -/
def UnwindsNull (table : Table) (calls : List HookCall) (policy : Option Policy) (ops : Option Ops) : Prop :=
  ops.bind Ops.restore = none ∧ ∃ prepare after slots k, ops.bind Ops.prepare = some prepare ∧
    schedule table policy = .ok (after, slots) ∧
    FailsAt prepare calls (slots.map (slotCall .prepare table)) (k + 1)

section Calls

variable {table after : Table} {slots : List Slot} {hook : Hook}

theorem FailsAt.unique {calls pending : List HookCall} {k l : Nat} (hk : FailsAt hook calls pending k)
    (hl : FailsAt hook calls pending l) : k = l := by
  induction pending generalizing calls k l with
  | nil => exact hk.elim
  | cons call rest ih =>
    cases k with
    | zero =>
      cases l with
      | zero => rfl
      | succ l => exact absurd hl.1 hk
    | succ k =>
      cases l with
      | zero => exact absurd hk.1 hl
      | succ l => rw [ih hk.2 hl.2]

theorem hookCall_eq_slotCall (h : Assembled table after slots) (kind : HookKind) (entry : Entry) :
    hookCall kind after entry = slotCall kind table entry.slot := by
  rw [hookCall, slotCall, h.sequenceId_eq]
  rfl

theorem map_hookCall (h : Assembled table after slots) (kind : HookKind) {entries : List Entry}
    (hslots : entries.map Entry.slot = slots) :
    entries.map (hookCall kind after) = slots.map (slotCall kind table) := by
  rw [← hslots, map_map]
  exact map_congr_left fun entry _ => hookCall_eq_slotCall h kind entry

theorem prepareLoop_cases (entries : List Entry) (calls : List HookCall) :
    ((prepareLoop hook table entries calls).2.2 = .ok () ∧
      ∀ k, ¬ FailsAt hook calls (entries.map (hookCall .prepare table)) k) ∨
    ∃ k err, (prepareLoop hook table entries calls).2.2 = .error err ∧
      FailsAt hook calls (entries.map (hookCall .prepare table)) k ∧
      (prepareLoop hook table entries calls).1 = entries.take k ∧
      (prepareLoop hook table entries calls).2.1 =
        calls ++ (entries.take (k + 1)).map (hookCall .prepare table) := by
  induction entries generalizing calls with
  | nil => exact .inl ⟨rfl, fun _ h => h⟩
  | cons entry rest ih =>
    cases hanswer : hook calls (hookCall .prepare table entry).sequenceId
        (hookCall .prepare table entry).stateSlot with
    | error err =>
      refine .inr ⟨0, err, ?_, ?_, ?_, ?_⟩
      · simp only [prepareLoop, hanswer]
      · rw [map_cons, FailsAt, hanswer]
        simp
      · simp only [prepareLoop, hanswer, take_zero]
      · simp [prepareLoop, hanswer]
    | ok u =>
      rcases ih (calls ++ [hookCall .prepare table entry]) with
        ⟨hok, hnever⟩ | ⟨k, err, hstatus, hfails, hdone, hmade⟩
      · refine .inl ⟨?_, fun k hk => ?_⟩
        · simpa only [prepareLoop, hanswer] using hok
        · cases k with
          | zero => exact hk hanswer
          | succ k => exact hnever k hk.2
      · refine .inr ⟨k + 1, err, ?_, ⟨hanswer, hfails⟩, ?_, ?_⟩
        · simpa only [prepareLoop, hanswer] using hstatus
        · simp only [prepareLoop, hanswer, hdone, take_succ_cons]
        · simp only [prepareLoop, hanswer, hmade, take_succ_cons, map_cons, append_assoc, singleton_append]

theorem restoreHooks_calls (entries : List Entry) (calls : List HookCall) (first : Except Error Unit) :
    (restoreHooks hook table entries calls first).1 = calls ++ entries.map (hookCall .restore table) := by
  induction entries generalizing calls first with
  | nil => simp [restoreHooks]
  | cons entry rest ih => simp [restoreHooks, ih]

theorem commitHooks_fails {entries : List Entry} {calls : List HookCall} {k : Nat}
    (h : FailsAt hook calls (entries.map (hookCall .commit table)) k) :
    ∃ err, commitHooks hook table entries calls =
      (calls ++ (entries.take (k + 1)).map (hookCall .commit table), .error err) := by
  induction entries generalizing calls k with
  | nil => exact h.elim
  | cons entry rest ih =>
    cases k with
    | zero =>
      cases hanswer : hook calls (hookCall .commit table entry).sequenceId
          (hookCall .commit table entry).stateSlot with
      | error err => exact ⟨err, by simp [commitHooks, hanswer]⟩
      | ok u => exact absurd hanswer h
    | succ k =>
      obtain ⟨err, hrest⟩ := ih h.2
      refine ⟨err, ?_⟩
      simp only [commitHooks, h.1, hrest, take_succ_cons, map_cons, append_assoc, singleton_append]

theorem filter_restore_map (kind : HookKind) (hkind : kind ≠ .restore) (entries : List Entry) :
    (entries.map (hookCall kind table)).filter (fun call => call.kind = .restore) = [] := by
  simp [filter_eq_nil_iff, hookCall, hkind]

end Calls

theorem stepCommit_hook_failed {table : Table} {step : Step} {calls made : List HookCall} {commit : Hook}
    {err : Error} (hactive : step.active = true) (hcheck : commitCheck table 0 step.entries = .ok ())
    (hcommit : step.ops.bind Ops.commit = some commit)
    (hhooks : commitHooks commit table step.entries calls = (made, .error err)) :
    (stepCommit table step calls).status ≠ .ok () ∧
      (stepCommit table step calls).table = (stepRestore table step made).table ∧
      (stepCommit table step calls).calls = (stepRestore table step made).calls := by
  unfold stepCommit
  rw [if_neg (by simp [hactive])]
  simp only [hcheck, hcommit, hhooks]
  split
  · exact ⟨by simp, rfl, rfl⟩
  next failed hfailed =>
    exact ⟨by simp [hfailed], rfl, rfl⟩

section Open

variable {table : Table} {step : Step} {calls : List HookCall} {policy : Option Policy}
  {ops : Option Ops} {reply : Reply} {slots : List Slot}

theorem advanceAll_keeps (step : Step) (advances : List (UInt32 × Option Outcome)) :
    (advanceAll step advances).active = step.active ∧ (advanceAll step advances).ops = step.ops ∧
      (advanceAll step advances).entries.map (fun entry => (entry.slot, entry.snapshot)) =
        step.entries.map fun entry => (entry.slot, entry.snapshot) := by
  induction advances generalizing step with
  | nil => exact ⟨rfl, rfl, rfl⟩
  | cons advance rest ih =>
    obtain ⟨slot, outcome⟩ := advance
    unfold advanceAll
    split
    next next hok =>
      obtain ⟨_, recorded, _, rfl⟩ := stepAdvance_ok hok
      obtain ⟨hactive, hops, hentries⟩ := ih { step with
        entries := step.entries.modify slot.toNat fun entry => { entry with outcome := recorded } }
      refine ⟨hactive, hops, hentries.trans ?_⟩
      exact map_modify_eq (g := fun entry : Entry => (entry.slot, entry.snapshot)) (by intro entry; rfl) _ _
    · exact ih step

theorem Opened.of_begin {after : Table} (h : stepBegin table step calls policy ops = some reply)
    (hok : reply.status = .ok ()) (hschedule : schedule table policy = .ok (after, slots)) :
    Opened table policy ops reply slots := by
  rcases stepBegin_cases h with hrefused | ⟨_, taken, hopened⟩
  · exact absurd hok hrefused.status_ne
  · have heq := hopened.schedule_eq.symm.trans hschedule
    rw [Except.ok.injEq, Prod.mk.injEq] at heq
    exact heq.2 ▸ hopened

variable (advances : List (UInt32 × Option Outcome))

section

variable (h : Opened table policy ops reply slots)
include h

theorem Opened.slots_eq :
    (advanceAll reply.step advances).entries.map Entry.slot = slots := by
  have hpairs := congrArg (List.map Prod.fst) (advanceAll_keeps reply.step advances).2.2
  rw [map_map, map_map, h.entries_eq, map_map] at hpairs
  exact hpairs.trans (map_id' slots)

theorem Opened.snapshot_eq {entry : Entry}
    (hentry : entry ∈ (advanceAll reply.step advances).entries) :
    entry.slot ∈ slots ∧
      entry.snapshot = stepSnapshot entry.slot (reply.table.sequences entry.slot.sequence) := by
  have hmem : (entry.slot, entry.snapshot) ∈ reply.step.entries.map fun entry => (entry.slot, entry.snapshot) := by
    rw [← (advanceAll_keeps reply.step advances).2.2]
    exact mem_map_of_mem (f := fun entry : Entry => (entry.slot, entry.snapshot)) hentry
  rw [h.entries_eq, map_map] at hmem
  obtain ⟨slot, hslot, heq⟩ := mem_map.mp hmem
  obtain ⟨hfst, hsnd⟩ := Prod.mk.inj heq
  have hslotEq : slot = entry.slot := hfst
  subst hslotEq
  exact ⟨hslot, hsnd.symm⟩

theorem Opened.restore_records (made : List HookCall) :
    SameRecords table (stepRestore reply.table (advanceAll reply.step advances) made).table := by
  have hactive := (advanceAll_keeps reply.step advances).1.trans h.active
  have hclosed := stepRestore_closed reply.table made hactive
  refine ⟨hclosed.sequences_eq.trans ?_, hclosed.count_eq.trans h.assembled.count_eq⟩
  have hslots := h.slots_eq advances
  refine h.assembled.undo (by rw [← hslots, map_map]; rfl) fun entry hentry => ?_
  obtain ⟨hslot, hsnapshot⟩ := h.snapshot_eq advances hentry
  rw [hsnapshot, Entry.index, h.assembled.claimed entry.slot hslot]
  exact Sequence.restored_claimed entry.slot (h.assembled.candidate entry.slot hslot)

theorem Opened.restore_calls (made : List HookCall) :
    (stepRestore reply.table (advanceAll reply.step advances) made).calls =
      made ++ restoreCalls ops table slots := by
  obtain ⟨hactive, hops, _⟩ := advanceAll_keeps reply.step advances
  unfold stepRestore restoreCalls
  rw [if_pos (hactive.trans h.active), hops, h.ops_eq]
  cases hhook : ops.bind Ops.restore with
  | none => simp
  | some hook =>
    simp only [Option.isSome_some, if_true]
    rw [restoreHooks_calls, map_hookCall h.assembled .restore (h.slots_eq advances)]

end

theorem filter_restoreCalls (ops : Option Ops) (table : Table) (slots : List Slot) :
    (restoreCalls ops table slots).filter (fun call => call.kind = .restore) =
      restoreCalls ops table slots := by
  unfold restoreCalls
  split_ifs
  · simp [filter_eq_self, slotCall]
  · rfl

theorem Opened.restoresOnce (h : Opened table policy ops reply slots) :
    RestoresOnce reply.calls (stepRestore reply.table (advanceAll reply.step advances) reply.calls).calls
      (restoreCalls ops table slots) :=
  ⟨_, h.restore_calls advances reply.calls, filter_restoreCalls ops table slots⟩

theorem Opened.commit_failed (h : Opened table policy ops reply slots) {commit : Hook} {k : Nat}
    (hcheck : commitCheck reply.table 0 (advanceAll reply.step advances).entries = .ok ())
    (hcommit : ops.bind Ops.commit = some commit)
    (hfails : FailsAt commit reply.calls (slots.map (slotCall .commit table)) k) :
    (stepCommit reply.table (advanceAll reply.step advances) reply.calls).status ≠ .ok () ∧
      SameRecords table (stepCommit reply.table (advanceAll reply.step advances) reply.calls).table ∧
      RestoresOnce reply.calls
        (stepCommit reply.table (advanceAll reply.step advances) reply.calls).calls
        (restoreCalls ops table slots) := by
  obtain ⟨hactive, hops, _⟩ := advanceAll_keeps reply.step advances
  rw [← map_hookCall h.assembled .commit (h.slots_eq advances)] at hfails
  obtain ⟨err, hhooks⟩ := commitHooks_fails hfails
  generalize hmade : ((advanceAll reply.step advances).entries.take (k + 1)).map
    (hookCall .commit reply.table) = made at hhooks
  have hrecords := h.restore_records advances (reply.calls ++ made)
  have hcalls := h.restore_calls advances (reply.calls ++ made)
  have honce : RestoresOnce reply.calls
      (stepRestore reply.table (advanceAll reply.step advances) (reply.calls ++ made)).calls
      (restoreCalls ops table slots) := by
    refine ⟨made ++ restoreCalls ops table slots, by rw [hcalls, append_assoc], ?_⟩
    rw [filter_append, filter_restoreCalls, ← hmade, filter_restore_map .commit (by decide)]
    rfl
  obtain ⟨hstatus, htable, hmadeCalls⟩ := stepCommit_hook_failed (hactive.trans h.active) hcheck
    (by rw [hops, h.ops_eq, hcommit]) hhooks
  rw [htable, hmadeCalls]
  exact ⟨hstatus, hrecords, honce⟩

end Open

theorem stepCommit_rejected {table : Table} {step : Step} {calls : List HookCall} {err : Error}
    (hactive : step.active = true) (hcheck : commitCheck table 0 step.entries = .error err) :
    stepCommit table step calls = ⟨table, step, calls, .error err⟩ := by
  unfold stepCommit
  rw [if_neg (by simp [hactive])]
  simp only [hcheck]

section Begin

variable {table after : Table} {step : Step} {calls : List HookCall} {policy : Option Policy}
  {ops : Option Ops} {slots : List Slot} {prepare : Hook} {k : Nat}

theorem stepBegin_prepare_failed (hidle : step.active = false)
    (hprepare : ops.bind Ops.prepare = some prepare)
    (hschedule : schedule table policy = .ok (after, slots))
    (hfails : FailsAt prepare calls (slots.map (slotCall .prepare table)) k) :
    ∃ err, stepBegin table step calls policy ops =
      (unwindPrepared (ops.bind Ops.restore) after ((slots.map (snapshotEntry after)).take k)
        (calls ++ ((slots.map (snapshotEntry after)).take (k + 1)).map (hookCall .prepare after))).map
          fun made => ⟨stepReleaseSlots after (slots.map (snapshotEntry after)) true, {}, made, .error err⟩ := by
  have hassembled := (schedule_ok hschedule).1
  have hslots : (slots.map (snapshotEntry after)).map Entry.slot = slots := by
    rw [map_map]
    exact map_id' slots
  rw [← map_hookCall hassembled .prepare hslots] at hfails
  rcases prepareLoop_cases (slots.map (snapshotEntry after)) calls with
    ⟨_, hnever⟩ | ⟨l, err, hstatus, hat, hdone, hmade⟩
  · exact absurd hfails (hnever k)
  · obtain rfl := hat.unique hfails
    refine ⟨err, ?_⟩
    have hloop : prepareLoop prepare after (slots.map (snapshotEntry after)) calls =
        ((slots.map (snapshotEntry after)).take l,
          calls ++ ((slots.map (snapshotEntry after)).take (l + 1)).map (hookCall .prepare after),
          .error err) :=
      Prod.ext hdone (Prod.ext hmade hstatus)
    unfold stepBegin
    rw [if_neg (by simp [hidle])]
    simp only [hschedule, hprepare, hloop]

theorem take_ne_nil_of_failsAt {hook : Hook} {pending : List HookCall}
    (h : FailsAt hook calls pending (k + 1)) : pending.take (k + 1) ≠ [] := by
  cases pending with
  | nil => exact h.elim
  | cons call rest => simp

theorem unwindPrepared_none {done : List Entry} (hdone : done ≠ []) (table : Table) (made : List HookCall) :
    unwindPrepared none table done made = none := by
  cases done with
  | nil => exact absurd rfl hdone
  | cons entry rest => rfl

theorem unwindPrepared_some {restore : Option Hook} {done : List Entry}
    (h : restore.isSome = true ∨ done = []) (table : Table) (made : List HookCall) :
    unwindPrepared restore table done made =
      some (made ++ if restore.isSome then done.map (hookCall .restore table) else []) := by
  cases done with
  | nil => cases restore <;> simp [unwindPrepared]
  | cons entry rest =>
    cases restore with
    | none => simp at h
    | some hook => simp [unwindPrepared]

theorem prepare_failed_of_restorable (hidle : step.active = false)
    (hprepare : ops.bind Ops.prepare = some prepare)
    (hschedule : schedule table policy = .ok (after, slots))
    (hfails : FailsAt prepare calls (slots.map (slotCall .prepare table)) k)
    (hrestore : (ops.bind Ops.restore).isSome = true ∨ k = 0) :
    ∃ reply, stepBegin table step calls policy ops = some reply ∧ reply.status ≠ .ok () ∧
      SameRecords table reply.table ∧
      RestoresOnce calls reply.calls (restoreCalls ops table (slots.take k)) := by
  obtain ⟨err, hbegin⟩ := stepBegin_prepare_failed hidle hprepare hschedule hfails
  have hassembled := (schedule_ok hschedule).1
  rw [unwindPrepared_some (hrestore.imp id fun hk => by rw [hk, take_zero])] at hbegin
  refine ⟨_, hbegin, by simp, ⟨stepReleaseSlots_assembled hassembled, hassembled.count_eq⟩, ?_⟩
  have htaken : ((slots.map (snapshotEntry after)).take k).map (hookCall .restore after) =
      (slots.take k).map (slotCall .restore table) := by
    rw [map_take, map_take, map_hookCall hassembled .restore]
    rw [map_map]
    exact map_id' slots
  refine ⟨_, append_assoc _ _ _, ?_⟩
  rw [filter_append, filter_restore_map .prepare (by decide), nil_append, htaken]
  exact filter_restoreCalls ops table (slots.take k)

end Begin

/-- A step on any table is transactional exactly when no failed prepare has to unwind through a null
restore hook. -/
theorem transactional_iff (table : Table) (calls : List HookCall) (policy : Option Policy)
    (ops : Option Ops) : Transactional table calls policy ops ↔ ¬ UnwindsNull table calls policy ops := by
  constructor
  · rintro htransactional ⟨hnull, prepare, after, slots, k, hprepare, hschedule, hfails⟩
    obtain ⟨reply, hreply, _⟩ :=
      htransactional.prepare_failed {} prepare after slots (k + 1) rfl hprepare hschedule hfails
    have hidle : ({} : Step).active = false := rfl
    obtain ⟨err, hbegin⟩ := stepBegin_prepare_failed hidle hprepare hschedule hfails
    have hdone : (slots.map (snapshotEntry after)).take (k + 1) ≠ [] := by
      have hne := take_ne_nil_of_failsAt hfails
      simp only [ne_eq, take_eq_nil_iff, map_eq_nil_iff] at hne ⊢
      exact hne
    rw [hnull, unwindPrepared_none hdone, Option.map_none, hreply] at hbegin
    cases hbegin
  · intro hcondition
    refine ⟨?_, ?_, ?_, fun _ _ _ _ hactive hcheck => stepCommit_rejected hactive hcheck⟩
    · intro step prepare after slots k hidle hprepare hschedule hfails
      refine prepare_failed_of_restorable hidle hprepare hschedule hfails ?_
      cases hrestore : ops.bind Ops.restore with
      | some hook => exact .inl rfl
      | none =>
        refine .inr (by_contra fun hk => hcondition ?_)
        obtain ⟨l, rfl⟩ := Nat.exists_eq_succ_of_ne_zero hk
        exact ⟨hrestore, prepare, after, slots, l, hprepare, hschedule, hfails⟩
    · intro step reply after slots advances hbegin hok hschedule
      have hopened := Opened.of_begin hbegin hok hschedule
      exact ⟨hopened.restore_records advances reply.calls, hopened.restoresOnce advances⟩
    · intro step reply after slots advances commit k hbegin hok hschedule hcheck hcommit hfails
      exact (Opened.of_begin hbegin hok hschedule).commit_failed advances hcheck hcommit hfails

def refusesSecond : Hook := fun _ sequenceId _ =>
  if sequenceId = 2 then .error ⟨.unavailable, "refused"⟩ else .ok ()

theorem twoReadyRun_unwinds_null : ∃ s, exec System.take { table := { depth := 2 } } twoReadyRun = some s ∧
    stepBegin s.table {} s.calls none (some { prepare := some refusesSecond }) = none ∧
    ¬ Transactional s.table s.calls none (some { prepare := some refusesSecond }) := by
  refine ⟨_, rfl, rfl, fun htransactional => ?_⟩
  obtain ⟨reply, hreply, _⟩ := htransactional.prepare_failed {} refusesSecond _ _ 1 rfl rfl rfl
    ⟨rfl, fun h => nomatch (h : Except.error _ = Except.ok ())⟩
  exact nomatch (hreply : none = some reply)

end FlashGordon.DecodeBatch
