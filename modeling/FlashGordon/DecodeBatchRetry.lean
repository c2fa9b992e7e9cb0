import FlashGordon.DecodeBatchSample

/-! Retrying a decode batch step that failed. A restore that succeeds gives the records back and rolls every
rank back that still holds its checkpoint, so the retry is that of an attempt never made, unless a rank had
already carried out a commit. -/

namespace FlashGordon.DecodeBatchSample

open DecodeBatch OutputHistory List

variable {δ η : Type}

def AllOk (hook : Hook) : List HookCall → List HookCall → Prop
  | _, [] => True
  | before, call :: rest =>
    hook before call.sequenceId call.stateSlot = .ok () ∧ AllOk hook (before ++ [call]) rest

def Attempt.CommitsAny (attempt : Attempt) (calls : List HookCall) : Prop :=
  ∃ before call after rank, calls = before ++ call :: after ∧ call.kind = .commit ∧
    attempt.carries before call rank = true

/-- Nothing goes wrong before the commit of a step that began so, its loop breaks off after a rank has carried
out a commit, and the restore succeeds. -/
structure TornCommit (attempt : Attempt) (begun : Reply) : Prop where
  ring_ok : attempt.ring = .ok ()
  not_abort : attempt.injectAbort = false
  input_ok : ∀ k < begun.step.entries.length, attempt.input k = .ok ()
  output_ok : ∀ k < begun.step.entries.length, attempt.output k = .arrives
  breaks_off : ∃ made err,
    commitHooks attempt.coordinator.commit begun.table begun.step.entries begun.calls = (made, .error err) ∧
      attempt.CommitsAny made ∧ (stepRestore begun.table begun.step made).status = .ok ()

section Calls

variable {hook : Hook} {table : Table}

theorem prepareLoop_ok {entries done : List Entry} {calls made : List HookCall}
    (h : prepareLoop hook table entries calls = (done, made, .ok ())) :
    made = calls ++ entries.map (hookCall .prepare table) ∧
      AllOk hook calls (entries.map (hookCall .prepare table)) := by
  induction entries generalizing calls done with
  | nil =>
    cases h
    exact ⟨(append_nil _).symm, trivial⟩
  | cons entry rest ih =>
    cases hanswer : hook calls (hookCall .prepare table entry).sequenceId
        (hookCall .prepare table entry).stateSlot with
    | error err =>
      simp only [prepareLoop, hanswer, Prod.mk.injEq] at h
      cases h.2.2
    | ok u =>
      simp only [prepareLoop, hanswer, Prod.mk.injEq] at h
      obtain ⟨hmade, hrest⟩ := ih (Prod.ext rfl h.2)
      refine ⟨?_, hanswer, hrest⟩
      rw [hmade, map_cons, append_assoc, singleton_append]

theorem restoreHooks_error {entries : List Entry} {calls : List HookCall} {err : Error} :
    (restoreHooks hook table entries calls (.error err)).2 = .error err := by
  induction entries generalizing calls with
  | nil => rfl
  | cons entry rest ih => exact ih

theorem restoreHooks_ok {entries : List Entry} {calls : List HookCall}
    (h : (restoreHooks hook table entries calls (.ok ())).2 = .ok ()) :
    AllOk hook calls (entries.map (hookCall .restore table)) := by
  induction entries generalizing calls with
  | nil => trivial
  | cons entry rest ih =>
    cases hanswer : hook calls (hookCall .restore table entry).sequenceId
        (hookCall .restore table entry).stateSlot with
    | error err =>
      simp only [restoreHooks, hanswer, restoreHooks_error] at h
      cases h
    | ok u =>
      simp only [restoreHooks, hanswer] at h
      exact ⟨hanswer, ih h⟩

theorem commitHooks_calls (entries : List Entry) (calls : List HookCall) :
    ∃ k, (commitHooks hook table entries calls).1 = calls ++ (entries.take k).map (hookCall .commit table) := by
  induction entries generalizing calls with
  | nil => exact ⟨0, (append_nil _).symm⟩
  | cons entry rest ih =>
    cases hanswer : hook calls (hookCall .commit table entry).sequenceId
        (hookCall .commit table entry).stateSlot with
    | error err => exact ⟨1, by simp [commitHooks, hanswer]⟩
    | ok u =>
      obtain ⟨k, hrest⟩ := ih (calls ++ [hookCall .commit table entry])
      refine ⟨k + 1, ?_⟩
      simp only [commitHooks, hanswer, hrest, take_succ_cons, map_cons, append_assoc, singleton_append]

end Calls

section Sessions

variable {attempt : Attempt} {owners : UInt32 → Fin 8 → δ} {sessions : Sessions δ}

theorem carryOutAll_append (before calls rest : List HookCall) :
    attempt.carryOutAll before (calls ++ rest) sessions =
      attempt.carryOutAll (before ++ calls) rest (attempt.carryOutAll before calls sessions) := by
  induction calls generalizing before sessions with
  | nil => rw [append_nil]; rfl
  | cons call tail ih =>
    show attempt.carryOutAll (before ++ [call]) (tail ++ rest) _ = _
    rw [ih, append_assoc, singleton_append]
    rfl

theorem carryOutAll_forall {P : UInt32 → Fin 8 → Session δ → Prop} {calls : List HookCall}
    (hkeep : ∀ call ∈ calls, ∀ slot rank session, P slot rank session → P slot rank (session.carryOut call.kind))
    (h : ∀ slot rank, P slot rank (sessions slot rank)) (before : List HookCall) (slot : UInt32) (rank : Fin 8) :
    P slot rank (attempt.carryOutAll before calls sessions slot rank) := by
  induction calls generalizing before sessions with
  | nil => exact h slot rank
  | cons call rest ih =>
    refine ih (forall_mem_cons.mp hkeep).2 (fun slot rank => ?_) _
    show P slot rank (if _ then _ else _)
    split
    · exact hkeep call mem_cons_self slot rank _ (h slot rank)
    · exact h slot rank

theorem states_carryOutAll_resting (before calls : List HookCall) :
    states (attempt.carryOutAll before calls (resting owners)) = owners := by
  funext slot rank
  have hkept := @carryOutAll_forall δ attempt (resting owners)
    (fun slot rank session => session.state = owners slot rank ∧
      ∀ saved, session.checkpoint = some saved → saved = owners slot rank) calls
    (fun call _ slot rank session hsession => by
      obtain ⟨hstate, hsaved⟩ := hsession
      cases call.kind with
      | prepare => exact ⟨hstate, fun saved heq => hstate ▸ (Option.some.inj heq).symm⟩
      | commit => exact ⟨hstate, fun saved heq => nomatch heq⟩
      | restore =>
        refine ⟨?_, fun saved heq => nomatch heq⟩
        show session.checkpoint.getD session.state = owners slot rank
        cases hcheckpoint : session.checkpoint with
        | none => exact hstate
        | some saved => exact hsaved saved hcheckpoint)
    (fun slot rank => ⟨rfl, fun saved heq => nomatch heq⟩) before slot rank
  exact hkept.1

/-- Every session either holds the state before the step as its checkpoint, or is in that state. -/
def Recoverable (owners : UInt32 → Fin 8 → δ) (sessions : Sessions δ) : Prop :=
  ∀ slot rank, (sessions slot rank).checkpoint = some (owners slot rank) ∨
    (sessions slot rank).checkpoint = none ∧ (sessions slot rank).state = owners slot rank

def Checkpointed (batch : List UInt32) (owners : UInt32 → Fin 8 → δ) (sessions : Sessions δ) : Prop :=
  ∀ slot rank, (slot ∈ batch → (sessions slot rank).checkpoint = some (owners slot rank)) ∧
    (slot ∉ batch → (sessions slot rank).checkpoint = none ∧ (sessions slot rank).state = owners slot rank)

theorem Checkpointed.recoverable {batch : List UInt32} (h : Checkpointed batch owners sessions) :
    Recoverable owners sessions := by
  intro slot rank
  by_cases hslot : slot ∈ batch
  · exact .inl ((h slot rank).1 hslot)
  · exact .inr ((h slot rank).2 hslot)

theorem Checkpointed.rewrite {batch : List UInt32} (h : Checkpointed batch owners sessions)
    (left : UInt32 → Fin 8 → δ) : Checkpointed batch owners (rewrite batch left sessions) := by
  intro slot rank
  by_cases hslot : slot ∈ batch
  · refine ⟨fun _ => ?_, fun hnot => absurd hslot hnot⟩
    rw [DecodeBatchSample.rewrite, if_pos hslot]
    exact (h slot rank).1 hslot
  · refine ⟨fun hmem => absurd hmem hslot, fun _ => ?_⟩
    rw [DecodeBatchSample.rewrite, if_neg hslot]
    exact (h slot rank).2 hslot

theorem carries_of_ok {before : List HookCall} {call : HookCall}
    (h : attempt.hook call.kind before call.sequenceId call.stateSlot = .ok ()) (rank : Fin 8) :
    attempt.carries before call rank = true := by
  rw [Attempt.carries, Attempt.answer, h]
  rfl

theorem checkpointed_prepared {entries : List Entry} {table : Table} {before : List HookCall}
    {done : List UInt32} (hok : AllOk attempt.coordinator.prepare before (entries.map (hookCall .prepare table)))
    (h : ∀ slot rank, (sessions slot rank).state = owners slot rank ∧
      (slot ∈ done → (sessions slot rank).checkpoint = some (owners slot rank)) ∧
      (slot ∉ done → (sessions slot rank).checkpoint = none)) :
    Checkpointed (done ++ entries.map fun entry => entry.slot.stateSlot) owners
      (attempt.carryOutAll before (entries.map (hookCall .prepare table)) sessions) := by
  induction entries generalizing before sessions done with
  | nil =>
    intro slot rank
    rw [map_nil, append_nil]
    obtain ⟨hstate, hin, hout⟩ := h slot rank
    exact ⟨hin, fun hslot => ⟨hout hslot, hstate⟩⟩
  | cons entry rest ih =>
    obtain ⟨hanswer, hrest⟩ := hok
    rw [map_cons, append_cons]
    refine ih hrest fun slot rank => ?_
    obtain ⟨hstate, hin, hout⟩ := h slot rank
    have hcarries := @carries_of_ok attempt before (hookCall .prepare table entry) hanswer rank
    by_cases hslot : slot = entry.slot.stateSlot
    · have hcarried : attempt.carryOut before (hookCall .prepare table entry) sessions slot rank =
          { sessions slot rank with checkpoint := some (sessions slot rank).state } := if_pos ⟨hslot, hcarries⟩
      rw [hcarried]
      exact ⟨hstate, fun _ => congrArg some hstate, fun hnot => absurd (by simp [hslot]) hnot⟩
    · have hcarried : attempt.carryOut before (hookCall .prepare table entry) sessions slot rank =
          sessions slot rank := if_neg fun hcall => hslot hcall.1
      rw [hcarried]
      refine ⟨hstate, fun hmem => hin ?_, fun hnot => hout ?_⟩
      · simpa [hslot] using hmem
      · simpa [hslot] using hnot

theorem carryOutAll_uncarried {before calls : List HookCall}
    (h : ∀ front call back rank, calls = front ++ call :: back →
      attempt.carries (before ++ front) call rank = false) :
    attempt.carryOutAll before calls sessions = sessions := by
  induction calls generalizing before with
  | nil => rfl
  | cons call rest ih =>
    have hcall : attempt.carryOut before call sessions = sessions := by
      funext slot rank
      have hnot := h [] call rest rank rfl
      rw [append_nil] at hnot
      exact if_neg fun hcarried => absurd hcarried.2 (by rw [hnot]; decide)
    show attempt.carryOutAll (before ++ [call]) rest _ = _
    rw [hcall]
    refine ih fun front other back rank heq => ?_
    rw [append_assoc]
    exact h (call :: front) other back rank (by rw [heq]; rfl)

theorem states_restored {entries : List Entry} {table : Table} {before : List HookCall}
    (hok : AllOk attempt.coordinator.restore before (entries.map (hookCall .restore table)))
    (h : Recoverable owners sessions)
    (hbatch : ∀ slot rank, (∀ entry ∈ entries, entry.slot.stateSlot ≠ slot) →
      (sessions slot rank).checkpoint = none) :
    states (attempt.carryOutAll before (entries.map (hookCall .restore table)) sessions) = owners := by
  induction entries generalizing before sessions with
  | nil =>
    funext slot rank
    rcases h slot rank with hheld | ⟨-, hstate⟩
    · have hnone := hbatch slot rank fun entry hentry => absurd hentry not_mem_nil
      rw [hnone] at hheld
      cases hheld
    · exact hstate
  | cons entry rest ih =>
    obtain ⟨hanswer, hrest⟩ := hok
    have hself : ∀ rank, attempt.carryOut before (hookCall .restore table entry) sessions entry.slot.stateSlot rank =
        { state := (sessions entry.slot.stateSlot rank).checkpoint.getD (sessions entry.slot.stateSlot rank).state } :=
      fun rank => if_pos ⟨rfl, @carries_of_ok attempt before (hookCall .restore table entry) hanswer rank⟩
    have hother : ∀ slot rank, slot ≠ entry.slot.stateSlot →
        attempt.carryOut before (hookCall .restore table entry) sessions slot rank = sessions slot rank :=
      fun slot rank hne => if_neg fun hcall => hne hcall.1
    refine ih hrest (fun slot rank => ?_) fun slot rank hslot => ?_
    · by_cases heq : slot = entry.slot.stateSlot
      · subst heq
        rw [hself]
        refine .inr ⟨rfl, ?_⟩
        show (sessions entry.slot.stateSlot rank).checkpoint.getD _ = _
        rcases h entry.slot.stateSlot rank with hheld | ⟨hnone, hstate⟩
        · rw [hheld]
          rfl
        · rw [hnone]
          exact hstate
      · rw [hother slot rank heq]
        exact h slot rank
    · by_cases heq : slot = entry.slot.stateSlot
      · rw [heq, hself]
      · rw [hother slot rank heq]
        refine hbatch slot rank fun other hmem => ?_
        rcases mem_cons.mp hmem with rfl | hmem
        · exact Ne.symm heq
        · exact hslot other hmem

end Sessions

/-! ## The hooks see the slots only -/

section Hooks

variable {hook : Hook} {table : Table} {entries others : List Entry}

theorem commitHooks_congr (h : entries.map Entry.slot = others.map Entry.slot) (calls : List HookCall) :
    commitHooks hook table entries calls = commitHooks hook table others calls := by
  induction entries generalizing others calls with
  | nil =>
    obtain rfl := map_eq_nil_iff.mp h.symm
    rfl
  | cons entry rest ih =>
    obtain ⟨other, tail, rfl, hslot, htail⟩ := map_eq_cons_iff.mp h.symm
    have hcall : hookCall .commit table entry = hookCall .commit table other := by
      unfold hookCall Entry.index
      rw [hslot]
    unfold commitHooks
    dsimp only
    rw [hcall]
    cases hook calls (hookCall .commit table other).sequenceId (hookCall .commit table other).stateSlot with
    | error err => rfl
    | ok u => exact ih htail.symm _

theorem restoreHooks_congr (h : entries.map Entry.slot = others.map Entry.slot) (calls : List HookCall)
    (first : Except Error Unit) :
    restoreHooks hook table entries calls first = restoreHooks hook table others calls first := by
  induction entries generalizing others calls first with
  | nil =>
    obtain rfl := map_eq_nil_iff.mp h.symm
    rfl
  | cons entry rest ih =>
    obtain ⟨other, tail, rfl, hslot, htail⟩ := map_eq_cons_iff.mp h.symm
    have hcall : hookCall .restore table entry = hookCall .restore table other := by
      unfold hookCall Entry.index
      rw [hslot]
    unfold restoreHooks
    rw [hcall]
    exact ih htail.symm _ _

theorem advanceAll_slots (step : Step) (advances : List (UInt32 × Option Outcome)) :
    (advanceAll step advances).entries.map Entry.slot = step.entries.map Entry.slot := by
  have hfst := congrArg (List.map Prod.fst) (advanceAll_keeps step advances).2.2
  rwa [map_map, map_map] at hfst

theorem stepRestore_advanceAll (step : Step) (advances : List (UInt32 × Option Outcome)) (calls : List HookCall) :
    (stepRestore table (advanceAll step advances) calls).status = (stepRestore table step calls).status ∧
      (stepRestore table (advanceAll step advances) calls).calls = (stepRestore table step calls).calls := by
  obtain ⟨hactive, hops, -⟩ := advanceAll_keeps step advances
  have hslots := advanceAll_slots step advances
  unfold stepRestore
  rw [hactive, hops]
  split
  · cases step.ops.bind Ops.restore with
    | none => exact ⟨rfl, rfl⟩
    | some hook =>
      dsimp only
      rw [restoreHooks_congr hslots]
      exact ⟨rfl, rfl⟩
  · exact ⟨rfl, rfl⟩

end Hooks

/-- The table with another `restored` mark; every schedule clears it. -/
def marked (table : Table) (restored : Bool) : Table := { table with restored := restored }

section Begin

variable {table : Table} {step : Step} {calls : List HookCall} {policy : Option Policy} {coordinator : Coordinator}
  {reply : Reply}

theorem eq_marked {after : Table} (hsequences : after.sequences = table.sequences)
    (hcount : after.count = table.count) (hdepth : after.depth = table.depth) (hstep : after.step = table.step) :
    after = marked table after.restored := by
  cases after
  cases table
  simp only at hsequences hcount hdepth hstep
  subst hsequences hcount hdepth hstep
  rfl

theorem assemble_step (limit : Nat) (table : Table) : (assemble limit table).1.step = table.step := by
  induction limit generalizing table with
  | zero => rfl
  | succ limit ih =>
    unfold assemble
    split
    · rfl
    · exact ih _

theorem schedule_step {after : Table} {slots : List Slot} (h : schedule table policy = .ok (after, slots)) :
    after.step = table.step := by
  unfold schedule at h
  dsimp only at h
  split_ifs at h
  cases h
  exact assemble_step _ _

theorem assemble_marked (limit : Nat) (table : Table) (restored : Bool) :
    assemble limit (marked table restored) =
      (marked (assemble limit table).1 restored, (assemble limit table).2) := by
  induction limit generalizing table with
  | zero => rfl
  | succ limit ih =>
    have hpick : pickBest (marked table restored) = pickBest table := rfl
    unfold assemble
    rw [hpick]
    cases pickBest table with
    | none => rfl
    | some i =>
      have hrest := ih (table.modify i Sequence.claimed)
      dsimp only
      rw [show (marked table restored).modify i Sequence.claimed =
        marked (table.modify i Sequence.claimed) restored from rfl, hrest]
      rfl

theorem schedule_marked (table : Table) (restored : Bool) :
    schedule (marked table restored) policy = schedule table policy := by
  unfold schedule
  rw [show (marked table restored).depth = table.depth from rfl,
    show (marked table restored).candidates = table.candidates from rfl,
    show worstContext (marked table restored) = worstContext table from rfl]
  dsimp only
  rw [assemble_marked]
  rfl

section

variable (h : stepBegin table step calls policy (some coordinator.ops) = some reply)
include h

theorem stepBegin_prepared (hok : reply.status = .ok ()) : reply.table.step = table.step ∧
      ∃ done, prepareLoop coordinator.prepare reply.table reply.step.entries calls = (done, reply.calls, .ok ()) := by
  unfold stepBegin at h
  split at h
  · obtain rfl := Option.some.inj h
    cases hok
  split at h
  · obtain rfl := Option.some.inj h
    cases hok
  next after slots hschedule =>
    rw [show (some coordinator.ops).bind Ops.prepare = some coordinator.prepare from rfl] at h
    dsimp only at h
    split at h
    next done made err hloop =>
      obtain ⟨unwound, -, rfl⟩ := Option.map_eq_some_iff.mp h
      cases hok
    next done made hloop =>
      obtain rfl := Option.some.inj h
      exact ⟨schedule_step hschedule, done, hloop⟩

theorem stepBegin_refused_step (hstatus : reply.status ≠ .ok ()) :
    reply.table.step = table.step ∧ reply.step.active = step.active := by
  unfold stepBegin at h
  split at h
  next hactive =>
    obtain rfl := Option.some.inj h
    exact ⟨rfl, rfl⟩
  next hidle =>
    rw [Bool.eq_false_of_not_eq_true hidle]
    split at h
    · obtain rfl := Option.some.inj h
      exact ⟨rfl, rfl⟩
    next after slots hschedule =>
      rw [show (some coordinator.ops).bind Ops.prepare = some coordinator.prepare from rfl] at h
      dsimp only at h
      split at h
      next done made err hloop =>
        obtain ⟨unwound, -, rfl⟩ := Option.map_eq_some_iff.mp h
        refine ⟨?_, rfl⟩
        show after.step = table.step
        exact schedule_step hschedule
      next done made hloop =>
        obtain rfl := Option.some.inj h
        exact absurd rfl hstatus

theorem stepBegin_refused (hstatus : reply.status ≠ .ok ()) :
    reply.table = marked table reply.table.restored ∧ reply.step.active = step.active := by
  obtain ⟨hstep, hactive⟩ := stepBegin_refused_step h hstatus
  rcases stepBegin_cases h with hrefused | ⟨-, slots, hopened⟩
  · exact ⟨eq_marked hrefused.sequences_eq hrefused.count_eq hrefused.depth_eq hstep, hactive⟩
  · exact absurd hopened.status_eq hstatus

end

end Begin

section Draws

variable {model : Model δ η} {attempt : Attempt} {table : Table} {hidden : UInt32 → η}

theorem setSession_counts (output : OutputRank) (slot : Nat) : (output.setSession slot).counts = output.counts := by
  unfold OutputRank.setSession
  split <;> rfl

theorem handleOutputWork_unpenalised (output : OutputRank) (slot token : Nat) :
    output.handleOutputWork slot false token = (output.setSession slot, .ok ()) := rfl

section

variable (hpenalties : attempt.coordinator.penaltiesActive = false)
include hpenalties

theorem drawSlot_cases (k : Nat) (entry : Entry)
    (draws : Draws) :
    (drawSlot model attempt table hidden k entry draws).1.output.counts = draws.output.counts ∧
      ((∃ err, (drawSlot model attempt table hidden k entry draws).2 = .error err ∧
          (drawSlot model attempt table hidden k entry draws).1.step = draws.step) ∨
        (drawSlot model attempt table hidden k entry draws).2 = .ok () ∧
          ∃ token sampler, stepAdvance draws.step (UInt32.ofNat k)
              (some (outcomeOf (table.sequences entry.index) token sampler)) =
            .ok (drawSlot model attempt table hidden k entry draws).1.step) := by
  unfold drawSlot
  cases hinput : attempt.input k with
  | error err => exact ⟨rfl, .inl ⟨err, rfl, rfl⟩⟩
  | ok u =>
    rw [hpenalties]
    cases houtput : attempt.output k with
    | lost err reached =>
      refine ⟨?_, .inl ⟨err, rfl, rfl⟩⟩
      cases reached with
      | true => exact setSession_counts _ _
      | false => rfl
    | arrives =>
      simp only [handleOutputWork_unpenalised]
      split
      next err hadvance => exact ⟨setSession_counts _ _, .inl ⟨err, rfl, rfl⟩⟩
      next step hadvance => exact ⟨setSession_counts _ _, .inr ⟨rfl, _, _, hadvance⟩⟩

theorem drawSlots_counts (k : Nat)
    (entries : List Entry) (draws : Draws) :
    (drawSlots model attempt table hidden k entries draws).1.output.counts = draws.output.counts := by
  induction entries generalizing k draws with
  | nil => rfl
  | cons entry rest ih =>
    obtain ⟨hcounts, -⟩ := @drawSlot_cases δ η model attempt table hidden hpenalties k entry draws
    unfold drawSlots
    split
    next after err heq =>
      rw [heq] at hcounts
      exact hcounts
    next after heq =>
      rw [heq] at hcounts
      exact (ih (k + 1) after).trans hcounts

theorem drawSlots_advances (k : Nat)
    (entries : List Entry) (draws : Draws) :
    ∃ advances, (drawSlots model attempt table hidden k entries draws).1.step =
      advanceAll draws.step advances := by
  induction entries generalizing k draws with
  | nil => exact ⟨[], rfl⟩
  | cons entry rest ih =>
    obtain ⟨-, hcases⟩ := @drawSlot_cases δ η model attempt table hidden hpenalties k entry draws
    unfold drawSlots
    split
    next after err heq =>
      rw [heq] at hcases
      rcases hcases with ⟨-, -, hstep⟩ | ⟨hok, -⟩
      · exact ⟨[], hstep⟩
      · cases hok
    next after heq =>
      rw [heq] at hcases
      rcases hcases with ⟨err, herr, -⟩ | ⟨-, token, sampler, hadvance⟩
      · cases herr
      · obtain ⟨advances, hrest⟩ := ih (k + 1) after
        refine ⟨(UInt32.ofNat k, some (outcomeOf (table.sequences entry.index) token sampler)) :: advances, ?_⟩
        rw [advanceAll, hadvance]
        exact hrest

end

/-- The first `n` entries have an outcome. -/
def ValidTo (n : Nat) (step : Step) : Prop :=
  ∀ i entry, i < n → step.entries[i]? = some entry → entry.outcome.valid = true

theorem ValidTo.advance {step after : Step} {k : Nat} {outcome : Outcome} (h : ValidTo k step)
    (hk : k < 2 ^ 32) (hadvance : stepAdvance step (UInt32.ofNat k) (some outcome) = .ok after) :
    ValidTo (k + 1) after := by
  have htoNat : (UInt32.ofNat k).toNat = k := UInt32.toNat_ofNat_of_lt' hk
  unfold stepAdvance at hadvance
  split at hadvance
  next recorded hactive =>
    split_ifs at hadvance
    obtain rfl := Except.ok.inj hadvance
    intro i entry hi hentry
    rw [htoNat, List.getElem?_modify] at hentry
    obtain ⟨before, hbefore, rfl⟩ := Option.map_eq_some_iff.mp hentry
    by_cases heq : k = i
    · rw [if_pos heq]
    · rw [if_neg heq]
      exact h i before (by omega) hbefore
  · cases hadvance

theorem drawSlots_valid (hpenalties : attempt.coordinator.penaltiesActive = false) {k : Nat}
    {entries : List Entry} {draws after : Draws} (hbound : k + entries.length < 2 ^ 32)
    (hvalid : ValidTo k draws.step)
    (h : drawSlots model attempt table hidden k entries draws = (after, .ok ())) :
    ValidTo (k + entries.length) after.step := by
  induction entries generalizing k draws with
  | nil =>
    obtain ⟨rfl, -⟩ := Prod.mk.inj h
    exact hvalid
  | cons entry rest ih =>
    rw [length_cons] at hbound
    obtain ⟨-, hcases⟩ := @drawSlot_cases δ η model attempt table hidden hpenalties k entry draws
    unfold drawSlots at h
    split at h
    · cases h
    next between heq =>
      rw [heq] at hcases
      rcases hcases with ⟨err, herr, -⟩ | ⟨-, token, sampler, hadvance⟩
      · cases herr
      · have hrest := ih (by omega) (hvalid.advance (by omega) hadvance) h
        rw [Nat.add_assoc, Nat.add_comm 1] at hrest
        exact hrest

theorem drawSlots_faultless {k : Nat} {entries : List Entry} {draws after : Draws}
    (h : drawSlots model attempt table hidden k entries draws = (after, .ok ())) :
    ∀ i < entries.length, attempt.input (k + i) = .ok () ∧ attempt.output (k + i) = .arrives := by
  induction entries generalizing k draws with
  | nil => exact fun i hi => absurd hi (Nat.not_lt_zero i)
  | cons entry rest ih =>
    unfold drawSlots at h
    split at h
    · cases h
    next between heq =>
      have hfirst : attempt.input k = .ok () ∧ attempt.output k = .arrives := by
        unfold drawSlot at heq
        cases hinput : attempt.input k with
        | error err => simp only [hinput, Prod.mk.injEq, reduceCtorEq, and_false] at heq
        | ok u =>
          simp only [hinput] at heq
          cases houtput : attempt.output k with
          | lost err reached => simp only [houtput, Prod.mk.injEq, reduceCtorEq, and_false] at heq
          | arrives => exact ⟨rfl, rfl⟩
      intro i hi
      cases i with
      | zero => exact hfirst
      | succ i =>
        rw [show k + (i + 1) = k + 1 + i by omega]
        exact ih h i (by simpa using hi)

end Draws

/-! ## What a failed attempt leaves -/

/-- The state is the one before, but for the mark of the table, what is left in the idle step, the working
copy of the sampler state and the slot selected at the output rank. -/
structure Undone (s after : State δ) : Prop where
  table_eq : after.table = marked s.table after.table.restored
  active_eq : after.step.active = s.step.active
  owners_eq : after.owners = s.owners
  counts_eq : after.output.counts = s.output.counts

section Failed

variable {model : Model δ η} {attempt : Attempt} {table : Table} {step : Step} {calls : List HookCall}
  {policy : Option Policy} {coordinator : Coordinator} {reply : Reply} {slots : List Slot}

def stepSlots (step : Step) : List UInt32 := step.entries.map fun entry => entry.slot.stateSlot

theorem stepSlots_advanceAll (step : Step) (advances : List (UInt32 × Option Outcome)) :
    stepSlots (advanceAll step advances) = stepSlots step := by
  have hpairs := congrArg (List.map fun pair : Slot × Snapshot => pair.1.stateSlot) (advanceAll_keeps step advances).2.2
  rw [map_map, map_map] at hpairs
  exact hpairs

theorem stepRestore_opened (hopened : Opened table policy (some coordinator.ops) reply slots)
    (hstep : reply.table.step = table.step) (advances : List (UInt32 × Option Outcome)) (made : List HookCall)
    (hok : (stepRestore reply.table (advanceAll reply.step advances) made).status = .ok ()) :
    (stepRestore reply.table (advanceAll reply.step advances) made).table = marked table true ∧
      (stepRestore reply.table (advanceAll reply.step advances) made).step.active = false ∧
      (stepRestore reply.table (advanceAll reply.step advances) made).calls =
        made ++ (advanceAll reply.step advances).entries.map (hookCall .restore reply.table) ∧
      AllOk coordinator.restore made
        ((advanceAll reply.step advances).entries.map (hookCall .restore reply.table)) := by
  obtain ⟨hactive, hops, -⟩ := advanceAll_keeps reply.step advances
  have hopen := hactive.trans hopened.active
  obtain ⟨hsequences, hcount⟩ := hopened.restore_records advances made
  have hclosed := stepRestore_closed reply.table made hopen
  have hhook : (advanceAll reply.step advances).ops.bind Ops.restore = some coordinator.restore := by
    rw [hops, hopened.ops_eq]
    rfl
  have hmark : (stepRestore reply.table (advanceAll reply.step advances) made).table.restored = true ∧
      (stepRestore reply.table (advanceAll reply.step advances) made).table.step = reply.table.step := by
    unfold stepRestore
    rw [if_pos hopen]
    exact ⟨rfl, rfl⟩
  refine ⟨?_, hclosed.idle, ?_⟩
  · rw [← hmark.1]
    exact eq_marked hsequences hcount (hclosed.depth_eq.trans hopened.assembled.depth_eq)
      (hmark.2.trans hstep)
  · unfold stepRestore at hok ⊢
    rw [if_pos hopen] at hok ⊢
    rw [hhook] at hok ⊢
    exact ⟨restoreHooks_calls _ _ _, restoreHooks_ok hok⟩

theorem checkpointed_opened (hbegin : stepBegin table step [] policy (some attempt.coordinator.ops) = some reply)
    (hok : reply.status = .ok ()) (owners : UInt32 → Fin 8 → δ) :
    Checkpointed (stepSlots reply.step) owners (attempt.carryOutAll [] reply.calls (resting owners)) := by
  obtain ⟨-, done, hloop⟩ := stepBegin_prepared hbegin hok
  obtain ⟨hcalls, hall⟩ := prepareLoop_ok hloop
  rw [hcalls, nil_append]
  refine @checkpointed_prepared _ attempt owners (resting owners) _ _ _ [] hall fun slot rank => ?_
  exact ⟨rfl, fun hmem => absurd hmem not_mem_nil, fun _ => rfl⟩

theorem states_restore {owners : UInt32 → Fin 8 → δ} {sessions : Sessions δ} {entries : List Entry}
    {made : List HookCall} (hall : AllOk attempt.coordinator.restore made (entries.map (hookCall .restore table)))
    (h : Checkpointed (entries.map fun entry => entry.slot.stateSlot) owners sessions) :
    states (attempt.carryOutAll made (entries.map (hookCall .restore table)) sessions) = owners := by
  refine states_restored hall h.recoverable fun slot rank hslot => ?_
  refine ((h slot rank).2 fun hmem => ?_).1
  obtain ⟨entry, hentry, heq⟩ := mem_map.mp hmem
  exact hslot entry hentry heq

variable {s : State δ} {sessions : Sessions δ} {draws : Draws} {closing : Reply} {commits : List HookCall}
  {status rollback : Except Error Unit}

variable {histories : Nat → History} {built : Built}

theorem decodeBatchStepBuild_cases
    (h : decodeBatchStepBuild coordinator table step calls policy histories = some built) :
    (∃ err, built.reply.status = .error err ∧ built.reply.table = marked table built.reply.table.restored ∧
        built.reply.step.active = step.active) ∨
      coordinator.penaltiesActive = false ∧ built.reply.status = .ok () ∧
        stepBegin table step calls policy (some coordinator.ops) = some built.reply := by
  unfold decodeBatchStepBuild at h
  split_ifs at h with howner hdepth hpenalties hembedding
  iterate 4
    · obtain rfl := Option.some.inj h
      exact .inl ⟨_, rfl, rfl, rfl⟩
  · obtain ⟨reply, hbegin, hbuilt⟩ := Option.map_eq_some_iff.mp h
    have hreply : built.reply = reply := by
      rw [← hbuilt]
      split
      · rfl
      · split <;> rfl
    rw [← hreply] at hbegin
    cases hstatus : built.reply.status with
    | error err =>
      obtain ⟨htable, hactive⟩ := stepBegin_refused hbegin (by rw [hstatus]; simp)
      exact .inl ⟨err, rfl, htable, hactive⟩
    | ok u => exact .inr ⟨Bool.eq_false_of_not_eq_true hpenalties, rfl, hbegin⟩

theorem drawSlots_valid_all {hidden : UInt32 → η} {after : Draws}
    (hpenalties : attempt.coordinator.penaltiesActive = false)
    (hopened : Opened table policy (some coordinator.ops) reply slots) (hdraws : draws.step = reply.step)
    (h : drawSlots model attempt reply.table hidden 0 reply.step.entries draws = (after, .ok ())) :
    ∀ entry ∈ after.step.entries, entry.outcome.valid = true := by
  have hlength : reply.step.entries.length ≤ batchMax := by
    rw [hopened.entries_eq, length_map]
    exact hopened.length_le
  have hvalid := drawSlots_valid hpenalties (by unfold batchMax at hlength; omega)
    (fun i entry hi => absurd hi (Nat.not_lt_zero i)) h
  obtain ⟨advances, heq⟩ :=
    @drawSlots_advances δ η model attempt reply.table hidden hpenalties 0 reply.step.entries draws
  have hafter : after.step = advanceAll reply.step advances := by
    rw [h, hdraws] at heq
    exact heq
  have hsame := congrArg List.length (advanceAll_keeps reply.step advances).2.2
  rw [length_map, length_map, ← hafter] at hsame
  intro entry hentry
  obtain ⟨i, hi, rfl⟩ := getElem_of_mem hentry
  exact hvalid i _ (by omega) (List.getElem?_eq_getElem hi)

theorem commitCheck_opened {entries : List Entry} (k : Nat)
    (hsnapshot : ∀ entry ∈ entries,
      entry.snapshot = stepSnapshot entry.slot (table.sequences entry.slot.sequence))
    (hvalid : ∀ entry ∈ entries, entry.outcome.valid = true) : commitCheck table k entries = .ok () := by
  induction entries generalizing k with
  | nil => rfl
  | cons entry rest ih =>
    unfold commitCheck
    rw [hvalid entry mem_cons_self, hsnapshot entry mem_cons_self]
    have hsame : ¬((table.sequences entry.slot.sequence).stateGeneration ≠
          (table.sequences entry.slot.sequence).stateGeneration ∨
        (table.sequences entry.slot.sequence).samplerGeneration ≠
          (table.sequences entry.slot.sequence).samplerGeneration) := by
      simp
    simp only [Bool.not_true, Bool.false_eq_true, if_false, stepSnapshot, hsame]
    apply ih
    · exact (forall_mem_cons.mp hsnapshot).2
    · exact (forall_mem_cons.mp hvalid).2

section

variable (hopened : Opened s.table policy (some attempt.coordinator.ops) reply slots)
    (hidle : s.step.active = false) (hstep : reply.table.step = s.table.step)
    (hsessions : Checkpointed (stepSlots reply.step) s.owners sessions)

include hopened hidle hstep hsessions

theorem finish_undone (hadvances : ∃ advances, draws.step = advanceAll reply.step advances)
    (hcounts : draws.output.counts = s.output.counts)
    (hcommits : attempt.carryOutAll reply.calls commits sessions = sessions)
    (hrestore : (stepRestore reply.table draws.step (reply.calls ++ commits)).status = .ok ())
    (htable : closing.table = (stepRestore reply.table draws.step (reply.calls ++ commits)).table)
    (hclosing : closing.step = (stepRestore reply.table draws.step (reply.calls ++ commits)).step)
    (hcalls : closing.calls = (stepRestore reply.table draws.step (reply.calls ++ commits)).calls) :
    Undone s (finish attempt reply.calls sessions draws closing status rollback).state := by
  obtain ⟨advances, hdraws⟩ := hadvances
  rw [hdraws] at hrestore htable hclosing hcalls
  obtain ⟨hmarked, hclosed, hmade, hall⟩ := stepRestore_opened hopened hstep advances _ hrestore
  refine ⟨?_, ?_, ?_, hcounts⟩
  · show closing.table = marked s.table closing.table.restored
    rw [htable, hmarked]
    rfl
  · show closing.step.active = s.step.active
    rw [hclosing, hclosed, hidle]
  · show states (attempt.carryOutAll reply.calls (closing.calls.drop reply.calls.length) sessions) = s.owners
    rw [hcalls, hmade, append_assoc, drop_left, carryOutAll_append, hcommits]
    apply states_restore hall
    rw [← stepSlots_advanceAll reply.step advances] at hsessions
    exact hsessions

theorem commit_undone (hadvances : ∃ advances, draws.step = advanceAll reply.step advances)
    (hvalid : ∀ entry ∈ draws.step.entries, entry.outcome.valid = true)
    (hcounts : draws.output.counts = s.output.counts)
    (hstatus : (commit attempt reply.table reply.calls sessions draws).status ≠ .ok ())
    (hrollback : (commit attempt reply.table reply.calls sessions draws).rollback = .ok ())
    (hcommits : ∀ made err,
      commitHooks attempt.coordinator.commit reply.table reply.step.entries reply.calls = (made, .error err) →
      (stepRestore reply.table reply.step made).status = .ok () → ¬attempt.CommitsAny made) :
    Undone s (commit attempt reply.table reply.calls sessions draws).state := by
  have hdraws := hadvances
  obtain ⟨advances, heq⟩ := hdraws
  obtain ⟨hactive, hops, -⟩ := advanceAll_keeps reply.step advances
  have hopen : draws.step.active = true := by rw [heq, hactive, hopened.active]
  have hhook : draws.step.ops.bind Ops.commit = some attempt.coordinator.commit := by
    rw [heq, hops, hopened.ops_eq]
    rfl
  have hcheck : commitCheck reply.table 0 draws.step.entries = .ok () := by
    apply commitCheck_opened 0 _ hvalid
    intro entry hentry
    rw [heq] at hentry
    exact (hopened.snapshot_eq advances hentry).2
  rcases hhooks : commitHooks attempt.coordinator.commit reply.table draws.step.entries reply.calls with
    ⟨made, err | done⟩
  · obtain ⟨-, htable, hcalls⟩ := stepCommit_hook_failed hopen hcheck hhook hhooks
    have hrestore : (stepRestore reply.table draws.step made).status = .ok () := by
      have hkept : commitRollback reply.table draws.step reply.calls =
          (stepRestore reply.table draws.step made).status := by
        unfold commitRollback
        rw [hhook]
        dsimp only
        rw [hhooks]
      rw [← hkept]
      exact hrollback
    have hclosing : (stepCommit reply.table draws.step reply.calls).step =
        (stepRestore reply.table draws.step made).step := by
      unfold stepCommit
      rw [if_neg (by simp [hopen])]
      simp only [hcheck, hhook, hhooks, hrestore]
    obtain ⟨k, hmade⟩ := @commitHooks_calls attempt.coordinator.commit reply.table draws.step.entries reply.calls
    rw [hhooks] at hmade
    obtain rfl : made = _ := hmade
    refine finish_undone hopened hidle hstep hsessions hadvances hcounts ?_ hrestore htable hclosing hcalls
    have huncarried := hcommits _ err (by rw [← hhooks, heq, commitHooks_congr (advanceAll_slots reply.step advances)])
      (by rw [← hrestore, heq, (stepRestore_advanceAll reply.step advances _).1])
    apply carryOutAll_uncarried
    intro front call back rank hsplit
    by_contra hcarried
    apply huncarried
    have hcall : call.kind = .commit := by
      have hmem : call ∈ (draws.step.entries.take k).map (hookCall .commit reply.table) := by
        rw [hsplit]
        exact mem_append_right _ mem_cons_self
      obtain ⟨entry, -, rfl⟩ := mem_map.mp hmem
      rfl
    refine ⟨reply.calls ++ front, call, back, rank, ?_, hcall, by simpa using hcarried⟩
    rw [hsplit, append_assoc]
  · refine absurd ?_ hstatus
    show (stepCommit reply.table draws.step reply.calls).status = .ok ()
    unfold stepCommit
    rw [if_neg (by simp [hopen])]
    simp only [hcheck, hhook, hhooks]

theorem rollBack_undone (hadvances : ∃ advances, draws.step = advanceAll reply.step advances)
    (hcounts : draws.output.counts = s.output.counts)
    (hrestore : (stepRestore reply.table draws.step reply.calls).status = .ok ()) :
    Undone s (finish attempt reply.calls sessions draws (stepRestore reply.table draws.step reply.calls) status
      rollback).state := by
  have hnone : reply.calls ++ [] = reply.calls := append_nil _
  have hsame : attempt.carryOutAll reply.calls [] sessions = sessions := rfl
  apply finish_undone hopened hidle hstep hsessions hadvances hcounts hsame
  · rw [hnone]
    exact hrestore
  · rw [hnone]
  · rw [hnone]
  · rw [hnone]

theorem passRing_undone {work : BatchWork} (hpenalties : attempt.coordinator.penaltiesActive = false)
    (hdraws : draws.step = reply.step) (hcounts : draws.output.counts = s.output.counts)
    (hstatus : (passRing model attempt reply.table reply.step reply.calls sessions work draws).status ≠ .ok ())
    (hrollback :
      (passRing model attempt reply.table reply.step reply.calls sessions work draws).rollback = .ok ())
    (hcommits : ¬TornCommit attempt reply) :
    Undone s (passRing model attempt reply.table reply.step reply.calls sessions work draws).state := by
  unfold passRing at hstatus hrollback ⊢
  cases hring : attempt.ring with
  | error err =>
    simp only [hring] at hrollback ⊢
    exact rollBack_undone hopened hidle hstep (hsessions.rewrite _) ⟨[], hdraws⟩ hcounts hrollback
  | ok u =>
    simp only [hring] at hstatus hrollback ⊢
    split
    next habort =>
      rw [if_pos habort] at hrollback
      exact rollBack_undone hopened hidle hstep (hsessions.rewrite _) ⟨[], hdraws⟩ hcounts hrollback
    next habort =>
      rw [if_neg habort] at hstatus hrollback
      generalize hhidden : (fun slot => (model.ring work (states sessions) slot).2) = hidden at *
      have hkept := @drawSlots_counts δ η model attempt reply.table hidden hpenalties 0 reply.step.entries draws
      have hadvances :=
        @drawSlots_advances δ η model attempt reply.table hidden hpenalties 0 reply.step.entries draws
      rw [hdraws] at hadvances
      rw [hcounts] at hkept
      split
      next after err hloop =>
        rw [hloop] at hkept hadvances hrollback
        exact rollBack_undone hopened hidle hstep (hsessions.rewrite _) hadvances hkept hrollback
      next after hloop =>
        rw [hloop] at hkept hadvances hstatus hrollback
        apply commit_undone hopened hidle hstep (hsessions.rewrite _) hadvances _ hkept hstatus hrollback
        · intro made err hhooks hrestore hcarried
          have hfaultless := drawSlots_faultless hloop
          simp only [Nat.zero_add] at hfaultless
          exact hcommits ⟨hring, Bool.eq_false_of_not_eq_true habort, fun k hk => (hfaultless k hk).1,
            fun k hk => (hfaultless k hk).2, made, err, hhooks, hcarried, hrestore⟩
        · exact drawSlots_valid_all hpenalties hopened hdraws hloop

end

theorem decodeBatchStep_undone {result : Result δ} (h : decodeBatchStep model attempt s = some result)
    (hstatus : result.status ≠ .ok ()) (hrollback : result.rollback = .ok ())
    (hcommits : ∀ built work,
      decodeBatchStepBuild attempt.coordinator s.table s.step [] attempt.policy attempt.histories = some built →
      built.message = .ok work → ¬TornCommit attempt built.reply) : Undone s result.state := by
  obtain ⟨built, hbuilt, rfl⟩ := Option.map_eq_some_iff.mp h
  rcases decodeBatchStepBuild_cases hbuilt with ⟨err, hrefused, htable, hactive⟩ | ⟨hpenalties, hok, hbegin⟩
  · simp only [hrefused]
    exact ⟨htable, hactive, states_carryOutAll_resting _ _, rfl⟩
  obtain ⟨hidle, slots, hopened⟩ : s.step.active = false ∧
      ∃ slots, Opened s.table attempt.policy (some attempt.coordinator.ops) built.reply slots := by
    rcases stepBegin_cases hbegin with hrefused | hopened
    · exact absurd hok hrefused.status_ne
    · exact hopened
  have hstep := (stepBegin_prepared hbegin hok).1
  have hprepared := checkpointed_opened hbegin hok s.owners
  simp only [hok] at hstatus hrollback ⊢
  cases hmessage : built.message with
  | error err =>
    simp only [hmessage] at hrollback ⊢
    exact rollBack_undone hopened hidle hstep hprepared ⟨[], rfl⟩ rfl hrollback
  | ok work =>
    simp only [hmessage] at hstatus hrollback ⊢
    exact passRing_undone hopened hidle hstep hprepared hpenalties rfl rfl hstatus hrollback
      (hcommits built work hbuilt hmessage)

end Failed

end FlashGordon.DecodeBatchSample
