import FlashGordon.DecodeBatchAgain

/-! When a failed decode batch step may be repeated as if it had never run. The commit of a batch is one owner
transaction for each slot, and a rank that has carried one out has let its checkpoint go; the restore that follows
a commit loop breaking off answers OK there and rolls nothing back. -/

namespace FlashGordon.DecodeBatchSample

open DecodeBatch OutputHistory List

variable {δ η : Type}

/-- A failed attempt whose restore succeeds can be followed by any attempt as if it had never run. -/
def Repeatable (model : Model δ η) (attempt : Attempt) (s : State δ) : Prop :=
  ∀ failed, decodeBatchStep model attempt s = some failed → failed.status ≠ .ok () → failed.rollback = .ok () →
    ∀ next : Attempt, ∃ again fresh, decodeBatchStep model next failed.state = some again ∧
      decodeBatchStep model next s = some fresh ∧ SameOutcome again fresh

/-! ## An attempt in which nothing goes wrong before the commit -/

section Forward

variable {model : Model δ η} {attempt : Attempt} {table : Table} {hidden : UInt32 → η} {draws : Draws}

theorem stepAdvance_accepts {step : Step} {k : Nat} {outcome : Outcome} (hactive : step.active = true)
    (hk : k < step.entries.length) (hbound : k < 2 ^ 32) (htoken : outcome.nextToken.toNat < vocabSize) :
    stepAdvance step (UInt32.ofNat k) (some outcome) =
      .ok { step with
            entries := step.entries.modify k fun entry =>
              { entry with outcome := { outcome with valid := true } } } := by
  have htoNat : (UInt32.ofNat k).toNat = k := UInt32.toNat_ofNat_of_lt' hbound
  unfold stepAdvance
  rw [hactive]
  dsimp only
  rw [htoNat, if_neg (by omega), if_neg (by omega)]

theorem drawSlots_accepts (hpenalties : attempt.coordinator.penaltiesActive = false)
    (hselect : ∀ uniform counts row, (model.select uniform counts row).toNat < vocabSize)
    {k : Nat} {entries : List Entry} (hactive : draws.step.active = true)
    (hlength : k + entries.length = draws.step.entries.length) (hbound : k + entries.length < 2 ^ 32)
    (hinput : ∀ i < k + entries.length, attempt.input i = .ok ())
    (houtput : ∀ i < k + entries.length, attempt.output i = .arrives) :
    ∃ after, drawSlots model attempt table hidden k entries draws = (after, .ok ()) ∧
      (∀ i < k, after.step.entries[i]? = draws.step.entries[i]?) ∧
      ∀ i entry, entries[i]? = some entry → ∃ drawn uniform counts, after.step.entries[k + i]? = some drawn ∧
        drawn.outcome.nextToken = model.select uniform counts (hidden entry.slot.stateSlot) := by
  induction entries generalizing k draws with
  | nil => exact ⟨draws, rfl, fun _ _ => rfl, fun i entry hentry => nomatch hentry⟩
  | cons entry rest ih =>
    rw [length_cons] at hlength hbound hinput houtput
    have hfirst : ∃ token uniform counts sampler output, token = model.select uniform counts
          (hidden entry.slot.stateSlot) ∧
        drawSlot model attempt table hidden k entry draws =
          (⟨{ draws.step with
              entries := draws.step.entries.modify k fun other =>
                { other with
                  outcome :=
                    { outcomeOf (table.sequences entry.index) token sampler with valid := true } } },
            sampler, output⟩, .ok ()) := by
      unfold drawSlot
      rw [hinput k (by omega), houtput k (by omega), hpenalties]
      simp only [handleOutputWork_unpenalised]
      rw [stepAdvance_accepts hactive (by omega) (by omega) (hselect _ _ _)]
      exact ⟨_, _, _, _, _, rfl, rfl⟩
    obtain ⟨token, uniform, counts, sampler, output, htoken, hturn⟩ := hfirst
    unfold drawSlots
    rw [hturn]
    obtain ⟨after, hloop, hkept, hdrawn⟩ := @ih
      ⟨{ draws.step with
          entries := draws.step.entries.modify k fun other =>
            { other with
              outcome := { outcomeOf (table.sequences entry.index) token sampler with valid := true } } },
        sampler, output⟩ (k + 1) hactive
      (by simp only [length_modify]; omega) (by omega)
      (fun i hi => hinput i (by omega)) (fun i hi => houtput i (by omega))
    refine ⟨after, hloop, fun i hi => ?_, fun i one hone => ?_⟩
    · rw [hkept i (by omega)]
      exact List.getElem?_modify_ne _ _ (by omega)
    · cases i with
      | zero =>
        obtain rfl := Option.some.inj hone
        have hk : k < draws.step.entries.length := by omega
        have hself : after.step.entries[k]? = some
            { draws.step.entries[k] with
              outcome :=
                { outcomeOf (table.sequences entry.index) token sampler with valid := true } } := by
          rw [hkept k (by omega)]
          rw [List.getElem?_modify_eq, List.getElem?_eq_getElem hk]
          rfl
        exact ⟨_, uniform, counts, hself, htoken⟩
      | succ i =>
        obtain ⟨drawn, uniform, counts, hafter, heq⟩ := hdrawn i one hone
        refine ⟨drawn, uniform, counts, ?_, heq⟩
        rw [show k + (i + 1) = k + 1 + i by omega]
        exact hafter

end Forward

section Passes

variable {model : Model δ η} {attempt : Attempt} {table : Table} {policy : Option Policy}
  {coordinator : Coordinator} {reply : Reply} {slots : List Slot} {sessions : Sessions δ} {work : BatchWork}
  {draws : Draws}

theorem passRing_accepts (hpenalties : attempt.coordinator.penaltiesActive = false)
    (hopened : Opened table policy (some coordinator.ops) reply slots) (hdraws : draws.step = reply.step)
    (hring : attempt.ring = .ok ()) (habort : attempt.injectAbort = false)
    (hinput : ∀ k < reply.step.entries.length, attempt.input k = .ok ())
    (houtput : ∀ k < reply.step.entries.length, attempt.output k = .arrives)
    (hselect : ∀ uniform counts row, (model.select uniform counts row).toNat < vocabSize) :
    ∃ after, passRing model attempt reply.table reply.step reply.calls sessions work draws =
        commit attempt reply.table reply.calls
          (rewrite (stepSlots reply.step) (fun slot => (model.ring work (states sessions) slot).1) sessions) after ∧
      (∃ advances, after.step = advanceAll reply.step advances) ∧
      (∀ entry ∈ after.step.entries, entry.outcome.valid = true) ∧
      ∀ (i : Nat) (entry : Entry), reply.step.entries[i]? = some entry → ∃ drawn uniform counts, after.step.entries[i]? = some drawn ∧ drawn.outcome.nextToken =
          model.select uniform counts (model.ring work (states sessions) entry.slot.stateSlot).2 := by
  have hlength : reply.step.entries.length ≤ batchMax := by
    rw [hopened.entries_eq, length_map]
    exact hopened.length_le
  unfold batchMax at hlength
  obtain ⟨after, hloop, -, htokens⟩ := @drawSlots_accepts δ η model attempt reply.table
    (fun slot => (model.ring work (states sessions) slot).2) draws hpenalties hselect 0 reply.step.entries
    (by rw [hdraws]; exact hopened.active) (by rw [hdraws, Nat.zero_add]) (by omega)
    (fun i hi => hinput i (by omega)) (fun i hi => houtput i (by omega))
  refine ⟨after, ?_, ?_, drawSlots_valid_all hpenalties hopened hdraws hloop, fun i entry hentry => ?_⟩
  · unfold passRing
    rw [hring]
    dsimp only
    rw [habort, if_neg (by decide), hloop]
    rfl
  · obtain ⟨advances, heq⟩ := @drawSlots_advances δ η model attempt reply.table
      (fun slot => (model.ring work (states sessions) slot).2) hpenalties 0 reply.step.entries draws
    rw [hloop, hdraws] at heq
    exact ⟨advances, heq⟩
  · obtain ⟨drawn, uniform, counts, hafter, htoken⟩ := htokens i entry hentry
    rw [Nat.zero_add] at hafter
    exact ⟨drawn, uniform, counts, hafter, htoken⟩

section

variable (hopened : Opened table policy (some coordinator.ops) reply slots)
include hopened

theorem stepCommit_recorded {advances : List (UInt32 × Option Outcome)} {step : Step} (hstep : step = advanceAll reply.step advances)
    (hvalid : ∀ entry ∈ step.entries, entry.outcome.valid = true) :
    step.active = true ∧ commitCheck reply.table 0 step.entries = .ok () ∧
      step.ops = some coordinator.ops ∧ step.entries.map Entry.slot = reply.step.entries.map Entry.slot := by
  obtain ⟨hactive, hops, -⟩ := advanceAll_keeps reply.step advances
  subst hstep
  refine ⟨hactive.trans hopened.active, ?_, hops.trans hopened.ops_eq, advanceAll_slots reply.step advances⟩
  apply commitCheck_opened 0 _ hvalid
  exact fun entry hentry => (hopened.snapshot_eq advances hentry).2

theorem commit_accepts {advances : List (UInt32 × Option Outcome)} (hadvances : draws.step = advanceAll reply.step advances)
    (hvalid : ∀ entry ∈ draws.step.entries, entry.outcome.valid = true)
    (hcommit : ∀ calls sequenceId stateSlot, coordinator.commit calls sequenceId stateSlot = .ok ()) :
    (commit attempt reply.table reply.calls sessions draws).status = .ok () ∧
      (commit attempt reply.table reply.calls sessions draws).state.step.entries = draws.step.entries := by
  obtain ⟨hactive, hcheck, hops, -⟩ := stepCommit_recorded hopened hadvances hvalid
  have hhooks : ∀ entries calls, (commitHooks coordinator.commit reply.table entries calls).2 = .ok () := by
    intro entries
    induction entries with
    | nil => exact fun _ => rfl
    | cons entry rest ih =>
      intro calls
      unfold commitHooks
      dsimp only
      rw [hcommit]
      exact ih _
  have hcommitted : (stepCommit reply.table draws.step reply.calls).status = .ok () ∧
      (stepCommit reply.table draws.step reply.calls).step = { draws.step with active := false } := by
    unfold stepCommit
    rw [if_neg (by rw [hactive]; decide), hcheck]
    dsimp only
    rw [hops, show (some coordinator.ops).bind Ops.commit = some coordinator.commit from rfl]
    dsimp only
    rcases hloop : commitHooks coordinator.commit reply.table draws.step.entries reply.calls with ⟨made, err | done⟩
    · have hok := hhooks draws.step.entries reply.calls
      rw [hloop] at hok
      cases hok
    · exact ⟨rfl, rfl⟩
  refine ⟨hcommitted.1, ?_⟩
  show (stepCommit reply.table draws.step reply.calls).step.entries = draws.step.entries
  rw [hcommitted.2]

end

end Passes

def recommit (coordinator : Coordinator) (commit : Hook) : Coordinator := { coordinator with commit := commit }

section Recommit

variable {table : Table} {step : Step} {policy : Option Policy} {coordinator : Coordinator}
  {histories : Nat → History} {built : Built}

theorem buildSlots_recommit (commit : Hook) (k : Nat) (slots : List Slot) :
    buildSlots (recommit coordinator commit) table histories k slots =
      buildSlots coordinator table histories k slots := by
  induction slots generalizing k with
  | nil => rfl
  | cons slot rest ih =>
    have hone : buildSlot (recommit coordinator commit) table histories k slot =
        buildSlot coordinator table histories k slot := rfl
    unfold buildSlots
    rw [hone, ih]

theorem decodeBatchStepBuild_recommit (commit : Hook)
    (h : decodeBatchStepBuild coordinator table step [] policy histories = some built)
    (hok : built.reply.status = .ok ()) :
    ∃ other, decodeBatchStepBuild (recommit coordinator commit) table step [] policy histories = some other ∧
      other.reply.status = .ok () ∧ other.reply.table = built.reply.table ∧
      other.reply.calls = built.reply.calls ∧ other.reply.step.entries = built.reply.step.entries ∧
      other.message = built.message := by
  unfold decodeBatchStepBuild at h ⊢
  rw [show (recommit coordinator commit).layerOwner = coordinator.layerOwner from rfl,
    show (recommit coordinator commit).penaltiesActive = coordinator.penaltiesActive from rfl,
    show (recommit coordinator commit).hasEmbedding = coordinator.hasEmbedding from rfl]
  split_ifs at h ⊢
  iterate 4
    · obtain rfl := Option.some.inj h
      cases hok
  obtain ⟨reply, hbegin, hbuilt⟩ := Option.map_eq_some_iff.mp h
  have hstatus : reply.status = .ok () := by
    cases hstatus : reply.status with
    | ok u => rfl
    | error err =>
      simp only [hstatus] at hbuilt
      rw [← hbuilt, hstatus] at hok
      cases hok
  obtain ⟨hidle, slots, hopened⟩ : step.active = false ∧
      ∃ slots, Opened table policy (some coordinator.ops) reply slots := by
    rcases stepBegin_cases hbegin with hrefused | hopened
    · exact absurd hstatus hrefused.status_ne
    · exact hopened
  obtain ⟨-, done, hloop⟩ := stepBegin_prepared hbegin hstatus
  have hagain : stepBegin table step [] policy (some (recommit coordinator commit).ops) =
      some ⟨reply.table,
        { active := true
          entries := reply.step.entries
          ops := some (recommit coordinator commit).ops
          prepared := reply.step.entries.length }, reply.calls, .ok ()⟩ := by
    unfold stepBegin
    rw [if_neg (by rw [hidle]; decide), hopened.schedule_eq]
    dsimp only
    rw [show (some (recommit coordinator commit).ops).bind Ops.prepare = some coordinator.prepare from rfl,
      ← hopened.entries_eq]
    dsimp only
    rw [hloop]
  rw [hagain]
  refine ⟨_, rfl, ?_⟩
  simp only [buildSlots_recommit]
  subst hbuilt
  simp only [hstatus]
  rcases hslots : buildSlots coordinator reply.table histories 0 (reply.step.entries.map Entry.slot) with
    ⟨works, err | done⟩
  · exact ⟨rfl, rfl, rfl, rfl, rfl⟩
  · exact ⟨rfl, rfl, rfl, rfl, rfl⟩

end Recommit

section Torn

variable {attempt : Attempt} {table : Table} {step : Step} {policy : Option Policy} {reply : Reply}
  {slots : List Slot}

theorem carryOutAll_commits {calls : List HookCall} (hkinds : ∀ call ∈ calls, call.kind = .commit)
    {sessions : Sessions δ} {stateSlot : UInt32} {rank : Fin 8} {left : δ} (before : List HookCall)
    (h : (sessions stateSlot rank).state = left) :
    (attempt.carryOutAll before calls sessions stateSlot rank).state = left := by
  have hkept := @carryOutAll_forall δ attempt sessions
    (fun slot rank session => session.state = (sessions slot rank).state) calls
    (fun call hcall slot rank session hsession => by
      rw [hkinds call hcall]
      exact hsession)
    (fun _ _ => rfl) before stateSlot rank
  exact hkept.trans h

theorem carryOutAll_letGo {calls : List HookCall} (hkinds : ∀ call ∈ calls, call.kind ≠ .prepare)
    {sessions : Sessions δ} {stateSlot : UInt32} {rank : Fin 8} {left : δ} (before : List HookCall)
    (h : sessions stateSlot rank = { state := left }) :
    attempt.carryOutAll before calls sessions stateSlot rank = { state := left } := by
  have hkept := @carryOutAll_forall δ attempt sessions
    (fun slot other session => slot = stateSlot → other = rank → session = { state := left }) calls
    (fun call hcall slot other session hsession hslot hother => by
      rw [hsession hslot hother]
      cases hkind : call.kind with
      | prepare => exact absurd hkind (hkinds call hcall)
      | commit => rfl
      | restore => rfl)
    (fun slot other hslot hother => by rw [hslot, hother]; exact h) before stateSlot rank
  exact hkept rfl rfl

theorem carryOutAll_carried {front back : List HookCall} {call : HookCall} {sessions : Sessions δ}
    {before : List HookCall} {rank : Fin 8} {left : δ} (hfront : ∀ other ∈ front, other.kind = .commit)
    (hcall : call.kind = .commit) (hback : ∀ other ∈ back, other.kind ≠ .prepare)
    (hcarries : attempt.carries (before ++ front) call rank = true)
    (h : (sessions call.stateSlot rank).state = left) :
    states (attempt.carryOutAll before (front ++ call :: back) sessions) call.stateSlot rank = left := by
  rw [carryOutAll_append]
  have hstate := @carryOutAll_commits δ attempt front hfront sessions call.stateSlot rank left before h
  have hdropped : attempt.carryOut (before ++ front) call (attempt.carryOutAll before front sessions)
      call.stateSlot rank = { state := left } := by
    unfold Attempt.carryOut
    rw [if_pos ⟨rfl, hcarries⟩, hcall]
    unfold Session.carryOut
    rw [hstate]
  have hkept := @carryOutAll_letGo δ attempt back hback _ _ _ left (before ++ front ++ [call]) hdropped
  exact congrArg Session.state hkept

/-- A model that shows whether a state slot has been passed over: the token is 1 then, and 0 before. -/
def markingModel : Model Bool Bool where
  ring := fun _ owners slot => (fun _ => true, decide (∃ rank, owners slot rank = true))
  torn := fun _ owners => owners
  warm := false
  select := fun _ _ row => if row then 1 else 0

theorem markingModel_select (uniform : Option UInt64) (counts : Nat → Nat) (row : Bool) :
    (markingModel.select uniform counts row).toNat < vocabSize := by
  cases row
  · exact (by decide : (0 : UInt32).toNat < vocabSize)
  · exact (by decide : (1 : UInt32).toNat < vocabSize)

/-- Nothing has been passed over yet. -/
def unmarked (table : Table) (step : Step) (samplerState : SamplerState) (output : OutputRank) : State Bool where
  table := table
  step := step
  owners := fun _ _ => false
  samplerState := samplerState
  output := output

theorem commit_torn (htorn : TornCommit attempt reply)
    (hbegin : stepBegin table step [] policy (some attempt.coordinator.ops) = some reply)
    (hok : reply.status = .ok ()) (hopened : Opened table policy (some attempt.coordinator.ops) reply slots)
    {advances : List (UInt32 × Option Outcome)} {draws : Draws} (hadvances : draws.step = advanceAll reply.step advances)
    (hvalid : ∀ entry ∈ draws.step.entries, entry.outcome.valid = true) {sessions : Sessions δ} :
    (commit attempt reply.table reply.calls sessions draws).status ≠ .ok () ∧
      (commit attempt reply.table reply.calls sessions draws).rollback = .ok () ∧
      (commit attempt reply.table reply.calls sessions draws).state.table = marked table true ∧
      (commit attempt reply.table reply.calls sessions draws).state.step.active = false ∧
      ∃ entry ∈ reply.step.entries, ∃ rank,
        (commit attempt reply.table reply.calls sessions draws).state.owners entry.slot.stateSlot rank =
          (sessions entry.slot.stateSlot rank).state := by
  obtain ⟨made, err, hhooks, ⟨front, call, back, rank, hsplit, hcall, hcarries⟩, hrestore⟩ := htorn.breaks_off
  obtain ⟨hactive, hcheck, hops, hslots⟩ := stepCommit_recorded hopened hadvances hvalid
  have hhook : draws.step.ops.bind Ops.commit = some attempt.coordinator.commit := by
    rw [hops]
    rfl
  have hdrawn : commitHooks attempt.coordinator.commit reply.table draws.step.entries reply.calls =
      (made, .error err) := by
    rw [commitHooks_congr hslots]
    exact hhooks
  obtain ⟨hstatus, htable, hcalls⟩ := stepCommit_hook_failed hactive hcheck hhook hdrawn
  obtain ⟨hstep, done, hloop⟩ := stepBegin_prepared hbegin hok
  have hrestored : (stepRestore reply.table (advanceAll reply.step advances) made).status = .ok () := by
    rw [(stepRestore_advanceAll reply.step advances made).1]
    exact hrestore
  obtain ⟨hmarked, hidle, -⟩ := stepRestore_opened hopened hstep advances made hrestored
  refine ⟨hstatus, ?_, ?_, ?_, ?_⟩
  · show commitRollback reply.table draws.step reply.calls = .ok ()
    unfold commitRollback
    rw [hhook]
    dsimp only
    rw [hdrawn, hadvances]
    exact hrestored
  · show (stepCommit reply.table draws.step reply.calls).table = marked table true
    rw [htable, hadvances, hmarked]
  · show (stepCommit reply.table draws.step reply.calls).step.active = false
    rw [hadvances] at hactive hcheck hhook hdrawn ⊢
    unfold stepCommit
    rw [if_neg (by rw [hactive]; decide)]
    simp only [hcheck, hhook, hdrawn, hrestored]
    exact hidle
  -- the calls are the prepares of begin, then commits, then restores
  obtain ⟨hprepares, -⟩ := prepareLoop_ok hloop
  obtain ⟨k, hmade⟩ := @commitHooks_calls attempt.coordinator.commit reply.table reply.step.entries reply.calls
  rw [hhooks] at hmade
  have hmade : made = reply.calls ++ (reply.step.entries.take k).map (hookCall .commit reply.table) := hmade
  obtain ⟨front', hfront, hcommits⟩ : ∃ front', front = reply.calls ++ front' ∧
      (reply.step.entries.take k).map (hookCall .commit reply.table) = front' ++ call :: back := by
    rw [hmade] at hsplit
    rcases append_eq_append_iff.mp hsplit with ⟨front', hfront, hcommits⟩ | ⟨tail, hfirst, hrest⟩
    · exact ⟨front', hfront, hcommits⟩
    · cases tail with
      | nil => exact ⟨[], by rw [append_nil] at hfirst ⊢; exact hfirst.symm, by simpa using hrest.symm⟩
      | cons head tail =>
        exfalso
        have hhead : head = call := (List.cons.inj hrest).1.symm
        have hmem : call ∈ reply.calls := by
          rw [hfirst, hhead]
          exact mem_append_right _ mem_cons_self
        rw [hprepares] at hmem
        obtain ⟨entry, -, heq⟩ := mem_map.mp hmem
        rw [← heq] at hcall
        cases hcall
  have hcommit : ∀ other ∈ front' ++ call :: back, other.kind = .commit := by
    intro other hother
    rw [← hcommits] at hother
    obtain ⟨entry, -, rfl⟩ := mem_map.mp hother
    rfl
  have hentry : ∃ entry ∈ reply.step.entries, entry.slot.stateSlot = call.stateSlot := by
    have hmem : call ∈ (reply.step.entries.take k).map (hookCall .commit reply.table) := by
      rw [hcommits]
      exact mem_append_right _ mem_cons_self
    obtain ⟨entry, hentry, heq⟩ := mem_map.mp hmem
    exact ⟨entry, mem_of_mem_take hentry, congrArg HookCall.stateSlot heq⟩
  obtain ⟨entry, hentry, hstateSlot⟩ := hentry
  refine ⟨entry, hentry, rank, ?_⟩
  show states (attempt.carryOutAll reply.calls
    ((stepCommit reply.table draws.step reply.calls).calls.drop reply.calls.length) sessions)
      entry.slot.stateSlot rank = _
  rw [hcalls, hadvances, hopened.restore_calls advances, hmade, append_assoc, drop_left, hcommits,
    append_assoc, cons_append, hstateSlot]
  refine carryOutAll_carried (fun other hother => hcommit other (mem_append_left _ hother)) hcall ?_
    (hfront ▸ hcarries) rfl
  intro other hother
  rcases mem_append.mp hother with hback | hrestores
  · rw [hcommit other (mem_append_right _ (mem_cons_of_mem _ hback))]
    decide
  · unfold restoreCalls at hrestores
    split at hrestores
    · obtain ⟨slot, -, rfl⟩ := mem_map.mp hrestores
      exact fun heq => nomatch heq
    · exact absurd hrestores not_mem_nil

variable {samplerState : SamplerState} {output : OutputRank} {built : Built} {work : BatchWork}

theorem decodeBatchStepBuild_message {coordinator : Coordinator} {histories : Nat → History}
    (h : decodeBatchStepBuild coordinator table step [] policy histories = some built)
    (hok : built.reply.status = .ok ()) :
    coordinator.penaltiesActive = false ∧
      stepBegin table step [] policy (some coordinator.ops) = some built.reply ∧
      ∃ slots, Opened table policy (some coordinator.ops) built.reply slots := by
  rcases decodeBatchStepBuild_cases h with ⟨err, hrefused, -⟩ | ⟨hpenalties, -, hbegin⟩
  · rw [hok] at hrefused
    cases hrefused
  · refine ⟨hpenalties, hbegin, ?_⟩
    rcases stepBegin_cases hbegin with hrefused | ⟨-, hopened⟩
    · exact absurd hok hrefused.status_ne
    · exact hopened

theorem built_status {coordinator : Coordinator} {histories : Nat → History}
    (h : decodeBatchStepBuild coordinator table step [] policy histories = some built)
    (hmessage : built.message = .ok work) : built.reply.status = .ok () := by
  cases hstatus : built.reply.status with
  | ok u => rfl
  | error err =>
    exfalso
    unfold decodeBatchStepBuild at h
    split_ifs at h
    iterate 4
      · obtain rfl := Option.some.inj h
        cases hmessage
    · obtain ⟨reply, -, rfl⟩ := Option.map_eq_some_iff.mp h
      cases hreply : reply.status with
      | error other =>
        simp only [hreply] at hmessage
        cases hmessage
      | ok u =>
        simp only [hreply] at hstatus
        split at hstatus
        · rw [hreply] at hstatus
          cases hstatus
        · rw [hreply] at hstatus
          cases hstatus

theorem decodeBatchStep_accepts {model : Model δ η} {s : State δ}
    (hbuilt : decodeBatchStepBuild attempt.coordinator s.table s.step [] attempt.policy attempt.histories = some built)
    (hmessage : built.message = .ok work) (hring : attempt.ring = .ok ()) (habort : attempt.injectAbort = false)
    (hinput : ∀ k < built.reply.step.entries.length, attempt.input k = .ok ())
    (houtput : ∀ k < built.reply.step.entries.length, attempt.output k = .arrives)
    (hselect : ∀ uniform counts row, (model.select uniform counts row).toNat < vocabSize) :
    ∃ draws, decodeBatchStep model attempt s =
        some (commit attempt built.reply.table built.reply.calls
          (rewrite (stepSlots built.reply.step) (fun slot => (model.ring work s.owners slot).1)
            (attempt.carryOutAll [] built.reply.calls (resting s.owners))) draws) ∧
      (∃ advances, draws.step = advanceAll built.reply.step advances) ∧
      (∀ entry ∈ draws.step.entries, entry.outcome.valid = true) ∧
      ∀ (i : Nat) (entry : Entry), built.reply.step.entries[i]? = some entry → ∃ drawn uniform counts, draws.step.entries[i]? = some drawn ∧
        drawn.outcome.nextToken = model.select uniform counts (model.ring work s.owners entry.slot.stateSlot).2 := by
  have hok := built_status hbuilt hmessage
  obtain ⟨hpenalties, -, slots, hopened⟩ := decodeBatchStepBuild_message hbuilt hok
  have hstates : states (attempt.carryOutAll [] built.reply.calls (resting s.owners)) = s.owners :=
    states_carryOutAll_resting _ _
  obtain ⟨draws, hpass, hadvances, hvalid, htokens⟩ := @passRing_accepts δ η model attempt s.table attempt.policy
    attempt.coordinator built.reply slots (attempt.carryOutAll [] built.reply.calls (resting s.owners)) work
    ⟨built.reply.step, s.samplerState, s.output⟩ hpenalties hopened rfl hring habort hinput houtput hselect
  rw [hstates] at hpass htokens
  refine ⟨draws, ?_, hadvances, hvalid, htokens⟩
  unfold decodeBatchStep
  rw [hbuilt, Option.map_some]
  simp only [hok, hmessage]
  rw [hpass]

theorem decodeBatchStep_torn
    (hbuilt : decodeBatchStepBuild attempt.coordinator table step [] attempt.policy attempt.histories = some built)
    (hmessage : built.message = .ok work) (htorn : TornCommit attempt built.reply) :
    ∃ failed, decodeBatchStep markingModel attempt (unmarked table step samplerState output) = some failed ∧
      failed.status ≠ .ok () ∧ failed.rollback = .ok () ∧ failed.state.table = marked table true ∧
      failed.state.step.active = step.active ∧
      ∃ entry ∈ built.reply.step.entries, ∃ rank, failed.state.owners entry.slot.stateSlot rank = true := by
  have hok := built_status hbuilt hmessage
  obtain ⟨-, hbegin, slots, hopened⟩ := decodeBatchStepBuild_message hbuilt hok
  have hidle : step.active = false := by
    rcases stepBegin_cases hbegin with hrefused | ⟨hidle, -⟩
    · exact absurd hok hrefused.status_ne
    · exact hidle
  obtain ⟨draws, hstep, ⟨advances, hadvances⟩, hvalid, -⟩ :=
    @decodeBatchStep_accepts _ _ attempt built work markingModel (unmarked table step samplerState output) hbuilt
      hmessage htorn.ring_ok htorn.not_abort htorn.input_ok htorn.output_ok markingModel_select
  refine ⟨_, hstep, ?_⟩
  obtain ⟨hstatus, hrollback, htable, hclosed, entry, hentry, rank, howner⟩ :=
    @commit_torn _ attempt table step attempt.policy built.reply slots htorn hbegin hok hopened advances draws
      hadvances hvalid
      (rewrite (stepSlots built.reply.step) (fun slot => (markingModel.ring work (fun _ _ => false) slot).1)
        (attempt.carryOutAll [] built.reply.calls (resting fun _ _ => false)))
  refine ⟨hstatus, hrollback, htable, hclosed.trans hidle.symm, entry, hentry, rank, howner.trans ?_⟩
  have hslot : entry.slot.stateSlot ∈ stepSlots built.reply.step := by
    exact mem_map.mpr ⟨entry, hentry, rfl⟩
  unfold rewrite
  rw [if_pos hslot]
  rfl

def mended (attempt : Attempt) : Attempt :=
  { attempt with coordinator := recommit attempt.coordinator fun _ _ _ => .ok () }

theorem decodeBatchStep_mended {s : State Bool}
    (hbuilt : decodeBatchStepBuild (mended attempt).coordinator s.table s.step [] attempt.policy attempt.histories =
      some built) (hmessage : built.message = .ok work) (hring : attempt.ring = .ok ())
    (habort : attempt.injectAbort = false)
    (hinput : ∀ k < built.reply.step.entries.length, attempt.input k = .ok ())
    (houtput : ∀ k < built.reply.step.entries.length, attempt.output k = .arrives) :
    ∃ result, decodeBatchStep markingModel (mended attempt) s = some result ∧ result.status = .ok () ∧
      ∀ (i : Nat) (entry : Entry), built.reply.step.entries[i]? = some entry → ∃ drawn : Entry,
        result.state.step.entries[i]? = some drawn ∧ drawn.outcome.nextToken =
          if ∃ rank, s.owners entry.slot.stateSlot rank = true then 1 else 0 := by
  have hok := built_status hbuilt hmessage
  obtain ⟨-, -, slots, hopened⟩ := decodeBatchStepBuild_message hbuilt hok
  obtain ⟨draws, hstep, ⟨advances, hadvances⟩, hvalid, htokens⟩ :=
    @decodeBatchStep_accepts _ _ (mended attempt) built work markingModel s hbuilt hmessage hring habort hinput
      houtput markingModel_select
  obtain ⟨hstatus, hentries⟩ := @commit_accepts _ (mended attempt) s.table attempt.policy (mended attempt).coordinator
    built.reply slots (rewrite (stepSlots built.reply.step) (fun slot => (markingModel.ring work s.owners slot).1)
      ((mended attempt).carryOutAll [] built.reply.calls (resting s.owners))) draws hopened advances hadvances hvalid
    fun _ _ _ => rfl
  refine ⟨_, hstep, hstatus, fun i entry hentry => ?_⟩
  obtain ⟨drawn, uniform, counts, hdrawn, htoken⟩ := htokens i entry hentry
  refine ⟨drawn, by rw [hentries]; exact hdrawn, htoken.trans ?_⟩
  simp only [markingModel, decide_eq_true_eq]

theorem not_repeatable_of_torn
    (hbuilt : decodeBatchStepBuild attempt.coordinator table step [] attempt.policy attempt.histories = some built)
    (hmessage : built.message = .ok work) (htorn : TornCommit attempt built.reply) :
    ¬Repeatable markingModel attempt (unmarked table step samplerState output) := by
  intro hrepeat
  obtain ⟨failed, hstep, hstatus, hrollback, htable, hactive, entry, hentry, rank, howner⟩ :=
    @decodeBatchStep_torn attempt table step samplerState output built work hbuilt hmessage htorn
  obtain ⟨again, fresh, hagain, hfresh, hsame⟩ := hrepeat failed hstep hstatus hrollback (mended attempt)
  obtain ⟨other, hother, hok, -, -, hentries, hotherMessage⟩ :=
    decodeBatchStepBuild_recommit (fun _ _ _ => .ok ()) hbuilt (built_status hbuilt hmessage)
  rw [hmessage] at hotherMessage
  -- the repeated attempt builds the same batch
  have hrebuilt : decodeBatchStepBuild (mended attempt).coordinator failed.state.table failed.state.step []
      attempt.policy attempt.histories = some other := by
    rw [htable]
    rcases @decodeBatchStepBuild_marked table step failed.state.step attempt.policy (mended attempt).coordinator
      attempt.histories true hactive with hsame | ⟨err, given, kept, -, hrefused⟩
    · exact hsame.trans hother
    · obtain rfl := Option.some.inj (hother.symm.trans hrefused)
      cases hok
  rw [← hentries] at hentry
  have hinput := htorn.input_ok
  have houtput := htorn.output_ok
  rw [← hentries] at hinput houtput
  obtain ⟨first, hfirst, hfirstOk, hfirstTokens⟩ :=
    @decodeBatchStep_mended attempt other work (unmarked table step samplerState output) hother hotherMessage
      htorn.ring_ok htorn.not_abort hinput houtput
  obtain ⟨second, hsecond, -, hsecondTokens⟩ := @decodeBatchStep_mended attempt other work failed.state hrebuilt
    hotherMessage htorn.ring_ok htorn.not_abort hinput houtput
  obtain rfl := Option.some.inj (hfirst.symm.trans hfresh)
  obtain rfl := Option.some.inj (hsecond.symm.trans hagain)
  obtain ⟨i, hi, hget⟩ := getElem_of_mem hentry
  have hat : other.reply.step.entries[i]? = some entry := by rw [List.getElem?_eq_getElem hi, hget]
  obtain ⟨drawn, hdrawn, htoken⟩ := hfirstTokens i entry hat
  obtain ⟨redrawn, hredrawn, hretoken⟩ := hsecondTokens i entry hat
  rw [hsame.entries_eq hfirstOk, hdrawn] at hredrawn
  obtain rfl := Option.some.inj hredrawn
  rw [if_pos ⟨rank, howner⟩] at hretoken
  rw [if_neg (by rintro ⟨other, hmarked⟩; cases hmarked), hretoken] at htoken
  exact absurd htoken (by decide)

end Torn

/-- Whatever the model, an attempt that fails with its rollback succeeding can be repeated as if it had never
run, exactly when it does not break off in a commit that some rank has carried out. -/
theorem repeatable_iff_not_torn (attempt : Attempt) (table : Table) (step : Step) (samplerState : SamplerState)
    (output : OutputRank) :
    (∀ (δ η : Type) (model : Model δ η) (owners : UInt32 → Fin 8 → δ),
        Repeatable model attempt ⟨table, step, owners, samplerState, output⟩) ↔
      ∀ built work,
        decodeBatchStepBuild attempt.coordinator table step [] attempt.policy attempt.histories = some built →
        built.message = .ok work → ¬TornCommit attempt built.reply := by
  constructor
  · intro hall built work hbuilt hmessage htorn
    exact not_repeatable_of_torn hbuilt hmessage htorn (hall Bool Bool markingModel fun _ _ => false)
  · intro htorn δ η model owners failed hfailed hstatus hrollback next
    have hundone := decodeBatchStep_undone hfailed hstatus hrollback htorn
    exact hundone.sameOutcome model next

/-! ## A commit torn between two slots -/

section TwoSlots

/-- The rows of slot number `k` of the plain coordinator. -/
def plainRows (k : Nat) : Rows where
  hyper := Vector.replicate hyperWidth ⟨if k = 0 then 0 else 1⟩
  ngram := none
  hyper_finite := by
    intro value hvalue
    rw [Vector.toList_replicate, List.mem_replicate] at hvalue
    rw [hvalue.2]
    split <;> rfl
  ngram_finite := fun row hrow => nomatch hrow

theorem buildSlots_plain (table : Table) (k : Nat) (slots : List Slot) :
    buildSlots plainCoordinator table numberedHistory k slots =
      ((slots.zipIdx k).map fun pair => slotWork pair.1 (plainRows pair.2), .ok ()) := by
  induction slots generalizing k with
  | nil => rfl
  | cons slot rest ih =>
    have hone : buildSlot plainCoordinator table numberedHistory k slot = .ok (slotWork slot (plainRows k)) := by
      have hlast : lastToken [if k = 0 then 0 else 1] = some (if k = 0 then 0 else 1) := by
        split <;> rfl
      have hfinite : firstNonFinite (plainRows k).hyper = none :=
        firstNonFinite_eq_none (plainRows k).hyper_finite
      simp only [plainRows] at hfinite
      simp only [buildSlot, numberedHistory, hlast, plainCoordinator, hfinite]
      rfl
    unfold buildSlots
    rw [hone, ih]
    rfl

def plainWorks (slots : List Slot) : List SlotWork :=
  (slots.zipIdx 0).map fun pair => slotWork pair.1 (plainRows pair.2)

theorem batchMessage_plain {depth : UInt32} {slots : List Slot} (h : WireReady depth slots)
    (hdepth : depth.toNat ≤ batchMax) (haxis : ∀ slot ∈ slots, slot.position.get 3 = 0) :
    ∃ work, batchMessage plainCoordinator.layerOwner (plainWorks slots) = .ok work := by
  have hvalid := h.validate hdepth haxis plainCoordinator.layerOwner
    ((slots.zipIdx 0).map fun pair => (pair.1, plainRows pair.2))
    (by rw [map_map]; exact zipIdx_map_fst 0 slots)
  have hany : ((plainWorks slots).any fun work => work.ngramEmbedding.isSome) = false := by
    unfold plainWorks
    rw [any_map, any_eq_false]
    intro pair _
    exact Bool.false_ne_true
  have hall : ((plainWorks slots).all fun work => work.ngramEmbedding.isSome) = false := by
    obtain ⟨slot, rest, rfl⟩ := exists_cons_of_ne_nil h.slots_ne
    rfl
  unfold batchMessage
  rw [hany, hall, if_neg (by decide)]
  have hbatch : batchWork plainCoordinator.layerOwner ((slots.zipIdx 0).map fun pair => (pair.1, plainRows pair.2)) =
      { layer := 0
        sourceRank := 0
        destinationRank := UInt8.ofNat plainCoordinator.layerOwner.val
        flags := 0
        positionMode := .text
        slots := plainWorks slots } := by
    unfold batchWork plainWorks
    obtain ⟨slot, rest, rfl⟩ := exists_cons_of_ne_nil h.slots_ne
    rw [map_map]
    rfl
  rw [hbatch] at hvalid
  simp only [Bool.false_eq_true, if_false]
  rw [hvalid]
  exact ⟨_, rfl⟩

/-- Both slots are prepared and drawn, the commit of state slot 0 succeeds everywhere, and that of state slot 1
is refused. -/
def tornAttempt : Attempt where
  coordinator := recommit plainCoordinator fun _ _ stateSlot =>
    if stateSlot = 0 then .ok () else .error ⟨.io, "peer closed fabric socket"⟩
  policy := none
  histories := numberedHistory
  injectAbort := false
  ring := .ok ()
  input := fun _ => .ok ()
  output := fun _ => .arrives
  carried := fun _ _ _ => false

theorem decodeBatchStepBuild_plain {table after : Table} {slots : List Slot}
    (hschedule : schedule table none = .ok (after, slots)) (hready : WireReady table.depth slots)
    (hdepth : table.depth = 2) (haxis : ∀ slot ∈ slots, slot.position.get 3 = 0) :
    ∃ built work, decodeBatchStepBuild plainCoordinator table {} [] none numberedHistory = some built ∧
      built.message = .ok work ∧ built.reply.status = .ok () ∧
      built.reply.step.entries = slots.map (snapshotEntry after) ∧ built.reply.table = after := by
  obtain ⟨reply, hbegin, hstatus, hentries⟩ := stepBegin_plain hschedule
  obtain ⟨work, hwork⟩ := batchMessage_plain hready (by rw [hdepth]; decide) haxis
  have htable : reply.table = after := by
    rcases stepBegin_cases hbegin with hrefused | ⟨-, taken, hopened⟩
    · exact absurd hstatus hrefused.status_ne
    · exact (Prod.mk.inj (Except.ok.inj (hopened.schedule_eq.symm.trans hschedule))).1
  have hslots : reply.step.entries.map Entry.slot = slots := by
    rw [hentries, map_map]
    exact map_id' slots
  refine ⟨⟨reply, plainWorks slots, batchMessage plainCoordinator.layerOwner (plainWorks slots)⟩, work, ?_, hwork,
    hstatus, hentries, htable⟩
  unfold decodeBatchStepBuild
  rw [if_neg (by decide), if_neg (by rw [hdepth]; decide), if_neg (by decide), if_neg (by decide), hbegin,
    Option.map_some, hstatus]
  rw [hslots, buildSlots_plain]
  rfl

theorem restoreHooks_plain (table : Table) (entries : List Entry) (calls : List HookCall) :
    (restoreHooks (fun _ _ _ => .ok ()) table entries calls (.ok ())).2 = .ok () := by
  induction entries generalizing calls with
  | nil => rfl
  | cons entry rest ih => exact ih _

/-- With two sequences ready the attempt fails between the commits of its two slots, its rollback succeeds, and
repeating it draws another token. -/
theorem tornAttempt_not_repeatable : ∃ s, System.Reached 2 twoReadyRun s ∧
    ¬Repeatable markingModel tornAttempt (unmarked s.table {} {} .initial) := by
  obtain ⟨s, after, hrun, hschedule, hdepth, hready, haxis, hfirst, hsecond⟩ : ∃ s after,
      System.Reached 2 twoReadyRun s ∧
      schedule s.table none = .ok (after, [slotOf s.table 0, slotOf s.table 1]) ∧ s.table.depth = 2 ∧
      WireReady s.table.depth [slotOf s.table 0, slotOf s.table 1] ∧
      (∀ slot ∈ [slotOf s.table 0, slotOf s.table 1], slot.position.get 3 = 0) ∧
      (slotOf s.table 0).stateSlot = 0 ∧ (slotOf s.table 1).stateSlot = 1 := by
    refine ⟨_, _, ⟨_, rfl, rfl⟩, rfl, rfl, ⟨?_, ?_, ?_, ?_, ?_⟩, ?_, rfl, rfl⟩ <;> decide
  obtain ⟨plain, work, hplain, hmessage, hstatus, hentries, -⟩ :=
    decodeBatchStepBuild_plain hschedule hready hdepth haxis
  obtain ⟨built, hbuilt, hok, -, -, hbuiltEntries, hbuiltMessage⟩ :=
    decodeBatchStepBuild_recommit tornAttempt.coordinator.commit hplain hstatus
  refine ⟨s, hrun, not_repeatable_of_torn hbuilt (hbuiltMessage.trans hmessage) ?_⟩
  have htwo : built.reply.step.entries =
      [snapshotEntry after (slotOf s.table 0), snapshotEntry after (slotOf s.table 1)] := by
    rw [hbuiltEntries, hentries]
    rfl
  obtain ⟨-, hbegin, slots, hopened⟩ := decodeBatchStepBuild_message hbuilt hok
  let first := hookCall .commit built.reply.table (snapshotEntry after (slotOf s.table 0))
  let second := hookCall .commit built.reply.table (snapshotEntry after (slotOf s.table 1))
  have haccepted : tornAttempt.coordinator.commit built.reply.calls first.sequenceId first.stateSlot = .ok () := by
    show (if (slotOf s.table 0).stateSlot = 0 then _ else _) = _
    rw [hfirst, if_pos rfl]
  have hrefused : ∀ calls, tornAttempt.coordinator.commit calls second.sequenceId second.stateSlot =
      .error ⟨.io, "peer closed fabric socket"⟩ := by
    intro calls
    show (if (slotOf s.table 1).stateSlot = 0 then _ else _) = _
    rw [hsecond, if_neg (by decide)]
  refine ⟨rfl, rfl, fun _ _ => rfl, fun _ _ => rfl, built.reply.calls ++ [first] ++ [second],
    ⟨.io, "peer closed fabric socket"⟩, ?_, ⟨built.reply.calls, first, [second], 0, ?_, rfl, ?_⟩, ?_⟩
  · rw [htwo]
    simp only [commitHooks]
    rw [show hookCall .commit built.reply.table (snapshotEntry after (slotOf s.table 0)) = first from rfl,
      show hookCall .commit built.reply.table (snapshotEntry after (slotOf s.table 1)) = second from rfl,
      haccepted]
    rw [hrefused]
  · rw [append_assoc]
    rfl
  · exact @carries_of_ok tornAttempt built.reply.calls first haccepted 0
  · unfold stepRestore
    rw [if_pos hopened.active, hopened.ops_eq,
      show (some (recommit plainCoordinator tornAttempt.coordinator.commit).ops).bind Ops.restore =
        some fun _ _ _ => .ok () from rfl]
    exact restoreHooks_plain _ _ _

end TwoSlots

end FlashGordon.DecodeBatchSample
