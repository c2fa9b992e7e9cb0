import FlashGordon.DecodeBatchRetry

/-! The retry of a decode batch step. What a step does depends on the live records, on whether a step is open,
on the owner sessions and on the penalty counts, and on nothing else that a failed attempt leaves behind. -/

namespace FlashGordon.DecodeBatchSample

open DecodeBatch OutputHistory

variable {δ η : Type}

/-- Two attempts that cannot be told apart: the same status and calls, the same records, owner sessions and
penalty counts, and after a success the same tokens and sampler states. -/
structure SameOutcome (again fresh : Result δ) : Prop where
  status_eq : again.status = fresh.status
  rollback_eq : again.rollback = fresh.rollback
  calls_eq : again.calls = fresh.calls
  records : SameRecords fresh.state.table again.state.table
  owners_eq : again.state.owners = fresh.state.owners
  counts_eq : again.state.output.counts = fresh.state.output.counts
  entries_eq : fresh.status = .ok () → again.state.step.entries = fresh.state.step.entries
  sampler_eq : fresh.status = .ok () → again.state.samplerState = fresh.state.samplerState

section Begin

variable {table : Table} {step other : Step} {policy : Option Policy} {coordinator : Coordinator}
  {histories : Nat → History} {built : Built}

theorem decodeBatchStepBuild_marked (restored : Bool) (hactive : other.active = step.active) :
    decodeBatchStepBuild coordinator (marked table restored) other [] policy histories =
        decodeBatchStepBuild coordinator table step [] policy histories ∨
      ∃ err given kept,
        decodeBatchStepBuild coordinator (marked table restored) other [] policy histories =
            some ⟨⟨marked table restored, given, [], .error err⟩, [], .error err⟩ ∧
          decodeBatchStepBuild coordinator table step [] policy histories =
            some ⟨⟨table, kept, [], .error err⟩, [], .error err⟩ := by
  unfold decodeBatchStepBuild
  rw [show (marked table restored).depth = table.depth from rfl]
  split_ifs with howner hdepth hpenalties hembedding
  iterate 4 exact .inr ⟨_, _, _, rfl, rfl⟩
  · unfold stepBegin
    rw [hactive, schedule_marked]
    split
    · exact .inr ⟨_, _, _, rfl, rfl⟩
    · cases schedule table policy with
      | error err => exact .inr ⟨err, _, _, rfl, rfl⟩
      | ok assembled => exact .inl rfl

theorem unwindPrepared_isSome (hook : Hook) (table : Table) (done : List Entry) (calls : List HookCall) :
    ∃ unwound, unwindPrepared (some hook) table done calls = some unwound := by
  cases done with
  | nil => exact ⟨calls, rfl⟩
  | cons entry rest => exact ⟨_, rfl⟩

theorem decodeBatchStepBuild_isSome (coordinator : Coordinator) (table : Table) (step : Step)
    (policy : Option Policy) (histories : Nat → History) :
    ∃ built, decodeBatchStepBuild coordinator table step [] policy histories = some built := by
  unfold decodeBatchStepBuild
  split_ifs
  · exact ⟨_, rfl⟩
  · exact ⟨_, rfl⟩
  · exact ⟨_, rfl⟩
  · exact ⟨_, rfl⟩
  · obtain ⟨reply, hreply⟩ : ∃ reply, stepBegin table step [] policy (some coordinator.ops) = some reply := by
      unfold stepBegin
      split
      · exact ⟨_, rfl⟩
      split
      · exact ⟨_, rfl⟩
      next after slots hschedule =>
        rw [show (some coordinator.ops).bind Ops.prepare = some coordinator.prepare from rfl,
          show (some coordinator.ops).bind Ops.restore = some coordinator.restore from rfl]
        dsimp only
        split
        next done made err hloop =>
          obtain ⟨unwound, hunwound⟩ := unwindPrepared_isSome coordinator.restore after done made
          rw [hunwound]
          exact ⟨_, rfl⟩
        · exact ⟨_, rfl⟩
    rw [hreply]
    exact ⟨_, rfl⟩

theorem validateSlots_stateSlot {work : BatchWork} {before rest : List SlotWork}
    (h : validateSlots work before rest = .ok ()) : ∀ entry ∈ rest, entry.stateSlot.toNat < batchMax := by
  induction rest generalizing before with
  | nil => exact fun entry hentry => absurd hentry List.not_mem_nil
  | cons head rest ih =>
    unfold validateSlots at h
    split at h
    · cases h
    next hhead =>
      intro entry hentry
      rcases List.mem_cons.mp hentry with rfl | hentry
      · unfold validateSlot at hhead
        split at hhead
        · cases hhead
        · refine Nat.lt_of_not_le fun hge => ?_
          rw [if_pos (.inl hge)] at hhead
          cases hhead
      · exact ih h entry hentry

theorem buildSlots_stateSlot {slots : List Slot} {works : List SlotWork} {k : Nat}
    (h : buildSlots coordinator table histories k slots = (works, .ok ())) :
    works.map SlotWork.stateSlot = slots.map Slot.stateSlot := by
  induction slots generalizing k works with
  | nil =>
    cases h
    rfl
  | cons slot rest ih =>
    unfold buildSlots at h
    split at h
    · cases h
    next work hwork =>
      obtain ⟨rfl, hrest⟩ := Prod.mk.inj h
      rw [List.map_cons, List.map_cons, ih (Prod.ext rfl hrest)]
      congr 1
      unfold buildSlot at hwork
      split at hwork
      · cases hwork
      split at hwork
      · cases hwork
      split at hwork
      · cases hwork
      split at hwork
      · cases hwork
      split at hwork
      · cases hwork
      split at hwork
      · cases hwork
      · obtain rfl := Except.ok.inj hwork
        rfl

theorem batchMessage_valid {owner : Fin 8} {works : List SlotWork} {work : BatchWork}
    (h : batchMessage owner works = .ok work) : work.slots = works ∧ validateDecodeBatchWork work = .ok () := by
  unfold batchMessage at h
  dsimp only at h
  split at h
  · cases h
  · rw [Except.map.eq_def] at h
    split at h
    · cases h
    next u hvalid =>
      obtain rfl := Except.ok.inj h
      exact ⟨rfl, hvalid⟩

theorem decodeBatchStepBuild_stateSlot {work : BatchWork}
    (h : decodeBatchStepBuild coordinator table step [] policy histories = some built)
    (hok : built.reply.status = .ok ()) (hmessage : built.message = .ok work) :
    ∀ entry ∈ built.reply.step.entries, entry.slot.stateSlot.toNat < maxSlots := by
  unfold decodeBatchStepBuild at h
  split_ifs at h
  iterate 4
    · obtain rfl := Option.some.inj h
      cases hok
  obtain ⟨reply, -, hbuilt⟩ := Option.map_eq_some_iff.mp h
  split at hbuilt
  next err herr =>
    subst hbuilt
    exact absurd hok (by rw [herr]; simp)
  split at hbuilt
  · subst hbuilt
    cases hmessage
  next works hworks =>
    subst hbuilt
    have hslots := buildSlots_stateSlot hworks
    obtain ⟨hworkSlots, hvalid⟩ := batchMessage_valid hmessage
    intro entry hentry
    have hmem : entry.slot.stateSlot ∈ works.map SlotWork.stateSlot := by
      rw [hslots, List.map_map]
      exact List.mem_map_of_mem hentry
    obtain ⟨one, hone, heq⟩ := List.mem_map.mp hmem
    rw [← heq]
    unfold validateDecodeBatchWork at hvalid
    split at hvalid
    · cases hvalid
    · exact validateSlots_stateSlot hvalid one (hworkSlots ▸ hone)

end Begin

section Draws

variable {model : Model δ η} {attempt : Attempt} {table : Table} {hidden : UInt32 → η} {draws other : Draws}

structure Alike (other draws : Draws) : Prop where
  step_eq : other.step = draws.step
  counts_eq : other.output.counts = draws.output.counts

theorem setSession_congr {output before : OutputRank} {slot : Nat} (hcounts : before.counts = output.counts)
    (hslot : slot < maxSlots) : before.setSession slot = output.setSession slot := by
  unfold OutputRank.setSession
  rw [if_pos hslot, if_pos hslot, hcounts]

theorem drawSlot_congr (hpenalties : attempt.coordinator.penaltiesActive = false) (halike : Alike other draws)
    (k : Nat) {entry : Entry} (hslot : entry.slot.stateSlot.toNat < maxSlots) :
    (drawSlot model attempt table hidden k entry other).2 = (drawSlot model attempt table hidden k entry draws).2 ∧
      Alike (drawSlot model attempt table hidden k entry other).1
        (drawSlot model attempt table hidden k entry draws).1 ∧
      ((drawSlot model attempt table hidden k entry draws).2 = .ok () →
        (drawSlot model attempt table hidden k entry other).1 =
          (drawSlot model attempt table hidden k entry draws).1) := by
  have hselected := setSession_congr halike.counts_eq hslot
  unfold drawSlot
  cases hinput : attempt.input k with
  | error err => exact ⟨rfl, halike, fun hok => nomatch hok⟩
  | ok u =>
    dsimp only
    rw [hpenalties]
    have hfor : other.output.countsFor entry.slot.stateSlot.toNat =
        draws.output.countsFor entry.slot.stateSlot.toNat := by
      rw [countsFor_of_lt hslot, countsFor_of_lt hslot, halike.counts_eq]
    rw [hfor]
    cases houtput : attempt.output k with
    | lost err reached =>
      refine ⟨rfl, ⟨halike.step_eq, ?_⟩, fun hok => nomatch hok⟩
      cases reached with
      | true => exact congrArg OutputRank.counts hselected
      | false => exact halike.counts_eq
    | arrives =>
      simp only [handleOutputWork_unpenalised, hselected, halike.step_eq]
      split
      · exact ⟨trivial, ⟨rfl, rfl⟩, fun hok => nomatch hok⟩
      · exact ⟨trivial, ⟨rfl, rfl⟩, fun _ => trivial⟩

theorem drawSlots_congr (hpenalties : attempt.coordinator.penaltiesActive = false) (halike : Alike other draws)
    (k : Nat) {entries : List Entry} (hslots : ∀ entry ∈ entries, entry.slot.stateSlot.toNat < maxSlots)
    (hne : entries ≠ []) :
    (drawSlots model attempt table hidden k entries other).2 =
        (drawSlots model attempt table hidden k entries draws).2 ∧
      Alike (drawSlots model attempt table hidden k entries other).1
        (drawSlots model attempt table hidden k entries draws).1 ∧
      ((drawSlots model attempt table hidden k entries draws).2 = .ok () →
        (drawSlots model attempt table hidden k entries other).1 =
          (drawSlots model attempt table hidden k entries draws).1) := by
  cases entries with
  | nil => exact absurd rfl hne
  | cons entry rest =>
    obtain ⟨hstatus, hafter, hsame⟩ := @drawSlot_congr δ η model attempt table hidden draws other hpenalties
      halike k entry (hslots entry List.mem_cons_self)
    rw [drawSlots, drawSlots]
    rcases hturn : drawSlot model attempt table hidden k entry draws with ⟨after, err | done⟩
    · rcases hother : drawSlot model attempt table hidden k entry other with ⟨left, err' | done⟩
      · rw [hturn, hother] at hstatus hafter
        exact ⟨hstatus, hafter, fun hok => nomatch hok⟩
      · rw [hturn, hother] at hstatus
        cases hstatus
    · rw [hturn] at hsame hstatus
      have hother : drawSlot model attempt table hidden k entry other = (after, .ok ()) :=
        Prod.ext (hsame rfl) hstatus
      rw [hother]
      exact ⟨rfl, ⟨rfl, rfl⟩, fun _ => rfl⟩

variable {s after : State δ} {reply : Reply} {sessions : Sessions δ} {work : BatchWork}

theorem sameOutcome_finish {before : List HookCall} {closing : Reply} {status rollback : Except Error Unit}
    (hcounts : other.output.counts = draws.output.counts)
    (hsampler : status = .ok () → other.samplerState = draws.samplerState) :
    SameOutcome (finish attempt before sessions other closing status rollback)
      (finish attempt before sessions draws closing status rollback) :=
  ⟨rfl, rfl, rfl, ⟨rfl, rfl⟩, rfl, hcounts, fun _ => rfl, hsampler⟩

theorem sameOutcome_rollBack (halike : Alike other draws) (calls : List HookCall) (err : Error) :
    SameOutcome (rollBack attempt table calls sessions other err)
      (rollBack attempt table calls sessions draws err) := by
  unfold rollBack
  rw [halike.step_eq]
  exact sameOutcome_finish halike.counts_eq fun hok => nomatch hok

theorem sameOutcome_passRing (hpenalties : attempt.coordinator.penaltiesActive = false)
    (halike : Alike other draws)
    (hslots : ∀ entry ∈ reply.step.entries, entry.slot.stateSlot.toNat < maxSlots)
    (hne : reply.step.entries ≠ []) :
    SameOutcome (passRing model attempt reply.table reply.step reply.calls sessions work other)
      (passRing model attempt reply.table reply.step reply.calls sessions work draws) := by
  unfold passRing
  cases hring : attempt.ring with
  | error err => exact sameOutcome_rollBack halike _ _
  | ok u =>
    dsimp only
    split
    · unfold abort
      rw [halike.step_eq]
      refine sameOutcome_finish halike.counts_eq fun hok => ?_
      split at hok <;> cases hok
    · generalize (fun slot => (model.ring work (states sessions) slot).2) = hidden
      obtain ⟨hstatus, hafter, hsame⟩ := @drawSlots_congr δ η model attempt reply.table hidden draws other
        hpenalties halike 0 reply.step.entries hslots hne
      rcases hloop : drawSlots model attempt reply.table hidden 0 reply.step.entries draws with
        ⟨ended, err | done⟩
      · rcases hother : drawSlots model attempt reply.table hidden 0 reply.step.entries other with
          ⟨left, err' | done⟩
        · rw [hloop, hother] at hstatus hafter
          obtain rfl := Except.error.inj hstatus
          exact sameOutcome_rollBack hafter _ _
        · rw [hloop, hother] at hstatus
          cases hstatus
      · rw [hloop] at hsame hstatus
        have hother : drawSlots model attempt reply.table hidden 0 reply.step.entries other = (ended, .ok ()) :=
          Prod.ext (hsame rfl) hstatus
        rw [hother]
        exact sameOutcome_finish rfl fun _ => rfl

theorem Undone.sameOutcome (h : Undone s after) (model : Model δ η) (attempt : Attempt) :
    ∃ again fresh, decodeBatchStep model attempt after = some again ∧
      decodeBatchStep model attempt s = some fresh ∧ SameOutcome again fresh := by
  obtain ⟨htable, hactive, howners, hcounts⟩ := h
  unfold decodeBatchStep
  rw [htable, howners]
  rcases @decodeBatchStepBuild_marked s.table s.step after.step attempt.policy attempt.coordinator
    attempt.histories after.table.restored hactive with hsame | ⟨err, given, kept, hagain, hfresh⟩
  · obtain ⟨built, hbuilt⟩ := decodeBatchStepBuild_isSome attempt.coordinator s.table s.step attempt.policy
      attempt.histories
    rw [hsame, hbuilt]
    refine ⟨_, _, rfl, rfl, ?_⟩
    dsimp only
    cases hstatus : built.reply.status with
    | error err => exact sameOutcome_finish hcounts fun hok => nomatch hok
    | ok u =>
      have halike : Alike ⟨built.reply.step, after.samplerState, after.output⟩
        ⟨built.reply.step, s.samplerState, s.output⟩ := ⟨rfl, hcounts⟩
      cases hmessage : built.message with
      | error err => exact sameOutcome_rollBack halike _ _
      | ok work =>
        rcases decodeBatchStepBuild_cases hbuilt with ⟨err, hrefused, -⟩ | ⟨hpenalties, -, hbegin⟩
        · rw [hstatus] at hrefused
          cases hrefused
        · refine sameOutcome_passRing hpenalties halike
            (decodeBatchStepBuild_stateSlot hbuilt hstatus hmessage) ?_
          rcases stepBegin_cases hbegin with hrefused | ⟨-, slots, hopened⟩
          · exact absurd hstatus hrefused.status_ne
          · rw [hopened.entries_eq]
            exact fun hnil => hopened.slots_ne (List.map_eq_nil_iff.mp hnil)
  · rw [hagain, hfresh]
    refine ⟨_, _, rfl, rfl, ?_⟩
    exact ⟨rfl, rfl, rfl, ⟨rfl, rfl⟩, rfl, hcounts, fun hok => (nomatch hok), fun hok => (nomatch hok)⟩

end Draws

end FlashGordon.DecodeBatchSample
