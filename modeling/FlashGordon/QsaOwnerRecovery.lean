import FlashGordon.QsaOwnerWriterRun
import Mathlib.Order.WellFounded
import Mathlib.Data.Prod.Lex

/-! A new session on a QSA owner (`qsa_owner_open_session` in `runtime.c`). The call first waits until the writer
thread has emptied its queue, and only then clears the status of the writer. A write that failed before or meanwhile
makes the wait answer with its error, and the call returns it before it comes to the place where it is cleared. -/

namespace FlashGordon.QsaOwner

variable {Records : Type}

/-- The moves of the writer thread, the only ones while a call waits for it. -/
def Action.Moves : Action Records → Prop
  | .take => True
  | .gather => True
  | .write _ => True
  | .retire => True
  | _ => False

def WriteFails (system : System Records) (action : Action Records) : Prop :=
  match action, system.writer with
  | .write (.error _), .gathering _ _ _ _ gathered => gathered.isEmpty = false
  | _, _ => False

/-! ## One move of the writer -/

/-- What a move can do: it takes the slot at the head, looks at a page, is done with a layer, fails to write one, or
retires the slot, written or not. -/
inductive Moved (system : System Records) (action : Action Records) (after : System Records) : Prop
  | take {index pageCount : Nat} (hwriter : system.writer = .idle) (hruntime : after.runtime = system.runtime)
      (hafter : after.writer = .gathering index pageCount 0 0 []) (hkept : ¬WriteFails system action)
  | gather {index pageCount slot i i' : Nat} {gathered gathered' : List (Page Records)}
      (hwriter : system.writer = .gathering index pageCount slot i gathered) (hpage : i < i') (hpages : i < pageCount)
      (hruntime : after.runtime = system.runtime) (hafter : after.writer = .gathering index pageCount slot i' gathered')
      (hkept : ¬WriteFails system action)
  | layer {index pageCount slot i : Nat} {gathered : List (Page Records)}
      (hwriter : system.writer = .gathering index pageCount slot i gathered) (hslot : slot < system.runtime.layers.length)
      (hruntime : after.runtime = system.runtime) (hafter : after.writer = .gathering index pageCount (slot + 1) 0 [])
      (hkept : ¬WriteFails system action)
  | fail {index pageCount slot i : Nat} {gathered : List (Page Records)} {err : Error}
      (hwriter : system.writer = .gathering index pageCount slot i gathered) (hruntime : after.runtime = system.runtime)
      (hafter : after.writer = .failed err) (hfails : WriteFails system action)
  | retire {index pageCount slot i : Nat} {gathered : List (Page Records)}
      (hwriter : system.writer = .gathering index pageCount slot i gathered)
      (hruntime : after.runtime = retireSlot system.runtime (.ok ())) (hafter : after.writer = .idle)
      (hkept : ¬WriteFails system action)
  | stop {err : Error} (hwriter : system.writer = .failed err)
      (hruntime : after.runtime = retireSlot system.runtime (.error err)) (hafter : after.writer = .idle)
      (hkept : ¬WriteFails system action)

theorem gatherPage_cases (runtime : Runtime Records) {index pageCount slot i : Nat} (gathered : List (Page Records))
    (hi : i < pageCount) : ∃ i' gathered', i < i' ∧
      gatherPage runtime index pageCount slot i gathered = .gathering index pageCount slot i' gathered' := by
  unfold gatherPage
  split
  · split
    · split
      · exact ⟨_, _, hi, rfl⟩
      · exact ⟨_, _, Nat.lt_succ_self i, rfl⟩
    · exact ⟨_, _, Nat.lt_succ_self i, rfl⟩
  · exact ⟨_, _, Nat.lt_succ_self i, rfl⟩

section Move

variable {manifest : Manifest} {system after : System Records} {action : Action Records}

theorem step_moved (hmove : action.Moves) (hstep : step manifest system action = some after) :
    Moved system action after := by
  cases action with
  | take =>
    simp only [step] at hstep
    split at hstep
    · next hwriter =>
        split at hstep
        · obtain rfl := Option.some.inj hstep
          exact .take hwriter rfl rfl (by simp [WriteFails])
        · cases hstep
    · cases hstep
  | gather =>
    simp only [step] at hstep
    split at hstep
    · next hwriter =>
        split at hstep
        · next hplace =>
            obtain rfl := Option.some.inj hstep
            obtain ⟨i', gathered', hi, hgather⟩ := gatherPage_cases system.runtime _ hplace.2
            exact .gather hwriter hi hplace.2 rfl hgather (by simp [WriteFails])
        · cases hstep
    · cases hstep
  | write outcome =>
    simp only [step] at hstep
    split at hstep
    · next hwriter =>
        split at hstep
        · next hplace =>
            split at hstep
            · next hnone =>
                obtain rfl := Option.some.inj hstep
                exact .layer hwriter hplace.1 rfl rfl (by cases outcome <;> simp [WriteFails, hwriter, hnone])
            · next hsome =>
                split at hstep
                · obtain rfl := Option.some.inj hstep
                  exact .fail hwriter rfl rfl (by simpa [WriteFails, hwriter] using hsome)
                · obtain rfl := Option.some.inj hstep
                  exact .layer hwriter hplace.1 rfl rfl (by simp [WriteFails])
        · cases hstep
    · cases hstep
  | retire =>
    simp only [step] at hstep
    split at hstep
    · next hwriter =>
        split at hstep
        · obtain rfl := Option.some.inj hstep
          exact .retire hwriter rfl rfl (by simp [WriteFails])
        · cases hstep
    · next hwriter =>
        obtain rfl := Option.some.inj hstep
        exact .stop hwriter rfl rfl (by simp [WriteFails])
    · cases hstep
  | append _ => exact hmove.elim
  | barrier _ _ _ _ => exact hmove.elim
  | fetch _ => exact hmove.elim
  | openSession _ => exact hmove.elim
  | publish _ _ _ => exact hmove.elim

/-- What the writer leaves alone. -/
structure SameSession (runtime after : Runtime Records) : Prop where
  guard : after.guard = runtime.guard
  statePath : after.statePath = runtime.statePath
  stateOpen : after.stateOpen = runtime.stateOpen
  layers : after.layers = runtime.layers

theorem retireSlot_sameSession (runtime : Runtime Records) (status : Except Error Unit) :
    SameSession runtime (retireSlot runtime status) := by
  cases status <;> exact ⟨rfl, rfl, rfl, rfl⟩

theorem Moved.sameSession (h : Moved system action after) : SameSession system.runtime after.runtime := by
  cases h with
  | take _ hruntime => exact hruntime ▸ ⟨rfl, rfl, rfl, rfl⟩
  | gather _ _ _ hruntime => exact hruntime ▸ ⟨rfl, rfl, rfl, rfl⟩
  | layer _ _ hruntime => exact hruntime ▸ ⟨rfl, rfl, rfl, rfl⟩
  | fail _ hruntime => exact hruntime ▸ ⟨rfl, rfl, rfl, rfl⟩
  | retire _ hruntime => exact hruntime ▸ retireSlot_sameSession _ _
  | stop _ hruntime => exact hruntime ▸ retireSlot_sameSession _ _

theorem Moved.not_broken_iff (h : Moved system action after) (hwhole : ¬system.Broken) :
    ¬after.Broken ↔ ¬WriteFails system action := by
  have hstatus : ∀ err, system.runtime.writerStatus ≠ .error err := fun err herr => hwhole (.inl ⟨err, herr⟩)
  cases h with
  | take _ hruntime hafter hkept => simpa [System.Broken, hruntime, hafter, hkept] using hstatus
  | gather _ _ _ hruntime hafter hkept => simpa [System.Broken, hruntime, hafter, hkept] using hstatus
  | layer _ _ hruntime hafter hkept => simpa [System.Broken, hruntime, hafter, hkept] using hstatus
  | fail _ _ hafter hfails => exact ⟨fun hnot => absurd (.inr ⟨_, hafter⟩) hnot, fun hnot => absurd hfails hnot⟩
  | retire _ hruntime hafter hkept => simpa [System.Broken, hruntime, hafter, hkept, retireSlot] using hstatus
  | stop hwriter => exact absurd (.inr ⟨_, hwriter⟩) hwhole

/-- How far the writer is from having emptied its queue. -/
def stage (system : System Records) : ℕ ×ₗ ℕ ×ₗ ℕ ×ₗ ℕ :=
  toLex (system.runtime.writeCount,
    match system.writer with
    | .idle => toLex (2, toLex (0, 0))
    | .gathering _ pageCount slot i _ => toLex (1, toLex (system.runtime.layers.length - slot, pageCount - i))
    | .failed _ => toLex (0, toLex (0, 0)))

theorem Sound.count_pos (h : Sound manifest system) (hbusy : system.writer ≠ .idle) :
    0 < system.runtime.writeCount := by
  cases h.running (h.status_ok hbusy) with
  | idle hidle => exact absurd hidle hbusy
  | gathering _ hcount => exact hcount
  | failed _ hcount => exact hcount

theorem Moved.stage_lt (h : Moved system action after) (hsound : Sound manifest system) :
    stage after < stage system := by
  cases h with
  | take hwriter hruntime hafter => simp [stage, hruntime, hafter, hwriter, Prod.Lex.toLex_lt_toLex]
  | gather hwriter hpage hpages hruntime hafter =>
    have hless : ∀ pageCount i i' : Nat, i < i' → i < pageCount → pageCount - i' < pageCount - i := by omega
    simp [stage, hruntime, hafter, hwriter, Prod.Lex.toLex_lt_toLex, hless _ _ _ hpage hpages]
  | layer hwriter hslot hruntime hafter =>
    have hless : ∀ layers slot : Nat, slot < layers → layers - (slot + 1) < layers - slot := by omega
    simp [stage, hruntime, hafter, hwriter, Prod.Lex.toLex_lt_toLex, hless _ _ hslot]
  | fail hwriter hruntime hafter => simp [stage, hruntime, hafter, hwriter, Prod.Lex.toLex_lt_toLex]
  | retire hwriter hruntime hafter =>
    have hcount := hsound.count_pos (by simp [hwriter])
    simp [stage, hruntime, hafter, retireSlot, Prod.Lex.toLex_lt_toLex, Nat.sub_lt hcount Nat.one_pos]
  | stop hwriter hruntime hafter =>
    have hcount := hsound.count_pos (by simp [hwriter])
    simp [stage, hruntime, hafter, retireSlot, Prod.Lex.toLex_lt_toLex, hcount]

end Move

section Wait

variable {manifest : Manifest} {system waited : System Records} {moves : List (Action Records)}

def WritesSucceed (manifest : Manifest) (system : System Records) (moves : List (Action Records)) : Prop :=
  Runs.Along (step manifest) (fun system action => ¬WriteFails system action) system moves

theorem exec_sameSession (hmoves : ∀ action ∈ moves, action.Moves)
    (hrun : Runs.exec (step manifest) system moves = some waited) : SameSession system.runtime waited.runtime := by
  induction moves generalizing system with
  | nil =>
    obtain rfl := Option.some.inj hrun
    exact ⟨rfl, rfl, rfl, rfl⟩
  | cons action moves ih =>
    obtain ⟨next, hstep, hrest⟩ := Runs.exec_cons_eq_some.mp hrun
    have hnext := (step_moved (hmoves action List.mem_cons_self) hstep).sameSession
    have hlast := ih (fun other hother => hmoves other (List.mem_cons_of_mem action hother)) hrest
    exact ⟨hlast.guard.trans hnext.guard, hlast.statePath.trans hnext.statePath, hlast.stateOpen.trans hnext.stateOpen,
      hlast.layers.trans hnext.layers⟩

theorem exec_not_broken (hsound : Sound manifest system) (hmoves : ∀ action ∈ moves, action.Moves)
    (hrun : Runs.exec (step manifest) system moves = some waited) :
    ¬waited.Broken ↔ ¬system.Broken ∧ WritesSucceed manifest system moves := by
  induction moves generalizing system with
  | nil =>
    obtain rfl := Option.some.inj hrun
    exact ⟨fun hwhole => ⟨hwhole, trivial⟩, And.left⟩
  | cons action moves ih =>
    obtain ⟨next, hstep, hrest⟩ := Runs.exec_cons_eq_some.mp hrun
    have hlast := ih (step_sound hsound hstep) (fun other hother => hmoves other (List.mem_cons_of_mem action hother)) hrest
    have hcons : WritesSucceed manifest system (action :: moves) ↔
        ¬WriteFails system action ∧ WritesSucceed manifest next moves := by
      simp only [WritesSucceed, Runs.Along, hstep]
    rw [hlast, hcons]
    by_cases hbroken : system.Broken
    · exact iff_of_false (fun h => h.1 (step_broken hsound hbroken hstep).1) fun h => h.1 hbroken
    · have hnext := (step_moved (hmoves action List.mem_cons_self) hstep).not_broken_iff hbroken
      simp only [hnext, hbroken, not_false_eq_true, true_and]

theorem Sound.drain_iff (hsound : Sound manifest system) (hcount : system.runtime.writeCount = 0) :
    system.runtime.writerStatus = .ok () ↔ ¬system.Broken := by
  constructor
  · rintro hok (⟨err, herr⟩ | ⟨err, hfailed⟩)
    · cases hok.symm.trans herr
    · exact absurd (hsound.count_pos (by simp [hfailed])) (by omega)
  · intro hwhole
    cases hstatus : system.runtime.writerStatus with
    | ok _ => rfl
    | error err => exact absurd (.inl ⟨err, hstatus⟩) hwhole

theorem move_of_waiting (henabled : system.runtime.enabled = true) (hcount : system.runtime.writeCount ≠ 0) :
    ∃ action, action.Moves ∧ (step manifest system action).isSome := by
  cases hwriter : system.writer with
  | idle => exact ⟨.take, trivial, by simp [step, hwriter, henabled, hcount]⟩
  | gathering index pageCount slot i gathered =>
    by_cases hslot : slot < system.runtime.layers.length
    · by_cases hi : i < pageCount
      · exact ⟨.gather, trivial, by simp [step, hwriter, hslot, hi]⟩
      · refine ⟨.write (.ok ()), trivial, ?_⟩
        simp only [step, hwriter, hslot, Nat.not_lt.mp hi, and_self, if_true]
        split <;> rfl
    · exact ⟨.retire, trivial, by simp [step, hwriter, Nat.not_lt.mp hslot]⟩
  | failed err => exact ⟨.retire, trivial, by simp [step, hwriter]⟩

theorem no_endless_moves (hsound : Sound manifest system) (states : Nat → System Records) (hfirst : states 0 = system) :
    ¬∀ n, ∃ action, action.Moves ∧ step manifest (states n) action = some (states (n + 1)) := by
  intro hsteps
  have hall : ∀ n, Sound manifest (states n) := by
    intro n
    induction n with
    | zero => exact hfirst ▸ hsound
    | succ n ih =>
      obtain ⟨action, -, hstep⟩ := hsteps n
      exact step_sound ih hstep
  obtain ⟨n, hn⟩ := WellFounded.not_rel_apply_succ (r := (· < ·)) fun n => stage (states n)
  obtain ⟨action, hmove, hstep⟩ := hsteps n
  exact hn ((step_moved hmove hstep).stage_lt (hall n))

end Wait

def requestedPath (runtime : Runtime Records) (request : SessionRequest) : String :=
  statePath request.directory runtime.guard.rank ((request.control.map Control.stateSlot).getD 0)

/-- What a call that recovers leaves: a clear status, an empty queue, the new guard with its state file, and a queue
that takes what the guard accepts. -/
structure Recovered (manifest : Manifest) (next : Guard) (path : String) (answer : Except Error Unit × Runtime Records) :
    Prop where
  ok : answer.1 = .ok ()
  status : answer.2.writerStatus = .ok ()
  empty : answer.2.writeCount = 0
  guard : answer.2.guard = next
  statePath : answer.2.statePath = path
  accepts : ∀ (frame : PageFrame Records) (accepted : Guard), frame.peer = 0 →
    validateQsaPageBatch appendMaxPages true frame.batch = .ok () →
    validateQsaAppendDistribution (fun _ => 0) frame.batch.pages = .ok () → frame.sequence = frame.batch.batchId →
    guardAcceptAppend answer.2.guard manifest frame.requestId frame.batch = (.ok (), accepted) →
    (handleQsaPageAppend manifest answer.2 frame).1 = .ok ()

variable {manifest : Manifest} {request : SessionRequest}

theorem openSession_error {runtime after : Runtime Records} {err : Error}
    (h : openSession manifest runtime request = some (.error err, after)) :
    after.guard = runtime.guard ∧ after.statePath = runtime.statePath := by
  unfold openSession at h
  split at h
  · cases h
  rcases guardBegin_cases runtime.guard manifest request.identitySha256 request.requestId request.control with
    ⟨other, hguard⟩ | ⟨-, hguard⟩
  · rw [hguard] at h
    obtain ⟨-, rfl⟩ := Prod.mk.inj (Option.some.inj h)
    exact ⟨rfl, rfl⟩
  rw [hguard] at h
  obtain ⟨drained, -, hanswer⟩ := Option.map_eq_some_iff.mp h
  split at hanswer
  · obtain ⟨-, rfl⟩ := Prod.mk.inj hanswer
    exact ⟨rfl, rfl⟩
  dsimp only at hanswer
  split at hanswer
  · obtain ⟨-, rfl⟩ := Prod.mk.inj hanswer
    exact ⟨rfl, rfl⟩
  split at hanswer
  · next heq =>
      obtain ⟨-, rfl⟩ := Prod.mk.inj hanswer
      unfold reopenState at heq
      split at heq
      · split at heq <;> obtain ⟨-, rfl⟩ := Prod.mk.inj heq <;> exact ⟨rfl, rfl⟩
      · split at heq <;> obtain ⟨-, rfl⟩ := Prod.mk.inj heq <;> exact ⟨rfl, rfl⟩
  · cases hanswer

theorem openSession_answer {runtime : Runtime Records} {next : Guard} (henabled : runtime.enabled = true)
    (hguard : guardBegin runtime.guard manifest request.identitySha256 request.requestId request.control = (.ok (), next))
    (hpath : (requestedPath runtime request).utf8ByteSize < 1200)
    (hreopen : (reopenState manifest runtime request (requestedPath runtime request)).1 = .ok ())
    {answer : Except Error Unit × Runtime Records} (h : openSession manifest runtime request = some answer) :
    runtime.writeCount = 0 ∧
      match runtime.writerStatus with
      | .error err => answer = (.error err, runtime)
      | .ok () => answer = (.ok (), { (reopenState manifest runtime request (requestedPath runtime request)).2 with
          writerStatus := .ok (), guard := next, statePath := requestedPath runtime request }) := by
  unfold openSession at h
  rw [henabled, Bool.not_true, if_neg Bool.false_ne_true, hguard] at h
  obtain ⟨drained, hdrain, rfl⟩ := Option.map_eq_some_iff.mp h
  obtain ⟨hcount, rfl⟩ := writerDrain_ok henabled hdrain
  refine ⟨hcount, ?_⟩
  cases hstatus : runtime.writerStatus with
  | error err => rfl
  | ok _ =>
    simp only
    rw [requestedPath] at hpath hreopen
    rw [if_neg (Nat.not_le.mpr hpath), requestedPath]
    split
    · next heq =>
        rw [heq] at hreopen
        cases hreopen
    · next heq => rw [heq]

theorem reopenState_open {runtime : Runtime Records} {path : String}
    (h : (reopenState manifest runtime request path).1 = .ok ()) :
    (reopenState manifest runtime request path).2.stateOpen = true := by
  unfold reopenState at h ⊢
  split at h
  · next hreuse =>
      rw [if_pos hreuse]
      split at h
      · cases h
      · next hnamespace =>
          rw [if_neg hnamespace]
          simpa using (not_or.mp hnamespace).1
  · next hreuse =>
      rw [if_neg hreuse]
      split at h
      · cases h
      · cases h
      · rfl

theorem SameSession.reopenState {runtime after : Runtime Records} (h : SameSession runtime after)
    (request : SessionRequest) (path : String) :
    (reopenState manifest after request path).1 = (QsaOwner.reopenState manifest runtime request path).1 := by
  unfold QsaOwner.reopenState
  rw [h.stateOpen, h.statePath, h.guard]
  split
  · split <;> rfl
  · split <;> rfl

theorem handleQsaPageAppend_ok {runtime : Runtime Records} {frame : PageFrame Records} {next : Guard}
    (henabled : runtime.enabled = true) (hopen : runtime.stateOpen = true) (hstatus : runtime.writerStatus = .ok ())
    (hempty : runtime.writeCount = 0) (hpeer : frame.peer = 0)
    (hbatch : validateQsaPageBatch appendMaxPages true frame.batch = .ok ())
    (hspread : validateQsaAppendDistribution (fun _ => 0) frame.batch.pages = .ok ())
    (hsequence : frame.sequence = frame.batch.batchId)
    (hguard : guardAcceptAppend runtime.guard manifest frame.requestId frame.batch = (.ok (), next)) :
    (handleQsaPageAppend manifest runtime frame).1 = .ok () := by
  unfold handleQsaPageAppend
  rw [if_neg (by simp [henabled, hopen, hpeer]), hbatch, hspread]
  simp only
  rw [if_neg (not_not.mpr hsequence), hguard]
  simp only [writerEnqueue, hstatus, hempty]
  rfl

section Call

variable {manifest : Manifest} {system : System Records}

theorem Sound.recovered_iff (hsound : Sound manifest system) (henabled : system.runtime.enabled = true) {next : Guard}
    (hguard : guardBegin system.runtime.guard manifest request.identitySha256 request.requestId request.control =
      (.ok (), next))
    (hpath : (requestedPath system.runtime request).utf8ByteSize < 1200)
    (hreopen : (reopenState manifest system.runtime request (requestedPath system.runtime request)).1 = .ok ())
    {moves : List (Action Records)} (hmoves : ∀ action ∈ moves, action.Moves) {waited : System Records}
    (hrun : Runs.exec (step manifest) system moves = some waited) {answer : Except Error Unit × Runtime Records}
    (hanswer : openSession manifest waited.runtime request = some answer) :
    Recovered manifest next (requestedPath system.runtime request) answer ↔
      ¬system.Broken ∧ WritesSucceed manifest system moves := by
  have hsame := exec_sameSession hmoves hrun
  have hpathSame : requestedPath waited.runtime request = requestedPath system.runtime request := by
    rw [requestedPath, requestedPath, hsame.guard]
  have henabledSame : waited.runtime.enabled = true := by rw [Runtime.enabled, hsame.layers]; exact henabled
  have hreopenSame : (reopenState manifest waited.runtime request (requestedPath waited.runtime request)).1 = .ok () := by
    rw [hpathSame, hsame.reopenState, hreopen]
  rw [← hsame.guard] at hguard
  rw [← hpathSame] at hpath
  obtain ⟨hcount, hcase⟩ := openSession_answer henabledSame hguard hpath hreopenSame hanswer
  rw [← exec_not_broken hsound hmoves hrun, ← (exec_sound hsound hrun).drain_iff hcount, ← hpathSame]
  constructor
  · intro hrecovered
    cases hstatus : waited.runtime.writerStatus with
    | ok _ => rfl
    | error err =>
      rw [hstatus] at hcase
      have hok := hrecovered.ok
      rw [hcase] at hok
      cases hok
  · intro hstatus
    rw [hstatus] at hcase
    have hqueue := reopenState_sameQueue manifest waited.runtime request (requestedPath waited.runtime request)
    have hopen := reopenState_open hreopenSame
    obtain rfl := hcase
    refine ⟨rfl, rfl, hqueue.writeCount.trans hcount, rfl, rfl, fun frame accepted hpeer hbatch hspread hsequence haccept => ?_⟩
    refine handleQsaPageAppend_ok ?_ hopen rfl (hqueue.writeCount.trans hcount) hpeer hbatch hspread hsequence haccept
    rw [Runtime.enabled, hqueue.layers]
    exact henabledSame

/-- For every state that the two threads reach. A call whose guard begins and whose state file opens recovers exactly
when the writer had not failed and none of the writes that it waits for fails. It comes to its answer, since the writer
can move until the queue is empty and does not move for ever; and one that returns an error leaves the session. -/
theorem openSession_recovers {rank : UInt32} {runtime : Runtime Records}
    (hcreate : runtimeCreate manifest rank = .ok runtime) {actions : List (Action Records)}
    (hrun : Runs.exec (step manifest) ⟨runtime, .idle, [], []⟩ actions = some system)
    (henabled : system.runtime.enabled = true) (request : SessionRequest) :
    (∀ next, guardBegin system.runtime.guard manifest request.identitySha256 request.requestId request.control =
        (.ok (), next) →
      (requestedPath system.runtime request).utf8ByteSize < 1200 →
      (reopenState manifest system.runtime request (requestedPath system.runtime request)).1 = .ok () →
      ∀ moves, (∀ action ∈ moves, action.Moves) → ∀ waited, Runs.exec (step manifest) system moves = some waited →
      ∀ answer, openSession manifest waited.runtime request = some answer →
        (Recovered manifest next (requestedPath system.runtime request) answer ↔
          ¬system.Broken ∧ WritesSucceed manifest system moves)) ∧
    (∀ moves, (∀ action ∈ moves, action.Moves) → ∀ waited, Runs.exec (step manifest) system moves = some waited →
      (openSession manifest waited.runtime request = none →
        ∃ action : Action Records, action.Moves ∧ (step manifest waited action).isSome) ∧
      ∀ err after, openSession manifest waited.runtime request = some (.error err, after) →
        after.guard = system.runtime.guard ∧ after.statePath = system.runtime.statePath) ∧
    ∀ states : Nat → System Records, states 0 = system →
      ¬∀ n, ∃ action : Action Records, action.Moves ∧ step manifest (states n) action = some (states (n + 1)) := by
  have hsound := exec_sound (runtimeCreate_sound hcreate) hrun
  refine ⟨fun next hguard hpath hreopen moves hmoves waited hwait answer hanswer =>
    hsound.recovered_iff henabled hguard hpath hreopen hmoves hwait hanswer, fun moves hmoves waited hwait => ?_,
    no_endless_moves hsound⟩
  have hsame := exec_sameSession hmoves hwait
  constructor
  · intro hnone
    have henabledSame : waited.runtime.enabled = true := by rw [Runtime.enabled, hsame.layers]; exact henabled
    refine move_of_waiting henabledSame fun hcount => ?_
    unfold openSession at hnone
    rw [henabledSame, Bool.not_true, if_neg Bool.false_ne_true] at hnone
    split at hnone
    · cases hnone
    · simp [writerDrain, henabledSame, hcount] at hnone
  · intro err after herror
    obtain ⟨hguard, hpath⟩ := openSession_error herror
    exact ⟨hguard.trans hsame.guard, hpath.trans hsame.statePath⟩

end Call

def failingActions : List (Action Nat) :=
  [.openSession sampleSession,
    .append ⟨0, 9, 0, ⟨0, 1, 0, [⟨7, 0, some 70⟩, ⟨3, 0, some 30⟩, ⟨7, 1, some 71⟩]⟩⟩,
    .take, .gather, .gather, .gather, .write (.error ⟨.io, "disk full"⟩), .retire]

def nextSession : SessionRequest := { sampleSession with requestId := 10 }

theorem openSession_recovers_sample : ∃ runtime system, @runtimeCreate Nat sampleManifest 1 = .ok runtime ∧
    Runs.exec (step sampleManifest) ⟨runtime, .idle, [], []⟩ sampleActions = some system ∧
    (openSession sampleManifest system.runtime nextSession).isSome ∧
    ∀ answer, openSession sampleManifest system.runtime nextSession = some answer →
      Recovered sampleManifest (begun system.runtime.guard sampleManifest 10 none)
        (requestedPath system.runtime nextSession) answer := by
  refine ⟨_, _, rfl, rfl, rfl, fun answer hanswer => ?_⟩
  refine ((@openSession_recovers Nat sampleManifest _ 1 _ rfl sampleActions rfl rfl nextSession).1 _ rfl
    (by decide +kernel) rfl [] (fun _ hmem => absurd hmem List.not_mem_nil) _ rfl answer hanswer).mpr ⟨?_, trivial⟩
  rintro (⟨_, herror⟩ | ⟨_, herror⟩) <;> cases herror

/-- After the failed write the next session is refused with the error of that write, though its guard begins and its
state file could be opened; the guard stays the old one. -/
theorem openSession_stuck : ∃ runtime system, @runtimeCreate Nat sampleManifest 1 = .ok runtime ∧
    Runs.exec (step sampleManifest) ⟨runtime, .idle, [], []⟩ failingActions = some system ∧
    guardBegin system.runtime.guard sampleManifest nextSession.identitySha256 nextSession.requestId nextSession.control =
      (.ok (), begun system.runtime.guard sampleManifest 10 none) ∧
    (requestedPath system.runtime nextSession).utf8ByteSize < 1200 ∧
    (reopenState sampleManifest system.runtime nextSession (requestedPath system.runtime nextSession)).1 = .ok () ∧
    openSession sampleManifest system.runtime nextSession = some (.error ⟨.io, "disk full"⟩, system.runtime) :=
  ⟨_, _, rfl, rfl, rfl, by decide +kernel, rfl, rfl⟩

end FlashGordon.QsaOwner
