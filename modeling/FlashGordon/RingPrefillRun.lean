import FlashGordon.Ring
import FlashGordon.RingPrefill

/-! The accounting of ring prefill over every run. The chunks under way stand in the slots as in a ring
buffer, the oldest in the slot of the next chunk to finish, so a chunk is only issued into a free slot and
only the oldest one can be counted. -/

namespace FlashGordon.RingPrefill

open Prefill RingWire Spans Function

variable {Content : Type} {call : Call} {state : State}

section Budget

variable {scheduler : Scheduler Content} {budget : Budget}

theorem sliceLimit_pos (scheduler : Scheduler Content) : 0 < scheduler.sliceLimit := by
  rw [Scheduler.sliceLimit]
  split
  · exact Nat.one_pos
  · exact Nat.lt_of_lt_of_le Nat.one_pos (Nat.le_max_left 1 _)

theorem share_bounds (htokens : 0 < budget.tokens) (i : Nat) :
    0 < (scheduler.share budget i).tokens ∧ (scheduler.share budget i).tokens ≤ budget.tokens ∧
      (scheduler.share budget i).frames ≤ budget.frames := by
  have hoptions := scheduler.options.prefillTokens_range.1
  have hslice := sliceLimit_pos scheduler
  rw [Scheduler.share]
  split
  · exact ⟨htokens, Nat.le_refl _, Nat.le_refl _⟩
  · refine ⟨?_, ?_, Nat.min_le_left _ _⟩
    · dsimp only
      split <;> omega
    · dsimp only
      split <;> omega

theorem prefillBudget_bounds (running : Option (Scheduler Content)) {tokens : Nat} (frames : Nat)
    (htokens : 0 < tokens) :
    0 < (prefillBudget running tokens frames).tokens ∧ (prefillBudget running tokens frames).tokens ≤ tokens ∧
      (prefillBudget running tokens frames).frames ≤ frames := by
  cases running with
  | none => exact ⟨htokens, Nat.le_refl _, Nat.le_refl _⟩
  | some scheduler =>
    rw [prefillBudget]
    apply List.foldlRecOn (List.range Pipeline.sessions) scheduler.share
      (motive := fun budget => 0 < budget.tokens ∧ budget.tokens ≤ tokens ∧ budget.frames ≤ frames)
    · exact ⟨htokens, Nat.le_refl _, Nat.le_refl _⟩
    · intro budget ⟨hpos, hle, hframes⟩ i _
      obtain ⟨hpos', hle', hframes'⟩ := share_bounds hpos i
      exact ⟨hpos', hle'.trans hle, hframes'.trans hframes⟩

end Budget

def RingSlot.span (slot : RingSlot) : Span := ⟨slot.firstToken, slot.tokenCount⟩

/-- The slots as a ring buffer: its head is the slot of the oldest chunk under way. -/
def State.head (state : State) : Nat := state.completed % prefillFrames

/-- What holds in every state reached, also after a failure: the chunks issued follow one another from the
first token, at most `prefillFrames` of them are not done, and the chunks done are the oldest ones. -/
structure Accounted (call : Call) (state : State) : Prop where
  consecutive : Tiles call.firstToken state.issued
  within : total state.issued ≤ call.tokenCount
  inFlight_le : state.inFlight ≤ prefillFrames
  window : state.issued.length ≤ state.done.length + prefillFrames
  oldest_first : state.done <+: state.issued
  prefilled_eq : state.prefilled = total state.done

structure Inv (call : Call) (state : State) : Prop where
  tiles : Tiles call.firstToken state.issued
  total_eq : total state.issued = state.issuedTokens
  issued_le : state.issuedTokens ≤ call.tokenCount
  length_eq : state.issued.length = state.completed + state.inFlight
  nextChunk_eq : state.nextChunk = state.completed + state.inFlight
  inFlight_le : state.inFlight ≤ prefillFrames
  done_eq : state.done = state.issued.take state.completed
  prefilled_eq : state.prefilled = total state.done
  held : Ring.contents prefillFrames state.head state.inFlight (fun i => (state.slots i).span) =
    state.issued.drop state.completed
  active_iff : ∀ i < prefillFrames,
    (state.slots (Ring.slot prefillFrames state.head i)).active = true ↔ i < state.inFlight
  aborted_lt : state.aborted = true → state.issuedTokens < call.tokenCount

namespace Inv

theorem accounted (h : Inv call state) : Accounted call state where
  consecutive := h.tiles
  within := h.total_eq ▸ h.issued_le
  inFlight_le := h.inFlight_le
  window := by
    have hlength := h.length_eq
    have hle := h.inFlight_le
    rw [h.done_eq, List.length_take]
    omega
  oldest_first := h.done_eq ▸ List.take_prefix _ _
  prefilled_eq := h.prefilled_eq

theorem start (transport : Transport.State) : Inv call (start transport) where
  tiles := trivial
  total_eq := rfl
  issued_le := Nat.zero_le _
  length_eq := rfl
  nextChunk_eq := rfl
  inFlight_le := Nat.zero_le _
  done_eq := rfl
  prefilled_eq := rfl
  held := rfl
  active_iff i _ := ⟨fun h => absurd h Bool.false_ne_true, fun h => absurd h (Nat.not_lt_zero i)⟩
  aborted_lt h := absurd h Bool.false_ne_true

theorem length_done (h : Inv call state) : state.done.length = state.completed := by
  have hlength := h.length_eq
  rw [h.done_eq, List.length_take]
  omega

theorem tiles_drop (h : Inv call state) :
    Tiles (call.firstToken + state.prefilled) (state.issued.drop state.completed) := by
  have htiles := h.tiles
  rw [← List.take_append_drop state.completed state.issued, tiles_append, ← h.done_eq, ← h.prefilled_eq] at htiles
  exact htiles.2

theorem total_drop (h : Inv call state) :
    state.prefilled + total (state.issued.drop state.completed) = state.issuedTokens := by
  rw [h.prefilled_eq, h.done_eq, ← total_append, List.take_append_drop, h.total_eq]

theorem head_lt (state : State) : state.head < prefillFrames := Nat.mod_lt _ (by decide)

theorem nextSlot_eq (h : Inv call state) :
    state.nextChunk % prefillFrames = Ring.slot prefillFrames state.head state.inFlight := by
  rw [Ring.slot, State.head, Nat.mod_add_mod, h.nextChunk_eq]

theorem nextSlot_free (h : Inv call state) (hroom : state.inFlight < prefillFrames) :
    (state.slots (state.nextChunk % prefillFrames)).active = false := by
  rw [h.nextSlot_eq, ← Bool.not_eq_true, h.active_iff state.inFlight hroom]
  exact Nat.lt_irrefl _

theorem congr {next : State} (h : Inv call state)
    (hslots : ∀ i, (next.slots i).active = (state.slots i).active ∧ (next.slots i).span = (state.slots i).span)
    (haborted : next.aborted = true → next.issuedTokens < call.tokenCount)
    (hsame : (next.nextChunk, next.issuedTokens, next.inFlight, next.completed, next.prefilled, next.issued,
      next.done) = (state.nextChunk, state.issuedTokens, state.inFlight, state.completed, state.prefilled,
      state.issued, state.done)) : Inv call next := by
  simp only [Prod.mk.injEq] at hsame
  obtain ⟨hchunk, htokens, hflight, hcompleted, hprefilled, hissued, hdone⟩ := hsame
  have hspan : (fun i => (next.slots i).span) = fun i => (state.slots i).span := funext fun i => (hslots i).2
  have hhead : next.head = state.head := congrArg (· % prefillFrames) hcompleted
  constructor
  · exact hissued ▸ h.tiles
  · rw [hissued, htokens, h.total_eq]
  · exact htokens ▸ h.issued_le
  · rw [hissued, hcompleted, hflight, h.length_eq]
  · rw [hchunk, hcompleted, hflight, h.nextChunk_eq]
  · exact hflight ▸ h.inFlight_le
  · rw [hdone, hissued, hcompleted, h.done_eq]
  · rw [hprefilled, hdone, h.prefilled_eq]
  · rw [hhead, hflight, hspan, hissued, hcompleted, h.held]
  · intro i hi
    rw [hhead, hflight, (hslots _).1, h.active_iff i hi]
  · exact haborted

end Inv

/-- How one round of the loop may end: it goes on with the invariant, it stops for an interrupt with nothing
under way, or it fails with the accounts in order. -/
def Fine (call : Call) : State × Left → Prop
  | (next, none) => Inv call next
  | (next, some (.ok ())) => Inv call next ∧ next.aborted = true ∧ next.inFlight = 0
  | (next, some (.error err)) => Accounted call next ∧ err.code ≠ .interrupted

theorem Inv.fine_reject (h : Inv call state) (message : String) : Fine call (reject state message) :=
  ⟨h.accounted, by simp⟩

theorem Inv.fine_fault (h : Inv call state) (fault : Fault) : Fine call (state, some (.error fault.toError)) :=
  ⟨h.accounted, fault.ne_interrupted⟩

theorem Inv.fine_status (h : Inv call state) (status : Except Fault Unit) : Fine call (state, .ofStatus status) := by
  cases status with
  | ok => exact h
  | error fault => exact h.fine_fault fault

section Issue

variable {turn : Turn Content} {budget : Budget}

theorem chunk_mod (htokens : budget.tokens ≤ prefillMaxTokens) (remaining : Nat) :
    min remaining budget.tokens % 2 ^ 16 = min remaining budget.tokens := by
  apply Nat.mod_eq_of_lt
  calc min remaining budget.tokens ≤ budget.tokens := Nat.min_le_right _ _
    _ ≤ prefillMaxTokens := htokens
    _ < 2 ^ 16 := by decide

theorem Inv.fine_issueChunk (h : Inv call state) (hroom : state.inFlight < prefillFrames)
    (hleft : state.issuedTokens < call.tokenCount) (hpos : 0 < budget.tokens)
    (htokens : budget.tokens ≤ prefillMaxTokens) (haborted : state.aborted = false) :
    Fine call (issueChunk call turn budget state) := by
  have hfree := h.nextSlot_free hroom
  have htiles : Tiles call.firstToken (state.issued ++
      [⟨call.firstToken + state.issuedTokens, min (call.tokenCount - state.issuedTokens) budget.tokens⟩]) :=
    h.tiles.push (by rw [h.total_eq]) (by show 0 < min _ _; omega)
  have hwithin : state.issuedTokens + min (call.tokenCount - state.issuedTokens) budget.tokens ≤
      call.tokenCount := by omega
  rw [issueChunk, if_neg (by rw [hfree]; exact Bool.false_ne_true)]
  split
  · -- the chunk was logged but never counted
    rename_i fault _
    refine ⟨?_, fault.ne_interrupted⟩
    have hlength := h.length_done
    constructor
    · exact htiles
    · simpa [h.total_eq] using hwithin
    · exact h.inFlight_le
    · have hall := h.length_eq
      simp only [List.length_append, List.length_singleton]
      omega
    · exact h.accounted.oldest_first.trans (List.prefix_append _ _)
    · exact h.prefilled_eq
  · have hcompleted : state.completed ≤ state.issued.length := by
      have hall := h.length_eq
      omega
    constructor
    · exact htiles
    · simp [h.total_eq]
    · exact hwithin
    · have hall := h.length_eq
      simp only [List.length_append, List.length_singleton]
      omega
    · show state.nextChunk + 1 = state.completed + (state.inFlight + 1)
      rw [h.nextChunk_eq, Nat.add_assoc]
    · exact hroom
    · show state.done = _
      rw [List.take_append_of_le_length hcompleted, h.done_eq]
    · exact h.prefilled_eq
    · show Ring.contents prefillFrames state.head (state.inFlight + 1) _ = _
      rw [h.nextSlot_eq, List.drop_append_of_le_length hcompleted, ← h.held, chunk_mod htokens,
        ← Ring.contents_push hroom]
      congr 1
      funext i
      by_cases hi : i = Ring.slot prefillFrames state.head state.inFlight
      · subst hi
        simp [RingSlot.span]
      · simp [update_of_ne hi]
    · intro i hi
      show (update state.slots _ _ (Ring.slot prefillFrames state.head i)).active = true ↔
        i < state.inFlight + 1
      rw [h.nextSlot_eq]
      by_cases heq : i = state.inFlight
      · subst heq
        simp
      · rw [update_of_ne fun hslot => heq (Ring.slot_injective hi hroom hslot), h.active_iff i hi]
        omega
    · intro habort
      exact absurd (haborted.symm.trans habort) Bool.false_ne_true

end Issue

section Complete

variable {f first count : Nat}

structure Names (slots : Nat → RingSlot) (f first count : Nat) : Prop where
  lt : f < prefillFrames
  active : (slots f).active = true
  span : (slots f).span = ⟨first, count⟩

theorem ringSlotFind_some {slots : Nat → RingSlot} (h : ringSlotFind slots first count = some f) :
    Names slots f first count := by
  have hmem := List.mem_of_find?_eq_some h
  have hfound := List.find?_some h
  rw [decide_eq_true_eq] at hfound
  obtain ⟨hactive, hfirst, hcount⟩ := hfound
  exact ⟨List.mem_range.mp hmem, hactive, by rw [RingSlot.span, hfirst, hcount]⟩

theorem ringSlotFinish_some {slot freed : RingSlot} {prefilled total : Nat}
    (h : ringSlotFinish slot first prefilled = some (freed, total)) :
    slot.firstToken = first + prefilled ∧ freed = { slot with active := false } ∧
      total = prefilled + slot.tokenCount := by
  rw [ringSlotFinish] at h
  split at h
  · cases h
  next hgood =>
    obtain ⟨-, hfirst⟩ := not_or.mp hgood
    obtain ⟨rfl, rfl⟩ := Prod.mk.inj (Option.some.inj h)
    exact ⟨not_not.mp hfirst, rfl, rfl⟩

theorem Inv.names_index (h : Inv call state) (hnames : Names state.slots f first count) :
    ∃ i < state.inFlight, f = Ring.slot prefillFrames state.head i := by
  obtain ⟨i, hi, rfl⟩ : ∃ i < prefillFrames, f = Ring.slot prefillFrames state.head i := by
    have hhead := Inv.head_lt state
    have hf := hnames.lt
    unfold prefillFrames at *
    refine ⟨(f + 3 - state.head) % 3, Nat.mod_lt _ (by decide), ?_⟩
    rw [Ring.slot]
    omega
  exact ⟨i, (h.active_iff i hi).mp hnames.active, rfl⟩

theorem Inv.oldest (h : Inv call state) (hnames : Names state.slots f first count)
    (hfirst : first = call.firstToken + state.prefilled) :
    f = state.head ∧ 0 < state.inFlight ∧ state.issued[state.completed]? = some ⟨first, count⟩ := by
  obtain ⟨i, hi, rfl⟩ := h.names_index hnames
  have htiles := h.tiles_drop
  have hget : (state.issued.drop state.completed)[i]? = some ⟨first, count⟩ := by
    rw [← h.held, Ring.contents, List.getElem?_map, List.getElem?_range hi, Option.map_some, hnames.span]
  have hzero : i = 0 := by
    cases hdrop : state.issued.drop state.completed with
    | nil => rw [hdrop] at hget; cases hget
    | cons oldest rest =>
      rw [hdrop] at htiles hget
      cases i with
      | zero => rfl
      | succ i =>
        have hbounds := htiles.2.2.within (List.mem_of_getElem? hget)
        have hpos := htiles.2.1
        simp only at hbounds
        omega
  subst hzero
  rw [List.getElem?_drop, Nat.add_zero] at hget
  exact ⟨Ring.slot_zero (Inv.head_lt state), hi, hget⟩

/-- Counting the oldest chunk. -/
def State.finish (state : State) (f : Nat) : State :=
  { state with
    slots := Function.update state.slots f { state.slots f with active := false }
    prefilled := state.prefilled + (state.slots f).tokenCount
    inFlight := state.inFlight - 1
    completed := state.completed + 1
    done := state.done ++ [(state.slots f).span] }

theorem State.finish_head (state : State) (f : Nat) : (state.finish f).head = (state.head + 1) % prefillFrames := by
  show (state.completed + 1) % prefillFrames = (state.completed % prefillFrames + 1) % prefillFrames
  rw [Nat.mod_add_mod]

theorem State.finish_span (state : State) (f i : Nat) : ((state.finish f).slots i).span = (state.slots i).span := by
  show (update state.slots f _ i).span = _
  by_cases hi : i = f
  · subst hi
    rw [update_self]
    rfl
  · rw [update_of_ne hi]

section

variable (h : Inv call state)
include h

theorem Inv.finish_active (hpos : 0 < state.inFlight) (i : Nat) (hi : i < prefillFrames) :
    ((state.finish state.head).slots (Ring.slot prefillFrames (state.finish state.head).head i)).active = true ↔
      i < (state.finish state.head).inFlight := by
  have hwindow := h.inFlight_le
  rw [State.finish_head, Ring.slot_advance]
  show (update state.slots state.head _ _).active = true ↔ i < state.inFlight - 1
  by_cases hlast : i + 1 < prefillFrames
  · have hne : Ring.slot prefillFrames state.head (i + 1) ≠ state.head := by
      intro heq
      have hzero := heq.trans (Ring.slot_zero (Inv.head_lt state)).symm
      exact absurd (Ring.slot_injective hlast (by decide) hzero) (Nat.succ_ne_zero i)
    rw [update_of_ne hne, h.active_iff (i + 1) hlast]
    omega
  · have hself : Ring.slot prefillFrames state.head (i + 1) = state.head := by
      have hhead := Inv.head_lt state
      rw [Ring.slot]
      unfold prefillFrames at *
      omega
    rw [hself, update_self]
    simp only [Bool.false_eq_true, false_iff]
    omega

theorem Inv.finish (hnames : Names state.slots f first count)
    (hfirst : first = call.firstToken + state.prefilled) : Inv call (state.finish f) := by
  obtain ⟨rfl, hpos, hget⟩ := h.oldest hnames hfirst
  have hlength := h.length_eq
  have hspan := hnames.span
  constructor
  · exact h.tiles
  · exact h.total_eq
  · exact h.issued_le
  · show state.issued.length = state.completed + 1 + (state.inFlight - 1)
    omega
  · show state.nextChunk = state.completed + 1 + (state.inFlight - 1)
    rw [h.nextChunk_eq]
    omega
  · exact (Nat.sub_le _ _).trans h.inFlight_le
  · show state.done ++ [(state.slots state.head).span] = state.issued.take (state.completed + 1)
    rw [List.take_add_one, hget, h.done_eq, hspan]
    rfl
  · show state.prefilled + (state.slots state.head).tokenCount = total (state.done ++ _)
    rw [h.prefilled_eq, total_append]
    rfl
  · have hheld := h.held
    obtain ⟨rest, hrest⟩ : ∃ rest, state.inFlight = rest + 1 := ⟨state.inFlight - 1, by omega⟩
    have hdrop : state.issued.drop state.completed = ⟨first, count⟩ :: state.issued.drop (state.completed + 1) := by
      obtain ⟨hlt, heq⟩ := List.getElem?_eq_some_iff.mp hget
      rw [← heq, List.drop_eq_getElem_cons hlt]
    rw [hrest, Ring.contents_succ (Inv.head_lt state), hdrop] at hheld
    rw [State.finish_head]
    simp only [State.finish_span]
    show Ring.contents _ _ (state.inFlight - 1) _ = state.issued.drop (state.completed + 1)
    rw [hrest]
    exact (List.cons.inj hheld).2
  · exact h.finish_active hpos
  · exact h.aborted_lt

theorem Inv.completeChunk_cases (turn : Turn Content)
    (hnames : Names state.slots f first count) :
    completeChunk call turn f first count state = reject state "out-of-order ring completion" ∨
      (state.issued[state.completed]? = some ⟨first, count⟩ ∧
        Fine call (completeChunk call turn f first count state)) := by
  rw [completeChunk]
  cases hfinish : ringSlotFinish (state.slots f) call.firstToken state.prefilled with
  | none => exact .inl rfl
  | some pair =>
    obtain ⟨slot, prefilled⟩ := pair
    obtain ⟨hstart, rfl, rfl⟩ := ringSlotFinish_some hfinish
    have hfirst : first = call.firstToken + state.prefilled := by
      rw [← hstart]
      exact congrArg Span.first hnames.span.symm
    have hinv := h.finish hnames hfirst
    have hkeep : ∀ output tokens transport, Inv call
        { state.finish f with lastOutput := output, outputTokens := tokens, transport := transport } :=
      fun output tokens transport => hinv.congr (fun _ => ⟨rfl, rfl⟩) hinv.aborted_lt rfl
    refine .inr ⟨(h.oldest hnames hfirst).2.2, ?_⟩
    dsimp only
    split
    · exact (hkeep _ _ _).fine_fault _
    · exact (hkeep _ _ _).fine_fault _
    · exact (hkeep _ _ _).fine_status _

theorem Inv.fine_completeChunk (turn : Turn Content)
    (hnames : Names state.slots f first count) :
    Fine call (completeChunk call turn f first count state) := by
  rcases h.completeChunk_cases turn hnames with heq | ⟨-, hfine⟩
  · rw [heq]
    exact h.fine_reject _
  · exact hfine

end

end Complete

section Receive

variable {frame : Incoming} {span : Span}

theorem Inv.withTransport (h : Inv call state) (transport : Transport.State) :
    Inv call { state with transport := transport } :=
  h.congr (fun _ => ⟨rfl, rfl⟩) h.aborted_lt rfl

theorem Inv.withBlockDone (h : Inv call state) (f : Nat) :
    Inv call { state with slots := update state.slots f { state.slots f with blockDone := true } } := by
  refine h.congr (fun i => ?_) h.aborted_lt rfl
  dsimp only
  by_cases hi : i = f
  · subst hi
    rw [update_self]
    exact ⟨rfl, rfl⟩
  · rw [update_of_ne hi]
    exact ⟨rfl, rfl⟩

theorem Names.withBlockDone {slots : Nat → RingSlot} {f first count : Nat} (h : Names slots f first count) :
    Names (update slots f { slots f with blockDone := true }) f first count := by
  constructor
  · exact h.lt
  · rw [update_self]
    exact h.active
  · rw [update_self]
    exact h.span

theorem Inv.fine_handleWork (h : Inv call state) (turn : Turn Content) (work : PrefillLayerWork) :
    Fine call (handleWork call turn frame work state) := by
  rw [handleWork]
  split
  · exact h.fine_reject _
  · cases hfind : ringSlotFind state.slots work.firstToken.toNat work.tokenCount.toNat with
    | none => exact h.fine_reject _
    | some f =>
      have hran := (h.withTransport turn.block.transport).withBlockDone f
      dsimp only
      split
      · exact (h.withTransport _).fine_fault _
      · split
        · exact hran.fine_status _
        · exact hran.fine_completeChunk turn (ringSlotFind_some hfind).withBlockDone

theorem Inv.fine_handleResult (h : Inv call state) (turn : Turn Content) (result : PrefillLayerResult) :
    Fine call (handleResult call turn frame result state) := by
  rw [handleResult]
  split
  · exact h.fine_reject _
  · cases hfind : ringSlotFind state.slots result.firstToken.toNat result.tokenCount.toNat with
    | none => exact h.fine_reject _
    | some f => exact h.fine_completeChunk turn (ringSlotFind_some hfind)

theorem validatePrefillLayerWork_code {work : PrefillLayerWork} {err : Error}
    (h : validatePrefillLayerWork work = .error err) : err.code = .format := by
  rw [validatePrefillLayerWork] at h
  split at h
  · cases h; rfl
  · split at h
    · cases h; rfl
    · split at h
      · cases h
      · split at h
        · cases h; rfl
        · cases h

theorem Inv.fine_decodeError (h : Inv call state) {err : Error} (hcode : err.code = .format) :
    Fine call (state, some (.error err)) :=
  ⟨h.accounted, by rw [hcode]; decide⟩

theorem prefillLayerWorkDecode_code {storage : Storage} {work : PrefillLayerWork} {err : Error}
    (h : prefillLayerWorkDecode storage work = .error err) : err.code = .format := by
  rw [prefillLayerWorkDecode] at h
  split at h
  · cases h; rfl
  · cases hvalid : validatePrefillLayerWork work with
    | ok => rw [hvalid] at h; cases h
    | error refusal =>
      rw [hvalid] at h
      cases h
      exact validatePrefillLayerWork_code hvalid

theorem prefillLayerResultDecode_code {storage : Storage} {result : PrefillLayerResult} {err : Error}
    (h : prefillLayerResultDecode storage result = .error err) : err.code = .format := by
  rw [prefillLayerResultDecode] at h
  split at h
  · cases h; rfl
  · rw [validatePrefillLayerResult] at h
    split at h
    · cases h; rfl
    · split at h <;> cases h
      rfl

theorem Inv.fine_handleFrame (h : Inv call state) (turn : Turn Content) (frame : Incoming) :
    Fine call (handleFrame call turn frame state) := by
  rw [handleFrame]
  split
  · exact h.fine_fault _
  · split
    next hdecode =>
      exact h.fine_decodeError (prefillLayerWorkDecode_code hdecode)
    · exact h.fine_handleWork turn _
  · exact h.fine_fault _
  · split
    next hdecode =>
      exact h.fine_decodeError (prefillLayerResultDecode_code hdecode)
    · exact h.fine_handleResult turn _
  · exact (h.withTransport _).fine_status _
  · exact h.fine_reject _

/-- The chunk a frame hands back: that of a layer result, or of layer work for the last block. -/
def Incoming.completes (call : Call) (frame : Incoming) : Option Span :=
  match frame.body with
  | .prefillLayerResult (.ok result) => some ⟨result.firstToken.toNat, result.tokenCount.toNat⟩
  | .prefillLayerWork (.ok work) =>
    if blockEnd call.manifest 0 work.layer.toNat + 1 < layerCount then none
    else some ⟨work.firstToken.toNat, work.tokenCount.toNat⟩
  | _ => none

/-- The turn fails and counts nothing. -/
def Refused (state : State) (ended : State × Left) : Prop :=
  (∃ err, ended.2 = some (.error err)) ∧ ended.1.done = state.done ∧ ended.1.prefilled = state.prefilled

theorem refused_reject (message : String) : Refused state (reject state message) := ⟨⟨_, rfl⟩, rfl, rfl⟩

theorem Inv.completeChunk_refused (h : Inv call state) (turn : Turn Content) {f first count : Nat}
    (hnames : Names state.slots f first count)
    (hother : state.issued[state.completed]? ≠ some ⟨first, count⟩) :
    Refused state (completeChunk call turn f first count state) := by
  rcases h.completeChunk_cases turn hnames with heq | ⟨holdest, -⟩
  · rw [heq]
    exact refused_reject _
  · exact absurd holdest hother

theorem Inv.handleFrame_refused (h : Inv call state) (turn : Turn Content)
    (hspan : frame.completes call = some span) (hother : state.issued[state.completed]? ≠ some span) :
    Refused state (handleFrame call turn frame state) := by
  rw [Incoming.completes] at hspan
  rw [handleFrame]
  split at hspan
  next result hbody =>
    obtain rfl := Option.some.inj hspan
    rw [hbody]
    dsimp only
    split
    · exact ⟨⟨_, rfl⟩, rfl, rfl⟩
    next decoded hdecode =>
      obtain rfl := prefillLayerResultDecode_ok hdecode
      rw [handleResult]
      split
      · exact refused_reject _
      · split
        · exact refused_reject _
        next hfind =>
          exact h.completeChunk_refused turn (ringSlotFind_some hfind) hother
  next work hbody =>
    split at hspan
    · cases hspan
    · obtain rfl := Option.some.inj hspan
      rw [hbody]
      dsimp only
      split
      · exact ⟨⟨_, rfl⟩, rfl, rfl⟩
      next decoded hdecode =>
        obtain rfl := (prefillLayerWorkDecode_ok hdecode).1
        rw [handleWork]
        split
        · exact refused_reject _
        · split
          · exact refused_reject _
          next f hfind =>
            split
            · exact ⟨⟨_, rfl⟩, rfl, rfl⟩
            · have hran := (h.withTransport turn.block.transport).withBlockDone f
              exact hran.completeChunk_refused turn (ringSlotFind_some hfind).withBlockDone hother
  · cases hspan

end Receive

section Turns

variable {turn : Turn Content} {turns : List (Turn Content)}

theorem Inv.afterPoll (h : Inv call state) : Inv call (afterPoll call turn state) := by
  rw [RingPrefill.afterPoll]
  split
  next hpoll =>
    have hleft : state.issuedTokens < call.tokenCount := (of_decide_eq_true hpoll.2).1
    exact h.congr (fun _ => ⟨rfl, rfl⟩) (fun _ => hleft) rfl
  · exact h

theorem nextMove_issue {budget : Budget} (h : nextMove call turn state = .issue budget) :
    state.inFlight < prefillFrames ∧ state.issuedTokens < call.tokenCount ∧ 0 < budget.tokens ∧
      budget.tokens ≤ prefillMaxTokens ∧ (afterPoll call turn state).aborted = false := by
  obtain ⟨hpos, hle, hframes⟩ := prefillBudget_bounds turn.running prefillFrames
    (Nat.lt_of_lt_of_le Nat.one_pos call.microbatch_range.1)
  rw [nextMove] at h
  split at h
  · cases h
  next hrunning =>
    split at h
    next hpoll =>
      obtain ⟨hleft, hroom⟩ := of_decide_eq_true hpoll
      split at h
      · split at h <;> cases h
      next hcalm =>
        cases h
        refine ⟨hroom.trans_le hframes, hleft, hpos, hle.trans call.microbatch_range.2, ?_⟩
        rw [afterPoll, if_pos ⟨Bool.not_eq_true _ ▸ hrunning, hpoll⟩]
        exact Bool.not_eq_true _ ▸ hcalm
    · cases h

theorem nextMove_stop (h : nextMove call turn state = .stop) :
    (afterPoll call turn state).aborted = true ∧ state.inFlight = 0 := by
  rw [nextMove] at h
  split at h
  · cases h
  next hrunning =>
    split at h
    next hpoll =>
      split at h
      next habort =>
        split at h
        next hnone =>
          rw [afterPoll, if_pos ⟨Bool.not_eq_true _ ▸ hrunning, hpoll⟩]
          exact ⟨habort, hnone⟩
        · cases h
      · cases h
    · cases h

theorem afterPoll_inFlight : (afterPoll call turn state).inFlight = state.inFlight := by
  rw [afterPoll]
  split <;> rfl

theorem afterPoll_issuedTokens : (afterPoll call turn state).issuedTokens = state.issuedTokens := by
  rw [afterPoll]
  split <;> rfl

theorem Inv.fine_ringTurn (h : Inv call state) (turn : Turn Content) : Fine call (ringTurn call turn state) := by
  have hpolled : Inv call (RingPrefill.afterPoll call turn state) := h.afterPoll
  rw [ringTurn]
  cases hmove : nextMove call turn state with
  | fail => exact ⟨hpolled.accounted, by decide⟩
  | stop =>
    obtain ⟨habort, hnone⟩ := nextMove_stop hmove
    exact ⟨hpolled, habort, afterPoll_inFlight.trans hnone⟩
  | issue budget =>
    obtain ⟨hroom, hleft, hpos, hle, hcalm⟩ := nextMove_issue hmove
    exact hpolled.fine_issueChunk (by rwa [afterPoll_inFlight]) (by rwa [afterPoll_issuedTokens]) hpos hle hcalm
  | receive =>
    dsimp only
    split
    · exact hpolled.fine_fault _
    · exact hpolled.fine_handleFrame turn _

/-- How the loop may end: still waiting, all done or stopped by an interrupt, or failed. -/
def LoopFine (call : Call) : State × Left → Prop
  | (final, none) => Inv call final ∧ final.prefilled < call.tokenCount
  | (final, some (.ok ())) => Inv call final ∧
      (call.tokenCount ≤ final.prefilled ∨ final.aborted = true ∧ final.inFlight = 0)
  | (final, some (.error err)) => Accounted call final ∧ err.code ≠ .interrupted

theorem Inv.loopFine (h : Inv call state) (turns : List (Turn Content)) :
    LoopFine call (ringLoop call turns state) := by
  induction turns generalizing state with
  | nil =>
    rw [ringLoop]
    split
    next hleft =>
      exact ⟨h, hleft⟩
    next hdone =>
      exact ⟨h, .inl (not_lt.mp hdone)⟩
  | cons turn rest ih =>
    rw [ringLoop]
    split
    · have hturn := h.fine_ringTurn turn
      split
      next next hnext =>
        rw [hnext] at hturn
        exact ih hturn
      next next status hnext =>
        rw [hnext] at hturn
        cases status with
        | ok =>
          obtain ⟨hinv, habort, hnone⟩ := hturn
          exact ⟨hinv, .inr ⟨habort, hnone⟩⟩
        | error err => exact hturn
    next hdone =>
      exact ⟨h, .inl (not_lt.mp hdone)⟩

theorem Inv.all_done (h : Inv call state) (hdone : call.tokenCount ≤ state.prefilled) :
    total state.done = call.tokenCount ∧ state.inFlight = 0 ∧ state.aborted = false := by
  have hsplit := h.total_drop
  have hle := h.issued_le
  have hempty : state.issued.drop state.completed = [] := h.tiles_drop.eq_nil (by omega)
  have hlength := congrArg List.length hempty
  rw [List.length_drop, h.length_eq, List.length_nil] at hlength
  refine ⟨by rw [← h.prefilled_eq]; omega, by omega, ?_⟩
  rw [← Bool.not_eq_true]
  intro habort
  have hlt := h.aborted_lt habort
  omega

theorem Inv.interrupted_lt (h : Inv call state) (habort : state.aborted = true) :
    state.prefilled < call.tokenCount := by
  have hsplit := h.total_drop
  have hlt := h.aborted_lt habort
  omega

end Turns

section Whole

/-- What ring prefill guarantees of a call after any turns, while it waits and once it has returned. -/
structure Accounts (Content : Type) (call : Call) (run : Run) : Prop where
  accounted : Accounted call run.state
  slot_free : run.outcome = none → ∀ (turn : Turn Content) (budget : Budget),
    nextMove call turn run.state = .issue budget →
    (run.state.slots (run.state.nextChunk % prefillFrames)).active = false
  refused : run.outcome = none → ∀ (turn : Turn Content) (frame : Incoming) (span : Span),
    nextMove call turn run.state = .receive → turn.receive = .ok frame → frame.completes call = some span →
    run.state.issued[run.state.done.length]? ≠ some span → Refused run.state (ringTurn call turn run.state)
  returned : ∀ outcome, run.outcome = some outcome → ∀ prefilled, outcome.prefilled = some prefilled →
    prefilled = total run.state.done
  succeeded : ∀ outcome, run.outcome = some outcome → outcome.status = .ok () →
    total run.state.done = call.tokenCount ∧ run.state.inFlight = 0 ∧
      ∀ token, call.firstToken ≤ token → token < call.firstToken + call.tokenCount →
        run.state.done.countP (fun span => span.Holds token) = 1
  interrupted : ∀ outcome, run.outcome = some outcome → ∀ err, outcome.status = .error err →
    err.code = .interrupted → run.state.inFlight = 0 ∧ run.state.issued = run.state.done ∧
      ∃ prefilled, outcome.prefilled = some prefilled ∧ prefilled < call.tokenCount

theorem Inv.accounts_waiting (h : Inv call state) : Accounts Content call ⟨state, none⟩ where
  accounted := h.accounted
  slot_free _ turn budget hmove := h.nextSlot_free (nextMove_issue hmove).1
  refused := by
    intro _ turn frame span hmove hreceive hspan hother
    have hpolled : Inv call (RingPrefill.afterPoll call turn state) := h.afterPoll
    have hsame : (RingPrefill.afterPoll call turn state).issued = state.issued ∧
        (RingPrefill.afterPoll call turn state).completed = state.completed ∧
        (RingPrefill.afterPoll call turn state).done = state.done ∧
        (RingPrefill.afterPoll call turn state).prefilled = state.prefilled := by
      rw [RingPrefill.afterPoll]
      split <;> exact ⟨rfl, rfl, rfl, rfl⟩
    obtain ⟨hissued, hcompleted, hdone, hprefilled⟩ := hsame
    have hframe := hpolled.handleFrame_refused turn hspan (by rw [hissued, hcompleted, ← h.length_done]; exact hother)
    rw [Refused, hdone, hprefilled] at hframe
    simp only [ringTurn, hmove, hreceive]
    exact hframe
  returned _ hnone := nomatch hnone
  succeeded _ hnone := nomatch hnone
  interrupted _ hnone := nomatch hnone

theorem Accounted.accounts_failed (h : Accounted call state) {outcome : Outcome} {err : Error}
    (hstatus : outcome.status = .error err) (hcode : err.code ≠ .interrupted)
    (hprefilled : ∀ prefilled, outcome.prefilled = some prefilled → prefilled = state.prefilled) :
    Accounts Content call ⟨state, some outcome⟩ where
  accounted := h
  slot_free hnone := nomatch hnone
  refused hnone := nomatch hnone
  returned := by
    rintro _ ⟨rfl⟩ prefilled hsome
    rw [hprefilled prefilled hsome]
    exact h.prefilled_eq
  succeeded := by
    rintro _ ⟨rfl⟩ hok
    rw [hstatus] at hok
    cases hok
  interrupted := by
    rintro _ ⟨rfl⟩ other hother hinterrupted
    rw [hstatus] at hother
    cases hother
    exact absurd hinterrupted hcode

theorem Accounted.withTransport (h : Accounted call state) (transport : Transport.State) :
    Accounted call { state with transport := transport } :=
  ⟨h.consecutive, h.within, h.inFlight_le, h.window, h.oldest_first, h.prefilled_eq⟩

variable {closing : Closing} {status : Except Error Unit}

theorem Accounted.accounts_leave (h : Accounted call state) {err : Error} {transport : Transport.State}
    (hdrained : drained closing state (reported call state status) = (.error err, transport))
    (hcode : err.code ≠ .interrupted) :
    Accounts Content call ⟨(leave call closing state status).1, some (leave call closing state status).2⟩ := by
  rw [leave, hdrained]
  exact (h.withTransport _).accounts_failed rfl hcode fun _ hsome => (Option.some.inj hsome).symm

theorem Inv.accounts_interrupted (h : Inv call state) (habort : state.aborted = true) (hnone : state.inFlight = 0) :
    Accounts Content call ⟨(leave call closing state (.ok ())).1, some (leave call closing state (.ok ())).2⟩ := by
  have hreported : reported call state (.ok ()) = .error (interruptedError call state) := by
    rw [reported, if_pos habort]
  cases hdrain : closing.drain.status with
  | error fault =>
    have hdrained : drained closing state (reported call state (.ok ())) =
        (.error fault.toError, closing.drain.transport) := by
      rw [hreported, drained, hdrain]
      rfl
    exact h.accounted.accounts_leave hdrained fault.ne_interrupted
  | ok =>
    have hdrained : drained closing state (reported call state (.ok ())) =
        (.error (interruptedError call state), closing.drain.transport) := by
      rw [hreported, drained, hdrain]
      rfl
    have hall : state.issued = state.done := by
      rw [h.done_eq, List.take_of_length_le]
      rw [h.length_eq, hnone, Nat.add_zero]
    rw [leave, hdrained]
    constructor
    · exact h.accounted.withTransport _
    · exact fun hnone => nomatch hnone
    · exact fun hnone => nomatch hnone
    · rintro _ ⟨rfl⟩ prefilled ⟨rfl⟩
      exact h.prefilled_eq
    · rintro _ ⟨rfl⟩ hok
      cases hok
    · rintro _ ⟨rfl⟩ err - -
      exact ⟨hnone, hall, state.prefilled, rfl, h.interrupted_lt habort⟩

theorem Inv.accounts_done (h : Inv call state) (hdone : call.tokenCount ≤ state.prefilled) :
    Accounts Content call ⟨(leave call closing state (.ok ())).1, some (leave call closing state (.ok ())).2⟩ := by
  obtain ⟨htotal, hnone, hcalm⟩ := h.all_done hdone
  have hreported : reported call state (.ok ()) = .ok () := by
    rw [reported, hcalm]
    rfl
  cases hdrain : closing.drain.status with
  | error fault =>
    have hdrained : drained closing state (reported call state (.ok ())) =
        (.error fault.toError, closing.drain.transport) := by
      rw [hreported, drained, hdrain]
      rfl
    exact h.accounted.accounts_leave hdrained fault.ne_interrupted
  | ok =>
    have hdrained : drained closing state (reported call state (.ok ())) = (.ok (), closing.drain.transport) := by
      rw [hreported, drained, hdrain]
      rfl
    have haccounted := h.accounted
    rw [leave, hdrained]
    constructor
    · exact ⟨haccounted.consecutive, haccounted.within, haccounted.inFlight_le, haccounted.window,
        haccounted.oldest_first, htotal.symm⟩
    · exact fun hnone => nomatch hnone
    · exact fun hnone => nomatch hnone
    · rintro _ ⟨rfl⟩ prefilled ⟨rfl⟩
      exact htotal.symm
    · rintro _ ⟨rfl⟩ -
      refine ⟨htotal, hnone, fun token hle hlt => ?_⟩
      apply Tiles.countP_holds _ hle (htotal.symm ▸ hlt)
      have htiles := h.tiles
      rw [← List.take_append_drop state.completed state.issued, tiles_append, ← h.done_eq] at htiles
      exact htiles.1
    · rintro _ ⟨rfl⟩ err herr hcode
      dsimp only at herr
      split at herr
      · cases herr
      · split at herr
        · cases herr
        next fault _ =>
          cases herr
          exact absurd hcode fault.ne_interrupted

theorem LoopFine.accounts_leave (h : LoopFine call (state, some status)) :
    Accounts Content call ⟨(leave call closing state status).1, some (leave call closing state status).2⟩ := by
  cases status with
  | ok =>
    obtain ⟨hinv, hdone | ⟨habort, hnone⟩⟩ := h
    · exact hinv.accounts_done hdone
    · exact hinv.accounts_interrupted habort hnone
  | error err =>
    obtain ⟨haccounted, hcode⟩ := h
    have hfailed : orInterrupted (.error err) = false := decide_eq_false hcode
    have hdrained : drained closing state (reported call state (.error err)) = (.error err, state.transport) := by
      rw [reported, drained, hfailed]
      rfl
    exact haccounted.accounts_leave hdrained hcode

theorem accounts_refuse (transport : Transport.State) {code : Status} (message : String)
    (hcode : code ≠ .interrupted) : Accounts Content call (refuse transport code message) :=
  (Inv.start transport).accounted.accounts_failed rfl hcode fun _ hsome => nomatch hsome

theorem ringRun_fine (call : Call) (transport : Transport.State) (turns : List (Turn Content)) :
    LoopFine call (ringRun call transport turns) := by
  rw [ringRun]
  split
  · exact ⟨(Inv.start transport).accounted, Fault.ne_interrupted _⟩
  · exact (Inv.start transport).loopFine turns

/-- Ring prefill keeps its accounts: for every prompt, every sequence of budgets, interrupts, frames and
failures, the chunks issued follow one another, a slot in use is never issued again, only the oldest chunk
under way is counted, success means that every token was counted once, and an interrupt is reported only
with nothing under way and tokens left. -/
theorem prefill_accounts (call : Call) (transport : Transport.State) (turns : List (Turn Content))
    (closing : Closing) : Accounts Content call (prefillPipelineRing call transport turns closing) := by
  rw [prefillPipelineRing]
  split
  · exact accounts_refuse transport _ (by decide)
  · split
    · exact accounts_refuse transport _ (by decide)
    · split
      · exact accounts_refuse transport _ (by decide)
      · have hrun := ringRun_fine call transport turns
        split
        next state hwait =>
          rw [hwait] at hrun
          exact hrun.1.accounts_waiting
        next state status hleft =>
          rw [hleft] at hrun
          exact hrun.accounts_leave

end Whole

end FlashGordon.RingPrefill
