import FlashGordon.Newest
import FlashGordon.OutputSplit

/-! The matcher of the output handoff over whole sequences of arrivals. Its three halves are kept as the
newest items are: for the largest token index received, the last message of every kind. The partials that are
stored came for the token of the stored config. The handlers start from the handoff that
`fg_output_handoff_reset` and `fg_output_handoff_take` leave. -/

namespace FlashGordon.OutputSplit

open Newest Option

variable {Activation : Type}

inductive HalfKind where
  | config
  | hidden
  | hiddenSlice
  deriving DecidableEq

inductive Half (Activation : Type) where
  | config (config : OutputConfig)
  | hidden (hidden : LayerResult Activation)
  | hiddenSlice (slice : LayerResult Activation)

def Half.kind : Half Activation → HalfKind
  | .config _ => .config
  | .hidden _ => .hidden
  | .hiddenSlice _ => .hiddenSlice

def Half.tokenIndex : Half Activation → UInt32
  | .config half => half.tokenIndex
  | .hidden half => half.tokenIndex
  | .hiddenSlice half => half.tokenIndex

def Half.index (half : Half Activation) : Nat := half.tokenIndex.toNat

def Handoff.half (state : Handoff Activation) : HalfKind → Option (Half Activation)
  | .config => state.config.map .config
  | .hidden => state.hidden.map .hidden
  | .hiddenSlice => state.hiddenSlice.map .hiddenSlice

def arriveHalf (state : Handoff Activation) : Half Activation → Handoff Activation
  | .config config => handoffConfig state config
  | .hidden hidden => handoffHidden state hidden
  | .hiddenSlice slice => handoffHiddenSlice state slice

inductive HandoffMessage (Activation : Type) where
  | half (half : Half Activation)
  | splitPartial (tokenIndex : UInt32) (rank : Nat) (finalist : Finalist)

def arrive (state : Handoff Activation) : HandoffMessage Activation → Handoff Activation
  | .half half => arriveHalf state half
  | .splitPartial tokenIndex rank finalist =>
    match handoffPartial state tokenIndex rank finalist with
    | .error _ => state
    | .ok next => next

def arriveAll (messages : List (HandoffMessage Activation)) : Handoff Activation := messages.foldl arrive .reset

section Handlers

variable {state : Handoff Activation} {token : UInt32}

def Aligned (state : Handoff Activation) (token : UInt32) : Prop :=
  ∀ kind half, state.half kind = some half → half.tokenIndex = token

theorem holds_eq {α : Type} {half : Option α} {index : α → UInt32}
    (h : ∀ stored, half = some stored → index stored = token) (test : UInt32 → Bool) :
    holds half index test = (half.isSome && test token) := by
  cases half with
  | none => rfl
  | some stored =>
    rw [holds, any_some, h stored rfl]
    rfl

section

variable (h : Aligned state token)
include h

theorem Aligned.holds_config (test : UInt32 → Bool) :
    holds state.config OutputConfig.tokenIndex test = (state.config.isSome && test token) :=
  holds_eq (fun stored hstored => h .config (.config stored) (congrArg (Option.map _) hstored)) test

theorem Aligned.holds_hidden (test : UInt32 → Bool) :
    holds state.hidden LayerResult.tokenIndex test = (state.hidden.isSome && test token) :=
  holds_eq (fun stored hstored => h .hidden (.hidden stored) (congrArg (Option.map _) hstored)) test

theorem Aligned.holds_slice (test : UInt32 → Bool) :
    holds state.hiddenSlice LayerResult.tokenIndex test = (state.hiddenSlice.isSome && test token) :=
  holds_eq (fun stored hstored => h .hiddenSlice (.hiddenSlice stored) (congrArg (Option.map _) hstored)) test

theorem arriveHalf_older {half : Half Activation} (hpresent : ∃ kind, (state.half kind).isSome = true) (hold : half.tokenIndex < token) :
    arriveHalf state half = state := by
  have hne : half.tokenIndex ≠ token := (UInt32.ne_of_lt hold)
  have hnot : ¬ token < half.tokenIndex := UInt32.lt_asymm hold
  have hsome : state.config.isSome = true ∨ state.hidden.isSome = true ∨ state.hiddenSlice.isSome = true := by
    obtain ⟨kind, hkind⟩ := hpresent
    cases kind with
    | config => exact .inl (by simpa [Handoff.half] using hkind)
    | hidden => exact .inr (.inl (by simpa [Handoff.half] using hkind))
    | hiddenSlice => exact .inr (.inr (by simpa [Handoff.half] using hkind))
  cases half with
  | config config =>
    simp only [Half.tokenIndex] at hold hne hnot
    simp only [arriveHalf, handoffConfig, h.holds_config, h.holds_hidden, h.holds_slice, hne, hold, hnot,
      decide_false, decide_true, Bool.and_false, Bool.and_true, Bool.false_eq_true, if_false]
    split
    · rfl
    · split
      · rfl
      · have hslice : state.hiddenSlice.isSome = true := by tauto
        rw [if_pos hslice]
  | hidden hidden =>
    simp only [Half.tokenIndex] at hold hne hnot
    simp only [arriveHalf, handoffHidden, h.holds_config, h.holds_hidden, h.holds_slice, hne, hold, hnot,
      decide_false, decide_true, Bool.and_false, Bool.and_true, Bool.false_eq_true, if_false]
    split
    · rfl
    · split
      · rfl
      · have hconfig : state.config.isSome = true := by tauto
        rw [if_pos hconfig]
  | hiddenSlice slice =>
    simp only [Half.tokenIndex] at hold hne hnot
    simp only [arriveHalf, handoffHiddenSlice, h.holds_config, h.holds_hidden, h.holds_slice, hne, hold, hnot,
      decide_false, decide_true, Bool.and_false, Bool.and_true, Bool.false_eq_true, if_false]
    split
    · rfl
    · split
      · rfl
      · have hconfig : state.config.isSome = true := by tauto
        rw [if_pos hconfig]

end

theorem half_update_config (state : Handoff Activation) (config : OutputConfig) (own : Option Finalist)
    (remotes : List (Nat × Finalist)) :
    Handoff.half ⟨some config, state.hidden, state.hiddenSlice, own, remotes⟩ =
      Function.update state.half .config (some (.config config)) := by
  funext kind
  cases kind <;> rfl

theorem half_update_hidden (state : Handoff Activation) (hidden : LayerResult Activation)
    (own : Option Finalist) (remotes : List (Nat × Finalist)) :
    Handoff.half ⟨state.config, some hidden, state.hiddenSlice, own, remotes⟩ =
      Function.update state.half .hidden (some (.hidden hidden)) := by
  funext kind
  cases kind <;> rfl

theorem half_update_slice (state : Handoff Activation) (slice : LayerResult Activation)
    (own : Option Finalist) (remotes : List (Nat × Finalist)) :
    Handoff.half ⟨state.config, state.hidden, some slice, own, remotes⟩ =
      Function.update state.half .hiddenSlice (some (.hiddenSlice slice)) := by
  funext kind
  cases kind <;> rfl

section

variable (h : Aligned state token)
include h

theorem handoffSettle_same : handoffSettle state token = state ∨ handoffSettle state token = state.clearPartials := by
  have hirrefl : ¬ token < token := UInt32.lt_irrefl token
  simp only [handoffSettle, h.holds_config, hirrefl, decide_false, decide_true, Bool.and_false, Bool.and_true,
    Bool.false_eq_true, if_false]
  split
  · exact .inl rfl
  · exact .inr rfl

theorem arriveHalf_same {half : Half Activation} (hsame : half.tokenIndex = token) :
    (arriveHalf state half).half = Function.update state.half half.kind (some half) ∧
      ((arriveHalf state half).remotes = state.remotes ∨ (arriveHalf state half).remotes = []) := by
  have hirrefl : ¬ token < token := UInt32.lt_irrefl token
  cases half with
  | config config =>
    replace hsame : config.tokenIndex = token := hsame
    simp only [arriveHalf, handoffConfig, hsame, h.holds_config, h.holds_hidden, h.holds_slice, hirrefl,
      decide_false, decide_true, Bool.and_false, Bool.and_true, Bool.false_eq_true, if_false]
    split
    · exact ⟨half_update_config state config _ _, .inl rfl⟩
    · exact ⟨half_update_config state config _ _, .inr rfl⟩
  | hidden hidden =>
    replace hsame : hidden.tokenIndex = token := hsame
    simp only [arriveHalf, handoffHidden, hsame, h.holds_config, h.holds_hidden, h.holds_slice, hirrefl,
      decide_false, decide_true, Bool.and_false, Bool.and_true, Bool.false_eq_true, if_false]
    split
    · exact ⟨half_update_hidden state hidden _ _, .inl rfl⟩
    · rcases handoffSettle_same h with hsettle | hsettle
      · rw [hsettle]
        exact ⟨half_update_hidden state hidden _ _, .inl rfl⟩
      · rw [hsettle]
        exact ⟨half_update_hidden state hidden _ _, .inr rfl⟩
  | hiddenSlice slice =>
    replace hsame : slice.tokenIndex = token := hsame
    simp only [arriveHalf, handoffHiddenSlice, hsame, h.holds_config, h.holds_hidden, h.holds_slice, hirrefl,
      decide_false, decide_true, Bool.and_false, Bool.and_true, Bool.false_eq_true, if_false]
    split
    · exact ⟨half_update_slice state slice _ _, .inl rfl⟩
    · rcases handoffSettle_same h with hsettle | hsettle
      · rw [hsettle]
        exact ⟨half_update_slice state slice _ _, .inl rfl⟩
      · rw [hsettle]
        exact ⟨half_update_slice state slice _ _, .inr rfl⟩

theorem handoffSettle_newer {new : UInt32} (hnew : token < new) :
    handoffSettle state new = { state with config := none }.clearPartials := by
  simp only [handoffSettle, h.holds_config, hnew, decide_true, Bool.and_true]
  cases hconfig : state.config with
  | none =>
    simp only [isSome_none, Bool.false_eq_true, if_false, hconfig, holds, any_none]
    rw [Handoff.clearPartials, hconfig]
    rfl
  | some config => rfl

theorem dropHidden_eq {new : UInt32} (hnew : token < new) :
    (if holds state.hidden LayerResult.tokenIndex (· < new) then { state with hidden := none } else state) =
      { state with hidden := none } := by
  rw [h.holds_hidden, decide_eq_true hnew, Bool.and_true]
  obtain ⟨config, hidden, slice, own, remotes⟩ := state
  cases hidden <;> rfl

theorem dropSlice_eq {new : UInt32} (hnew : token < new) :
    (if holds state.hiddenSlice LayerResult.tokenIndex (· < new) then { state with hiddenSlice := none }
      else state) = { state with hiddenSlice := none } := by
  rw [h.holds_slice, decide_eq_true hnew, Bool.and_true]
  obtain ⟨config, hidden, slice, own, remotes⟩ := state
  cases slice <;> rfl

theorem Aligned.dropHidden : Aligned { state with hidden := none } token := by
  intro kind half hhalf
  cases kind with
  | config => exact h .config half hhalf
  | hidden => cases hhalf
  | hiddenSlice => exact h .hiddenSlice half hhalf

theorem Aligned.dropSlice : Aligned { state with hiddenSlice := none } token := by
  intro kind half hhalf
  cases kind with
  | config => exact h .config half hhalf
  | hidden => exact h .hidden half hhalf
  | hiddenSlice => cases hhalf

theorem handoffConfig_newer {config : OutputConfig} (hnew : token < config.tokenIndex) :
    handoffConfig state config = ⟨some config, none, none, none, []⟩ := by
  have hne : config.tokenIndex ≠ token := (UInt32.ne_of_lt hnew).symm
  have hnot : ¬ config.tokenIndex < token := UInt32.lt_asymm hnew
  rw [handoffConfig]
  dsimp only
  rw [dropHidden_eq h hnew, dropSlice_eq h.dropHidden hnew]
  simp only [h.holds_config, h.holds_hidden, h.dropHidden.holds_slice, hne, hnot, decide_false, Bool.and_false,
    Bool.false_eq_true, if_false]
  rfl

theorem handoffHidden_newer {hidden : LayerResult Activation}
    (hnew : token < hidden.tokenIndex) : handoffHidden state hidden = ⟨none, some hidden, none, none, []⟩ := by
  have hne : hidden.tokenIndex ≠ token := (UInt32.ne_of_lt hnew).symm
  have hnot : ¬ hidden.tokenIndex < token := UInt32.lt_asymm hnew
  rw [handoffHidden]
  dsimp only
  rw [dropSlice_eq h hnew, handoffSettle_newer h.dropSlice hnew]
  simp only [h.dropSlice.holds_config, h.holds_hidden, h.holds_slice, hne, hnot, decide_false, Bool.and_false,
    Bool.false_eq_true, if_false]
  rfl

theorem handoffHiddenSlice_newer {slice : LayerResult Activation}
    (hnew : token < slice.tokenIndex) : handoffHiddenSlice state slice = ⟨none, none, some slice, none, []⟩ := by
  have hne : slice.tokenIndex ≠ token := (UInt32.ne_of_lt hnew).symm
  have hnot : ¬ slice.tokenIndex < token := UInt32.lt_asymm hnew
  rw [handoffHiddenSlice]
  dsimp only
  rw [dropHidden_eq h hnew, handoffSettle_newer h.dropHidden hnew]
  simp only [h.dropHidden.holds_config, h.holds_hidden, h.holds_slice, hne, hnot, decide_false, Bool.and_false,
    Bool.false_eq_true, if_false]
  rfl

theorem arriveHalf_newer {half : Half Activation} (hnew : token < half.tokenIndex) :
    (arriveHalf state half).half = Function.update (fun _ => none) half.kind (some half) ∧
      (arriveHalf state half).remotes = [] := by
  cases half with
  | config config =>
    rw [arriveHalf, handoffConfig_newer h hnew]
    exact ⟨funext fun kind => by cases kind <;> rfl, rfl⟩
  | hidden hidden =>
    rw [arriveHalf, handoffHidden_newer h hnew]
    exact ⟨funext fun kind => by cases kind <;> rfl, rfl⟩
  | hiddenSlice slice =>
    rw [arriveHalf, handoffHiddenSlice_newer h hnew]
    exact ⟨funext fun kind => by cases kind <;> rfl, rfl⟩

end

end Handlers

section Run

variable {state : Handoff Activation} {messages other : List (HandoffMessage Activation)}

def HandoffMessage.half? : HandoffMessage Activation → Option (Half Activation)
  | .half stored => some stored
  | .splitPartial _ _ _ => none

def HandoffMessage.kind : HandoffMessage Activation → Option HalfKind
  | .half stored => some stored.kind
  | .splitPartial _ _ _ => none

def HandoffMessage.index : HandoffMessage Activation → Nat
  | .half stored => stored.index
  | .splitPartial tokenIndex _ _ => tokenIndex.toNat

def halves (messages : List (HandoffMessage Activation)) : List (Half Activation) :=
  messages.filterMap HandoffMessage.half?

def HandoffMessage.partialOf (token : UInt32) : HandoffMessage Activation → Option (Nat × Finalist)
  | .half _ => none
  | .splitPartial tokenIndex rank finalist => if tokenIndex = token then some (rank, finalist) else none

structure Tracks (messages : List (HandoffMessage Activation)) (state : Handoff Activation) : Prop where
  half_eq : state.half = (run Half.kind Half.index (halves messages)).item
  remotes_nil : state.config = none → state.remotes = []
  remotes_sublist : ∀ config, state.config = some config →
    state.remotes.Sublist (messages.filterMap (HandoffMessage.partialOf config.tokenIndex))

theorem half_config {config : OutputConfig} :
    state.half .config = some (.config config) ↔ state.config = some config := by
  rw [Handoff.half, map_eq_some_iff]
  constructor
  · rintro ⟨stored, hstored, heq⟩
    cases heq
    exact hstored
  · intro h
    exact ⟨config, h, rfl⟩

/-- What a half does to a state that holds `kept`: the same as keeping the newest. The partials go, or the token
of the config stays. -/
structure Settled (state next : Handoff Activation) (kept : Kept HalfKind Nat (Half Activation)) : Prop where
  half_eq : next.half = kept.item
  remotes_eq : next.remotes = [] ∨ (next.remotes = state.remotes ∧
    ∀ config, state.config = some config →
      ∃ stored, next.config = some stored ∧ stored.tokenIndex = config.tokenIndex)

theorem settled_same {token : UInt32} {half : Half Activation} (h : Aligned state token)
    (hsame : half.tokenIndex = token) {kept : Kept HalfKind Nat (Half Activation)}
    (hkept : kept.item = Function.update state.half half.kind (some half)) :
    Settled state (arriveHalf state half) kept := by
  obtain ⟨hhalf, hremotes⟩ := arriveHalf_same h hsame
  refine ⟨hhalf.trans hkept.symm, ?_⟩
  rcases hremotes with hstay | hgone
  · refine .inr ⟨hstay, fun config hconfig => ?_⟩
    have hfirst : config.tokenIndex = token := h .config (.config config) (half_config.mpr hconfig)
    cases half with
    | config new => exact ⟨new, half_config.mp (congrFun hhalf .config), hsame.trans hfirst.symm⟩
    | hidden new => exact ⟨config, half_config.mp ((congrFun hhalf .config).trans (half_config.mpr hconfig)), rfl⟩
    | hiddenSlice new =>
      exact ⟨config, half_config.mp ((congrFun hhalf .config).trans (half_config.mpr hconfig)), rfl⟩
  · exact .inl hgone

theorem Tracks.settled (h : Tracks messages state) (half : Half Activation) :
    Settled state (arriveHalf state half)
      (keep Half.kind Half.index (run Half.kind Half.index (halves messages)) half) := by
  have hkeeps := run_keeps Half.kind Half.index (halves messages)
  have hhalf := h.half_eq
  generalize run Half.kind Half.index (halves messages) = kept at hkeeps hhalf ⊢
  cases hheld : kept.token with
  | none =>
    -- no half is there, so the state is aligned to any token
    have hempty : state.half = fun _ => none := hhalf.trans (hkeeps.none_eq hheld).2
    have haligned : Aligned state half.tokenIndex := by
      intro kind stored hstored
      rw [hempty] at hstored
      cases hstored
    apply settled_same haligned rfl
    rw [keep, hheld, hempty]
  | some n =>
    have hpresent : ∃ kind, (state.half kind).isSome = true := hhalf ▸ hkeeps.present hheld
    obtain ⟨kind, hkind⟩ := hpresent
    obtain ⟨first, hfirst⟩ := isSome_iff_exists.mp hkind
    have hindex : ∀ kind stored, state.half kind = some stored → stored.index = n := by
      intro kind stored hstored
      rw [hhalf] at hstored
      exact (some_inj.mp (hheld.symm.trans (hkeeps.token_eq hstored))).symm
    have haligned : Aligned state first.tokenIndex := fun kind stored hstored =>
      UInt32.toNat_inj.mp ((hindex kind stored hstored).trans (hindex _ first hfirst).symm)
    have hn : first.tokenIndex.toNat = n := hindex _ first hfirst
    rw [keep, hheld]
    dsimp only
    split
    next hold =>
      have hless : half.tokenIndex < first.tokenIndex := UInt32.lt_iff_toNat_lt.mpr (hn ▸ hold)
      rw [arriveHalf_older haligned ⟨_, hkind⟩ hless]
      exact ⟨hhalf, .inr ⟨rfl, fun config hconfig => ⟨config, hconfig, rfl⟩⟩⟩
    next hold =>
      split
      next hnew =>
        have hmore : first.tokenIndex < half.tokenIndex := UInt32.lt_iff_toNat_lt.mpr (hn ▸ hnew)
        obtain ⟨hhalfNew, hgone⟩ := arriveHalf_newer haligned hmore
        exact ⟨hhalfNew, .inl hgone⟩
      next hnew =>
        have hsame : half.tokenIndex = first.tokenIndex :=
          UInt32.toNat_inj.mp (hn ▸ le_antisymm (not_lt.mp hnew) (not_lt.mp hold))
        apply settled_same haligned hsame
        rw [hhalf]

theorem Tracks.arriveHalf (h : Tracks messages state) (half : Half Activation) :
    Tracks (messages ++ [HandoffMessage.half half]) (arriveHalf state half) := by
  obtain ⟨hhalf, hremotes⟩ := h.settled half
  have hhalves : halves (messages ++ [HandoffMessage.half half]) = halves messages ++ [half] := by
    rw [halves, List.filterMap_append]
    rfl
  have hpartials (token : UInt32) :
      (messages ++ [HandoffMessage.half half]).filterMap (HandoffMessage.partialOf token) =
        messages.filterMap (HandoffMessage.partialOf token) := by
    rw [List.filterMap_append]
    exact List.append_nil _
  constructor
  · rw [hhalves, run, List.foldl_append]
    exact hhalf
  · intro hnone
    rcases hremotes with hgone | ⟨hstay, htoken⟩
    · exact hgone
    · cases hconfig : state.config with
      | none => rw [hstay, h.remotes_nil hconfig]
      | some config =>
        obtain ⟨stored, hstored, -⟩ := htoken config hconfig
        exact absurd (hnone.symm.trans hstored) (some_ne_none _).symm
  · intro stored hstored
    rw [hpartials]
    rcases hremotes with hgone | ⟨hstay, htoken⟩
    · rw [hgone]
      exact List.nil_sublist _
    · cases hconfig : state.config with
      | none =>
        rw [hstay, h.remotes_nil hconfig]
        exact List.nil_sublist _
      | some config =>
        obtain ⟨next, hnext, hindex⟩ := htoken config hconfig
        rw [hstay, some_inj.mp (hstored.symm.trans hnext), hindex]
        exact h.remotes_sublist config hconfig

theorem Tracks.arrivePartial (h : Tracks messages state) (tokenIndex : UInt32) (rank : Nat) (finalist : Finalist) :
    Tracks (messages ++ [.splitPartial tokenIndex rank finalist])
      (arrive state (.splitPartial tokenIndex rank finalist)) := by
  have hhalves : halves (messages ++ [HandoffMessage.splitPartial tokenIndex rank finalist]) = halves messages := by
    rw [halves, List.filterMap_append]
    exact List.append_nil _
  have hless (token : UInt32) : (messages.filterMap (HandoffMessage.partialOf token)).Sublist
      ((messages ++ [HandoffMessage.splitPartial tokenIndex rank finalist]).filterMap
        (HandoffMessage.partialOf token)) :=
    (List.sublist_append_left _ _).filterMap _
  have hrefused : Tracks (messages ++ [.splitPartial tokenIndex rank finalist]) state :=
    ⟨hhalves ▸ h.half_eq, h.remotes_nil, fun config hconfig => (h.remotes_sublist config hconfig).trans (hless _)⟩
  rw [arrive, handoffPartial]
  split
  · exact hrefused
  next next hstored =>
    split at hstored
    · cases hstored
    next hholds =>
      split at hstored
      · cases hstored
      · cases hstored
        have hconfig : ∃ config, state.config = some config ∧ config.tokenIndex = tokenIndex := by
          rw [Bool.not_eq_false, holds, any_eq_true] at hholds
          obtain ⟨config, hconfig, htoken⟩ := hholds
          exact ⟨config, hconfig, (of_decide_eq_true htoken).symm⟩
        obtain ⟨config, hconfig, rfl⟩ := hconfig
        refine ⟨hhalves ▸ h.half_eq, fun hnone => ?_, fun stored hsome => ?_⟩
        · exact absurd (hnone.symm.trans hconfig) (some_ne_none _).symm
        · rw [some_inj.mp (hsome.symm.trans hconfig), List.filterMap_append]
          apply (h.remotes_sublist config hconfig).append
          have hown : HandoffMessage.partialOf config.tokenIndex
              (HandoffMessage.splitPartial config.tokenIndex rank finalist : HandoffMessage Activation) =
                some (rank, finalist) := if_pos rfl
          rw [List.filterMap_cons_some hown]
          exact List.Sublist.refl _

theorem arriveAll_tracks (messages : List (HandoffMessage Activation)) : Tracks messages (arriveAll messages) := by
  induction messages using List.reverseRecOn with
  | nil =>
    refine ⟨funext fun kind => ?_, fun _ => rfl, fun config hconfig => (by cases hconfig)⟩
    cases kind <;> rfl
  | append_singleton messages message ih =>
    rw [arriveAll, List.foldl_append]
    cases message with
    | half half => exact ih.arriveHalf half
    | splitPartial tokenIndex rank finalist => exact ih.arrivePartial tokenIndex rank finalist

theorem ofKind_halves (kind : HalfKind) (index : Nat) (messages : List (HandoffMessage Activation)) :
    ofKind Half.kind Half.index kind index (halves messages) =
      (ofKind HandoffMessage.kind HandoffMessage.index (some kind) index messages).filterMap
        HandoffMessage.half? := by
  rw [halves, ofKind, List.filter_filterMap, ofKind, List.filterMap_filter]
  congr 1
  funext message
  cases message with
  | half half =>
    by_cases hmatch : half.kind = kind ∧ half.index = index
    · simp [HandoffMessage.half?, HandoffMessage.kind, HandoffMessage.index, hmatch]
    · simp only [HandoffMessage.half?, HandoffMessage.kind, HandoffMessage.index, Option.filter, some_inj,
        hmatch, decide_false, Bool.false_eq_true, if_false]
  | splitPartial tokenIndex rank finalist => simp [HandoffMessage.half?]

/-- What the handoff promises after some arrivals. -/
structure Matched (messages : List (HandoffMessage Activation)) (state : Handoff Activation) : Prop where
  one_token : ∀ kind kind' half half', state.half kind = some half → state.half kind' = some half' →
    half.tokenIndex = half'.tokenIndex
  greatest : ∀ kind half, state.half kind = some half → IsGreatest
    {index | ∃ received, HandoffMessage.half received ∈ messages ∧ received.tokenIndex.toNat = index}
    half.tokenIndex.toNat
  last_received : ∀ kind half, state.half kind = some half →
    ((halves messages).filter fun received =>
      received.kind = kind ∧ received.tokenIndex = half.tokenIndex).getLast? = some half
  partials : ∀ entry ∈ state.remotes, ∃ config, state.config = some config ∧
    HandoffMessage.splitPartial config.tokenIndex entry.1 entry.2 ∈ messages

/-- Another order of the same messages that keeps the order of messages of the same kind and token. -/
def Reorders (messages other : List (HandoffMessage Activation)) : Prop :=
  ∀ kind index, ofKind HandoffMessage.kind HandoffMessage.index kind index other =
    ofKind HandoffMessage.kind HandoffMessage.index kind index messages

theorem mem_halves {half : Half Activation} : half ∈ halves messages ↔ HandoffMessage.half half ∈ messages := by
  rw [halves, List.mem_filterMap]
  constructor
  · rintro ⟨message, hmessage, hhalf⟩
    cases message with
    | half stored =>
      cases hhalf
      exact hmessage
    | splitPartial tokenIndex rank finalist => cases hhalf
  · intro hmem
    exact ⟨_, hmem, rfl⟩

theorem Tracks.matched (h : Tracks messages state) : Matched messages state := by
  have hkeeps := run_keeps Half.kind Half.index (halves messages)
  have hheld : ∀ kind half, state.half kind = some half →
      (run Half.kind Half.index (halves messages)).token = some half.index := by
    intro kind half hhalf
    rw [h.half_eq] at hhalf
    exact hkeeps.token_eq hhalf
  constructor
  · intro kind kind' half half' hhalf hhalf'
    exact UInt32.toNat_inj.mp (some_inj.mp ((hheld kind half hhalf).symm.trans (hheld kind' half' hhalf')))
  · intro kind half hhalf
    have hgreatest := hkeeps.greatest half.index (hheld kind half hhalf)
    have htokens : tokens Half.index (halves messages) =
        {index | ∃ received, HandoffMessage.half received ∈ messages ∧ received.tokenIndex.toNat = index} := by
      ext index
      simp only [tokens, mem_halves, Set.mem_ofPred_eq, Half.index]
    rwa [htokens] at hgreatest
  · intro kind half hhalf
    have hlast := hkeeps.last half.index (hheld kind half hhalf) kind
    rw [← h.half_eq, hhalf] at hlast
    rw [hlast, ofKind]
    simp only [Half.index, UInt32.toNat_inj]
  · intro entry hentry
    cases hconfig : state.config with
    | none =>
      rw [h.remotes_nil hconfig] at hentry
      exact absurd hentry List.not_mem_nil
    | some config =>
      have hmem := (h.remotes_sublist config hconfig).mem hentry
      obtain ⟨message, hmessage, hpartial⟩ := List.mem_filterMap.mp hmem
      cases message with
      | half half => cases hpartial
      | splitPartial tokenIndex rank finalist =>
        rw [HandoffMessage.partialOf] at hpartial
        split at hpartial
        next htoken =>
          cases hpartial
          exact ⟨config, rfl, htoken ▸ hmessage⟩
        · cases hpartial

/-- After any arrivals the handoff holds the last message of each kind for the largest token index received and
partials of the stored config's token, and its halves do not depend on how messages of different kinds or
tokens interleave. -/
theorem handoff_matches (messages : List (HandoffMessage Activation)) :
    Matched messages (arriveAll messages) ∧
      ∀ other, Reorders messages other → (arriveAll other).half = (arriveAll messages).half := by
  refine ⟨(arriveAll_tracks messages).matched, fun other hreorders => ?_⟩
  rw [(arriveAll_tracks other).half_eq, (arriveAll_tracks messages).half_eq]
  have hsame : ∀ kind index, ofKind Half.kind Half.index kind index (halves other) =
      ofKind Half.kind Half.index kind index (halves messages) := by
    intro kind index
    rw [ofKind_halves, ofKind_halves, hreorders]
  rw [run_reorder hsame]

def sampleConfig : OutputConfig := ⟨0, 4, false, false, 0, 7, true⟩

def sampleHidden : LayerResult Unit := ⟨47, 3, 4, 7, ()⟩

theorem handoff_matches_swapped :
    (arriveAll [.half (.hidden sampleHidden), .half (.config sampleConfig)]).half =
      (arriveAll [.half (.config sampleConfig), .half (.hidden sampleHidden)]).half := by
  apply (handoff_matches _).2
  intro kind index
  by_cases hkind : kind = some .config
  · subst hkind
    simp [ofKind, List.filter_cons, HandoffMessage.kind, Half.kind]
  · simp [ofKind, List.filter_cons, HandoffMessage.kind, Half.kind, Ne.symm hkind]

end Run

end FlashGordon.OutputSplit
