import FlashGordon.Frontier

/-! Positions across a conversation. A conversation is a runtime with the transcript that its successful
calls have built: text tokens and media in the order they were processed, since the last cold start. The
entries that the owners hold are compared with one cold prefill of that whole transcript. The saved cursor
agrees with the cold one at every call; the entries agree as long as no text suffix is prefilled with a
cursor behind its token index. -/

namespace FlashGordon.Generate

/-- One cold prefill of a whole transcript: from cursor zero, a text token advances the cursor by one, an
image by the larger side of its grid, and a video as `fg_video_positions` does. -/
def coldPrefill (transcript : List Item) : List Entry := layoutFrom 0 transcript

structure Conversation where
  runtime : Runtime
  transcript : List Item
  deriving DecidableEq

/-- The items that a call adds after the `reused` prompt tokens. -/
def Call.items (reused : Nat) : Call → List Item
  | .generate (.ok tokens) _ => (tokens.drop reused).map .text
  | .generateContinuation (.ok suffix) _ => suffix.map .text
  | .generateVision ⟨.ok media, .ok tokens⟩ _ => (matchMedia 0 tokens media).toOption.getD []
  | .generateVisionContinuation ⟨.ok media, .ok tokens⟩ _ => (matchMedia 0 tokens media).toOption.getD []
  | _ => []

/-- A successful call continues the transcript when it reports a prefix hit, and starts a new one when it
does not; the emitted tokens follow as text. -/
def converse (deployment : Deployment) (conversation : Conversation) (call : Call) : Option Conversation :=
  let outcome := perform deployment conversation.runtime call
  match outcome.status with
  | .error _ => none
  | .ok () =>
    some ⟨outcome.runtime,
      (if outcome.stats.prefixCacheHit then conversation.transcript else []) ++
        call.items outcome.stats.reusedTokens ++ outcome.emitted.map .text⟩

/-- A text call that resumes a live prefix and has tokens to prefill finds the cursor at or ahead of the
frontier. -/
def Abreast (deployment : Deployment) (conversation : Conversation) (call : Call) : Prop :=
  ∀ prompt request, Asks deployment conversation.runtime call prompt request → prompt.vision = none →
    (generatePlan deployment conversation.runtime prompt).hit = true →
    (generatePlan deployment conversation.runtime prompt).start < prompt.tokens.length →
    conversation.runtime.stateFrontier ≤ conversation.runtime.statePosition

/-- The owners hold the cold prefill of the transcript, and the cursor stands after it. -/
structure Placed (conversation : Conversation) : Prop where
  synced : Synced conversation.runtime
  owners : conversation.runtime.owners = coldPrefill conversation.transcript
  cursor : conversation.runtime.statePosition = cursorFrom 0 conversation.transcript

theorem layoutFrom_text (bias index : Nat) (tokens : List Nat) :
    layoutFrom (index + bias) (tokens.map .text) = textEntries bias index tokens := by
  induction tokens generalizing index with
  | nil => rfl
  | cons token rest ih =>
    simp only [List.map_cons, layoutFrom, Item.entries, Item.advance, textEntries, List.singleton_append,
      ← ih, Nat.add_right_comm]

theorem layoutFrom_eq_nil (position : Nat) {items : List Item} (h : layoutFrom position items = []) : items = [] := by
  cases items with
  | nil => rfl
  | cons item rest =>
    obtain ⟨hentries, -⟩ := List.append_eq_nil_iff.mp h
    cases item with
    | text token => cases hentries
    | media medium =>
      have hpos := medium.merged_pos
      simp only [Item.entries, List.map_eq_nil_iff, List.range_eq_nil] at hentries
      omega

section Suffix

variable {deployment : Deployment} {runtime : Runtime} {call : Call} {prompt : Prompt} {request : Request}

theorem generatePlan_reused (deployment : Deployment) (runtime : Runtime) (prompt : Prompt) :
    (generatePlan deployment runtime prompt).reusedTokens = (generatePlan deployment runtime prompt).start := by
  unfold generatePlan prefixPlanTokens
  dsimp only
  repeat' split
  all_goals simp [PrefixPlan.cold, PrefixPlan.start]

theorem generatePlan_vision (deployment : Deployment) (runtime : Runtime) (prompt : Prompt)
    (hvision : prompt.vision.isSome) (hcold : prompt.visionContinuation = false) :
    (generatePlan deployment runtime prompt).hit = false := by
  unfold generatePlan
  simp [hvision, hcold, PrefixPlan.cold]

/-- What the prefill of a call hands to the owners, and where it leaves the cursor: the layout of the
call's items from the cursor of what it reuses. -/
structure Suffix (deployment : Deployment) (runtime : Runtime) (call : Call) (prompt : Prompt) : Prop where
  entries : prompt.prefillEntries (generatePlan deployment runtime prompt).start
      (positionBias runtime prompt (generatePlan deployment runtime prompt)) =
    layoutFrom (if (generatePlan deployment runtime prompt).hit then runtime.statePosition else 0)
      (call.items (generatePlan deployment runtime prompt).start)
  cursor : promptCursor runtime prompt (generatePlan deployment runtime prompt) =
    cursorFrom (if (generatePlan deployment runtime prompt).hit then runtime.statePosition else 0)
      (call.items (generatePlan deployment runtime prompt).start)

theorem start_add_positionBias (deployment : Deployment) (hsynced : Synced runtime) (htext : prompt.vision = none)
    (habreast : (generatePlan deployment runtime prompt).hit = true →
      runtime.stateFrontier ≤ runtime.statePosition) :
    (generatePlan deployment runtime prompt).start +
        positionBias runtime prompt (generatePlan deployment runtime prompt) =
      if (generatePlan deployment runtime prompt).hit then runtime.statePosition else 0 := by
  cases hhit : (generatePlan deployment runtime prompt).hit with
  | true =>
    have hspec := generatePlan_hit_spec hhit
    have hle := habreast hhit
    have hfrontier := hsynced.frontier
    simp only [positionBias, htext, hhit, hspec.offset, hspec.start, ← hfrontier, true_and, if_true]
    split
    · omega
    · omega
  | false =>
    rw [start_of_miss hhit]
    simp [positionBias, hhit]

theorem text_suffix (hsynced : Synced runtime) (htext : prompt.vision = none) (hprompt : prompt.tokens ≠ [])
    (habreast : (generatePlan deployment runtime prompt).hit = true →
      (generatePlan deployment runtime prompt).start < prompt.tokens.length →
        runtime.stateFrontier ≤ runtime.statePosition)
    (hitems : call.items (generatePlan deployment runtime prompt).start =
      (prompt.tokens.drop (generatePlan deployment runtime prompt).start).map .text) :
    Suffix deployment runtime call prompt := by
  by_cases hshort : (generatePlan deployment runtime prompt).start < prompt.tokens.length
  · have hbase := start_add_positionBias deployment hsynced htext (fun hhit => habreast hhit hshort)
    refine ⟨?_, ?_⟩
    · rw [hitems, ← hbase, layoutFrom_text, Prompt.prefillEntries, htext]
    · rw [hitems, ← hbase, cursorFrom_text, promptCursor, if_pos hshort, htext, List.length_drop]
      simp only [Option.isSome_none, Bool.false_eq_true, if_false]
      omega
  · have hdrop : prompt.tokens.drop (generatePlan deployment runtime prompt).start = [] :=
      List.drop_eq_nil_of_le (by omega)
    have hhit : (generatePlan deployment runtime prompt).hit = true := by
      cases hhit : (generatePlan deployment runtime prompt).hit with
      | true => rfl
      | false =>
        have hlength := List.length_pos_iff.mpr hprompt
        rw [start_of_miss hhit] at hshort
        omega
    refine ⟨?_, ?_⟩
    · rw [hitems, hdrop, Prompt.prefillEntries, htext, hdrop]
      rfl
    · rw [hitems, hdrop, promptCursor, if_neg hshort, hhit]
      rfl

theorem Asks.suffix (h : Asks deployment runtime call prompt request) (hsynced : Synced runtime)
    (hprompt : prompt.tokens ≠ [])
    (hrequired : prompt.requirePrefixHit = true → (generatePlan deployment runtime prompt).hit = true)
    (habreast : prompt.vision = none → (generatePlan deployment runtime prompt).hit = true →
      (generatePlan deployment runtime prompt).start < prompt.tokens.length →
        runtime.stateFrontier ≤ runtime.statePosition) :
    Suffix deployment runtime call prompt := by
  cases h with
  | generate tokens => exact text_suffix hsynced rfl hprompt (habreast rfl) rfl
  | generateContinuation suffix request hhead =>
    refine text_suffix hsynced rfl hprompt (habreast rfl) ?_
    rw [(generatePlan_hit_spec (hrequired rfl)).start]
    simp [Call.items, Prompt.ofTokens]
  | generateVision media tokens items request hmedia hmatch =>
    have hmiss := generatePlan_vision deployment runtime
      (.ofEntries (layoutFrom 0 items) false false (cursorFrom 0 items)) rfl rfl
    have hstart := start_of_miss hmiss
    have hitems : Call.items 0 (.generateVision ⟨.ok media, .ok tokens⟩ request) = items := by
      simp [Call.items, hmatch, Except.toOption]
    refine ⟨?_, ?_⟩
    · rw [hstart, hitems, hmiss]
      rfl
    · rw [promptCursor, hstart, hitems, hmiss, if_pos (List.length_pos_iff.mpr hprompt)]
      rfl
  | generateVisionContinuation media tokens items request hmedia hmatch =>
    have hhit := hrequired rfl
    have hspec := generatePlan_hit_spec hhit
    have hitems : ∀ reused,
        Call.items reused (.generateVisionContinuation ⟨.ok media, .ok tokens⟩ request) = items := by
      intro reused
      simp [Call.items, hmatch, Except.toOption]
    refine ⟨?_, ?_⟩
    · rw [hspec.start, hitems, hhit]
      simp [Prompt.prefillEntries, Prompt.ofEntries, continuationEntries]
    · rw [hspec.start, hitems, hhit, promptCursor, hspec.start]
      split
      · rfl
      next hfull =>
        have hnil : items = [] := by
          refine layoutFrom_eq_nil runtime.statePosition ?_
          rw [← List.length_eq_zero_iff]
          simp only [Prompt.ofEntries, continuationEntries, List.map_append, List.length_append,
            List.length_map] at hfull
          omega
        rw [hnil]
        rfl

end Suffix

section Conversations

variable {deployment : Deployment}

theorem Effect.placed {conversation : Conversation} {call : Call} {prompt : Prompt} {request : Request}
    {outcome : Outcome}
    (h : Effect prompt request conversation.runtime (generatePlan deployment conversation.runtime prompt)
      outcome)
    (hasks : Asks deployment conversation.runtime call prompt request) (hplaced : Placed conversation)
    (habreast : Abreast deployment conversation call) (hok : outcome.status = .ok ()) :
    Placed ⟨outcome.runtime, (if outcome.stats.prefixCacheHit then conversation.transcript else []) ++
      call.items outcome.stats.reusedTokens ++ outcome.emitted.map .text⟩ := by
  have hsynced := h.synced_of_ok hplaced.synced hok
  obtain ⟨err, herr, -⟩ | ⟨err, herr, -⟩ | ⟨err, herr, -, -, -⟩ | ⟨err, herr, -, -⟩ |
    ⟨-, err, herr, -, -, -, -, -, -⟩ | ⟨err, herr, -, -⟩ |
    ⟨out, -, hprompt, hrequired, hhit, hreused, -, howners, -, hposition, -, -, hemitted⟩ := h
  iterate 6
    · rw [hok] at herr
      cases herr
  obtain ⟨hentries, hcursor⟩ := hasks.suffix hplaced.synced hprompt hrequired
    (fun htext => habreast prompt request hasks htext)
  rw [generatePlan_reused] at hreused
  -- the cursor after what the call reuses is the cold one
  have hbase : (if (generatePlan deployment conversation.runtime prompt).hit then
      conversation.runtime.statePosition else 0) =
        cursorFrom 0 (if (generatePlan deployment conversation.runtime prompt).hit then
          conversation.transcript else []) := by
    split
    · exact hplaced.cursor
    · rfl
  have hkept : reusedEntries conversation.runtime (generatePlan deployment conversation.runtime prompt) =
      layoutFrom 0 (if (generatePlan deployment conversation.runtime prompt).hit then
        conversation.transcript else []) := by
    unfold reusedEntries
    split
    · exact hplaced.owners
    · rfl
  rw [hbase] at hentries hcursor
  refine ⟨hsynced, ?_, ?_⟩
  · simp only [coldPrefill]
    rw [howners, hkept, hentries, hcursor, hhit, hreused, hemitted, layoutFrom_append, layoutFrom_append,
      cursorFrom_append]
    congr 1
    exact (layoutFrom_text 0 _ out).symm
  · simp only
    rw [hposition, hcursor, hhit, hreused, hemitted, cursorFrom_append, cursorFrom_append, cursorFrom_text]

theorem converse_placed {conversation after : Conversation} {call : Call} (hplaced : Placed conversation)
    (habreast : Abreast deployment conversation call)
    (h : converse deployment conversation call = some after) : Placed after := by
  unfold converse at h
  cases hstatus : (perform deployment conversation.runtime call).status with
  | error err => simp [hstatus] at h
  | ok _ =>
    simp only [hstatus, Option.some.injEq] at h
    rw [← h]
    rcases perform_cases deployment conversation.runtime call with
      ⟨-, err, herr⟩ | ⟨prompt, request, hasks, hperform⟩ | ⟨reason, answer, rfl⟩
    · rw [hstatus] at herr
      cases herr
    · rw [hperform] at hstatus ⊢
      exact (generateTokens_effect deployment prompt request hplaced.synced).placed hasks hplaced habreast
        hstatus
    · simp only [perform] at hstatus ⊢
      rcases runtimeResetState_cases conversation.runtime reason answer with
        ⟨transport, hreset⟩ | ⟨failed, err, hreset, -⟩
      · rw [hreset]
        exact ⟨synced_renewed reason transport, rfl, rfl⟩
      · rw [hreset] at hstatus
        cases hstatus

/-- In every run of successful calls whose text prefills find the cursor abreast, each token stands where
one cold prefill of the whole transcript puts it. -/
theorem owners_coldPrefill {calls : List Call} {final : Conversation}
    (halong : Runs.Along (converse deployment) (Abreast deployment) ⟨.opened, []⟩ calls)
    (hrun : Runs.exec (converse deployment) ⟨.opened, []⟩ calls = some final) :
    final.runtime.owners = coldPrefill final.transcript := by
  have hinit : Placed ⟨.opened, []⟩ := ⟨synced_opened, rfl, rfl⟩
  exact (Runs.exec_invariant (fun _ _ _ hplaced habreast hstep => converse_placed hplaced habreast hstep)
    hinit halong hrun).owners

end Conversations

section Sample

/-- An image of four by four patches: four rows, and a cursor that moves by four. -/
def smallImage : Medium := ⟨.image, 4, 4, 4, 1, 0, by decide, by decide, by decide, by decide⟩

/-- An image of eight by eight patches: sixteen rows, and a cursor that moves by eight. -/
def largeImage : Medium := ⟨.image, 16, 8, 8, 1, 0, by decide, by decide, by decide, by decide⟩

def imageInput (image : Medium) : VisionInput :=
  ⟨.ok [image], .ok [visionStartToken, visionImageToken, visionEndToken]⟩

def imageThenText (image : Medium) (history : List Nat) : List Call :=
  [.generateVision (imageInput image) (calmRequest 1), .generate (.ok (history ++ [7])) (calmRequest 1)]

def smallHistory : List Nat :=
  [visionStartToken] ++ List.replicate 4 visionImageToken ++ [visionEndToken, 10]

theorem smallImage_positions :
    ∃ final, Runs.exec (converse sampleDeployment) ⟨.opened, []⟩ (imageThenText smallImage smallHistory) =
        some final ∧ final.runtime.history = smallHistory ++ [7, 12] ∧
      final.runtime.owners = coldPrefill final.transcript := by
  have hrun : ∃ final, Runs.exec (converse sampleDeployment) ⟨.opened, []⟩
      (imageThenText smallImage smallHistory) = some final ∧
        final.runtime.history = smallHistory ++ [7, 12] := ⟨_, rfl, rfl⟩
  obtain ⟨final, hfinal, hhistory⟩ := hrun
  have halong : Runs.Along (converse sampleDeployment) (Abreast sampleDeployment) ⟨.opened, []⟩
      (imageThenText smallImage smallHistory) := by
    refine And.intro ?_ (And.intro ?_ trivial)
    · intro prompt request hasks htext
      cases hasks
      cases htext
    · intro prompt request hasks _ _ _
      cases hasks
      decide
  exact ⟨final, hfinal, hhistory, owners_coldPrefill halong hfinal⟩

/-- With the large image the cursor falls behind the token index: the text token stands at nineteen,
where a cold prefill has it at eleven. -/
theorem largeImage_drift :
    ∃ final, Runs.exec (converse sampleDeployment) ⟨.opened, []⟩
        (imageThenText largeImage
          ([visionStartToken] ++ List.replicate 16 visionImageToken ++ [visionEndToken, 22])) =
        some final ∧ final.runtime.owners ≠ coldPrefill final.transcript := by
  refine ⟨_, rfl, ?_⟩
  decide

end Sample

end FlashGordon.Generate
