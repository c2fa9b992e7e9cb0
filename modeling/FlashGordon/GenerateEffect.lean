import FlashGordon.Generate

/-! What one call can do. `generateTokens_effect` lists the seven ends of `runtime_generate_tokens` from a
synchronised state, with the entries that the owners hold at each; the properties of whole runs are read
off it and no later proof unfolds the call again. -/

namespace FlashGordon.Generate

open List

/-- The host's picture of the owners is right: they have processed exactly the history, the frontier is
its length, and a pending token was sampled from it. -/
structure Synced (runtime : Runtime) : Prop where
  tokens : runtime.owners.map Entry.token = runtime.history
  frontier : runtime.stateFrontier = runtime.history.length
  sampled : runtime.nextToken.isSome → runtime.sampledFrom = runtime.owners

def Runtime.renewed (reason : ResetReason) (transport : Transport.State) : Runtime :=
  { Runtime.opened with
    emptyReason := reason
    transport := transport }

theorem synced_renewed (reason : ResetReason) (transport : Transport.State) :
    Synced (Runtime.renewed reason transport) := ⟨rfl, rfl, by simp [Runtime.renewed, Runtime.opened]⟩

theorem synced_opened : Synced Runtime.opened := synced_renewed .coldStart .ready

theorem Synced.owners_nil {runtime : Runtime} (h : Synced runtime) (hempty : runtime.history = []) :
    runtime.owners = [] := by
  have htokens := h.tokens
  rw [hempty] at htokens
  exact map_eq_nil_iff.mp htokens

theorem runtimeResetState_cases (runtime : Runtime) (reason : ResetReason) (answer : ResetAnswer) :
    (∃ transport, runtimeResetState runtime reason answer = (.renewed reason transport, .ok ())) ∨
      ∃ after err, runtimeResetState runtime reason answer = (after, .error err) ∧
        after.stateReady = false := by
  unfold runtimeResetState
  split
  · exact Or.inr ⟨_, _, rfl, rfl⟩
  · split
    · exact Or.inr ⟨_, _, rfl, rfl⟩
    · split
      · exact Or.inr ⟨_, _, rfl, rfl⟩
      · split
        · exact Or.inr ⟨_, _, rfl, rfl⟩
        · exact Or.inl ⟨_, rfl⟩

theorem textEntries_token (bias index : Nat) (tokens : List Nat) :
    (textEntries bias index tokens).map Entry.token = tokens := by
  induction tokens generalizing index with
  | nil => rfl
  | cons token rest ih => simp [textEntries, ih]

theorem textEntries_append (bias index : Nat) (first second : List Nat) :
    textEntries bias index (first ++ second) =
      textEntries bias index first ++ textEntries bias (index + first.length) second := by
  induction first generalizing index with
  | nil => rfl
  | cons token rest ih =>
    simp only [cons_append, textEntries, ih, length_cons]
    congr 3
    omega

theorem Prompt.prefillEntries_token (prompt : Prompt) (first bias : Nat) :
    (prompt.prefillEntries first bias).map Entry.token = prompt.tokens.drop first := by
  unfold Prompt.prefillEntries
  split
  · exact textEntries_token bias first _
  next entries hvision =>
    rw [map_drop, prompt.aligned entries hvision]

section Plan

variable {deployment : Deployment} {runtime : Runtime} {prompt : Prompt}

theorem prefixPlanTokens_hit {history transcript : List Nat} {valid : Bool} {reason : ResetReason}
    (h : (prefixPlanTokens history valid transcript reason).hit = true) :
    prefixPlanTokens history valid transcript reason =
        ⟨true, transcript.length = history.length, history.length, history.length,
          transcript.length - history.length, .none⟩ ∧
      history ≠ [] ∧ history.length ≤ transcript.length ∧ transcript.take history.length = history ∧
      (transcript.length = history.length → valid = true) := by
  unfold prefixPlanTokens at h ⊢
  split at h
  · simp [PrefixPlan.cold] at h
  · split at h
    · simp [PrefixPlan.cold] at h
    · split at h
      · simp [PrefixPlan.cold] at h
      · split at h
        · simp [PrefixPlan.cold] at h
        next hnonempty hlong hsame hvalid =>
          simp only [hnonempty, hlong, hsame, hvalid, if_false, true_and, ne_eq, not_false_eq_true]
          refine ⟨by omega, by simpa using hsame, fun heq => ?_⟩
          simpa [heq] using hvalid

theorem generatePlan_hit (h : (generatePlan deployment runtime prompt).hit = true) :
    generatePlan deployment runtime prompt =
      prefixPlanTokens runtime.history runtime.nextToken.isSome prompt.tokens runtime.emptyReason := by
  unfold generatePlan at h ⊢
  dsimp only at h ⊢
  split at h
  · simp [PrefixPlan.cold] at h
  next hresume =>
    rw [if_neg hresume]
    split at h
    · simp [PrefixPlan.cold] at h
    next hvision =>
      rw [if_neg hvision]

/-- What a hit says about the live history and the prompt. -/
structure Hit (runtime : Runtime) (prompt : Prompt) (plan : PrefixPlan) : Prop where
  start : plan.start = runtime.history.length
  nonempty : runtime.history ≠ []
  le : runtime.history.length ≤ prompt.tokens.length
  take : prompt.tokens.take runtime.history.length = runtime.history
  exact : plan.exactFrontier = true ↔ prompt.tokens.length = runtime.history.length
  valid : prompt.tokens.length = runtime.history.length → runtime.nextToken.isSome
  offset : plan.prefillOffset = runtime.history.length

theorem generatePlan_hit_spec (h : (generatePlan deployment runtime prompt).hit = true) :
    Hit runtime prompt (generatePlan deployment runtime prompt) := by
  have hplan := generatePlan_hit h
  rw [hplan] at h
  obtain ⟨heq, hnonempty, hle, htake, hvalid⟩ := prefixPlanTokens_hit h
  rw [hplan, heq]
  exact ⟨by simp [PrefixPlan.start], hnonempty, hle, htake, by simp, hvalid, rfl⟩

theorem start_of_miss {plan : PrefixPlan} (h : plan.hit = false) : plan.start = 0 := by
  simp [PrefixPlan.start, h]

end Plan

section Decode

/-- The loop has decoded `out`, one token after another from the cursor on. -/
structure Decoded (before after : Progress) (out : List Nat) : Prop where
  history : after.runtime.history = before.runtime.history ++ out
  owners : after.runtime.owners =
    before.runtime.owners ++ textEntries 0 before.runtime.statePosition out
  position : after.runtime.statePosition = before.runtime.statePosition + out.length
  generated : after.generated = before.generated + out.length
  prefilled : after.prefilled = before.prefilled
  mutated : after.stateMutated = (before.stateMutated || !out.isEmpty)
  emitted : after.emitted = before.emitted ++ out
  ready : after.runtime.stateReady = before.runtime.stateReady
  frontier : after.runtime.stateFrontier = before.runtime.stateFrontier
  idle : out = [] → after.runtime = before.runtime
  next : before.runtime.nextToken = some before.next → after.runtime.nextToken = some after.next
  sampled : before.runtime.sampledFrom = before.runtime.owners →
    after.runtime.sampledFrom = after.runtime.owners

theorem Decoded.refl (progress : Progress) : Decoded progress progress [] := by
  constructor <;> simp [textEntries]

theorem Decoded.trans {first second third : Progress} {early late : List Nat}
    (h : Decoded first second early) (h' : Decoded second third late) :
    Decoded first third (early ++ late) where
  history := by rw [h'.history, h.history, append_assoc]
  owners := by
    rw [h'.owners, h.owners, h.position, textEntries_append, append_assoc]
  position := by rw [h'.position, h.position, length_append, Nat.add_assoc]
  generated := by rw [h'.generated, h.generated, length_append, Nat.add_assoc]
  prefilled := h'.prefilled.trans h.prefilled
  mutated := by
    rw [h'.mutated, h.mutated, Bool.or_assoc]
    cases early <;> simp
  emitted := by rw [h'.emitted, h.emitted, append_assoc]
  ready := h'.ready.trans h.ready
  frontier := h'.frontier.trans h.frontier
  idle := fun hnil => by
    obtain ⟨hearly, hlate⟩ := append_eq_nil_iff.mp hnil
    exact (h'.idle hlate).trans (h.idle hearly)
  next := fun hnext => h'.next (h.next hnext)
  sampled := fun hsampled => h'.sampled (h.sampled hsampled)

/-- The error comes from the text, the callback or the transcript of the token that follows `generated`
others. -/
def Breaks (script : Script) (generated : Nat) (err : Error) : Prop :=
  (∃ token, (emitToken script generated token).2 = .error err) ∨ script.eosText generated = .error err

/-- How a turn ends the loop, from the variables `last` it starts with. -/
inductive Ends (script : Script) (last after : Progress) : Prop where
  | stopped (status : after.status = .ok ()) (runtime : after.runtime = last.runtime)
      (generated : after.generated = last.generated) (emitted : after.emitted = last.emitted)
  | broken (err : Error) (status : after.status = .error err) (runtime : after.runtime = last.runtime)
      (prefilled : after.prefilled = last.prefilled)
      (mutated : after.stateMutated = last.stateMutated)
      (breaks : Breaks script last.generated err)
  | failed (err : Error) (left : List Entry) (transport : Transport.State)
      (status : after.status = .error err)
      (decode : script.decode last.generated = .failed err left transport)
      (mutated : after.stateMutated = true)

theorem decodeToken_done (deployment : Deployment) {request : Request} (progress : Progress)
    {transport : Transport.State} (hstatus : progress.status = .ok ())
    (h : request.script.decode progress.generated = .done transport) :
    (decodeToken deployment request progress).status = .ok () ∧
      ∀ before, before.runtime = progress.runtime → before.generated = progress.generated →
        before.prefilled = progress.prefilled → before.stateMutated = progress.stateMutated →
        progress.emitted = before.emitted ++ [progress.next] →
        Decoded before (decodeToken deployment request progress) [progress.next] := by
  simp only [decodeToken, h, drawToken, appendToken, processToken, advanceCursor]
  refine ⟨hstatus, fun before hruntime hgenerated hprefilled hmutated hemitted => ?_⟩
  constructor <;> simp [hruntime, hgenerated, hprefilled, hemitted, textEntries]

theorem decodeToken_failed (deployment : Deployment) {request : Request} (progress : Progress) {err : Error}
    {left : List Entry} {transport : Transport.State}
    (h : request.script.decode progress.generated = .failed err left transport) :
    (decodeToken deployment request progress).status = .error err ∧
      (decodeToken deployment request progress).stateMutated = true := by
  simp [decodeToken, h, appendToken]

theorem decodeTurn_cases (deployment : Deployment) (request : Request) {progress : Progress}
    (hstatus : progress.status = .ok ()) :
    (∃ after, decodeTurn deployment request progress = (after, false) ∧
        Ends request.script progress after) ∨
      ∃ after, decodeTurn deployment request progress = (after, true) ∧ after.status = .ok () ∧
        Decoded progress after [progress.next] := by
  unfold decodeTurn
  split
  · exact Or.inl ⟨_, rfl, .stopped hstatus rfl rfl rfl⟩
  · split
    · refine Or.inl ⟨_, rfl, ?_⟩
      cases heos : request.script.eosText progress.generated with
      | ok _ => exact .stopped rfl rfl rfl rfl
      | error err => exact .broken err rfl rfl rfl rfl (Or.inr heos)
    · split
      next reached err hemit =>
        exact Or.inl ⟨_, rfl, .broken err rfl rfl rfl rfl (Or.inl ⟨_, by rw [hemit]⟩)⟩
      · dsimp only
        cases hdecode : request.script.decode progress.generated with
        | done transport =>
          obtain ⟨hok, hdecoded⟩ := decodeToken_done deployment
            { progress with emitted := progress.emitted ++ [progress.next] } hstatus hdecode
          refine Or.inr ⟨_, ?_, hok, hdecoded progress rfl rfl rfl rfl rfl⟩
          rw [hok]
          rfl
        | failed err left transport =>
          obtain ⟨herr, hmutated⟩ := decodeToken_failed deployment
            { progress with emitted := progress.emitted ++ [progress.next] } hdecode
          refine Or.inl ⟨_, ?_, .failed err left transport herr hdecode hmutated⟩
          rw [herr]
          rfl

theorem decodeLoop_cases (deployment : Deployment) (request : Request) (remaining : Nat)
    {progress : Progress} (hstatus : progress.status = .ok ()) :
    ∃ out last, Decoded progress last out ∧ last.status = .ok () ∧
      Ends request.script last (decodeLoop deployment request remaining progress) := by
  induction remaining generalizing progress with
  | zero => exact ⟨[], progress, .refl progress, hstatus, .stopped hstatus rfl rfl rfl⟩
  | succ remaining ih =>
    rcases decodeTurn_cases deployment request hstatus with
      ⟨after, hturn, hends⟩ | ⟨after, hturn, hok, hdecoded⟩
    · refine ⟨[], progress, .refl progress, hstatus, ?_⟩
      rw [decodeLoop, hturn]
      exact hends
    · obtain ⟨out, last, hlast, hlastOk, hends⟩ := ih hok
      refine ⟨progress.next :: out, last, hdecoded.trans hlast, hlastOk, ?_⟩
      rw [decodeLoop, hturn]
      exact hends

end Decode

section Prefill

variable {deployment : Deployment} {prompt : Prompt} {request : Request} {offset bias : Nat} {ready : Runtime}

/-- The state that a prefill from `offset` on starts from: the owners hold the prompt up to there. -/
structure Base (prompt : Prompt) (offset : Nat) (ready : Runtime) : Prop where
  le : offset ≤ prompt.tokens.length
  history : ready.history = prompt.tokens.take offset
  tokens : ready.owners.map Entry.token = ready.history
  valid : offset = prompt.tokens.length → ready.nextToken.isSome
  sampled : ready.nextToken.isSome → ready.sampledFrom = ready.owners

inductive Prefilled (prompt : Prompt) (offset bias : Nat) (ready : Runtime) (after : Progress) : Prop where
  | succeeded (status : after.status = .ok ()) (history : after.runtime.history = prompt.tokens)
      (owners : after.runtime.owners = ready.owners ++ prompt.prefillEntries offset bias)
      (next : after.runtime.nextToken = some after.next)
      (sampled : after.runtime.sampledFrom = after.runtime.owners)
      (position : after.runtime.statePosition =
        if offset < prompt.tokens.length then
          if prompt.vision.isSome then prompt.endPosition else prompt.tokens.length + bias
        else ready.statePosition)
      (prefilled : after.prefilled = prompt.tokens.length - offset)
      (idle : offset = prompt.tokens.length → ∃ counted, after.runtime = { ready with counted := counted })
  | interrupted (err : Error) (status : after.status = .error err) (code : err.code = .interrupted)
      (short : offset < prompt.tokens.length) (history : after.runtime.history = prompt.tokens)
      (owners : after.runtime.owners =
        ready.owners ++ (prompt.prefillEntries offset bias).take after.prefilled)
  | failed (err : Error) (status : after.status = .error err) (code : err.code ≠ .interrupted)
      (short : offset < prompt.tokens.length)
  | untouched (err : Error) (status : after.status = .error err)
      (full : offset = prompt.tokens.length) (runtime : after.runtime = ready)

structure Prefilling (prompt : Prompt) (offset : Nat) (ready : Runtime) (after : Progress) : Prop where
  generated : after.generated = 0
  emitted : after.emitted = []
  mutated : after.stateMutated = decide (offset < prompt.tokens.length)
  stateReady : after.runtime.stateReady = ready.stateReady
  frontier : after.runtime.stateFrontier = ready.stateFrontier

theorem prefillSuffix_cases {progress : Progress} (hshort : offset < prompt.tokens.length)
    (hstatus : progress.status = .ok ()) (hhistory : progress.runtime.history = prompt.tokens)
    (howners : progress.runtime.owners = ready.owners) (hkeep : Prefilling prompt offset ready progress) :
    Prefilled prompt offset bias ready (prefillSuffix deployment prompt request offset bias progress) ∧
      Prefilling prompt offset ready (prefillSuffix deployment prompt request offset bias progress) := by
  obtain ⟨hgenerated, hemitted, hmutated, hready, hfrontier⟩ := hkeep
  unfold prefillSuffix
  cases request.script.prefill with
  | failed err hcode left transport =>
    exact ⟨.failed err rfl hcode hshort, ⟨hgenerated, hemitted, hmutated, hready, hfrontier⟩⟩
  | interrupted count transport =>
    refine ⟨.interrupted _ rfl rfl hshort hhistory ?_, ⟨hgenerated, hemitted, hmutated, hready, hfrontier⟩⟩
    simp only [howners]
  | done transport =>
    cases request.script.output with
    | error err =>
      refine ⟨?_, ⟨hgenerated, hemitted, hmutated, hready, hfrontier⟩⟩
      by_cases hcode : err.code = .interrupted
      · refine .interrupted err rfl hcode hshort hhistory ?_
        have hlength : (prompt.prefillEntries offset bias).length = prompt.tokens.length - offset := by
          rw [← length_map Entry.token, prompt.prefillEntries_token, length_drop]
        simp only [howners, take_of_length_le (Nat.le_of_eq hlength)]
      · exact .failed err rfl hcode hshort
    | ok _ =>
      refine ⟨.succeeded hstatus hhistory ?_ rfl rfl ?_ rfl (fun hfull => absurd hfull (by omega)),
        ⟨hgenerated, hemitted, hmutated, hready, hfrontier⟩⟩
      · simp only [drawToken, howners]
      · simp only [if_pos hshort]

theorem syncOutputHistory_cases (prompt : Prompt) (request : Request) :
    (∃ err, ∀ runtime, syncOutputHistory prompt request runtime = (runtime, .error err)) ∨
      ∃ counted : Runtime → List Nat,
        (∀ runtime, syncOutputHistory prompt request runtime =
          ({ runtime with counted := counted runtime }, .ok ())) ∧
        (request.sampler.penaltiesActive = true → ∀ runtime, counted runtime = prompt.tokens) := by
  unfold syncOutputHistory
  cases hactive : request.sampler.penaltiesActive with
  | true =>
    cases request.script.sync with
    | error err => exact Or.inl ⟨err, fun _ => rfl⟩
    | ok _ => exact Or.inr ⟨fun _ => prompt.tokens, fun _ => rfl, fun _ _ => rfl⟩
  | false => exact Or.inr ⟨Runtime.counted, fun _ => rfl, fun h => by cases h⟩

theorem prefillStage_cases (deployment : Deployment) (request : Request) (bias : Nat)
    (hbase : Base prompt offset ready) :
    Prefilled prompt offset bias ready (prefillStage deployment prompt request offset bias ready) ∧
      Prefilling prompt offset ready (prefillStage deployment prompt request offset bias ready) := by
  have hwritten : ready.history.take offset ++ prompt.tokens.drop offset = prompt.tokens := by
    rw [hbase.history, take_take, Nat.min_self, take_append_drop]
  unfold prefillStage
  dsimp only
  rw [hwritten]
  rcases syncOutputHistory_cases prompt request with ⟨err, hsync⟩ | ⟨counted, hsync, -⟩
  · rw [hsync]
    refine ⟨?_, ⟨rfl, rfl, rfl, rfl, rfl⟩⟩
    rcases Nat.lt_or_eq_of_le hbase.le with hshort | hfull
    · by_cases hcode : err.code = .interrupted
      · exact .interrupted err rfl hcode hshort rfl (by simp)
      · exact .failed err rfl hcode hshort
    · refine .untouched err rfl hfull ?_
      have hsame : ready.history = prompt.tokens := by rw [hbase.history, hfull, take_length]
      simp only [← hsame]
  · rw [hsync]
    dsimp only
    split
    next hshort =>
      exact prefillSuffix_cases hshort rfl rfl rfl ⟨rfl, rfl, rfl, rfl, rfl⟩
    next hfull =>
      have hoffset : offset = prompt.tokens.length := by have := hbase.le; omega
      have hvalid := hbase.valid hoffset
      have hsame : ready.history = prompt.tokens := by rw [hbase.history, hoffset, take_length]
      refine ⟨.succeeded rfl rfl ?_ ?_ ?_ ?_ ?_ (fun _ => ⟨_, by simp only [← hsame]; rfl⟩), ⟨rfl, rfl, rfl, rfl, rfl⟩⟩
      · have hnil : prompt.prefillEntries offset bias = [] := by
          rw [← map_eq_nil_iff (f := Entry.token), prompt.prefillEntries_token, hoffset, drop_length]
        simp only [hnil, append_nil]
      · simp only
        obtain ⟨token, htoken⟩ := Option.isSome_iff_exists.mp hvalid
        simp [htoken]
      · exact hbase.sampled hvalid
      · simp only [if_neg hfull]
      · simp only
        omega

end Prefill

section Call

variable {deployment : Deployment} {prompt : Prompt} {request : Request} {old : Runtime}

/-- Once a token is appended, nothing in the loop reports `FG_ERR_INTERRUPTED`. -/
def Script.Quiet (script : Script) : Prop :=
  (∀ generated err, Breaks script (generated + 1) err → err.code ≠ .interrupted) ∧
    ∀ generated err left transport, script.decode generated = .failed err left transport →
      err.code ≠ .interrupted

def reusedEntries (old : Runtime) (plan : PrefixPlan) : List Entry := if plan.hit then old.owners else []

def promptCursor (old : Runtime) (prompt : Prompt) (plan : PrefixPlan) : Nat :=
  if plan.start < prompt.tokens.length then
    if prompt.vision.isSome then prompt.endPosition
    else prompt.tokens.length + positionBias old prompt plan
  else old.statePosition

/-- How far an interrupted prefill got. -/
def achieved (prompt : Prompt) (plan : PrefixPlan) (prefilled : Nat) : Nat :=
  min (plan.start + prefilled) prompt.tokens.length

inductive Effect (prompt : Prompt) (request : Request) (old : Runtime) (plan : PrefixPlan)
    (outcome : Outcome) : Prop where
  | refused (err : Error) (status : outcome.status = .error err) (runtime : outcome.runtime = old)
  | unready (err : Error) (status : outcome.status = .error err)
      (stateReady : outcome.runtime.stateReady = false)
  | renewed (err : Error) (status : outcome.status = .error err) (reason : ResetReason)
      (transport : Transport.State) (runtime : outcome.runtime = .renewed reason transport)
  | kept (err : Error) (status : outcome.status = .error err) (counted : List Nat)
      (runtime : outcome.runtime = { old with counted := counted })
  | interrupted (prefilled : Nat) (err : Error) (status : outcome.status = .error err)
      (required : prompt.requirePrefixHit = true → plan.hit = true)
      (history : outcome.runtime.history = prompt.tokens.take (achieved prompt plan prefilled))
      (owners : outcome.runtime.owners = reusedEntries old plan ++
        (prompt.prefillEntries plan.start (positionBias old prompt plan)).take prefilled)
      (frontier : outcome.runtime.stateFrontier = achieved prompt plan prefilled)
      (position : outcome.runtime.statePosition =
        achieved prompt plan prefilled + positionBias old prompt plan)
      (next : outcome.runtime.nextToken = none)
  | overrun (err : Error) (status : outcome.status = .error err)
      (short : plan.start < prompt.tokens.length) (loud : ¬ request.script.Quiet)
  | succeeded (out : List Nat) (status : outcome.status = .ok ()) (nonempty : prompt.tokens ≠ [])
      (required : prompt.requirePrefixHit = true → plan.hit = true)
      (hit : outcome.stats.prefixCacheHit = plan.hit)
      (reused : outcome.stats.reusedTokens = plan.reusedTokens)
      (history : outcome.runtime.history = prompt.tokens ++ out)
      (owners : outcome.runtime.owners = reusedEntries old plan ++
        prompt.prefillEntries plan.start (positionBias old prompt plan) ++
          textEntries 0 (promptCursor old prompt plan) out)
      (frontier : outcome.runtime.stateFrontier = outcome.runtime.history.length)
      (position : outcome.runtime.statePosition = promptCursor old prompt plan + out.length)
      (next : outcome.runtime.nextToken.isSome)
      (sampled : outcome.runtime.sampledFrom = outcome.runtime.owners)
      (emitted : outcome.emitted = out)

theorem finish_error (prompt : Prompt) (request : Request) (plan : PrefixPlan) (offset bias : Nat)
    (old : Runtime) {progress : Progress} {err : Error} (h : progress.status = .error err) :
    (∃ final, (finish prompt request plan offset bias old progress).status = .error final) ∧
      ((err.code = .interrupted ∧ offset < prompt.tokens.length ∧
          (finish prompt request plan offset bias old progress).runtime =
            { progress.runtime with
              history := progress.runtime.history.take
                (min (offset + progress.prefilled) prompt.tokens.length)
              stateFrontier := min (offset + progress.prefilled) prompt.tokens.length
              statePosition := min (offset + progress.prefilled) prompt.tokens.length + bias
              nextToken := none
              emptyReason := .none }) ∨
        (progress.stateMutated = true ∧
          ((finish prompt request plan offset bias old progress).runtime.stateReady = false ∨
            ∃ reason transport, (finish prompt request plan offset bias old progress).runtime =
              .renewed reason transport)) ∨
        (progress.stateMutated = false ∧
          (finish prompt request plan offset bias old progress).runtime =
            { progress.runtime with
              history := progress.runtime.history.take old.history.length
              nextToken := old.nextToken })) := by
  unfold finish
  simp only [h]
  split
  next hkeep =>
    exact ⟨⟨_, rfl⟩, Or.inl ⟨hkeep.1, hkeep.2.1, rfl⟩⟩
  · split
    next hreset =>
      rcases runtimeResetState_cases progress.runtime .failure request.script.resetAfter with
        ⟨transport, heq⟩ | ⟨after, failure, heq, hafter⟩
      · rw [heq]
        exact ⟨⟨_, rfl⟩, Or.inr (Or.inl ⟨hreset.1, Or.inr ⟨_, _, rfl⟩⟩)⟩
      · rw [heq]
        exact ⟨⟨_, rfl⟩, Or.inr (Or.inl ⟨hreset.1, Or.inl hafter⟩)⟩
    · split
      next hmutated =>
        exact ⟨⟨_, rfl⟩, Or.inr (Or.inl ⟨hmutated, Or.inl rfl⟩)⟩
      next hmutated =>
        exact ⟨⟨_, rfl⟩, Or.inr (Or.inr ⟨by simpa using hmutated, rfl⟩)⟩

theorem resetForMiss_cases (deployment : Deployment) (answer : ResetAnswer) (hsynced : Synced old)
    (hprompt : prompt.tokens ≠ []) {plan : PrefixPlan} (hplan : plan = generatePlan deployment old prompt) :
    (∃ after err, resetForMiss old plan answer = (after, .error err) ∧ after.stateReady = false) ∨
      ∃ ready, resetForMiss old plan answer = (ready, .ok ()) ∧ Base prompt plan.start ready ∧
        ready.owners = reusedEntries old plan ∧ (plan.start = prompt.tokens.length → ready = old) := by
  have hlength : 0 < prompt.tokens.length := length_pos_iff.mpr hprompt
  unfold resetForMiss
  cases hhit : plan.hit with
  | true =>
    have hspec : Hit old prompt plan := by
      rw [hplan] at hhit ⊢
      exact generatePlan_hit_spec hhit
    refine Or.inr ⟨old, by simp, ?_, by simp [reusedEntries, hhit], fun _ => rfl⟩
    rw [hspec.start]
    exact ⟨hspec.le, hspec.take.symm, hsynced.tokens, fun heq => hspec.valid heq.symm, hsynced.sampled⟩
  | false =>
    have hstart := start_of_miss hhit
    by_cases hempty : old.history = []
    · have howners := hsynced.owners_nil hempty
      refine Or.inr ⟨old, by simp [hempty], ?_, by simp [reusedEntries, hhit, howners],
        fun heq => absurd heq (by omega)⟩
      rw [hstart]
      exact ⟨Nat.zero_le _, by rw [hempty, take_zero], hsynced.tokens,
        fun heq => absurd heq (by omega), hsynced.sampled⟩
    · rcases runtimeResetState_cases old plan.resetReason answer with
        ⟨transport, hreset⟩ | ⟨after, err, hreset, hafter⟩
      · refine Or.inr ⟨.renewed plan.resetReason transport, by simp [hempty, hreset], ?_, ?_,
          fun heq => absurd heq (by omega)⟩
        swap
        · simp [reusedEntries, hhit, Runtime.renewed, Runtime.opened]
        rw [hstart]
        exact ⟨Nat.zero_le _, rfl, rfl, fun heq => absurd heq (by omega),
          (synced_renewed plan.resetReason transport).sampled⟩
      · exact Or.inl ⟨after, err, by simp [hempty, hreset], hafter⟩

theorem finish_decoded {plan : PrefixPlan} {ready : Runtime} {filled last after : Progress} {out : List Nat}
    (howners : ready.owners = reusedEntries old plan)
    (hold : plan.start = prompt.tokens.length → ready = old)
    (hle : plan.start ≤ prompt.tokens.length) (hprompt : prompt.tokens ≠ [])
    (hrequired : prompt.requirePrefixHit = true → plan.hit = true)
    (hfilled : Prefilled prompt plan.start (positionBias old prompt plan) ready filled)
    (hkeep : Prefilling prompt plan.start ready filled) (hok : filled.status = .ok ())
    (hdecoded : Decoded filled last out) (hends : Ends request.script last after) :
    Effect prompt request old plan
      (finish prompt request plan plan.start (positionBias old prompt plan) old after) := by
  obtain ⟨-, hhistory, hentries, hnext, hsampled, hposition, hprefilled, hidle⟩ |
    ⟨err, herr, -, -, -, -⟩ | ⟨err, herr, -, -⟩ | ⟨err, herr, -, -⟩ := hfilled
  rotate_left
  · rw [hok] at herr; cases herr
  · rw [hok] at herr; cases herr
  · rw [hok] at herr; cases herr
  have hcursor : filled.runtime.statePosition = promptCursor old prompt plan := by
    rw [hposition, promptCursor]
    split
    · rfl
    · rw [hold (by omega)]
  rw [howners] at hentries
  cases hends with
  | stopped hstatus hruntime hgenerated hemitted =>
    refine .succeeded out ?_ hprompt hrequired ?_ ?_ ?_ ?_ ?_ ?_ ?_ ?_ ?_ <;>
      simp only [finish, hstatus, hruntime]
    · rw [hdecoded.history, hhistory]
    · rw [hdecoded.owners, hentries, hcursor]
    · rw [hdecoded.position, hcursor]
    · rw [hdecoded.next hnext]
      rfl
    · exact hdecoded.sampled hsampled
    · rw [hemitted, hdecoded.emitted, hkeep.emitted, nil_append]
  | broken err hstatus hruntime hfill hmutated hbreaks =>
    obtain ⟨⟨final, hfinal⟩, hexit⟩ := finish_error prompt request plan plan.start
      (positionBias old prompt plan) old hstatus
    rcases hexit with ⟨hcode, hshort, hkept⟩ | ⟨-, hunready | ⟨reason, transport, hrenewed⟩⟩ | ⟨hsame, hkept⟩
    · cases out with
      | nil =>
        have hlast := hdecoded.idle rfl
        have hcount : after.prefilled = prompt.tokens.length - plan.start := by
          rw [hfill, hdecoded.prefilled, hprefilled]
        have hfull : (prompt.prefillEntries plan.start (positionBias old prompt plan)).take
            (prompt.tokens.length - plan.start) =
              prompt.prefillEntries plan.start (positionBias old prompt plan) := by
          refine take_of_length_le (Nat.le_of_eq ?_)
          rw [← length_map Entry.token, prompt.prefillEntries_token, length_drop]
        refine .interrupted (prompt.tokens.length - plan.start) final hfinal hrequired ?_ ?_ ?_ ?_ ?_ <;>
          simp only [hkept, hruntime, hlast, hcount]
        · rw [hhistory, achieved]
        · rw [hentries, hfull]
        · rfl
        · rfl
      | cons token rest =>
        refine .overrun final hfinal hshort fun hquiet => ?_
        have hgenerated : last.generated = rest.length + 1 := by
          rw [hdecoded.generated, hkeep.generated, length_cons]
          omega
        rw [hgenerated] at hbreaks
        exact hquiet.1 _ err hbreaks hcode
    · exact .unready final hfinal hunready
    · exact .renewed final hfinal reason transport hrenewed
    · rw [hmutated, hdecoded.mutated, hkeep.mutated] at hsame
      simp only [Bool.or_eq_false_iff, decide_eq_false_iff_not, Bool.not_eq_false', List.isEmpty_iff] at hsame
      have hstart : plan.start = prompt.tokens.length := by omega
      obtain ⟨counted, hcounted⟩ := hidle hstart
      rw [hold hstart] at hcounted
      refine .kept final hfinal counted ?_
      rw [hkept, hruntime, hdecoded.idle hsame.2, hcounted]
      simp
  | failed err left transport hstatus hdecode hmutated =>
    obtain ⟨⟨final, hfinal⟩, hexit⟩ := finish_error prompt request plan plan.start
      (positionBias old prompt plan) old hstatus
    rcases hexit with ⟨hcode, hshort, -⟩ | ⟨-, hunready | ⟨reason, transport, hrenewed⟩⟩ | ⟨hsame, -⟩
    · exact .overrun final hfinal hshort fun hquiet => hquiet.2 _ err left transport hdecode hcode
    · exact .unready final hfinal hunready
    · exact .renewed final hfinal reason transport hrenewed
    · rw [hmutated] at hsame
      cases hsame

theorem finish_prefilled {plan : PrefixPlan} {ready : Runtime} {filled : Progress} {err : Error}
    (howners : ready.owners = reusedEntries old plan)
    (hold : plan.start = prompt.tokens.length → ready = old)
    (hrequired : prompt.requirePrefixHit = true → plan.hit = true)
    (hfilled : Prefilled prompt plan.start (positionBias old prompt plan) ready filled)
    (hkeep : Prefilling prompt plan.start ready filled) (herr : filled.status = .error err) :
    Effect prompt request old plan
      (finish prompt request plan plan.start (positionBias old prompt plan) old filled) := by
  obtain ⟨⟨final, hfinal⟩, hexit⟩ := finish_error prompt request plan plan.start (positionBias old prompt plan) old herr
  rcases hexit with ⟨hcode, hshort, hkept⟩ | ⟨-, hunready | ⟨reason, transport, hrenewed⟩⟩ | ⟨hsame, hkept⟩
  · cases hfilled with
    | succeeded hstatus => rw [hstatus] at herr; cases herr
    | interrupted cause hstatus hcause hbefore hhistory hentries =>
      rw [howners] at hentries
      refine .interrupted filled.prefilled final hfinal hrequired ?_ ?_ ?_ ?_ ?_ <;> simp only [hkept]
      · rw [hhistory, achieved]
      · rw [hentries]
      · rfl
      · rfl
    | failed cause hstatus hcause hbefore =>
      rw [hstatus, Except.error.injEq] at herr
      exact absurd (herr ▸ hcode) hcause
    | untouched cause hstatus hfull _ => omega
  · exact .unready final hfinal hunready
  · exact .renewed final hfinal reason transport hrenewed
  · rw [hkeep.mutated, decide_eq_false_iff_not] at hsame
    cases hfilled with
    | succeeded hstatus => rw [hstatus] at herr; cases herr
    | interrupted cause hstatus hcause hbefore _ _ => exact absurd hbefore hsame
    | failed cause hstatus hcause hbefore => exact absurd hbefore hsame
    | untouched cause hstatus hfull hruntime =>
      refine .kept final hfinal old.counted ?_
      rw [hkept, hruntime, hold hfull]
      simp

theorem checkRequest_ok {plan : PrefixPlan} {value : Unit} (h : checkRequest deployment prompt plan request = .ok value) :
    prompt.tokens ≠ [] ∧ (prompt.requirePrefixHit = true → plan.hit = true) := by
  unfold checkRequest at h
  dsimp only at h
  split at h
  · cases h
  · split at h
    · cases h
    next hmiss hlimit =>
      refine ⟨fun hnil => hlimit (Or.inl hnil), fun hrequired => ?_⟩
      cases hhit : plan.hit with
      | true => rfl
      | false => exact absurd ⟨hrequired, hhit⟩ hmiss

theorem generateTokens_effect (deployment : Deployment) (prompt : Prompt) (request : Request)
    (hsynced : Synced old) :
    Effect prompt request old (generatePlan deployment old prompt)
      (runtimeGenerateTokens deployment old prompt request) := by
  unfold runtimeGenerateTokens
  split
  · exact .refused _ rfl rfl
  · split
    · exact .refused _ rfl rfl
    · dsimp only
      cases hchecked : checkRequest deployment prompt (generatePlan deployment old prompt) request with
      | error err => exact .refused err rfl rfl
      | ok _ =>
        obtain ⟨hprompt, hrequired⟩ := checkRequest_ok hchecked
        rcases resetForMiss_cases deployment request.script.resetBefore hsynced hprompt rfl with
          ⟨after, err, hreset, hafter⟩ | ⟨ready, hreset, hbase, howners, hsame⟩
        · simp only [hreset]
          exact .unready err rfl hafter
        · simp only [hreset]
          obtain ⟨hfilled, hkeep⟩ := prefillStage_cases deployment request
            (positionBias old prompt (generatePlan deployment old prompt)) hbase
          unfold decodeStage
          split
          next hok =>
            obtain ⟨out, last, hdecoded, -, hends⟩ := decodeLoop_cases deployment request request.maxTokens hok
            exact finish_decoded howners hsame hbase.le hprompt hrequired hfilled hkeep hok hdecoded hends
          next err herr =>
            exact finish_prefilled howners hsame hrequired hfilled hkeep herr

theorem generateTokens_unready (deployment : Deployment) (prompt : Prompt) (request : Request)
    (h : old.stateReady = false) : (runtimeGenerateTokens deployment old prompt request).runtime = old := by
  unfold runtimeGenerateTokens
  split
  · rfl
  · rfl

theorem reusedEntries_token (deployment : Deployment) (prompt : Prompt) (hsynced : Synced old) :
    (reusedEntries old (generatePlan deployment old prompt)).map Entry.token =
      prompt.tokens.take (generatePlan deployment old prompt).start := by
  unfold reusedEntries
  split
  next hhit =>
    have hspec := generatePlan_hit_spec hhit
    rw [hsynced.tokens, hspec.start, hspec.take]
  next hmiss =>
    rw [start_of_miss (by simpa using hmiss), take_zero]
    rfl

end Call

end FlashGordon.Generate
