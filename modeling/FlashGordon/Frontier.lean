import FlashGordon.GenerateEffect
import FlashGordon.Runs

/-! The frontier of the resident runtime over whole runs of public calls. A ready runtime is synchronised
with its owners after every run whose calls are not interrupted late; a call that a callback interrupts
after an appended token is cut back to its prompt while the owners keep the token. -/

namespace FlashGordon.Generate

section Calls

variable {deployment : Deployment} {runtime : Runtime}

/-- The prompt and the request with which a call reaches `runtime_generate_tokens`. -/
inductive Asks (deployment : Deployment) (runtime : Runtime) : Call → Prompt → Request → Prop where
  | generate (tokens : List Nat) (request : Request) :
      Asks deployment runtime (.generate (.ok tokens) request) (.ofTokens tokens false false) request
  | generateContinuation (suffix : List Nat) (request : Request)
      (head : suffix.head? = some deployment.eos) :
      Asks deployment runtime (.generateContinuation (.ok suffix) request)
        (.ofTokens (runtime.history ++ suffix) true true) request
  | generateVision (media : List Medium) (tokens : List Nat) (items : List Item) (request : Request)
      (nonempty : media ≠ []) (matched : matchMedia 0 tokens media = .ok items) :
      Asks deployment runtime (.generateVision ⟨.ok media, .ok tokens⟩ request)
        (.ofEntries (layoutFrom 0 items) false false (cursorFrom 0 items)) request
  | generateVisionContinuation (media : List Medium) (tokens : List Nat) (items : List Item)
      (request : Request) (nonempty : media ≠ []) (matched : matchMedia 0 tokens media = .ok items) :
      Asks deployment runtime (.generateVisionContinuation ⟨.ok media, .ok tokens⟩ request)
        (.ofEntries (continuationEntries runtime.history (layoutFrom runtime.statePosition items)) true true
          (cursorFrom runtime.statePosition items)) request

/-- The call returned before it changed anything. -/
def Refused (runtime : Runtime) (outcome : Outcome) : Prop :=
  outcome.runtime = runtime ∧ ∃ err, outcome.status = .error err

theorem refused_refuse (runtime : Runtime) (err : Error) : Refused runtime (refuse runtime err) :=
  ⟨rfl, err, rfl⟩

theorem prefixBuildContinuationTokens_ok {history continuation tokens : List Nat} {pending : Nat}
    (h : prefixBuildContinuationTokens history pending continuation = .ok tokens) :
    continuation.head? = some pending ∧ tokens = history ++ continuation := by
  unfold prefixBuildContinuationTokens at h
  split at h
  · cases h
  next hhead =>
    exact ⟨by simpa using hhead, (Except.ok.inj h).symm⟩

theorem expandVision_ok {position last : Nat} {tokens : List Nat} {media : List Medium} {items : List Item}
    {entries : List Entry} (h : expandVision position tokens media = .ok (items, entries, last)) :
    matchMedia 0 tokens media = .ok items ∧ entries = layoutFrom position items ∧
      last = cursorFrom position items := by
  unfold expandVision at h
  cases hmatch : matchMedia 0 tokens media with
  | error err => simp [hmatch, Except.bind] at h
  | ok found =>
    cases hplace : placeItems none position found with
    | error err => simp [hmatch, hplace, Except.bind, Except.map] at h
    | ok placed =>
      simp only [hmatch, hplace, Except.bind, Except.map, Except.ok.injEq, Prod.mk.injEq] at h
      obtain ⟨rfl, rfl⟩ := h
      exact ⟨rfl, placeItems_ok hplace⟩

theorem perform_cases (deployment : Deployment) (runtime : Runtime) (call : Call) :
    Refused runtime (perform deployment runtime call) ∨
      (∃ prompt request, Asks deployment runtime call prompt request ∧
        perform deployment runtime call = runtimeGenerateTokens deployment runtime prompt request) ∨
      ∃ reason answer, call = .reset reason answer := by
  cases call with
  | generate encoded request =>
    cases encoded with
    | error err => exact Or.inl (refused_refuse _ _)
    | ok tokens => exact Or.inr (Or.inl ⟨_, _, .generate tokens request, rfl⟩)
  | generateContinuation suffix request =>
    simp only [perform, generateContinuation]
    cases requireFrontier runtime with
    | error err => exact Or.inl ⟨rfl, err, rfl⟩
    | ok _ =>
      cases suffix with
      | error err => exact Or.inl (refused_refuse _ _)
      | ok suffix =>
        cases hbuild : prefixBuildContinuationTokens runtime.history deployment.eos suffix with
        | error err => simp only [Except.bind, hbuild]; exact Or.inl (refused_refuse _ _)
        | ok tokens =>
          obtain ⟨hhead, rfl⟩ := prefixBuildContinuationTokens_ok hbuild
          simp only [Except.bind, hbuild]
          exact Or.inr (Or.inl ⟨_, _, .generateContinuation suffix request hhead, rfl⟩)
  | generateVision input request =>
    obtain ⟨media, encoded⟩ := input
    simp only [perform, generateVision]
    split
    · exact Or.inl (refused_refuse _ _)
    next hargs =>
      cases media with
      | error err => exact Or.inl (refused_refuse _ _)
      | ok media =>
        cases encoded with
        | error err => exact Or.inl (refused_refuse _ _)
        | ok tokens =>
          simp only [Except.bind]
          cases hexpand : expandVision 0 tokens media with
          | error err => exact Or.inl (refused_refuse _ _)
          | ok expanded =>
            obtain ⟨items, entries, last⟩ := expanded
            obtain ⟨hmatch, rfl, rfl⟩ := expandVision_ok hexpand
            have hmedia : media ≠ [] := fun hnil => hargs (Or.inl (by rw [hnil]))
            exact Or.inr (Or.inl ⟨_, _, .generateVision media tokens items request hmedia hmatch, rfl⟩)
  | generateVisionContinuation input request =>
    obtain ⟨media, encoded⟩ := input
    simp only [perform, generateVisionContinuation]
    split
    · exact Or.inl (refused_refuse _ _)
    next hargs =>
      cases media with
      | error err => exact Or.inl (refused_refuse _ _)
      | ok media =>
        cases requireFrontier runtime with
        | error err => exact Or.inl ⟨rfl, err, rfl⟩
        | ok _ =>
          cases encoded with
          | error err => exact Or.inl (refused_refuse _ _)
          | ok tokens =>
            simp only [Except.bind]
            cases hexpand : expandVision runtime.statePosition tokens media with
            | error err => exact Or.inl (refused_refuse _ _)
            | ok expanded =>
              obtain ⟨items, entries, last⟩ := expanded
              obtain ⟨hmatch, rfl, rfl⟩ := expandVision_ok hexpand
              have hmedia : media ≠ [] := fun hnil => hargs (Or.inl (by rw [hnil]))
              simp only
              split
              · exact Or.inl (refused_refuse _ _)
              · exact Or.inr (Or.inl
                  ⟨_, _, .generateVisionContinuation media tokens items request hmedia hmatch, rfl⟩)
  | reset reason answer => exact Or.inr (Or.inr ⟨reason, answer, rfl⟩)

end Calls

section Frontier

variable {deployment : Deployment}

def Consistent (runtime : Runtime) : Prop := runtime.stateReady = true → Synced runtime

def callStep (deployment : Deployment) (runtime : Runtime) (call : Call) : Option Runtime :=
  some (perform deployment runtime call).runtime

def Call.request? : Call → Option Request
  | .generate _ request => some request
  | .generateContinuation _ request => some request
  | .generateVision _ request => some request
  | .generateVisionContinuation _ request => some request
  | .reset _ _ => none

/-- Nothing interrupts the call once it has appended a token, unless the call has nothing to prefill: its
prompt is the live history, with a token pending. -/
def Undisturbed (deployment : Deployment) (runtime : Runtime) (call : Call) : Prop :=
  (∀ request, call.request? = some request → request.script.Quiet) ∨
    ∃ tokens request, call = .generate (.ok tokens) request ∧
      (generatePlan deployment runtime (.ofTokens tokens false false)).exactFrontier = true

theorem prefixPlanTokens_exact (history transcript : List Nat) (valid : Bool) (reason : ResetReason) :
    (prefixPlanTokens history valid transcript reason).hit = true ∨
      (prefixPlanTokens history valid transcript reason).exactFrontier = false := by
  unfold prefixPlanTokens
  repeat' split
  all_goals simp [PrefixPlan.cold]

variable {runtime : Runtime} {prompt : Prompt}

theorem generatePlan_exact (h : (generatePlan deployment runtime prompt).exactFrontier = true) :
    (generatePlan deployment runtime prompt).hit = true := by
  have hcases : (generatePlan deployment runtime prompt).hit = true ∨
      (generatePlan deployment runtime prompt).exactFrontier = false := by
    unfold generatePlan
    dsimp only
    split
    · split <;> exact Or.inr rfl
    · split
      · exact Or.inr rfl
      · exact prefixPlanTokens_exact _ _ _ _
  rcases hcases with hhit | hinexact
  · exact hhit
  · rw [hinexact] at h
    cases h

variable {request : Request}

theorem Undisturbed.quiet {call : Call}
    (h : Undisturbed deployment runtime call) (hasks : Asks deployment runtime call prompt request)
    (hshort : (generatePlan deployment runtime prompt).start < prompt.tokens.length) :
    request.script.Quiet := by
  rcases h with hquiet | ⟨tokens, asked, rfl, hexact⟩
  · cases hasks with
    | generate => exact hquiet _ rfl
    | generateContinuation => exact hquiet _ rfl
    | generateVision => exact hquiet _ rfl
    | generateVisionContinuation => exact hquiet _ rfl
  · cases hasks
    have hspec := generatePlan_hit_spec (generatePlan_exact hexact)
    have hlength := hspec.exact.mp hexact
    have hstart := hspec.start
    omega

theorem Effect.synced_of_ok {outcome : Outcome}
    (h : Effect prompt request runtime (generatePlan deployment runtime prompt) outcome)
    (hsynced : Synced runtime) (hok : outcome.status = .ok ()) : Synced outcome.runtime := by
  obtain ⟨err, herr, -⟩ | ⟨err, herr, -⟩ | ⟨err, herr, -, -, -⟩ | ⟨err, herr, -, -⟩ |
    ⟨-, err, herr, -, -, -, -, -, -⟩ | ⟨err, herr, -, -⟩ |
    ⟨out, -, -, -, -, -, hhistory, howners, hfrontier, -, -, hsampled, -⟩ := h
  iterate 6
    · rw [hok] at herr
      cases herr
  refine ⟨?_, hfrontier, fun _ => hsampled⟩
  rw [howners, hhistory, List.map_append, List.map_append, reusedEntries_token deployment prompt hsynced,
    prompt.prefillEntries_token, textEntries_token, List.take_append_drop]

theorem Effect.consistent {outcome : Outcome}
    (h : Effect prompt request runtime (generatePlan deployment runtime prompt) outcome)
    (hsynced : Synced runtime)
    (hquiet : (generatePlan deployment runtime prompt).start < prompt.tokens.length →
      request.script.Quiet) : Consistent outcome.runtime := by
  have hsucceeded := h.synced_of_ok hsynced
  cases h with
  | refused err _ hruntime => exact fun _ => hruntime ▸ hsynced
  | unready err _ hunready => exact fun hready => absurd hready (by rw [hunready]; simp)
  | renewed err _ reason transport hruntime => exact fun _ => hruntime ▸ synced_renewed reason transport
  | kept err _ counted hruntime =>
    refine fun _ => ?_
    rw [hruntime]
    exact ⟨hsynced.tokens, hsynced.frontier, hsynced.sampled⟩
  | interrupted prefilled err _ _ hhistory howners hfrontier _ hnext =>
    refine fun _ => ⟨?_, ?_, fun hsome => absurd hsome (by simp [hnext])⟩
    · rw [howners, hhistory, List.map_append, reusedEntries_token deployment prompt hsynced, List.map_take, prompt.prefillEntries_token,
        ← List.take_add, achieved, ← List.take_eq_take_min]
    · rw [hfrontier, hhistory, List.length_take, achieved]
      omega
  | overrun err _ hshort hloud => exact absurd (hquiet hshort) hloud
  | succeeded _ hok => exact fun _ => hsucceeded hok

theorem perform_consistent {call : Call} (hinv : Consistent runtime) (hcall : Undisturbed deployment runtime call) :
    Consistent (perform deployment runtime call).runtime := by
  rcases perform_cases deployment runtime call with
    ⟨hsame, -⟩ | ⟨prompt, request, hasks, hperform⟩ | ⟨reason, answer, rfl⟩
  · rw [hsame]
    exact hinv
  · rw [hperform]
    cases hready : runtime.stateReady with
    | false =>
      rw [generateTokens_unready deployment prompt request hready]
      exact hinv
    | true =>
      exact (generateTokens_effect deployment prompt request (hinv hready)).consistent (hinv hready)
        (hcall.quiet hasks)
  · simp only [perform]
    rcases runtimeResetState_cases runtime reason answer with
      ⟨transport, hreset⟩ | ⟨after, err, hreset, hunready⟩
    · rw [hreset]
      exact fun _ => synced_renewed reason transport
    · rw [hreset]
      exact fun hready => absurd hready (by simp [hunready])

/-- After every run of public calls that are undisturbed, whatever fails in them, a ready runtime is
synchronised with its owners. -/
theorem ready_synced {calls : List Call} {final : Runtime}
    (halong : Runs.Along (callStep deployment) (Undisturbed deployment) .opened calls)
    (hrun : Runs.exec (callStep deployment) .opened calls = some final)
    (hready : final.stateReady = true) : Synced final := by
  have hstep : ∀ runtime call after, Consistent runtime → Undisturbed deployment runtime call →
      callStep deployment runtime call = some after → Consistent after := by
    intro runtime call after hinv hcall hafter
    rw [callStep, Option.some.injEq] at hafter
    exact hafter ▸ perform_consistent hinv hcall
  exact Runs.exec_invariant hstep (fun _ => synced_opened) halong hrun hready

end Frontier

section Sample

/-- A deployment on the ring whose model counts the processed tokens. -/
def sampleDeployment : Deployment :=
  { ringPrefill := true
    ringDecode := true
    prefixContinuation := true
    contextLimit := 64
    eos := 0
    sample := fun _ _ _ entries => entries.length + 4 }

/-- A reset that meets no obstacle. -/
def calmReset : ResetAnswer :=
  { pipelineFailed := false
    warmOutstanding := false
    drain := .ok ()
    drained := .ready
    ownerReset := .ok ()
    beginSession := .ok ()
    transport := .ready
    left := [] }

/-- A call in which every step succeeds. -/
def calmScript : Script :=
  { reserve := .ok ()
    resetBefore := calmReset
    sync := .ok ()
    prefill := .done .ready
    output := .ok ()
    outputTransport := .ready
    interrupted := fun _ => false
    eosText := fun _ => .ok ()
    tokenText := fun _ _ => .ok ()
    callback := fun _ _ => .ok ()
    renderAppend := fun _ _ => .ok ()
    decode := fun _ => .done .ready
    resetAfter := calmReset }

/-- `fg_sampler_config_greedy`. -/
def greedySampler : Sampler := ⟨⟨0⟩, ⟨0x3f800000⟩, 1, ⟨0⟩, ⟨0⟩, ⟨0x3f800000⟩, ⟨0⟩, 0x9e3779b97f4a7c15⟩

def calmRequest (maxTokens : Nat) : Request := ⟨greedySampler, maxTokens, calmScript⟩

theorem quiet_calmScript : calmScript.Quiet := by
  refine ⟨fun generated err hbreaks => ?_, fun generated err left transport hdecode => ?_⟩
  · rcases hbreaks with ⟨token, hemit⟩ | heos
    · cases hemit
    · cases heos
  · cases hdecode

def twoCalls : List Call :=
  [.generate (.ok [1, 2]) (calmRequest 2), .generate (.ok [1, 2, 6, 7, 3]) (calmRequest 1)]

theorem twoCalls_synced :
    ∃ final, Runs.exec (callStep sampleDeployment) .opened twoCalls = some final ∧
      final.history = [1, 2, 6, 7, 3, 9] ∧ final.stateReady = true ∧ Synced final := by
  have hrun : ∃ final, Runs.exec (callStep sampleDeployment) .opened twoCalls = some final ∧
      final.history = [1, 2, 6, 7, 3, 9] ∧ final.stateReady = true := ⟨_, rfl, rfl, rfl⟩
  obtain ⟨final, hfinal, hhistory, hready⟩ := hrun
  refine ⟨final, hfinal, hhistory, hready, ready_synced
    (Runs.Along.of_forall (fun call hcall runtime => Or.inl fun request hrequest => ?_) _) hfinal hready⟩
  simp only [twoCalls, List.mem_cons, List.not_mem_nil, or_false] at hcall
  rcases hcall with rfl | rfl
  · obtain rfl := Option.some.inj hrequest
    exact quiet_calmScript
  · obtain rfl := Option.some.inj hrequest
    exact quiet_calmScript

/-- The callback accepts the first token and reports `FG_ERR_INTERRUPTED` at the second. -/
def interruptedRequest : Request :=
  { calmRequest 4 with
    script :=
      { calmScript with
        callback := fun generated _ =>
          if generated = 0 then .ok () else .error ⟨.interrupted, "client went away"⟩ } }

/-- The runtime is ready and its transport `READY`, yet the owners hold a token that the history does
not. -/
theorem interrupted_callback_unsynced :
    ∃ final, Runs.exec (callStep sampleDeployment) .opened [.generate (.ok [1]) interruptedRequest] =
        some final ∧ final.stateReady = true ∧ final.transport = .ready ∧ ¬ Synced final := by
  refine ⟨_, rfl, rfl, rfl, fun hsynced => ?_⟩
  exact absurd hsynced.tokens (by decide)

end Sample


end FlashGordon.Generate
