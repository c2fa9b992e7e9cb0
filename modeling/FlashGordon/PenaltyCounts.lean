import FlashGordon.PenaltySessions

/-! The penalty counts of interleaved sessions. A synchronisation sets the counts to the prompt and every penalised
draw adds the token that the loop appends to the history next, so the counts are those of the history whenever a
token is drawn; except after an exact-frontier hit, whose pending token was drawn before the synchronisation and
is appended without being counted. -/

namespace FlashGordon.Generate

open OutputHistory

variable {deployment : Deployment}

/-- The pending token of the call is not emitted: the call is interrupted before it, it is the end of the text,
or its text or callback fails. -/
def HoldsBack (deployment : Deployment) (script : Script) (pending : Nat) : Prop :=
  script.interrupted 0 = true ∨ pending = deployment.eos ∨ (emitToken script 0 pending).2 ≠ .ok ()

/-- A penalised exact-frontier hit that emits its pending token. -/
def EmitsUncounted (deployment : Deployment) (runtime : Runtime) (prompt : Prompt) (request : Request) : Prop :=
  request.sampler.penaltiesActive = true ∧ (generatePlan deployment runtime prompt).exactFrontier = true ∧
    ¬HoldsBack deployment request.script (runtime.nextToken.getD 0)

/-- The step does not enter such a call. -/
def Counted (deployment : Deployment) (s : Sessions) : Nat × Drive → Prop
  | (slot, .call prompt request) =>
    match s.session slot with
    | .idle runtime => ¬EmitsUncounted deployment runtime prompt request
    | _ => True
  | _ => True

def Agrees (table : Nat → Nat) (history : List Nat) : Prop := ∀ token, table token = history.count token

theorem Agrees.snoc {table table' : Nat → Nat} {history : List Nat} {token : Nat} (h : Agrees table history)
    (hdraw : ∀ other, table' other = table other + if other = token then 1 else 0) :
    Agrees table' (history ++ [token]) := by
  intro other
  rw [hdraw, h other, List.count_append, List.count_singleton]
  by_cases heq : other = token
  · simp [heq]
  · simp [heq, Ne.symm heq]

structure Running.Admitted (deployment : Deployment) (call : Running) : Prop where
  nonempty : call.prompt.tokens ≠ []
  room : call.prompt.tokens.length + call.request.maxTokens ≤ deployment.contextLimit
  generates : call.request.maxTokens ≠ 0

/-- What holds of a session's point and of its table at the output rank. -/
def Point.Keeps (deployment : Deployment) (table : Nat → Nat) : Point → Prop
  | .resetting call _ => call.Admitted deployment ∧ call.plan.hit = false
  | .syncing call progress =>
    call.Admitted deployment ∧ progress.runtime.history = call.prompt.tokens ∧ progress.generated = 0 ∧
      (call.request.sampler.penaltiesActive = true → call.prompt.tokens.length ≤ call.offset →
        HoldsBack deployment call.request.script progress.next)
  | .prefilling call progress | .samplingFirst call progress =>
    call.Admitted deployment ∧ progress.runtime.history = call.prompt.tokens ∧ progress.generated = 0 ∧
      (call.request.sampler.penaltiesActive = true → Agrees table progress.runtime.history)
  | .turning call progress =>
    call.Admitted deployment ∧
      progress.runtime.history.length = call.prompt.tokens.length + progress.generated ∧
      progress.generated < call.request.maxTokens ∧
      (call.request.sampler.penaltiesActive = true →
        Agrees table (progress.runtime.history ++ [progress.next]) ∨
          progress.generated = 0 ∧ HoldsBack deployment call.request.script progress.next)
  | .samplingNext call progress =>
    call.Admitted deployment ∧
      progress.runtime.history.length = call.prompt.tokens.length + progress.generated ∧
      progress.generated ≤ call.request.maxTokens ∧
      (call.request.sampler.penaltiesActive = true → Agrees table progress.runtime.history)
  | .idle _ | .finishing _ _ => True

/-! ## The steps of one session -/

section Entry

variable {runtime : Runtime} {prompt : Prompt} {request : Request}

theorem checkRequest_room {plan : PrefixPlan} (h : checkRequest deployment prompt plan request = .ok ()) :
    prompt.tokens.length + request.maxTokens ≤ deployment.contextLimit := by
  unfold checkRequest at h
  dsimp only at h
  split at h
  · cases h
  · split at h
    · cases h
    next hroom =>
      rw [not_or] at hroom
      exact Nat.le_of_not_lt hroom.2

theorem keeps_writeHistory_of_miss {call : Running} {table : Nat → Nat} (hadmitted : call.Admitted deployment)
    (hmiss : call.plan.hit = false) (hempty : runtime.history = []) :
    (writeHistory call runtime).Keeps deployment table := by
  have hoffset : call.offset = 0 := start_of_miss hmiss
  refine ⟨hadmitted, by simp [hoffset, hempty], rfl, fun _ hfull => ?_⟩
  rw [hoffset, Nat.le_zero, List.length_eq_zero_iff] at hfull
  exact absurd hfull hadmitted.nonempty

theorem keeps_enterCall {table : Nat → Nat} (h : ¬EmitsUncounted deployment runtime prompt request) :
    (enterCall deployment runtime prompt request).Keeps deployment table := by
  unfold enterCall
  split
  · trivial
  next hmax =>
    split
    · trivial
    · dsimp only
      split
      · trivial
      next hcheck =>
        have hnonempty := (checkRequest_ok hcheck).1
        have hroom := checkRequest_room hcheck
        have hadmitted : Running.Admitted deployment ⟨prompt, request, generatePlan deployment runtime prompt,
            positionBias runtime prompt (generatePlan deployment runtime prompt), runtime⟩ := ⟨hnonempty, hroom, hmax⟩
        cases hhit : (generatePlan deployment runtime prompt).hit with
        | false =>
          by_cases hempty : runtime.history = []
          · rw [if_neg (by simp [hempty])]
            exact keeps_writeHistory_of_miss hadmitted hhit hempty
          · rw [if_pos ⟨rfl, hempty⟩]
            exact ⟨hadmitted, hhit⟩
        | true =>
          have hspec := generatePlan_hit_spec hhit
          rw [if_neg (by simp)]
          refine ⟨hadmitted, ?_, rfl, fun hactive hfull => ?_⟩
          · show runtime.history.take (generatePlan deployment runtime prompt).start ++ _ = prompt.tokens
            rw [hspec.start, List.take_length]
            calc runtime.history ++ prompt.tokens.drop (generatePlan deployment runtime prompt).start
                = prompt.tokens.take runtime.history.length ++ prompt.tokens.drop runtime.history.length := by
                  rw [hspec.start, hspec.take]
              _ = prompt.tokens := List.take_append_drop _ _
          · rw [Running.offset, hspec.start] at hfull
            by_contra hemits
            exact h ⟨hactive, hspec.exact.mpr (le_antisymm hfull hspec.le), hemits⟩

end Entry

section Steps

variable {call : Running} {progress : Progress} {table : Nat → Nat} {output output' : OutputRank} {slot token : Nat}

theorem keeps_loopPoint (hadmitted : call.Admitted deployment)
    (hlength : progress.runtime.history.length = call.prompt.tokens.length + progress.generated)
    (hcounted : call.request.sampler.penaltiesActive = true →
      Agrees table (progress.runtime.history ++ [progress.next]) ∨
        progress.generated = 0 ∧ HoldsBack deployment call.request.script progress.next) :
    (loopPoint call progress).Keeps deployment table := by
  unfold loopPoint
  split
  · exact ⟨hadmitted, hlength, by assumption, hcounted⟩
  · trivial

theorem keeps_prefillPoint (hadmitted : call.Admitted deployment)
    (hhistory : progress.runtime.history = call.prompt.tokens) (hgenerated : progress.generated = 0)
    (hback : call.request.sampler.penaltiesActive = true → call.prompt.tokens.length ≤ call.offset →
      HoldsBack deployment call.request.script progress.next)
    (hcounted : call.request.sampler.penaltiesActive = true → Agrees table progress.runtime.history) :
    (prefillPoint call progress).Keeps deployment table := by
  unfold prefillPoint
  split
  · exact ⟨hadmitted, hhistory, hgenerated, hcounted⟩
  next hfull =>
    apply keeps_loopPoint hadmitted
    · rw [hhistory, hgenerated, Nat.add_zero]
    · exact fun hactive => .inr ⟨hgenerated, hback hactive (Nat.le_of_not_lt hfull)⟩

theorem keeps_prefillPart (h : (Point.prefilling call progress).Keeps deployment table) :
    (prefillPart call progress).Keeps deployment table := by
  unfold prefillPart
  split
  · trivial
  · trivial
  · exact h

theorem keeps_turnHead (h : (Point.turning call progress).Keeps deployment table) :
    (turnHead deployment call progress).Keeps deployment table := by
  obtain ⟨hadmitted, hlength, hmore, hcounted⟩ := h
  unfold turnHead
  dsimp only
  split
  · trivial
  next hgoing =>
    split
    · trivial
    next heos =>
      split
      · trivial
      next hemit =>
        refine ⟨hadmitted, ?_, hmore, fun hactive => ?_⟩
        · simp [appendToken, hlength]
          omega
        · rcases hcounted hactive with hagrees | ⟨hzero, hback⟩
          · exact hagrees
          · rw [hzero] at hgoing hemit
            rcases hback with hstop | hend | hfail
            · exact absurd hstop hgoing
            · exact absurd hend heos
            · exact absurd (by rw [hemit]) hfail

theorem draw_counts (hslot : slot < maxSlots) (hdraw : draw output slot call token = some output')
    (hactive : call.request.sampler.penaltiesActive = true) (hroom : output.counts slot token < countMax)
    (other : Nat) : output'.counts slot other = output.counts slot other + if other = token then 1 else 0 := by
  unfold draw at hdraw
  rw [hactive] at hdraw
  split at hdraw
  next drawn hwork =>
    split at hdraw
    · cases hdraw
      have hok : (output.handleOutputWork slot true token).2 = .ok () := by rw [hwork]
      have hcounts := handleOutputWork_counts hslot hok hroom other
      rwa [hwork] at hcounts
    · cases hdraw
  · cases hdraw

theorem draw_counts_of_ne {other : Nat} (hslot : slot < maxSlots) (hdraw : draw output slot call token = some output')
    (hne : other ≠ slot) : output'.counts other = output.counts other := by
  unfold draw at hdraw
  split at hdraw
  next drawn hwork =>
    split at hdraw
    · cases hdraw
      have hcounts := @handleOutputWork_counts_of_ne output slot hslot call.request.sampler.penaltiesActive token other hne
      rwa [hwork] at hcounts
    · cases hdraw
  · cases hdraw

theorem agrees_draw (hlimit : deployment.contextLimit ≤ maxContext) (hadmitted : call.Admitted deployment)
    (hslot : slot < maxSlots) (hdraw : draw output slot call token = some output')
    (hactive : call.request.sampler.penaltiesActive = true) {history : List Nat}
    (hagrees : Agrees (output.counts slot) history)
    (hlength : history.length ≤ call.prompt.tokens.length + call.request.maxTokens) :
    Agrees (output'.counts slot) (history ++ [token]) := by
  have hroom : output.counts slot token < countMax := by
    have hcount := @List.count_le_length Nat _ token history
    have hmax : maxContext < countMax := by decide
    have hlimits := hadmitted.room
    rw [hagrees token]
    omega
  exact hagrees.snoc fun other => draw_counts hslot hdraw hactive hroom other

end Steps

/-! ## A step keeps what holds -/

def Sessions.Keeps (deployment : Deployment) (s : Sessions) : Prop :=
  ∀ slot < maxSlots, (s.session slot).Keeps deployment (s.output.counts slot)

theorem resetOutput_counts_of_ne {output : OutputRank} {slot other : Nat} {status : Except Error Unit}
    {reached : Bool} (hslot : slot < maxSlots) (hne : other ≠ slot) :
    (resetOutput output slot status reached).counts other = output.counts other := by
  unfold resetOutput
  split
  · exact beginSession_counts_of_ne hslot hne
  · rfl

section GoOn

variable {output output' : OutputRank} {slot token : Nat} {reached : Bool} {point point' : Point}

theorem goOn_counts_of_ne {other : Nat} (hslot : slot < maxSlots) (hne : other ≠ slot)
    (h : goOn deployment output slot token reached point = some (output', point')) :
    output'.counts other = output.counts other := by
  cases point with
  | idle runtime => cases h
  | resetting call runtime =>
    simp only [goOn] at h
    split at h <;> cases h <;> exact resetOutput_counts_of_ne hslot hne
  | syncing call progress =>
    have hsync := @handleOutputHistory_counts_of_ne output slot hslot call.prompt.tokens other hne
    simp only [goOn] at h
    split at h
    · split at h <;> rename_i hhandle hanswer <;> cases h
      · rwa [hhandle] at hsync
      · rwa [hhandle] at hsync
      · split
        · rwa [hhandle] at hsync
        · rfl
    · cases h
      rfl
  | prefilling call progress =>
    cases h
    rfl
  | samplingFirst call progress =>
    simp only [goOn, Option.map_eq_some_iff] at h
    obtain ⟨drawn, hdraw, heq⟩ := h
    have hcounts := draw_counts_of_ne hslot hdraw hne
    split at heq <;> cases heq
    · split
      · exact hcounts
      · rfl
    · exact hcounts
  | turning call progress =>
    cases h
    rfl
  | samplingNext call progress =>
    simp only [goOn, Option.map_eq_some_iff] at h
    obtain ⟨drawn, hdraw, heq⟩ := h
    have hcounts := draw_counts_of_ne hslot hdraw hne
    split at heq <;> cases heq
    · split
      · exact hcounts
      · rfl
    · exact hcounts
  | finishing call progress =>
    simp only [goOn] at h
    cases h
    split
    · exact beginSession_counts_of_ne hslot hne
    · rfl

theorem keeps_goOn (hlimit : deployment.contextLimit ≤ maxContext) (hslot : slot < maxSlots)
    (h : point.Keeps deployment (output.counts slot))
    (hgo : goOn deployment output slot token reached point = some (output', point')) :
    point'.Keeps deployment (output'.counts slot) := by
  cases point with
  | idle runtime => cases hgo
  | resetting call runtime =>
    obtain ⟨hadmitted, hmiss⟩ := h
    simp only [goOn] at hgo
    rcases runtimeResetState_cases runtime call.plan.resetReason call.request.script.resetBefore with
      ⟨transport, heq⟩ | ⟨after, err, heq, -⟩ <;> rw [heq] at hgo <;> cases hgo
    · exact keeps_writeHistory_of_miss hadmitted hmiss rfl
    · trivial
  | syncing call progress =>
    obtain ⟨hadmitted, hhistory, hgenerated, hback⟩ := h
    simp only [goOn] at hgo
    split at hgo
    · split at hgo <;> rename_i hhandle hanswer <;> cases hgo
      · refine @keeps_prefillPoint deployment call _ _ hadmitted hhistory hgenerated hback fun _ t => ?_
        have hok : (output.handleOutputHistory slot call.prompt.tokens).2 = .ok () := by rw [hhandle]
        have hcounts := handleOutputHistory_ok hslot hok t
        rw [hhandle] at hcounts
        show output'.counts slot t = progress.runtime.history.count t
        rw [hcounts, hhistory]
      · trivial
      · trivial
    next hinactive =>
      cases hgo
      exact keeps_prefillPoint hadmitted hhistory hgenerated hback fun hactive => absurd hactive hinactive
  | prefilling call progress =>
    cases hgo
    exact keeps_prefillPart h
  | samplingFirst call progress =>
    obtain ⟨hadmitted, hhistory, hgenerated, hcounted⟩ := h
    simp only [goOn, Option.map_eq_some_iff] at hgo
    obtain ⟨drawn, hdraw, heq⟩ := hgo
    split at heq <;> cases heq
    · trivial
    · apply keeps_loopPoint hadmitted
      · simpa [takeToken, hgenerated] using congrArg List.length hhistory
      · intro hactive
        refine .inl (agrees_draw hlimit hadmitted hslot hdraw hactive (hcounted hactive) ?_)
        rw [hhistory]
        exact Nat.le_add_right _ _
  | turning call progress =>
    cases hgo
    exact keeps_turnHead h
  | samplingNext call progress =>
    obtain ⟨hadmitted, hlength, hmax, hcounted⟩ := h
    simp only [goOn, Option.map_eq_some_iff] at hgo
    obtain ⟨drawn, hdraw, heq⟩ := hgo
    split at heq <;> cases heq
    · trivial
    · refine @keeps_loopPoint deployment call _ _ hadmitted hlength fun hactive => ?_
      refine .inl (agrees_draw hlimit hadmitted hslot hdraw hactive (hcounted hactive) ?_)
      show progress.runtime.history.length ≤ _
      rw [hlength]
      exact Nat.add_le_add_left hmax _
  | finishing call progress =>
    cases hgo
    trivial

end GoOn

theorem step_session (hlimit : deployment.contextLimit ≤ maxContext) {s t : Sessions} {slot : Nat} {drive : Drive}
    (h : s.Keeps deployment) (hcounted : Counted deployment s (slot, drive))
    (hstep : sessionsStep deployment s (slot, drive) = some t) :
    ∃ next, t.session = Function.update s.session slot next ∧ next.Keeps deployment (t.output.counts slot) ∧
      ∀ other ≠ slot, t.output.counts other = s.output.counts other := by
  simp only [sessionsStep] at hstep
  split at hstep
  next hslot =>
    split at hstep
    next prompt request runtime hpoint =>
      cases hstep
      simp only [Counted, hpoint] at hcounted
      exact ⟨_, rfl, keeps_enterCall hcounted, fun _ _ => rfl⟩
    · cases hstep
      exact ⟨_, rfl, trivial, fun _ hne => resetOutput_counts_of_ne hslot hne⟩
    · obtain ⟨⟨output, next⟩, hgo, heq⟩ := Option.map_eq_some_iff.mp hstep
      cases heq
      exact ⟨next, rfl, keeps_goOn hlimit hslot (h slot hslot) hgo, fun _ hne => goOn_counts_of_ne hslot hne hgo⟩
    · cases hstep
  · cases hstep

theorem keeps_step (hlimit : deployment.contextLimit ≤ maxContext) {s t : Sessions} {action : Nat × Drive}
    (h : s.Keeps deployment) (hcounted : Counted deployment s action)
    (hstep : sessionsStep deployment s action = some t) : t.Keeps deployment := by
  obtain ⟨slot, drive⟩ := action
  obtain ⟨next, hsession, hnext, hothers⟩ := step_session hlimit h hcounted hstep
  intro other hother
  rw [hsession]
  by_cases hne : other = slot
  · subst hne
    rw [Function.update_self]
    exact hnext
  · rw [Function.update_of_ne hne, hothers other hne]
    exact h other hother

/-- In every interleaving of two sessions in which no penalised exact-frontier hit emits its pending token, the
counts that a penalised draw uses are those of the session's history at that moment. -/
theorem penaltyCounts_eq_history (hlimit : deployment.contextLimit ≤ maxContext) {actions : List (Nat × Drive)}
    {s : Sessions} (hcounted : Runs.Along (sessionsStep deployment) (Counted deployment) .opened actions)
    (hrun : Runs.exec (sessionsStep deployment) .opened actions = some s) {slot : Nat} {call : Running}
    {history : List Nat} (hslot : slot < maxSlots) (hdraws : (s.session slot).draws = some (call, history))
    (hactive : call.request.sampler.penaltiesActive = true) (token : Nat) :
    s.output.countsFor slot token = history.count token := by
  have hopened : Sessions.opened.Keeps deployment := fun _ _ => trivial
  have hkeeps : s.Keeps deployment :=
    Runs.exec_invariant (fun _ _ _ hs hgood ht => keeps_step hlimit hs hgood ht) hopened hcounted hrun
  have hpoint := hkeeps slot hslot
  rw [countsFor_of_lt hslot]
  cases hsession : s.session slot <;> rw [hsession] at hdraws hpoint <;> cases hdraws
  · exact hpoint.2.2.2 hactive token
  · exact hpoint.2.2.2 hactive token

section Sample

def penalisedRequest (maxTokens : Nat) : Request :=
  { calmRequest maxTokens with sampler := { greedySampler with presencePenalty := ⟨0x3f000000⟩ } }

/-- Two sessions answer penalised requests; the first one's second token is due. -/
def twoSessions : List (Nat × Drive) :=
  [(0, .call (.ofTokens [1] false false) (penalisedRequest 2)),
    (1, .call (.ofTokens [5, 5] false false) (penalisedRequest 1)),
    (0, .go 0 true), (0, .go 0 true), (1, .go 0 true), (0, .go 5 true), (1, .go 0 true), (1, .go 9 true), (0, .go 0 true)]

theorem twoSessions_counts :
    ∃ s, Runs.exec (sessionsStep sampleDeployment) .opened twoSessions = some s ∧
      ∀ token, s.output.countsFor 0 token = [1, 5].count token := by
  have hrun : ∃ s call, Runs.exec (sessionsStep sampleDeployment) .opened twoSessions = some s ∧
      (s.session 0).draws = some (call, [1, 5]) ∧ call.request.sampler.penaltiesActive = true := ⟨_, _, rfl, rfl, rfl⟩
  obtain ⟨s, call, hexec, hdraws, hactive⟩ := hrun
  have hcold : ∀ prompt request, ¬EmitsUncounted sampleDeployment .opened prompt request := by
    rintro prompt request ⟨-, hexact, -⟩
    have hlive : prefixPlanTokens Runtime.opened.history Runtime.opened.nextToken.isSome prompt.tokens
        Runtime.opened.emptyReason = .cold prompt.tokens .coldStart := rfl
    simp only [generatePlan, hlive] at hexact
    split at hexact
    · cases hexact
    · split at hexact <;> cases hexact
  refine ⟨s, hexec, penaltyCounts_eq_history (by decide) ?_ hexec (by decide) hdraws hactive⟩
  exact ⟨hcold _ _, hcold _ _, trivial, trivial, trivial, trivial, trivial, trivial, trivial, trivial⟩

/-- The request is repeated with its answer appended: an exact-frontier hit that emits the pending token 7. -/
def repeatedRequest : List (Nat × Drive) :=
  [(0, .call (.ofTokens [1] false false) (penalisedRequest 1)), (0, .go 0 true), (0, .go 0 true), (0, .go 5 true),
    (0, .go 0 true), (0, .go 7 true), (0, .go 0 true),
    (0, .call (.ofTokens [1, 5] false false) (penalisedRequest 1)), (0, .go 0 true), (0, .go 0 true)]

theorem repeatedRequest_counts :
    ∃ s call, Runs.exec (sessionsStep sampleDeployment) .opened repeatedRequest = some s ∧
      (s.session 0).draws = some (call, [1, 5, 7]) ∧ call.request.sampler.penaltiesActive = true ∧
      s.output.countsFor 0 7 = 0 :=
  ⟨_, _, rfl, rfl, rfl, rfl⟩

theorem penaltyCounts_miss_pending_token :
    ¬∀ (actions : List (Nat × Drive)) (s : Sessions) (slot : Nat) (call : Running) (history : List Nat),
      Runs.exec (sessionsStep sampleDeployment) .opened actions = some s → slot < maxSlots →
      (s.session slot).draws = some (call, history) → call.request.sampler.penaltiesActive = true →
      ∀ token, s.output.countsFor slot token = history.count token := by
  intro hall
  obtain ⟨s, call, hexec, hdraws, hactive, hzero⟩ := repeatedRequest_counts
  have hcount := hall repeatedRequest s 0 call [1, 5, 7] hexec (by decide) hdraws hactive 7
  rw [hzero] at hcount
  exact absurd hcount (by decide)

end Sample

end FlashGordon.Generate
