import FlashGordon.Positions

/-! Reuse is not observable: what a text request emits on a runtime with a past is what it emits on a
freshly reset one. The two calls are compared variable by variable through the prefill and the decode
loop; what the past has to provide is an invariant of its runs, that owners without media hold the history
at the positions of plain text. An exact-frontier hit and a reused prefix with media are set apart: there
the request takes a token or a state that was made for another one. -/

namespace FlashGordon.Generate

open List

def TextOnly (entries : List Entry) : Prop := ∀ entry ∈ entries, entry.embedding = none

def Consecutive (position : Nat) (entries : List Entry) : Prop :=
  entries = textEntries 0 position (entries.map Entry.token)

/-- Owners without media hold the history as plain text, and the cursor is the token index. -/
structure Plain (runtime : Runtime) : Prop where
  synced : Synced runtime
  owners : TextOnly runtime.owners → Consecutive 0 runtime.owners
  cursor : TextOnly runtime.owners → runtime.statePosition = runtime.history.length

variable {first second : List Entry}

theorem TextOnly.left (h : TextOnly (first ++ second)) : TextOnly first :=
  fun entry hentry => h entry (mem_append_left _ hentry)

theorem TextOnly.right (h : TextOnly (first ++ second)) : TextOnly second :=
  fun entry hentry => h entry (mem_append_right _ hentry)

theorem Consecutive.append {position : Nat} (h : Consecutive position first)
    (h' : Consecutive (position + first.length) second) : Consecutive position (first ++ second) := by
  unfold Consecutive at h h' ⊢
  rw [map_append, textEntries_append, length_map, ← h, ← h']

theorem consecutive_textEntries (position : Nat) (tokens : List Nat) :
    Consecutive position (textEntries 0 position tokens) := by
  rw [Consecutive, textEntries_token]

theorem textEntries_take (bias index count : Nat) (tokens : List Nat) :
    (textEntries bias index tokens).take count = textEntries bias index (tokens.take count) := by
  induction tokens generalizing index count with
  | nil => simp [textEntries]
  | cons token rest ih =>
    cases count with
    | zero => rfl
    | succ count => simp [textEntries, ih]

theorem layoutFrom_take_consecutive (position count : Nat) (items : List Item)
    (h : TextOnly ((layoutFrom position items).take count)) :
    Consecutive position ((layoutFrom position items).take count) := by
  induction items generalizing position count with
  | nil => simp [layoutFrom, Consecutive, textEntries]
  | cons item rest ih =>
    cases count with
    | zero => rfl
    | succ count =>
      cases item with
      | text token =>
        have htail := ih (position + 1) count (forall_mem_cons.mp h).2
        have hhead : Consecutive position [⟨token, .text position, none⟩] := rfl
        exact hhead.append htail
      | media medium =>
        obtain ⟨rows, hrows⟩ := Nat.exists_eq_add_one.mpr medium.merged_pos
        have hmem : medium.entry position 0 ∈ (layoutFrom position (.media medium :: rest)).take (count + 1) := by
          simp [layoutFrom, Item.entries, hrows, range_succ_eq_map]
        exact absurd (h _ hmem) (by simp [Medium.entry])

theorem layoutFrom_not_textOnly {position : Nat} {items : List Item} {medium : Medium}
    (h : Item.media medium ∈ items) : ¬ TextOnly (layoutFrom position items) := by
  induction items generalizing position with
  | nil => cases h
  | cons item rest ih =>
    intro htext
    rcases mem_cons.mp h with rfl | hrest
    · have hmem : medium.entry position 0 ∈ layoutFrom position (.media medium :: rest) := by
        refine mem_append_left _ (mem_map.mpr ⟨0, ?_, rfl⟩)
        exact mem_range.mpr medium.merged_pos
      exact absurd (htext _ hmem) (by simp [Medium.entry])
    · exact ih hrest htext.right

theorem matchMedia_mem {count : Nat} {tokens : List Nat} {media : List Medium} {items : List Item}
    (h : matchMedia count tokens media = .ok items) : ∀ medium ∈ media, Item.media medium ∈ items := by
  induction tokens generalizing count media items with
  | nil =>
    cases media with
    | nil => simp
    | cons _ _ => cases h
  | cons token rest ih =>
    simp only [matchMedia] at h
    split at h
    · cases hrest : matchMedia (count + 1) rest media with
      | error err => simp [hrest] at h
      | ok found =>
        simp only [hrest, Except.ok.injEq] at h
        rw [← h]
        exact fun medium hmedium => mem_cons_of_mem _ (ih hrest medium hmedium)
    · cases media with
      | nil => cases h
      | cons first others =>
        simp only at h
        split at h
        · cases h
        · split at h
          · cases h
          · cases hrest : matchMedia (count + first.merged) rest others with
            | error err => simp [hrest] at h
            | ok found =>
              simp only [hrest, Except.ok.injEq] at h
              rw [← h]
              intro medium hmedium
              rcases mem_cons.mp hmedium with rfl | hother
              · exact mem_cons_self
              · exact mem_cons_of_mem _ (ih hrest medium hother)

section Past

variable {deployment : Deployment} {runtime : Runtime} {call : Call} {prompt : Prompt} {request : Request}

/-- What a plan reuses of a plain runtime without media: plain text up to its start, and no bias. -/
structure PlainStart (runtime : Runtime) (prompt : Prompt) (plan : PrefixPlan) : Prop where
  owners : Consecutive 0 (reusedEntries runtime plan)
  length : (reusedEntries runtime plan).length = plan.start
  bias : positionBias runtime prompt plan = 0
  cursor : plan.hit = true → runtime.statePosition = plan.start

theorem generatePlan_start_le (deployment : Deployment) (runtime : Runtime) (prompt : Prompt) :
    (generatePlan deployment runtime prompt).start ≤ prompt.tokens.length := by
  cases hhit : (generatePlan deployment runtime prompt).hit with
  | true =>
    have hspec := generatePlan_hit_spec hhit
    rw [hspec.start]
    exact hspec.le
  | false =>
    rw [start_of_miss hhit]
    exact Nat.zero_le _

theorem Plain.start (hplain : Plain runtime)
    (htext : TextOnly (reusedEntries runtime (generatePlan deployment runtime prompt))) :
    PlainStart runtime prompt (generatePlan deployment runtime prompt) := by
  cases hhit : (generatePlan deployment runtime prompt).hit with
  | true =>
    have hspec := generatePlan_hit_spec hhit
    have hreused : reusedEntries runtime (generatePlan deployment runtime prompt) = runtime.owners := by
      simp [reusedEntries, hhit]
    rw [hreused] at htext
    have hcursor := hplain.cursor htext
    have hfrontier := hplain.synced.frontier
    refine ⟨?_, ?_, ?_, fun _ => by rw [hspec.start, hcursor]⟩
    · rw [hreused]
      exact hplain.owners htext
    · rw [hreused, hspec.start, ← hplain.synced.tokens, length_map]
    · simp only [positionBias]
      split
      · omega
      · rfl
  | false =>
    have hreused : reusedEntries runtime (generatePlan deployment runtime prompt) = [] := by
      simp [reusedEntries, hhit]
    refine ⟨?_, ?_, by simp [positionBias, hhit], fun h => absurd h (by simp [hhit])⟩
    · rw [hreused]
      rfl
    · rw [hreused, start_of_miss hhit]
      rfl

theorem Asks.take_consecutive (h : Asks deployment runtime call prompt request)
    (hrequired : prompt.requirePrefixHit = true → (generatePlan deployment runtime prompt).hit = true)
    (hstart : PlainStart runtime prompt (generatePlan deployment runtime prompt)) (count : Nat)
    (htext : TextOnly ((prompt.prefillEntries (generatePlan deployment runtime prompt).start
      (positionBias runtime prompt (generatePlan deployment runtime prompt))).take count)) :
    Consecutive (generatePlan deployment runtime prompt).start
      ((prompt.prefillEntries (generatePlan deployment runtime prompt).start
        (positionBias runtime prompt (generatePlan deployment runtime prompt))).take count) := by
  rw [hstart.bias] at htext ⊢
  cases h with
  | generate =>
    simp only [Prompt.prefillEntries, Prompt.ofTokens, textEntries_take]
    exact consecutive_textEntries _ _
  | generateContinuation =>
    simp only [Prompt.prefillEntries, Prompt.ofTokens, textEntries_take]
    exact consecutive_textEntries _ _
  | generateVision media tokens items request hmedia hmatch =>
    have hmiss := start_of_miss (generatePlan_vision deployment runtime
      (.ofEntries (layoutFrom 0 items) false false (cursorFrom 0 items)) rfl rfl)
    rw [hmiss] at htext ⊢
    exact layoutFrom_take_consecutive 0 count items htext
  | generateVisionContinuation media tokens items request hmedia hmatch =>
    have hhit := hrequired rfl
    have hspec := generatePlan_hit_spec hhit
    have hcursor := hstart.cursor hhit
    rw [hspec.start] at htext hcursor ⊢
    have hentries : ∀ bias, (Prompt.ofEntries (continuationEntries runtime.history
        (layoutFrom runtime.statePosition items)) true true (cursorFrom runtime.statePosition items)).prefillEntries
          runtime.history.length bias = layoutFrom runtime.history.length items := by
      intro bias
      simp [Prompt.prefillEntries, Prompt.ofEntries, continuationEntries, hcursor]
    rw [hentries] at htext ⊢
    exact layoutFrom_take_consecutive _ count items htext

theorem Asks.vision_none (h : Asks deployment runtime call prompt request)
    (hrequired : prompt.requirePrefixHit = true → (generatePlan deployment runtime prompt).hit = true)
    (htext : TextOnly (prompt.prefillEntries (generatePlan deployment runtime prompt).start
      (positionBias runtime prompt (generatePlan deployment runtime prompt)))) : prompt.vision = none := by
  cases h with
  | generate => rfl
  | generateContinuation => rfl
  | generateVision media tokens items request hmedia hmatch =>
    have hmiss := start_of_miss (generatePlan_vision deployment runtime
      (.ofEntries (layoutFrom 0 items) false false (cursorFrom 0 items)) rfl rfl)
    obtain ⟨medium, hmedium⟩ := exists_mem_of_ne_nil media hmedia
    rw [hmiss] at htext
    exact absurd htext (layoutFrom_not_textOnly (matchMedia_mem hmatch medium hmedium))
  | generateVisionContinuation media tokens items request hmedia hmatch =>
    have hspec := generatePlan_hit_spec (hrequired rfl)
    obtain ⟨medium, hmedium⟩ := exists_mem_of_ne_nil media hmedia
    rw [hspec.start] at htext
    simp only [Prompt.prefillEntries, Prompt.ofEntries, continuationEntries] at htext
    rw [drop_left' (by simp)] at htext
    exact absurd htext (layoutFrom_not_textOnly (matchMedia_mem hmatch medium hmedium))

theorem Effect.plain {outcome : Outcome}
    (h : Effect prompt request runtime (generatePlan deployment runtime prompt) outcome)
    (hasks : Asks deployment runtime call prompt request) (hplain : Plain runtime)
    (hquiet : (generatePlan deployment runtime prompt).start < prompt.tokens.length →
      request.script.Quiet) (hready : outcome.runtime.stateReady = true) : Plain outcome.runtime := by
  have hsynced := h.consistent hplain.synced hquiet hready
  cases h with
  | refused err _ hruntime => exact hruntime ▸ hplain
  | unready err _ hunready => rw [hunready] at hready; cases hready
  | renewed err _ reason transport hruntime =>
    rw [hruntime]
    exact ⟨synced_renewed reason transport, fun _ => rfl, fun _ => rfl⟩
  | kept err _ counted hruntime =>
    rw [hruntime] at hsynced ⊢
    exact ⟨hsynced, hplain.owners, hplain.cursor⟩
  | interrupted prefilled err _ hrequired hhistory howners hfrontier hposition hnext =>
    refine ⟨hsynced, fun htext => ?_, fun htext => ?_⟩
    · rw [howners] at htext ⊢
      have hstart := hplain.start htext.left
      refine hstart.owners.append ?_
      rw [hstart.length, Nat.zero_add]
      exact hasks.take_consecutive hrequired hstart prefilled htext.right
    · rw [howners] at htext
      rw [hposition, (hplain.start htext.left).bias, Nat.add_zero, ← hfrontier, hsynced.frontier]
  | overrun err _ hshort hloud => exact absurd (hquiet hshort) hloud
  | succeeded out _ hprompt hrequired _ _ hhistory howners hfrontier hposition _ _ _ =>
    -- without media the prompt is text, and its cursor is its length
    have hcases : TextOnly outcome.runtime.owners →
        PlainStart runtime prompt (generatePlan deployment runtime prompt) ∧
          TextOnly (prompt.prefillEntries (generatePlan deployment runtime prompt).start
            (positionBias runtime prompt (generatePlan deployment runtime prompt))) ∧
          promptCursor runtime prompt (generatePlan deployment runtime prompt) = prompt.tokens.length := by
      intro htext
      rw [howners] at htext
      have hstart := hplain.start htext.left.left
      refine ⟨hstart, htext.left.right, ?_⟩
      rw [promptCursor, hasks.vision_none hrequired htext.left.right, hstart.bias]
      split
      · rfl
      next hfull =>
        cases hhit : (generatePlan deployment runtime prompt).hit with
        | true =>
          have hle := generatePlan_start_le deployment runtime prompt
          rw [hstart.cursor hhit]
          omega
        | false =>
          have hlength := length_pos_iff.mpr hprompt
          rw [start_of_miss hhit] at hfull
          omega
    refine ⟨hsynced, fun htext => ?_, fun htext => ?_⟩
    · obtain ⟨hstart, hentries, hcursor⟩ := hcases htext
      have hlength : (prompt.prefillEntries (generatePlan deployment runtime prompt).start
          (positionBias runtime prompt (generatePlan deployment runtime prompt))).length =
            prompt.tokens.length - (generatePlan deployment runtime prompt).start := by
        rw [← length_map Entry.token, prompt.prefillEntries_token, length_drop]
      have hwhole := hasks.take_consecutive hrequired hstart
        (prompt.tokens.length - (generatePlan deployment runtime prompt).start)
      rw [take_of_length_le (Nat.le_of_eq hlength)] at hwhole
      have hprompted : Consecutive 0 (reusedEntries runtime (generatePlan deployment runtime prompt) ++
          prompt.prefillEntries (generatePlan deployment runtime prompt).start
            (positionBias runtime prompt (generatePlan deployment runtime prompt))) := by
        refine hstart.owners.append ?_
        rw [hstart.length, Nat.zero_add]
        exact hwhole hentries
      rw [howners]
      refine hprompted.append ?_
      rw [hcursor, length_append, hstart.length, hlength]
      rw [Nat.zero_add, Nat.add_sub_cancel' (generatePlan_start_le deployment runtime prompt)]
      exact consecutive_textEntries _ out
    · rw [hposition, (hcases htext).2.2, hhistory, length_append]

theorem perform_plain (hplain : runtime.stateReady = true → Plain runtime)
    (hcall : Undisturbed deployment runtime call)
    (hready : (perform deployment runtime call).runtime.stateReady = true) :
    Plain (perform deployment runtime call).runtime := by
  rcases perform_cases deployment runtime call with
    ⟨hsame, -⟩ | ⟨prompt, request, hasks, hperform⟩ | ⟨reason, answer, rfl⟩
  · rw [hsame] at hready ⊢
    exact hplain hready
  · rw [hperform] at hready ⊢
    cases hold : runtime.stateReady with
    | false =>
      rw [generateTokens_unready deployment prompt request hold, hold] at hready
      cases hready
    | true =>
      exact (generateTokens_effect deployment prompt request (hplain hold).synced).plain hasks (hplain hold)
        (hcall.quiet hasks) hready
  · simp only [perform] at hready ⊢
    rcases runtimeResetState_cases runtime reason answer with
      ⟨transport, hreset⟩ | ⟨after, err, hreset, hunready⟩
    · rw [hreset]
      exact ⟨synced_renewed reason transport, fun _ => rfl, fun _ => rfl⟩
    · rw [hreset] at hready
      simp only [hunready] at hready
      cases hready

theorem ready_plain {calls : List Call} {live : Runtime}
    (halong : Runs.Along (callStep deployment) (Undisturbed deployment) .opened calls)
    (hrun : Runs.exec (callStep deployment) .opened calls = some live) (hready : live.stateReady = true) :
    Plain live := by
  have hstep : ∀ runtime call after, (runtime.stateReady = true → Plain runtime) →
      Undisturbed deployment runtime call → callStep deployment runtime call = some after →
        after.stateReady = true → Plain after := by
    intro runtime call after hplain hcall hafter
    rw [callStep, Option.some.injEq] at hafter
    exact hafter ▸ perform_plain hplain hcall
  exact Runs.exec_invariant hstep (fun _ => ⟨synced_opened, fun _ => rfl, fun _ => rfl⟩) halong hrun hready

end Past

section Comparison

variable {deployment : Deployment} {request : Request}

/-- Two running calls whose next steps cannot differ. -/
structure Alike (sampler : Sampler) (left right : Progress) : Prop where
  status : left.status = right.status
  next : left.next = right.next
  generated : left.generated = right.generated
  draws : left.draws = right.draws
  emitted : left.emitted = right.emitted
  owners : left.runtime.owners = right.runtime.owners
  position : left.runtime.statePosition = right.runtime.statePosition
  counted : sampler.penaltiesActive = true → left.runtime.counted = right.runtime.counted

variable {left right : Progress}

variable {sampler : Sampler}

theorem Alike.draw (deployment : Deployment) (h : Alike sampler left right) :
    Alike sampler (drawToken deployment sampler left) (drawToken deployment sampler right) := by
  unfold drawToken
  simp only [h.draws, h.owners]
  cases hactive : sampler.penaltiesActive with
  | true =>
    simp only [if_true, h.counted hactive]
    exact ⟨h.status, rfl, h.generated, rfl, h.emitted, rfl, h.position, fun _ => rfl⟩
  | false =>
    exact ⟨h.status, rfl, h.generated, rfl, h.emitted, rfl, h.position, h.counted⟩

section

variable (h : Alike sampler left right)
include h

theorem Alike.append : Alike sampler (appendToken left) (appendToken right) :=
  ⟨h.status, h.next, congrArg (· + 1) h.generated, h.draws, h.emitted, h.owners, h.position, h.counted⟩

theorem Alike.process (transport : Transport.State) :
    Alike sampler (processToken transport left) (processToken transport right) := by
  refine ⟨h.status, h.next, h.generated, h.draws, h.emitted, ?_, h.position, h.counted⟩
  simp only [processToken, h.owners, h.next, h.position]

theorem Alike.advance : Alike sampler (advanceCursor left) (advanceCursor right) :=
  ⟨h.status, h.next, h.generated, h.draws, h.emitted, h.owners, congrArg (· + 1) h.position, h.counted⟩

end

theorem Alike.decode (deployment : Deployment) (h : Alike request.sampler left right) :
    Alike request.sampler (decodeToken deployment request left) (decodeToken deployment request right) := by
  unfold decodeToken
  simp only [h.generated]
  cases request.script.decode right.generated with
  | failed err lost transport =>
    exact ⟨rfl, h.next, h.append.generated, h.draws, h.emitted, rfl, h.position, h.counted⟩
  | done transport => exact ((h.append.process transport).draw deployment).advance

theorem Alike.turn (deployment : Deployment) (h : Alike request.sampler left right) :
    Alike request.sampler (decodeTurn deployment request left).1 (decodeTurn deployment request right).1 ∧
      (decodeTurn deployment request left).2 = (decodeTurn deployment request right).2 := by
  unfold decodeTurn
  rw [h.generated, h.next]
  split
  · exact ⟨h, rfl⟩
  · split
    · exact ⟨⟨rfl, rfl, rfl, h.draws, h.emitted, h.owners, h.position, h.counted⟩, rfl⟩
    · cases hemit : emitToken request.script right.generated right.next with
      | mk reached status =>
        cases status with
        | error err =>
          refine ⟨⟨rfl, rfl, rfl, h.draws, ?_, h.owners, h.position, h.counted⟩, rfl⟩
          simp only [h.emitted]
        | ok _ =>
          have hemitted : Alike request.sampler
              { left with
                next := right.next
                generated := right.generated
                emitted := left.emitted ++ [right.next] }
              { right with emitted := right.emitted ++ [right.next] } :=
            ⟨h.status, rfl, rfl, h.draws, by simp only [h.emitted], h.owners, h.position, h.counted⟩
          have hdecoded := hemitted.decode deployment
          exact ⟨hdecoded, congrArg Except.toBool hdecoded.status⟩

theorem Alike.loop (deployment : Deployment) (remaining : Nat) (h : Alike request.sampler left right) :
    Alike request.sampler (decodeLoop deployment request remaining left)
      (decodeLoop deployment request remaining right) := by
  induction remaining generalizing left right with
  | zero => exact h
  | succ remaining ih =>
    obtain ⟨hturned, hgoes⟩ := h.turn deployment
    simp only [decodeLoop]
    cases hleft : decodeTurn deployment request left with
    | mk leftTurned leftGoes =>
      cases hright : decodeTurn deployment request right with
      | mk rightTurned rightGoes =>
        simp only [hleft, hright] at hturned hgoes
        subst hgoes
        cases leftGoes with
        | true => exact ih hturned
        | false => exact hturned

/-- The call failed before it emitted anything. -/
def Mute (progress : Progress) : Prop := (∃ err, progress.status = .error err) ∧ progress.emitted = []

variable {prompt : Prompt}

theorem prefillSuffix_alike (deployment : Deployment)
    {offset : Nat} (htext : prompt.vision = none) (hleft : left.status = .ok ()) (hright : right.status = .ok ())
    (hgenerated : left.generated = right.generated) (hdraws : left.draws = right.draws)
    (hemitted : left.emitted = [] ∧ right.emitted = [])
    (howners : left.runtime.owners ++ prompt.prefillEntries offset 0 =
      right.runtime.owners ++ prompt.prefillEntries 0 0)
    (hcounted : request.sampler.penaltiesActive = true → left.runtime.counted = right.runtime.counted) :
    (Mute (prefillSuffix deployment prompt request offset 0 left) ∧
        Mute (prefillSuffix deployment prompt request 0 0 right)) ∨
      Alike request.sampler (prefillSuffix deployment prompt request offset 0 left)
        (prefillSuffix deployment prompt request 0 0 right) := by
  unfold prefillSuffix
  cases request.script.prefill with
  | failed err _ lost transport => exact Or.inl ⟨⟨⟨_, rfl⟩, hemitted.1⟩, ⟨⟨_, rfl⟩, hemitted.2⟩⟩
  | interrupted prefilled transport => exact Or.inl ⟨⟨⟨_, rfl⟩, hemitted.1⟩, ⟨⟨_, rfl⟩, hemitted.2⟩⟩
  | done transport =>
    cases request.script.output with
    | error err => exact Or.inl ⟨⟨⟨_, rfl⟩, hemitted.1⟩, ⟨⟨_, rfl⟩, hemitted.2⟩⟩
    | ok _ =>
      refine Or.inr ?_
      simp only [drawToken, htext, howners, hdraws]
      cases hactive : request.sampler.penaltiesActive with
      | true =>
        simp only [if_true, hcounted hactive]
        exact ⟨hleft.trans hright.symm, rfl, hgenerated, rfl, hemitted.1.trans hemitted.2.symm, rfl, rfl, fun _ => rfl⟩
      | false =>
        exact ⟨hleft.trans hright.symm, rfl, hgenerated, rfl, hemitted.1.trans hemitted.2.symm, rfl, rfl,
          fun h => by rw [hactive] at h; cases h⟩

theorem prefillStage_alike (deployment : Deployment) (request : Request)
    {ready fresh : Runtime} {offset : Nat} (htext : prompt.vision = none)
    (hshort : offset < prompt.tokens.length)
    (howners : ready.owners = textEntries 0 0 (prompt.tokens.take offset)) (hfresh : fresh.owners = []) :
    (Mute (prefillStage deployment prompt request offset 0 ready) ∧
        Mute (prefillStage deployment prompt request 0 0 fresh)) ∨
      Alike request.sampler (prefillStage deployment prompt request offset 0 ready)
        (prefillStage deployment prompt request 0 0 fresh) := by
  have hentries : ready.owners ++ prompt.prefillEntries offset 0 = fresh.owners ++ prompt.prefillEntries 0 0 := by
    have hlength : (prompt.tokens.take offset).length = offset := length_take_of_le (Nat.le_of_lt hshort)
    have hsplit := textEntries_append 0 0 (prompt.tokens.take offset) (prompt.tokens.drop offset)
    rw [take_append_drop, hlength, Nat.zero_add] at hsplit
    rw [howners, hfresh, Prompt.prefillEntries, Prompt.prefillEntries, htext]
    exact hsplit.symm
  unfold prefillStage
  rcases syncOutputHistory_cases prompt request with ⟨err, hsync⟩ | ⟨counted, hsync, hprompt⟩
  · simp only [hsync]
    exact Or.inl ⟨⟨⟨_, rfl⟩, rfl⟩, ⟨⟨_, rfl⟩, rfl⟩⟩
  · simp only [hsync, if_pos hshort, if_pos (Nat.zero_lt_of_lt hshort)]
    refine prefillSuffix_alike deployment htext rfl rfl rfl rfl ⟨rfl, rfl⟩ hentries (fun hactive => ?_)
    rw [hprompt hactive, hprompt hactive]

theorem finish_emitted (prompt : Prompt) (request : Request) (plan : PrefixPlan) (offset bias : Nat)
    (old : Runtime) (progress : Progress) :
    (finish prompt request plan offset bias old progress).emitted = progress.emitted := by
  unfold finish
  dsimp only
  repeat' split
  all_goals rfl

theorem generateTokens_emitted {old ready : Runtime} {value : Unit}
    (hmax : request.maxTokens ≠ 0) (hready : old.stateReady = true)
    (hchecked : checkRequest deployment prompt (generatePlan deployment old prompt) request = .ok value)
    (hreset : resetForMiss old (generatePlan deployment old prompt) request.script.resetBefore =
      (ready, .ok ())) :
    (runtimeGenerateTokens deployment old prompt request).emitted =
      (decodeStage deployment request
        (prefillStage deployment prompt request (generatePlan deployment old prompt).start
          (positionBias old prompt (generatePlan deployment old prompt)) ready)).emitted := by
  unfold runtimeGenerateTokens
  simp only [hmax, hready, hchecked, hreset, if_false, Bool.true_eq_false, finish_emitted]

theorem generateTokens_refused {old : Runtime} {err : Error}
    (hchecked : checkRequest deployment prompt (generatePlan deployment old prompt) request = .error err) :
    (runtimeGenerateTokens deployment old prompt request).emitted = [] := by
  unfold runtimeGenerateTokens
  split
  · rfl
  · split
    · rfl
    · simp only [hchecked]
      rfl

theorem checkRequest_plan (deployment : Deployment) (request : Request)
    (h : prompt.requirePrefixHit = false) (first second : PrefixPlan) :
    checkRequest deployment prompt first request = checkRequest deployment prompt second request := by
  simp [checkRequest, h]

theorem generatePlan_renewed (deployment : Deployment) (prompt : Prompt) (reason : ResetReason)
    (transport : Transport.State) :
    (generatePlan deployment (.renewed reason transport) prompt).hit = false := by
  cases hhit : (generatePlan deployment (.renewed reason transport) prompt).hit with
  | true => exact absurd rfl (generatePlan_hit_spec hhit).nonempty
  | false => rfl

theorem Plain.reused {live : Runtime} (hplain : Plain live) (hprompt : prompt.tokens ≠ [])
    (hinexact : (generatePlan deployment live prompt).exactFrontier = false)
    (htext : (generatePlan deployment live prompt).hit = true → TextOnly live.owners) :
    (generatePlan deployment live prompt).start < prompt.tokens.length ∧
      positionBias live prompt (generatePlan deployment live prompt) = 0 ∧
      reusedEntries live (generatePlan deployment live prompt) =
        textEntries 0 0 (prompt.tokens.take (generatePlan deployment live prompt).start) := by
  have hreused : TextOnly (reusedEntries live (generatePlan deployment live prompt)) := by
    unfold reusedEntries
    split
    next hhit =>
      exact htext hhit
    · exact fun entry hentry => by cases hentry
  have hstart := hplain.start hreused
  refine ⟨?_, hstart.bias, ?_⟩
  · cases hhit : (generatePlan deployment live prompt).hit with
    | true =>
      have hspec := generatePlan_hit_spec hhit
      have hne : prompt.tokens.length ≠ live.history.length :=
        fun heq => absurd (hspec.exact.mpr heq) (by simp [hinexact])
      have hle := hspec.le
      rw [hspec.start]
      omega
    | false =>
      rw [start_of_miss hhit]
      exact length_pos_iff.mpr hprompt
  · rw [← reusedEntries_token deployment prompt hplain.synced]
    exact hstart.owners

theorem emitted_renewed {live : Runtime} (hvision : prompt.vision = none)
    (hfree : prompt.requirePrefixHit = false) (hplain : Plain live) (hready : live.stateReady = true)
    (hreset : (resetForMiss live (generatePlan deployment live prompt) request.script.resetBefore).2 = .ok ())
    (hinexact : (generatePlan deployment live prompt).exactFrontier = false)
    (htext : (generatePlan deployment live prompt).hit = true → TextOnly live.owners) (reason : ResetReason)
    (transport : Transport.State) :
    (runtimeGenerateTokens deployment live prompt request).emitted =
      (runtimeGenerateTokens deployment (.renewed reason transport) prompt request).emitted := by
  by_cases hmax : request.maxTokens = 0
  · simp [runtimeGenerateTokens, hmax, refuse]
  have hchecks := checkRequest_plan deployment request hfree (generatePlan deployment live prompt)
    (generatePlan deployment (.renewed reason transport) prompt)
  cases hchecked : checkRequest deployment prompt (generatePlan deployment live prompt) request with
  | error err => rw [generateTokens_refused hchecked, generateTokens_refused (hchecks ▸ hchecked)]
  | ok value =>
    obtain ⟨hprompt, -⟩ := checkRequest_ok hchecked
    obtain ⟨hshort, hbias, hreused⟩ := hplain.reused hprompt hinexact htext
    have hmiss := generatePlan_renewed deployment prompt reason transport
    have hfreshBias : positionBias (.renewed reason transport) prompt
        (generatePlan deployment (.renewed reason transport) prompt) = 0 := by
      simp [positionBias, hmiss]
    have hfreshBegan : resetForMiss (.renewed reason transport)
        (generatePlan deployment (.renewed reason transport) prompt) request.script.resetBefore =
          (.renewed reason transport, .ok ()) := by
      simp [resetForMiss, Runtime.renewed, Runtime.opened]
    rcases resetForMiss_cases deployment request.script.resetBefore hplain.synced hprompt rfl with
      ⟨after, err, hfailed, -⟩ | ⟨ready, hbegan, -, howners, -⟩
    · rw [hfailed] at hreset
      cases hreset
    · rw [generateTokens_emitted hmax hready hchecked hbegan,
        generateTokens_emitted hmax rfl (hchecks ▸ hchecked) hfreshBegan, hbias, hfreshBias, start_of_miss hmiss]
      have hfreshOwners : (Runtime.renewed reason transport).owners = [] := rfl
      rcases prefillStage_alike deployment request hvision hshort (howners.trans hreused) hfreshOwners with
        ⟨⟨⟨err, herr⟩, hleft⟩, ⟨⟨err', herr'⟩, hright⟩⟩ | halike
      · simp only [decodeStage, herr, herr', hleft, hright]
      · unfold decodeStage
        rw [halike.status]
        split
        · exact (halike.loop deployment request.maxTokens).emitted
        · exact halike.emitted

/-- After any undisturbed calls, a text request on the runtime emits what it emits on a freshly reset one,
when the runtime is still ready, the reset of a miss succeeds, the prompt is not the live frontier itself
and the prefix it reuses has no media. -/
theorem reuse_transparent {calls : List Call} {live : Runtime} {tokens : List Nat}
    (halong : Runs.Along (callStep deployment) (Undisturbed deployment) .opened calls)
    (hrun : Runs.exec (callStep deployment) .opened calls = some live) (hready : live.stateReady = true)
    (hreset : (resetForMiss live (generatePlan deployment live (.ofTokens tokens false false))
      request.script.resetBefore).2 = .ok ())
    (hinexact : (generatePlan deployment live (.ofTokens tokens false false)).exactFrontier = false)
    (htext : (generatePlan deployment live (.ofTokens tokens false false)).hit = true → TextOnly live.owners)
    (reason : ResetReason) (transport : Transport.State) :
    (generate deployment live (.ok tokens) request).emitted =
      (generate deployment (.renewed reason transport) (.ok tokens) request).emitted :=
  emitted_renewed rfl rfl (ready_plain halong hrun hready) hready hreset hinexact htext reason transport

end Comparison

section Sample

/-- The second of two text calls reuses the first and emits what a fresh runtime emits. -/
theorem continued_call_transparent :
    ∃ live, Runs.exec (callStep sampleDeployment) .opened [.generate (.ok [1, 2]) (calmRequest 2)] = some live ∧
      (generatePlan sampleDeployment live (.ofTokens [1, 2, 6, 7, 3] false false)).hit = true ∧
      (generate sampleDeployment live (.ok [1, 2, 6, 7, 3]) (calmRequest 2)).emitted = [9, 10] ∧
      (generate sampleDeployment live (.ok [1, 2, 6, 7, 3]) (calmRequest 2)).emitted =
        (generate sampleDeployment (.renewed .explicit .ready) (.ok [1, 2, 6, 7, 3]) (calmRequest 2)).emitted := by
  refine ⟨_, rfl, rfl, rfl, ?_⟩
  have halong : Runs.Along (callStep sampleDeployment) (Undisturbed sampleDeployment) .opened
      [.generate (.ok [1, 2]) (calmRequest 2)] := by
    refine And.intro (Or.inl fun request hrequest => ?_) trivial
    obtain rfl := Option.some.inj hrequest
    exact quiet_calmScript
  refine reuse_transparent halong rfl rfl rfl rfl (fun _ => ?_) .explicit .ready
  unfold TextOnly
  decide

def attentiveDeployment : Deployment :=
  { sampleDeployment with
    sample := fun sampler _ _ entries =>
      entries.length + sampler.topK.toNat + (entries.filter fun entry => entry.embedding.isSome).length }

def widerRequest : Request :=
  { calmRequest 1 with sampler := { greedySampler with topK := 40 } }

/-- A request whose first decode step fails and poisons the transport. -/
def poisonedRequest : Request :=
  { calmRequest 1 with
    script :=
      { calmScript with decode := fun _ => .failed ⟨.io, "peer closed the connection"⟩ [] .poisoned } }

/-- The past is seen in three ways: an exact frontier hands out the token that another sampler drew, a
reused image changes what its placeholder tokens mean, and a runtime left unready emits nothing. -/
theorem past_observable :
    (∃ live, Runs.exec (callStep attentiveDeployment) .opened [.generate (.ok [1]) (calmRequest 1)] = some live ∧
      (generate attentiveDeployment live (.ok live.history) widerRequest).emitted ≠
        (generate attentiveDeployment (.renewed .explicit .ready) (.ok live.history) widerRequest).emitted) ∧
    (∃ live, Runs.exec (callStep attentiveDeployment) .opened
          [.generateVision (imageInput smallImage) (calmRequest 1)] = some live ∧
      (generate attentiveDeployment live (.ok (live.history ++ [7])) (calmRequest 1)).emitted ≠
        (generate attentiveDeployment (.renewed .explicit .ready) (.ok (live.history ++ [7]))
          (calmRequest 1)).emitted) ∧
    ∃ live, Runs.exec (callStep attentiveDeployment) .opened [.generate (.ok [1]) poisonedRequest] = some live ∧
      (generate attentiveDeployment live (.ok [2]) (calmRequest 1)).emitted ≠
        (generate attentiveDeployment (.renewed .explicit .ready) (.ok [2]) (calmRequest 1)).emitted := by
  refine ⟨⟨_, rfl, ?_⟩, ⟨_, rfl, ?_⟩, ⟨_, rfl, ?_⟩⟩
  · decide
  · decide
  · decide

end Sample

end FlashGordon.Generate
