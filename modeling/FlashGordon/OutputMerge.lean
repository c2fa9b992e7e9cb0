import Mathlib.Data.List.Induction
import Mathlib.Data.List.TakeDrop
import Mathlib.Data.List.TakeWhile
import Mathlib.Tactic.IntervalCases
import FlashGordon.OutputSplit

/-! The merge of one greedy split token at rank 4, over every order in which its frames may arrive and
be repeated. The head sends the best row once exactly in the orderly arrivals: those in which the first
`ways - 1` partials after the config are of different ranks and the frames of a second round stay
incomplete. -/

namespace FlashGordon.OutputSplit

open List

/-- The frames of one token: the config of rank 0, the input of the last layer's owner, and the partials
of the other slice ranks. -/
inductive Arrival where
  | config
  | input
  | splitPartial (rank : Nat)
  deriving DecidableEq

def otherRanks (ways : Nat) : List Nat := if ways = splitWaysMin then [0] else [0, 1, 2]

def tokenFrames (ways : Nat) : List Arrival := .config :: .input :: (otherRanks ways).map .splitPartial

def wayOf (ways rank : Nat) : Nat := (splitWayForRank ways rank).getD 0

/-- A token whose slice winners are the best of their own row spans. -/
structure SplitToken (Activation : Type) (ways : Nat) where
  tokenIndex : UInt32
  slot : Nat
  input : Activation
  logits : Nat → Binary32
  winner : Nat → Finalist
  inSpan : ∀ way, way < ways → InSpan ways way (winner way).id
  value : ∀ way, way < ways → (winner way).value = logits (winner way).id
  finite : ∀ way, way < ways → (winner way).value.isFinite = true
  best : ∀ way, way < ways → ∀ row, InSpan ways way row →
    outputBetter ⟨logits row, row⟩ (winner way) = false

variable {Activation : Type} {ways : Nat}

/-- Rank 4 is set up for the token's split, and its executor finds its own slice's winner. -/
structure Owner.Serves (owner : Owner Activation) (token : SplitToken Activation ways) : Prop where
  eligible : owner.eligible = true
  session : owner.sessionId ≠ 0
  held : owner.sliceWays = some ways
  run : owner.sliceRun token.input = .ok (token.winner 0)

def SplitToken.config (token : SplitToken Activation ways) : OutputConfig where
  sourceRank := 0
  destinationRank := outputRank
  split := true
  split4 := ways = splitWaysMax
  sessionSlot := token.slot
  tokenIndex := token.tokenIndex
  greedy := true

def SplitToken.hidden (token : SplitToken Activation ways) (owner : Owner Activation) :
    LayerResult Activation where
  layer := layerCount - 1
  sourceRank := owner.lastLayerOwner
  destinationRank := outputRank
  tokenIndex := token.tokenIndex
  hyper := token.input

def SplitToken.message (token : SplitToken Activation ways) (owner : Owner Activation) :
    Arrival → Message Activation
  | .config =>
    .config ⟨0, owner.sessionId, outputSequence token.tokenIndex, token.slot⟩ token.config
  | .input =>
    let header : FrameHeader :=
      ⟨owner.lastLayerOwner, owner.sessionId, outputSequence token.tokenIndex - 1, token.slot⟩
    if ways = splitWaysMax then .sliceHidden header (token.hidden owner)
    else .hidden header (token.hidden owner)
  | .splitPartial rank =>
    .splitPartial ⟨rank, owner.sessionId, outputSequence token.tokenIndex, token.slot⟩
      ⟨token.tokenIndex, token.winner (wayOf ways rank)⟩

def Worker.arrivals (owner : Owner Activation) (token : SplitToken Activation ways)
    (worker : Worker Activation) (arrivals : List Arrival) : Worker Activation :=
  arrivals.foldl (fun worker arrival => worker.receive owner (token.message owner arrival)) worker

/-- One result is sent: the best row of the whole vocabulary, and not before every frame has come. -/
structure Merges (owner : Owner Activation) (token : SplitToken Activation ways)
    (arrivals : List Arrival) : Prop where
  one_result : ∃ row, row < vocabSize ∧
    (Worker.start.arrivals owner token arrivals).sent =
      [⟨outputRank, 0, token.tokenIndex, row, token.logits row⟩] ∧
    ∀ other, other < vocabSize →
      outputBetter ⟨token.logits other, other⟩ ⟨token.logits row, row⟩ = false
  only_after : ∀ before, before <+: arrivals → (Worker.start.arrivals owner token before).sent ≠ [] →
    ∀ frame ∈ tokenFrames ways, frame ∈ before

def Arrival.rank? : Arrival → Option Nat
  | .splitPartial rank => some rank
  | _ => none

def partialsAfterConfig (arrivals : List Arrival) : List Nat :=
  (arrivals.dropWhile (· ≠ .config)).filterMap Arrival.rank?

/-- Config and input are there, and as many partials after the config as there are other slices. -/
def Completes (ways : Nat) (arrivals : List Arrival) : Prop :=
  .config ∈ arrivals ∧ .input ∈ arrivals ∧ ways - 1 ≤ (partialsAfterConfig arrivals).length

/-- `n` is the first moment at which the arrivals complete, with no more partials than the handoff
holds. -/
structure CompletesAt (ways : Nat) (arrivals : List Arrival) (n : Nat) : Prop where
  bound : n ≤ arrivals.length
  now : Completes ways (arrivals.take n)
  first : ∀ m, m < n → ¬ Completes ways (arrivals.take m)
  fits : (partialsAfterConfig (arrivals.take n)).length ≤ splitWaysMax

/-- When the frames first complete, the partials that have come after the config are of all the other
slice ranks; what comes later does not complete again. -/
def Orderly (ways : Nat) (arrivals : List Arrival) : Prop :=
  ∃ n, CompletesAt ways arrivals n ∧
    (∀ rank ∈ otherRanks ways, rank ∈ partialsAfterConfig (arrivals.take n)) ∧
    ∀ m, ¬ CompletesAt ways (arrivals.drop n) m

section Order

/-- The place of a finalist: non-finite values first, then by falling value, then by row; padding last. -/
def Finalist.key (finalist : Finalist) : Nat ×ₗ Int ×ₗ Nat :=
  if finalist.id = paddingId then toLex (2, toLex (0, 0))
  else if finalist.value.isFinite = false then toLex (0, toLex (0, finalist.id))
  else toLex (1, toLex (-finalist.value.order, finalist.id))

theorem outputBetter_iff_key (left right : Finalist) : outputBetter left right = true ↔ left.key < right.key := by
  unfold outputBetter Finalist.key
  by_cases hl : left.id = paddingId <;> by_cases hr : right.id = paddingId <;>
    cases hlf : left.value.isFinite <;> cases hrf : right.value.isFinite <;>
    simp [hl, hr, Prod.Lex.toLex_lt_toLex]

theorem outputBetter_false_iff (left right : Finalist) : outputBetter left right = false ↔ right.key ≤ left.key := by
  rw [← Bool.not_eq_true, outputBetter_iff_key, not_lt]

theorem outputCombine_key (left right : Finalist) : (outputCombine left right).key = min left.key right.key := by
  unfold outputCombine
  split_ifs with hbetter
  · exact (min_eq_left ((outputBetter_iff_key left right).mp hbetter).le).symm
  · rw [Bool.not_eq_true, outputBetter_false_iff] at hbetter
    exact (min_eq_right hbetter).symm

theorem outputCombine_mem (left right : Finalist) :
    outputCombine left right = left ∨ outputCombine left right = right := by
  unfold outputCombine
  split_ifs
  · exact .inl rfl
  · exact .inr rfl

/-- No entry comes before `winner`. -/
def Best (entries : List Finalist) (winner : Finalist) : Prop :=
  winner ∈ entries ∧ ∀ entry ∈ entries, winner.key ≤ entry.key

theorem Best.combine {entries others : List Finalist} {a b : Finalist} (ha : Best entries a) (hb : Best others b) :
    Best (entries ++ others) (outputCombine b a) := by
  have hkey := outputCombine_key b a
  refine ⟨?_, fun entry hentry => ?_⟩
  · rcases outputCombine_mem b a with heq | heq
    · rw [heq]
      exact mem_append_right _ hb.1
    · rw [heq]
      exact mem_append_left _ ha.1
  · rw [hkey]
    rcases mem_append.mp hentry with hfirst | hlater
    · exact (min_le_right _ _).trans (ha.2 entry hfirst)
    · exact (min_le_left _ _).trans (hb.2 entry hlater)

theorem best_singleton (entry : Finalist) : Best [entry] entry :=
  ⟨mem_singleton_self _, fun _ hother => mem_singleton.mp hother ▸ le_rfl⟩

theorem best_foldl {entries : List Finalist} {first : Finalist} (h : Best entries first) (rest : List Finalist) :
    Best (entries ++ rest) (rest.foldl (fun combined entry => outputCombine entry combined) first) := by
  induction rest generalizing entries first with
  | nil => rwa [append_nil]
  | cons entry rest ih =>
    have hnext := ih (h.combine (best_singleton entry))
    rwa [append_assoc, singleton_append] at hnext

end Order

section Spans

section

variable (hways : ways = 2 ∨ ways = 4)
include hways

theorem vocab_covered {row : Nat} (hrow : row < vocabSize) : ∃ way, way < ways ∧ InSpan ways way row := by
  unfold vocabSize at hrow
  rcases hways with rfl | rfl
  · by_cases hfirst : row < splitFirstRows
    · exact ⟨0, by omega, by simp [InSpan, splitSpan, splitWaysMin, hfirst]⟩
    · refine ⟨1, by omega, ?_⟩
      simp only [InSpan, splitSpan, splitWaysMin, splitFirstRows, vocabSize] at hfirst ⊢
      simp only [if_true, Nat.one_ne_zero, if_false]
      omega
  · refine ⟨min (row / 62080) 3, by omega, ?_⟩
    have hcases : row / 62080 = 0 ∨ row / 62080 = 1 ∨ row / 62080 = 2 ∨ row / 62080 = 3 := by omega
    rcases hcases with h | h | h | h <;> rw [h] <;>
      simp [InSpan, splitSpan, splitWaysMin, splitWaysMax, vocabSize] <;> omega

theorem InSpan.lt_vocab {way row : Nat} (h : InSpan ways way row) : row < vocabSize := by
  unfold InSpan splitSpan at h
  unfold vocabSize splitWaysMin splitWaysMax splitFirstRows at *
  rcases hways with rfl | rfl
  · split_ifs at h <;> simp only at h <;> omega
  · split_ifs at h <;> simp only at h <;> omega

theorem InSpan.way_unique {way other row : Nat} (h : InSpan ways way row)
    (hother : InSpan ways other row) : way = other := by
  unfold InSpan splitSpan at h hother
  unfold vocabSize splitWaysMin splitWaysMax splitFirstRows at *
  rcases hways with rfl | rfl
  · split_ifs at h hother <;> simp only at h hother <;> omega
  · split_ifs at h hother <;> simp only at h hother <;> omega

theorem otherRanks_way {rank : Nat} (h : rank ∈ otherRanks ways) :
    splitWayForRank ways rank = some (wayOf ways rank) ∧ wayOf ways rank < ways ∧ 0 < wayOf ways rank ∧
      rank ≠ outputRank := by
  rcases hways with rfl | rfl
  · rw [mem_singleton.mp h]
    decide
  · have hcases : rank = 0 ∨ rank = 1 ∨ rank = 2 := by simpa [otherRanks, splitWaysMin] using h
    rcases hcases with rfl | rfl | rfl
    · decide
    · decide
    · decide

theorem wayOf_injective {rank other : Nat} (hrank : rank ∈ otherRanks ways)
    (hother : other ∈ otherRanks ways) (h : wayOf ways rank = wayOf ways other) : rank = other := by
  rcases hways with rfl | rfl
  · rw [mem_singleton.mp hrank, mem_singleton.mp hother]
  · have hinverse : ∀ r ∈ otherRanks 4, wayOf 4 r = r + 1 := by decide
    rw [hinverse rank hrank, hinverse other hother] at h
    omega

theorem exists_otherRank {way : Nat} (hway : way < ways) (hpos : 0 < way) :
    ∃ rank ∈ otherRanks ways, wayOf ways rank = way := by
  rcases hways with rfl | rfl
  · exact ⟨0, by decide, by rw [show way = 1 by omega]; decide⟩
  · have hcases : way = 1 ∨ way = 2 ∨ way = 3 := by omega
    rcases hcases with rfl | rfl | rfl
    · exact ⟨0, by decide, by decide⟩
    · exact ⟨1, by decide, by decide⟩
    · exact ⟨2, by decide, by decide⟩

end

end Spans

section Combining

variable (token : SplitToken Activation ways)

/-- What the combination of the own winner with the partials of `ranks` comes to. -/
def SplitToken.merged (ranks : List Nat) : Finalist :=
  ranks.foldl (fun combined rank => outputCombine (token.winner (wayOf ways rank)) combined) (token.winner 0)

theorem SplitToken.merged_spec (ranks : List Nat) :
    (token.merged ranks = token.winner 0 ∨
        ∃ rank ∈ ranks, token.merged ranks = token.winner (wayOf ways rank)) ∧
      (token.merged ranks).key ≤ (token.winner 0).key ∧
      ∀ rank ∈ ranks, (token.merged ranks).key ≤ (token.winner (wayOf ways rank)).key := by
  have hbest := best_foldl (best_singleton (token.winner 0)) (ranks.map fun rank => token.winner (wayOf ways rank))
  rw [foldl_map, singleton_append] at hbest
  refine ⟨?_, hbest.2 _ mem_cons_self, fun rank hrank => hbest.2 _ (mem_cons_of_mem _ (mem_map_of_mem hrank))⟩
  rcases mem_cons.mp hbest.1 with heq | hmem
  · exact .inl heq
  · obtain ⟨rank, hrank, heq⟩ := mem_map.mp hmem
    exact .inr ⟨rank, hrank, heq.symm⟩

theorem SplitToken.merged_way (hways : ways = 2 ∨ ways = 4) {ranks : List Nat}
    (hranks : ∀ rank ∈ ranks, rank ∈ otherRanks ways) :
    ∃ way, way < ways ∧ token.merged ranks = token.winner way ∧
      (way = 0 ∨ ∃ rank ∈ ranks, wayOf ways rank = way) := by
  rcases (token.merged_spec ranks).1 with hzero | ⟨rank, hrank, hwinner⟩
  · exact ⟨0, by omega, hzero, .inl rfl⟩
  · exact ⟨_, (otherRanks_way hways (hranks rank hrank)).2.1, hwinner, .inr ⟨rank, hrank, rfl⟩⟩

theorem combineRemotes_eq (hways : ways = 2 ∨ ways = 4) (ranks : List Nat) (combined : Finalist)
    (hranks : ∀ rank ∈ ranks, rank ∈ otherRanks ways) :
    combineRemotes ways (ranks.map fun rank => (rank, token.winner (wayOf ways rank))) combined =
      .ok (ranks.foldl (fun combined rank => outputCombine (token.winner (wayOf ways rank)) combined)
        combined) := by
  induction ranks generalizing combined with
  | nil => rfl
  | cons rank rest ih =>
    obtain ⟨hway, hlt, -, -⟩ := otherRanks_way hways (hranks rank mem_cons_self)
    simp only [map_cons, combineRemotes, hway, if_pos (token.inSpan _ hlt), foldl_cons]
    exact ih _ (forall_mem_cons.mp hranks).2

/-- The result frame for the partials of `ranks`. -/
def SplitToken.result (ranks : List Nat) : OutputResult :=
  ⟨outputRank, 0, token.tokenIndex, (token.merged ranks).id, (token.merged ranks).value⟩

theorem splitCombine_send (hways : ways = 2 ∨ ways = 4) {ranks : List Nat}
    (hranks : ∀ rank ∈ ranks, rank ∈ otherRanks ways) :
    splitCombine ways (token.winner 0) (ranks.map fun rank => (rank, token.winner (wayOf ways rank))) =
        .ok (token.merged ranks) ∧
      (sendResult token.config (token.merged ranks) :
        Except Error (Handoff Activation × List OutputResult)) = .ok (.reset, [token.result ranks]) := by
  obtain ⟨way, hway, hmerged, -⟩ := token.merged_way hways hranks
  have hid : ¬ vocabSize ≤ (token.merged ranks).id := by
    rw [hmerged]
    exact Nat.not_le.mpr ((token.inSpan way hway).lt_vocab hways)
  have hfinite : ¬ (token.merged ranks).value.isFinite = false := by
    rw [hmerged, token.finite way hway]
    simp
  constructor
  · unfold splitCombine
    rw [combineRemotes_eq token hways ranks _ hranks]
    change (if vocabSize ≤ (token.merged ranks).id ∨ (token.merged ranks).value.isFinite = false then _
      else _) = _
    rw [if_neg (not_or.mpr ⟨hid, hfinite⟩)]
    rfl
  · unfold sendResult validateOutputResult
    simp only [ne_eq, not_true_eq_false, false_or]
    rw [if_neg]
    · rfl
    · rintro (hrank | hrest)
      · exact absurd hrank (by decide)
      · exact hrest.elim hid hfinite

end Combining

section Pending

variable {seen : List Arrival}

theorem dropWhile_no_config (h : .config ∉ seen) : seen.dropWhile (· ≠ Arrival.config) = [] := by
  rw [dropWhile_eq_nil_iff]
  intro arrival harrival
  simpa using fun heq : arrival = .config => h (heq ▸ harrival)

theorem partialsAfterConfig_nil (h : .config ∉ seen) : partialsAfterConfig seen = [] := by
  unfold partialsAfterConfig
  rw [dropWhile_no_config h, filterMap_nil]

theorem partialsAfterConfig_append (seen : List Arrival) (arrival : Arrival) :
    partialsAfterConfig (seen ++ [arrival]) =
      partialsAfterConfig seen ++ (if .config ∈ seen then arrival.rank?.toList else []) := by
  unfold partialsAfterConfig
  rw [dropWhile_append]
  by_cases hconfig : .config ∈ seen
  · have hkeep : (seen.dropWhile (· ≠ Arrival.config)).isEmpty = false := by
      rw [isEmpty_eq_false_iff, ne_eq, dropWhile_eq_nil_iff]
      exact fun hall => absurd (hall _ hconfig) (by simp)
    rw [hkeep, if_pos hconfig]
    simp only [Bool.false_eq_true, if_false, filterMap_append]
    cases arrival <;> rfl
  · rw [dropWhile_no_config hconfig, if_neg hconfig]
    cases arrival <;> rfl

variable (token : SplitToken Activation ways) (owner : Owner Activation)

/-- The handoff after some arrivals that have not completed yet. -/
def SplitToken.pending (seen : List Arrival) : Handoff Activation where
  config := if .config ∈ seen then some token.config else none
  hidden := if ways ≠ splitWaysMax ∧ .input ∈ seen then some (token.hidden owner) else none
  hiddenSlice := if ways = splitWaysMax ∧ .input ∈ seen then some (token.hidden owner) else none
  own := if .config ∈ seen ∧ .input ∈ seen then some (token.winner 0) else none
  remotes := (partialsAfterConfig seen).map fun rank => (rank, token.winner (wayOf ways rank))

theorem handoffFlush_pending (hways : ways = 2 ∨ ways = 4) (hserves : owner.Serves token)
    (hranks : ∀ rank ∈ partialsAfterConfig seen, rank ∈ otherRanks ways)
    {own : Option Finalist}
    (hown : own = none ∨ (own = some (token.winner 0) ∧ .config ∈ seen ∧ .input ∈ seen)) :
    (Completes ways seen ∧ handoffFlush owner { token.pending owner seen with own := own } =
        .ok (.reset, [token.result (partialsAfterConfig seen)])) ∨
      (¬ Completes ways seen ∧ handoffFlush owner { token.pending owner seen with own := own } =
        .ok (token.pending owner seen, [])) := by
  by_cases hconfig : .config ∈ seen
  · by_cases hinput : .input ∈ seen
    · -- both halves are there: the own slice is known, the partials decide
      have hsplit : splitWays token.config = ways := by
        rcases hways with rfl | rfl
        · rfl
        · rfl
      have hready : readyInput { token.pending owner seen with own := own } token.config = some token.input := by
        unfold readyInput SplitToken.pending SplitToken.config
        rcases hways with rfl | rfl
        · simp [splitWaysMax, hinput, SplitToken.hidden]
        · simp [splitWaysMax, hinput, SplitToken.hidden]
      have hfinalist : ownFinalist owner { token.pending owner seen with own := own } token.input =
          .ok (token.winner 0) := by
        rcases hown with rfl | ⟨rfl, -⟩
        · exact hserves.run
        · rfl
      have hflush : handoffFlush owner { token.pending owner seen with own := own } =
          flushSplit owner { token.pending owner seen with own := own } token.config token.input := by
        unfold handoffFlush
        simp only [SplitToken.pending, if_pos hconfig]
        rw [if_pos ⟨rfl, rfl⟩]
        have hready' := hready
        simp only [SplitToken.pending, if_pos hconfig] at hready'
        rw [hready']
      have hlength : (token.pending owner seen).remotes.length = (partialsAfterConfig seen).length :=
        length_map _
      rw [hflush]
      unfold flushSplit
      simp only [hserves.held, hsplit, ne_eq, not_true_eq_false, if_false, hfinalist]
      by_cases hcount : ways - 1 ≤ (partialsAfterConfig seen).length
      · refine .inl ⟨⟨hconfig, hinput, hcount⟩, ?_⟩
        rw [if_neg (by rw [hlength]; omega)]
        obtain ⟨hcombine, hsend⟩ := splitCombine_send token hways hranks
        have hremotes : (token.pending owner seen).remotes =
            (partialsAfterConfig seen).map fun rank => (rank, token.winner (wayOf ways rank)) := rfl
        rw [hremotes, hcombine]
        exact hsend
      · refine .inr ⟨fun hcomplete => hcount hcomplete.2.2, ?_⟩
        rw [if_pos (by rw [hlength]; omega)]
        simp only [SplitToken.pending, hconfig, hinput, and_self, if_true]
    · refine .inr ⟨fun hcomplete => hinput hcomplete.2.1, ?_⟩
      have hnone : own = none := hown.resolve_right fun h => hinput h.2.2
      unfold handoffFlush
      simp only [SplitToken.pending, hconfig, hinput, hnone, readyInput, and_false, if_false, if_true,
        SplitToken.config, and_self]
      split_ifs <;> rfl
  · refine .inr ⟨fun hcomplete => hconfig hcomplete.1, ?_⟩
    have hnone : own = none := hown.resolve_right fun h => hconfig h.2.1
    unfold handoffFlush
    simp only [SplitToken.pending, hconfig, hnone, if_false, false_and]

variable {arrival : Arrival}

theorem mem_append_config (h : arrival ≠ .config) : .config ∈ seen ++ [arrival] ↔ .config ∈ seen := by
  simp [h.symm]

theorem mem_append_input (h : arrival ≠ .input) : .input ∈ seen ++ [arrival] ↔ .input ∈ seen := by
  simp [h.symm]

theorem handoffConfig_pending (seen : List Arrival) :
    handoffConfig (token.pending owner seen) token.config =
      { token.pending owner (seen ++ [.config]) with own := (token.pending owner seen).own } := by
  have hinput : .input ∈ seen ++ [.config] ↔ .input ∈ seen := mem_append_input (by simp)
  have hpartials : partialsAfterConfig (seen ++ [.config]) = partialsAfterConfig seen := by
    rw [partialsAfterConfig_append]
    simp [Arrival.rank?]
  by_cases hconfig : .config ∈ seen
  · simp [handoffConfig, SplitToken.pending, hconfig, hinput, hpartials, holds]
  · have hnil := partialsAfterConfig_nil hconfig
    by_cases hways : ways = splitWaysMax
    · by_cases hseen : .input ∈ seen
      · simp [handoffConfig, SplitToken.pending, SplitToken.config, SplitToken.hidden, hconfig, hinput,
          hpartials, hnil, holds, hways, hseen, Handoff.clearPartials]
      · simp [handoffConfig, SplitToken.pending, hconfig, hinput, hpartials, hnil, holds, hways, hseen,
          Handoff.clearPartials]
    · by_cases hseen : .input ∈ seen
      · simp [handoffConfig, SplitToken.pending, SplitToken.config, SplitToken.hidden, hconfig, hinput,
          hpartials, hnil, holds, hways, hseen, Handoff.clearPartials]
      · simp [handoffConfig, SplitToken.pending, hconfig, hinput, hpartials, hnil, holds, hways, hseen,
          Handoff.clearPartials]

theorem partialsAfterConfig_input (seen : List Arrival) :
    partialsAfterConfig (seen ++ [.input]) = partialsAfterConfig seen := by
  rw [partialsAfterConfig_append]
  simp [Arrival.rank?]

theorem handoffSettle_pending (seen : List Arrival) :
    handoffSettle (token.pending owner seen) token.tokenIndex = token.pending owner seen := by
  by_cases hconfig : .config ∈ seen
  · simp [handoffSettle, SplitToken.pending, SplitToken.config, hconfig, holds]
  · simp [handoffSettle, SplitToken.pending, hconfig, holds, Handoff.clearPartials, partialsAfterConfig_nil hconfig]

theorem config_not_newer (seen : List Arrival) :
    holds (token.pending owner seen).config OutputConfig.tokenIndex
      (fun stored => decide (token.tokenIndex < stored)) = false := by
  by_cases hsent : .config ∈ seen
  · simp [SplitToken.pending, SplitToken.config, hsent, holds]
  · simp [SplitToken.pending, hsent, holds]

theorem handoffInput_pending (seen : List Arrival) :
    (if ways = splitWaysMax then handoffHiddenSlice (token.pending owner seen) (token.hidden owner)
      else handoffHidden (token.pending owner seen) (token.hidden owner)) =
        { token.pending owner (seen ++ [.input]) with own := (token.pending owner seen).own } := by
  have hconfig : .config ∈ seen ++ [.input] ↔ .config ∈ seen := mem_append_config (by simp)
  by_cases hseen : .input ∈ seen
  · split
    all_goals
      rename_i hways
      simp [handoffHiddenSlice, handoffHidden, SplitToken.pending, SplitToken.hidden, hconfig, hways, hseen, holds,
        partialsAfterConfig_input]
  · have hnone : (token.pending owner seen).hidden = none := by simp [SplitToken.pending, hseen]
    have hslice : (token.pending owner seen).hiddenSlice = none := by simp [SplitToken.pending, hseen]
    have hequal := @config_not_newer _ _ token owner seen
    have hhidden : (token.hidden owner).tokenIndex = token.tokenIndex := rfl
    unfold holds at hequal
    unfold handoffHiddenSlice handoffHidden
    simp only [hnone, hslice, hhidden, holds, Option.any_none, Bool.false_eq_true, if_false]
    rw [hequal, handoffSettle_pending]
    split
    all_goals
      rename_i hways
      simp [SplitToken.pending, hconfig, hways, hseen, partialsAfterConfig_input]

theorem tokenFrames_rank {rank : Nat} (h : .splitPartial rank ∈ tokenFrames ways) : rank ∈ otherRanks ways := by
  simpa [tokenFrames] using h

theorem partialsAfterConfig_ranks (h : ∀ arrival ∈ seen, arrival ∈ tokenFrames ways) :
    ∀ rank ∈ partialsAfterConfig seen, rank ∈ otherRanks ways := by
  intro rank hrank
  obtain ⟨arrival, harrival, hrank⟩ := mem_filterMap.mp hrank
  have hframe := h arrival ((dropWhile_sublist _).mem harrival)
  cases arrival with
  | config => cases hrank
  | input => cases hrank
  | splitPartial other =>
    cases hrank
    exact tokenFrames_rank hframe

theorem pending_own (seen : List Arrival) (arrival : Arrival) :
    (token.pending owner seen).own = none ∨ ((token.pending owner seen).own = some (token.winner 0) ∧
      .config ∈ seen ++ [arrival] ∧ .input ∈ seen ++ [arrival]) := by
  unfold SplitToken.pending
  dsimp only
  split_ifs with hboth
  · exact .inr ⟨rfl, mem_append_left _ hboth.1, mem_append_left _ hboth.2⟩
  · exact .inl rfl

theorem handlePartial_pending (hways : ways = 2 ∨ ways = 4) (hserves : owner.Serves token) {rank : Nat}
    (hrank : rank ∈ otherRanks ways) (seen : List Arrival) :
    if .config ∈ seen then
      if splitWaysMax ≤ (partialsAfterConfig seen).length then
        ∃ err, handleMessage owner (token.pending owner seen) (token.message owner (.splitPartial rank)) =
          .error err
      else
        handleMessage owner (token.pending owner seen) (token.message owner (.splitPartial rank)) =
          handoffFlush owner { token.pending owner (seen ++ [.splitPartial rank]) with
            own := (token.pending owner seen).own }
    else
      handleMessage owner (token.pending owner seen) (token.message owner (.splitPartial rank)) =
        .ok (token.pending owner (seen ++ [.splitPartial rank]), []) := by
  obtain ⟨hway, hlt, -, hother⟩ := otherRanks_way hways hrank
  have hid : ¬ vocabSize ≤ (token.winner (wayOf ways rank)).id :=
    Nat.not_le.mpr ((token.inSpan _ hlt).lt_vocab hways)
  have hinput : .input ∈ seen ++ [.splitPartial rank] ↔ .input ∈ seen := mem_append_input (by simp)
  have hconfigs : .config ∈ seen ++ [.splitPartial rank] ↔ .config ∈ seen := mem_append_config (by simp)
  have hpartials := partialsAfterConfig_append seen (.splitPartial rank)
  simp only [handleMessage, SplitToken.message, handleOutputPartial, hserves.held, hserves.session, hid,
    token.finite _ hlt, hway, hother, ne_eq, not_true_eq_false, reduceCtorEq, or_self, if_false]
  by_cases hconfig : .config ∈ seen
  · have hsome : (token.pending owner seen).config = some token.config := by
      simp [SplitToken.pending, hconfig]
    have hisNone : (token.pending owner seen).config.isNone = false := by simp [hsome]
    rw [if_pos hconfig]
    by_cases hfull : splitWaysMax ≤ (partialsAfterConfig seen).length
    · have hpartial : handoffPartial (token.pending owner seen) token.tokenIndex rank
          (token.winner (wayOf ways rank)) = .error ⟨.limit, "too many output handoff partials"⟩ := by
        simp [handoffPartial, holds, SplitToken.config, SplitToken.pending, hfull, hconfig]
      rw [if_pos hfull, hisNone, hpartial]
      exact ⟨_, rfl⟩
    · have hpartial : handoffPartial (token.pending owner seen) token.tokenIndex rank
          (token.winner (wayOf ways rank)) =
          .ok { token.pending owner (seen ++ [.splitPartial rank]) with
            own := (token.pending owner seen).own } := by
        simp [handoffPartial, holds, SplitToken.config, SplitToken.pending, hfull, hconfig, hconfigs, hinput,
          hpartials, Arrival.rank?]
      rw [if_neg hfull, hisNone, hpartial]
      rfl
  · rw [if_neg hconfig]
    simp [SplitToken.pending, hconfig, hconfigs, hinput, hpartials]

theorem handleMessage_pending (hways : ways = 2 ∨ ways = 4) (hserves : owner.Serves token)
    (hframes : ∀ frame ∈ seen ++ [arrival], frame ∈ tokenFrames ways)
    (hfits : (partialsAfterConfig seen).length ≤ splitWaysMax) :
    (splitWaysMax < (partialsAfterConfig (seen ++ [arrival])).length ∧
      ∃ err, handleMessage owner (token.pending owner seen) (token.message owner arrival) = .error err) ∨
    ((partialsAfterConfig (seen ++ [arrival])).length ≤ splitWaysMax ∧
      ((Completes ways (seen ++ [arrival]) ∧
          handleMessage owner (token.pending owner seen) (token.message owner arrival) =
            .ok (.reset, [token.result (partialsAfterConfig (seen ++ [arrival]))])) ∨
        (¬ Completes ways (seen ++ [arrival]) ∧
          handleMessage owner (token.pending owner seen) (token.message owner arrival) =
            .ok (token.pending owner (seen ++ [arrival]), [])))) := by
  have hflush := handoffFlush_pending token owner hways hserves (partialsAfterConfig_ranks hframes)
    (pending_own token owner seen arrival)
  cases arrival with
  | config =>
    refine .inr ⟨?_, ?_⟩
    · rw [partialsAfterConfig_append]
      simpa [Arrival.rank?] using hfits
    · have hhandle : handleMessage owner (token.pending owner seen) (token.message owner .config) =
          handoffFlush owner (handoffConfig (token.pending owner seen) token.config) := by
        simp [handleMessage, SplitToken.message, handleOutputConfig, hserves.eligible, hserves.session,
          SplitToken.config]
      rw [hhandle, handoffConfig_pending]
      exact hflush
  | input =>
    refine .inr ⟨?_, ?_⟩
    · rw [partialsAfterConfig_input]
      exact hfits
    · have hhandle : handleMessage owner (token.pending owner seen) (token.message owner .input) =
          handoffFlush owner
            (if ways = splitWaysMax then handoffHiddenSlice (token.pending owner seen) (token.hidden owner)
              else handoffHidden (token.pending owner seen) (token.hidden owner)) := by
        by_cases hfour : ways = splitWaysMax
        · simp [handleMessage, SplitToken.message, handleOutputSliceHidden, hserves.eligible, hserves.session,
            hserves.held, hfour, Misrouted, SplitToken.hidden]
        · simp [handleMessage, SplitToken.message, handleOutputHidden, hserves.eligible, hserves.session, hfour,
            Misrouted, SplitToken.hidden]
      rw [hhandle, handoffInput_pending]
      exact hflush
  | splitPartial rank =>
    have hrank := tokenFrames_rank (hframes (.splitPartial rank) (mem_append_right _ (mem_singleton_self _)))
    have hhandle := handlePartial_pending token owner hways hserves hrank seen
    have hpartials := partialsAfterConfig_append seen (.splitPartial rank)
    have hconfigs : .config ∈ seen ++ [.splitPartial rank] ↔ .config ∈ seen := mem_append_config (by simp)
    by_cases hconfig : .config ∈ seen
    · rw [if_pos hconfig] at hhandle hpartials
      have hlength : (partialsAfterConfig (seen ++ [.splitPartial rank])).length =
          (partialsAfterConfig seen).length + 1 := by
        rw [hpartials, length_append]
        rfl
      by_cases hfull : splitWaysMax ≤ (partialsAfterConfig seen).length
      · rw [if_pos hfull] at hhandle
        exact .inl ⟨by omega, hhandle⟩
      · rw [if_neg hfull] at hhandle
        rw [hhandle]
        exact .inr ⟨by omega, hflush⟩
    · rw [if_neg hconfig] at hhandle hpartials
      rw [append_nil] at hpartials
      exact .inr ⟨hpartials ▸ hfits, .inr ⟨fun hcomplete => hconfig (hconfigs.mp hcomplete.1), hhandle⟩⟩

end Pending

section Runs

theorem partialsAfterConfig_extends (seen more : List Arrival) :
    partialsAfterConfig seen <+: partialsAfterConfig (seen ++ more) := by
  induction more using List.reverseRecOn with
  | nil => simp
  | append_singleton more arrival ih =>
    rw [← append_assoc, partialsAfterConfig_append]
    exact ih.trans (prefix_append _ _)

theorem Completes.append {seen : List Arrival} (h : Completes ways seen) (more : List Arrival) :
    Completes ways (seen ++ more) :=
  ⟨mem_append_left _ h.1, mem_append_left _ h.2.1, h.2.2.trans (partialsAfterConfig_extends seen more).length_le⟩

variable {arrivals : List Arrival}

theorem Completes.mono {m n : Nat} (h : Completes ways (arrivals.take m))
    (hle : m ≤ n) : Completes ways (arrivals.take n) := by
  have htake : arrivals.take m = (arrivals.take n).take m := by rw [take_take, min_eq_left hle]
  rw [htake] at h
  have happend := h.append ((arrivals.take n).drop m)
  rwa [take_append_drop] at happend

theorem CompletesAt.unique {m n : Nat} (hm : CompletesAt ways arrivals m)
    (hn : CompletesAt ways arrivals n) : m = n := by
  rcases Nat.lt_trichotomy m n with hlt | heq | hgt
  · exact absurd hm.now (hn.first m hlt)
  · exact heq
  · exact absurd hn.now (hm.first n hgt)

variable (token : SplitToken Activation ways) (owner : Owner Activation)

theorem Worker.arrivals_append (worker : Worker Activation) (first rest : List Arrival) :
    worker.arrivals owner token (first ++ rest) = (worker.arrivals owner token first).arrivals owner token rest :=
  foldl_append

theorem Worker.arrivals_stopped {worker : Worker Activation} {err : Error} (h : worker.stopped = some err)
    (rest : List Arrival) : worker.arrivals owner token rest = worker := by
  induction rest with
  | nil => rfl
  | cons arrival rest ih =>
    have hreceive : worker.receive owner (token.message owner arrival) = worker := by
      unfold Worker.receive
      rw [h]
    change (worker.receive owner (token.message owner arrival)).arrivals owner token rest = worker
    rw [hreceive]
    exact ih

theorem Worker.arrivals_pending (hways : ways = 2 ∨ ways = 4) (hserves : owner.Serves token)
    (sent : List OutputResult) (rest seen : List Arrival)
    (hframes : ∀ frame ∈ seen ++ rest, frame ∈ tokenFrames ways) (hnot : ¬ Completes ways seen)
    (hfits : (partialsAfterConfig seen).length ≤ splitWaysMax) :
    (∃ n, CompletesAt ways (seen ++ rest) (seen.length + n) ∧
        Worker.arrivals owner token ⟨token.pending owner seen, sent, none⟩ (rest.take n) =
          ⟨.reset, sent ++ [token.result (partialsAfterConfig ((seen ++ rest).take (seen.length + n)))], none⟩ ∧
        ∀ k, k < n →
          (Worker.arrivals owner token ⟨token.pending owner seen, sent, none⟩ (rest.take k)).sent = sent) ∨
      ((∀ n, ¬ CompletesAt ways (seen ++ rest) n) ∧
        ∀ k, (Worker.arrivals owner token ⟨token.pending owner seen, sent, none⟩ (rest.take k)).sent = sent) := by
  have hearly : ∀ m, m ≤ seen.length → ¬ Completes ways ((seen ++ rest).take m) := by
    intro m hm hcomplete
    refine hnot ?_
    have hall := hcomplete.mono hm
    rwa [take_left] at hall
  induction rest generalizing seen with
  | nil =>
    rw [append_nil] at hearly ⊢
    refine .inr ⟨fun n hn => hearly n hn.bound hn.now, fun k => ?_⟩
    rw [take_nil]
    rfl
  | cons arrival rest ih =>
    have hsplit : seen ++ arrival :: rest = (seen ++ [arrival]) ++ rest := by simp
    have htake : (seen ++ arrival :: rest).take (seen.length + 1) = seen ++ [arrival] := by
      rw [hsplit, ← length_singleton (a := arrival), ← length_append, take_left]
    have hrest : ∀ k, (arrival :: rest).take (k + 1) = arrival :: rest.take k := fun _ => rfl
    have hframe : ∀ frame ∈ seen ++ [arrival], frame ∈ tokenFrames ways := fun frame hmem =>
      hframes frame (hsplit ▸ mem_append_left _ hmem)
    have hstep : ∀ worker : Worker Activation, ∀ k,
        worker.arrivals owner token (arrival :: rest.take k) =
          (worker.receive owner (token.message owner arrival)).arrivals owner token (rest.take k) :=
      fun _ _ => rfl
    rcases handleMessage_pending token owner hways hserves hframe hfits with
      ⟨hover, err, herr⟩ | ⟨hnext, ⟨hcomplete, hok⟩ | ⟨hopen, hok⟩⟩
    · -- the fifth partial ends the worker
      refine .inr ⟨fun n hn => ?_, fun k => ?_⟩
      · have hlate : seen.length + 1 ≤ n := by
          by_contra hlt
          exact hearly n (by omega) hn.now
        have hprefix : (seen ++ [arrival]) <+: (seen ++ arrival :: rest).take n := by
          rw [← htake]
          exact take_prefix_take_left hlate
        obtain ⟨more, hmore⟩ := hprefix
        have hlength := (partialsAfterConfig_extends (seen ++ [arrival]) more).length_le
        rw [hmore] at hlength
        exact absurd hn.fits (by omega)
      · cases k with
        | zero => rfl
        | succ k =>
          have hreceive : (Worker.mk (token.pending owner seen) sent none).receive owner
              (token.message owner arrival) = ⟨token.pending owner seen, sent, some err⟩ := by
            simp only [Worker.receive, herr]
          rw [hrest, hstep, hreceive, Worker.arrivals_stopped token owner rfl]
    · refine .inl ⟨1, ⟨?_, htake ▸ hcomplete, fun m hm => hearly m (by omega), htake ▸ hnext⟩, ?_, ?_⟩
      · rw [hsplit, length_append, length_append]
        simp only [length_singleton]
        omega
      · have hreceive : (Worker.mk (token.pending owner seen) sent none).receive owner
            (token.message owner arrival) =
            ⟨.reset, sent ++ [token.result (partialsAfterConfig (seen ++ [arrival]))], none⟩ := by
          simp only [Worker.receive, hok]
        rw [hrest, hstep, hreceive, htake]
        rfl
      · intro k hk
        rw [show k = 0 by omega]
        rfl
    · have hreceive : (Worker.mk (token.pending owner seen) sent none).receive owner
          (token.message owner arrival) = ⟨token.pending owner (seen ++ [arrival]), sent, none⟩ := by
        simp only [Worker.receive, hok, append_nil]
      have hlength : (seen ++ [arrival]).length = seen.length + 1 := by simp
      have hlater : ∀ m, m ≤ (seen ++ [arrival]).length → ¬ Completes ways (((seen ++ [arrival]) ++ rest).take m) := by
        intro m hm hcomplete
        refine hopen ?_
        have hall := hcomplete.mono hm
        rwa [take_left] at hall
      rcases ih (seen ++ [arrival]) (hsplit ▸ hframes) hopen hnext hlater with
        ⟨n, hcompletes, hrun, hbefore⟩ | ⟨hnever, hsent⟩
      · refine .inl ⟨n + 1, ?_, ?_, fun k hk => ?_⟩
        · rw [hsplit, show seen.length + (n + 1) = (seen ++ [arrival]).length + n by omega]
          exact hcompletes
        · rw [hrest, hstep, hreceive, hrun, hsplit,
            show seen.length + (n + 1) = (seen ++ [arrival]).length + n by omega]
        · cases k with
          | zero => rfl
          | succ k =>
            rw [hrest, hstep, hreceive]
            exact hbefore k (by omega)
      · refine .inr ⟨fun n hn => hnever n (hsplit ▸ hn), fun k => ?_⟩
        cases k with
        | zero => rfl
        | succ k =>
          rw [hrest, hstep, hreceive]
          exact hsent k

theorem pending_nil : token.pending owner [] = .reset := by
  simp [SplitToken.pending, partialsAfterConfig, Handoff.reset]

theorem not_completes_nil : ¬ Completes ways [] := fun h => absurd h.1 not_mem_nil

theorem Worker.arrivals_fresh (hways : ways = 2 ∨ ways = 4) (hserves : owner.Serves token)
    (sent : List OutputResult) (rest : List Arrival) (hframes : ∀ frame ∈ rest, frame ∈ tokenFrames ways) :
    (∃ n, CompletesAt ways rest n ∧
        Worker.arrivals owner token ⟨.reset, sent, none⟩ (rest.take n) =
          ⟨.reset, sent ++ [token.result (partialsAfterConfig (rest.take n))], none⟩ ∧
        ∀ k, k < n → (Worker.arrivals owner token ⟨.reset, sent, none⟩ (rest.take k)).sent = sent) ∨
      ((∀ n, ¬ CompletesAt ways rest n) ∧
        (Worker.arrivals owner token ⟨.reset, sent, none⟩ rest).sent = sent) := by
  have hrun := Worker.arrivals_pending token owner hways hserves sent rest [] hframes not_completes_nil (Nat.zero_le _)
  simp only [nil_append, length_nil, Nat.zero_add, pending_nil] at hrun
  rcases hrun with hcompletes | ⟨hnever, hsent⟩
  · exact .inl hcompletes
  · refine .inr ⟨hnever, ?_⟩
    have hall := hsent rest.length
    rwa [take_length] at hall

theorem Worker.sent_extends (worker : Worker Activation) (arrivals : List Arrival) :
    worker.sent <+: (worker.arrivals owner token arrivals).sent := by
  induction arrivals generalizing worker with
  | nil => exact prefix_refl _
  | cons arrival rest ih =>
    refine List.IsPrefix.trans ?_ (ih (worker.receive owner (token.message owner arrival)))
    unfold Worker.receive
    split
    · exact prefix_refl _
    · split
      · exact prefix_refl _
      · exact prefix_append _ _

theorem Worker.sent_after (hways : ways = 2 ∨ ways = 4) (hserves : owner.Serves token)
    (hframes : ∀ frame ∈ arrivals, frame ∈ tokenFrames ways) {n : Nat}
    (hn : CompletesAt ways arrivals n) :
    (∃ m second, CompletesAt ways (arrivals.drop n) m ∧
        [token.result (partialsAfterConfig (arrivals.take n)), second] <+:
          (Worker.start.arrivals owner token arrivals).sent) ∨
      ((∀ m, ¬ CompletesAt ways (arrivals.drop n) m) ∧
        (Worker.start.arrivals owner token arrivals).sent =
          [token.result (partialsAfterConfig (arrivals.take n))]) := by
  rcases Worker.arrivals_fresh token owner hways hserves [] arrivals hframes with
    ⟨n', hn', hfirst, -⟩ | ⟨hnever, -⟩
  · obtain rfl := hn'.unique hn
    have hwhole : Worker.start.arrivals owner token arrivals =
        Worker.arrivals owner token
          ⟨.reset, [token.result (partialsAfterConfig (arrivals.take n'))], none⟩ (arrivals.drop n') := by
      conv_lhs => rw [← take_append_drop n' arrivals]
      rw [Worker.arrivals_append]
      unfold Worker.start
      rw [hfirst]
      rfl
    have hlater : ∀ frame ∈ arrivals.drop n', frame ∈ tokenFrames ways := fun frame hmem =>
      hframes frame (mem_of_mem_drop hmem)
    rw [hwhole]
    rcases Worker.arrivals_fresh token owner hways hserves
        [token.result (partialsAfterConfig (arrivals.take n'))] (arrivals.drop n') hlater with
      ⟨m, hm, hsecond, -⟩ | ⟨hnever, hsent⟩
    · refine .inl ⟨m, token.result (partialsAfterConfig ((arrivals.drop n').take m)), hm, ?_⟩
      rw [← take_append_drop m (arrivals.drop n'), Worker.arrivals_append, hsecond, take_append_drop]
      exact Worker.sent_extends token owner (.mk .reset _ none) _
    · exact .inr ⟨hnever, hsent⟩
  · exact absurd hn (hnever n)

end Runs

section Merging

variable (token : SplitToken Activation ways)

theorem SplitToken.merged_best (hways : ways = 2 ∨ ways = 4) {ranks : List Nat}
    (hranks : ∀ rank ∈ ranks, rank ∈ otherRanks ways) (hall : ∀ rank ∈ otherRanks ways, rank ∈ ranks) :
    (token.merged ranks).id < vocabSize ∧
      (token.merged ranks).value = token.logits (token.merged ranks).id ∧
      ∀ other, other < vocabSize → outputBetter ⟨token.logits other, other⟩ (token.merged ranks) = false := by
  obtain ⟨way, hway, hmerged, -⟩ := token.merged_way hways hranks
  obtain ⟨-, hown, hothers⟩ := token.merged_spec ranks
  refine ⟨?_, ?_, fun other hother => ?_⟩
  · rw [hmerged]
    exact (token.inSpan way hway).lt_vocab hways
  · rw [hmerged]
    exact token.value way hway
  · obtain ⟨slice, hslice, hspan⟩ := vocab_covered hways hother
    have hbest := (outputBetter_false_iff _ _).mp (token.best slice hslice other hspan)
    rw [outputBetter_false_iff]
    refine le_trans ?_ hbest
    by_cases hzero : slice = 0
    · rw [hzero]
      exact hown
    · obtain ⟨rank, hrank, hwayOf⟩ := exists_otherRank hways hslice (Nat.pos_of_ne_zero hzero)
      rw [← hwayOf]
      exact hothers rank (hall rank hrank)

variable {arrivals : List Arrival}

theorem mem_of_partialsAfterConfig {rank : Nat}
    (h : rank ∈ partialsAfterConfig arrivals) : .splitPartial rank ∈ arrivals := by
  obtain ⟨arrival, harrival, hrank⟩ := mem_filterMap.mp h
  cases arrival with
  | config => cases hrank
  | input => cases hrank
  | splitPartial other =>
    cases hrank
    exact (dropWhile_sublist _).mem harrival

theorem Orderly.merges (hways : ways = 2 ∨ ways = 4) {owner : Owner Activation}
    (hserves : owner.Serves token)
    (hframes : ∀ frame ∈ arrivals, frame ∈ tokenFrames ways) (h : Orderly ways arrivals) :
    Merges owner token arrivals := by
  obtain ⟨n, hn, hall, hlater⟩ := h
  have hranks := partialsAfterConfig_ranks (fun frame hmem => hframes frame (mem_of_mem_take hmem) :
    ∀ frame ∈ arrivals.take n, frame ∈ tokenFrames ways)
  obtain ⟨hid, hvalue, hbest⟩ := token.merged_best hways hranks hall
  constructor
  · refine ⟨_, hid, ?_, ?_⟩
    · rcases Worker.sent_after token owner hways hserves hframes hn with ⟨m, -, hm, -⟩ | ⟨-, hsent⟩
      · exact absurd hm (hlater m)
      · rw [hsent, ← hvalue]
        rfl
    · rw [← hvalue]
      exact hbest
  · intro before hprefix hsent frame hframe
    rcases Worker.arrivals_fresh token owner hways hserves [] arrivals hframes with
      ⟨n', hn', -, hearly⟩ | ⟨hnever, -⟩
    · obtain rfl := hn'.unique hn
      have htake := prefix_iff_eq_take.mp hprefix
      have hlate : n' ≤ before.length := by
        by_contra hlt
        have hnone := hearly before.length (by omega)
        rw [← htake] at hnone
        exact hsent hnone
      have hmem : ∀ arrival ∈ arrivals.take n', arrival ∈ before := by
        intro arrival harrival
        rw [htake]
        exact (take_prefix_take_left hlate).subset harrival
      rcases mem_cons.mp hframe with rfl | hframe
      · exact hmem _ hn'.now.1
      · rcases mem_cons.mp hframe with rfl | hframe
        · exact hmem _ hn'.now.2.1
        · obtain ⟨rank, hrank, rfl⟩ := mem_map.mp hframe
          exact hmem _ (mem_of_partialsAfterConfig (hall rank hrank))
    · exact absurd hn (hnever n)

def firstRow (ways way : Nat) : Nat := (splitSpan ways way).1

def peakLogits (ways peak row : Nat) : Binary32 := if row = firstRow ways peak then ⟨0x3f800000⟩ else ⟨0⟩

theorem firstRow_inSpan (hways : ways = 2 ∨ ways = 4) {way : Nat} (hway : way < ways) :
    InSpan ways way (firstRow ways way) := by
  rcases hways with rfl | rfl
  · have hcases : way = 0 ∨ way = 1 := by omega
    rcases hcases with rfl | rfl
    · decide
    · decide
  · have hcases : way = 0 ∨ way = 1 ∨ way = 2 ∨ way = 3 := by omega
    rcases hcases with rfl | rfl | rfl | rfl
    · decide
    · decide
    · decide
    · decide

theorem peakLogits_finite (ways peak row : Nat) : (peakLogits ways peak row).isFinite = true := by
  unfold peakLogits
  split_ifs
  · decide
  · decide

theorem peakLogits_best (hways : ways = 2 ∨ ways = 4) {peak way row : Nat} (hpeak : peak < ways)
    (hspan : InSpan ways way row) :
    outputBetter ⟨peakLogits ways peak row, row⟩
      ⟨peakLogits ways peak (firstRow ways way), firstRow ways way⟩ = false := by
  by_cases hfirst : row = firstRow ways way
  · rw [← hfirst, outputBetter_false_iff]
  · have hzero : peakLogits ways peak row = ⟨0⟩ := by
      refine if_neg fun heq => hfirst ?_
      have hsame := hspan.way_unique hways (heq ▸ firstRow_inSpan hways hpeak)
      rw [heq, hsame]
    have hlt : firstRow ways way < row := lt_of_le_of_ne hspan.1 (Ne.symm hfirst)
    have hrow := hspan.lt_vocab hways
    have horder : (0 : Int) ≤ (peakLogits ways peak (firstRow ways way)).order := by
      unfold peakLogits
      split_ifs
      · decide
      · decide
    have hbits : (⟨0⟩ : Binary32).order = 0 := by decide
    have hfinite : (⟨0⟩ : Binary32).isFinite = true := by decide
    unfold vocabSize at hrow
    unfold outputBetter paddingId
    rw [hzero]
    simp only [peakLogits_finite, hfinite, hbits]
    split_ifs <;> simp <;> omega

/-- A token whose best row is the first of one slice, all other logits being zero. -/
def peakToken (hways : ways = 2 ∨ ways = 4) (peak : Nat) (hpeak : peak < ways) (input : Activation) :
    SplitToken Activation ways where
  tokenIndex := 0
  slot := 0
  input := input
  logits := peakLogits ways peak
  winner way := ⟨peakLogits ways peak (firstRow ways way), firstRow ways way⟩
  inSpan _ hway := firstRow_inSpan hways hway
  value _ _ := rfl
  finite _ _ := peakLogits_finite _ _ _
  best _ _ _ hspan := peakLogits_best hways hpeak hspan

def ownerOf (token : SplitToken Activation ways) : Owner Activation where
  sessionId := 1
  eligible := true
  multiplexed := false
  lastLayerOwner := 7
  sliceWays := some ways
  sliceRun _ := .ok (token.winner 0)
  sample _ _ := .error ⟨.unavailable, ""⟩

theorem ownerOf_serves : (ownerOf token).Serves token where
  eligible := rfl
  session := by
    change (1 : UInt64) ≠ 0
    decide
  held := rfl
  run := rfl

theorem peak_better {peak way : Nat} (hways : ways = 2 ∨ ways = 4) (hpeak : peak < ways) (hway : way < ways)
    (hne : way ≠ peak) :
    outputBetter ⟨peakLogits ways peak (firstRow ways peak), firstRow ways peak⟩
      ⟨peakLogits ways peak (firstRow ways way), firstRow ways way⟩ = true := by
  have hspan := firstRow_inSpan hways hpeak
  have hother := firstRow_inSpan hways hway
  have hrow : firstRow ways way ≠ firstRow ways peak := fun heq =>
    hne (hother.way_unique hways (heq ▸ hspan))
  have hlt := hspan.lt_vocab hways
  have hlt' := hother.lt_vocab hways
  have hone : peakLogits ways peak (firstRow ways peak) = ⟨0x3f800000⟩ := if_pos rfl
  have hzero : peakLogits ways peak (firstRow ways way) = ⟨0⟩ := if_neg hrow
  have horder : (⟨0⟩ : Binary32).order < (⟨0x3f800000⟩ : Binary32).order := by decide
  unfold vocabSize at hlt hlt'
  have hpadding : ¬ (firstRow ways peak = paddingId ∨ firstRow ways way = paddingId) := by
    unfold paddingId
    omega
  have hfinite : ¬ ((⟨0x3f800000⟩ : Binary32).isFinite = false ∨ (⟨0⟩ : Binary32).isFinite = false) := by
    decide
  unfold outputBetter
  rw [hone, hzero]
  rw [if_neg hpadding, if_neg hfinite]
  exact decide_eq_true (.inl horder)

def MergesAll (Activation : Type) (ways : Nat) (arrivals : List Arrival) : Prop :=
  ∀ (owner : Owner Activation) (token : SplitToken Activation ways), owner.Serves token →
    Merges owner token arrivals

theorem MergesAll.orderly [Inhabited Activation] (hways : ways = 2 ∨ ways = 4)
    (hframes : ∀ frame ∈ arrivals, frame ∈ tokenFrames ways) (h : MergesAll Activation ways arrivals) :
    Orderly ways arrivals := by
  have hpeak : ∀ peak, (hlt : peak < ways) → ∃ n, CompletesAt ways arrivals n ∧
      (∀ m, ¬ CompletesAt ways (arrivals.drop n) m) ∧
      ∃ row, row < vocabSize ∧ (∀ other, other < vocabSize →
          outputBetter ⟨peakLogits ways peak other, other⟩ ⟨peakLogits ways peak row, row⟩ = false) ∧
        row = ((peakToken hways peak hlt (default : Activation)).merged
          (partialsAfterConfig (arrivals.take n))).id := by
    intro peak hlt
    have hserves := ownerOf_serves (peakToken hways peak hlt (default : Activation))
    obtain ⟨row, hrow, hsent, hbest⟩ := (h _ _ hserves).one_result
    rcases Worker.arrivals_fresh _ _ hways hserves [] arrivals hframes with ⟨n, hn, -, -⟩ | ⟨-, hnone⟩
    · refine ⟨n, hn, ?_⟩
      rcases Worker.sent_after _ _ hways hserves hframes hn with ⟨m, second, hm, hprefix⟩ | ⟨hlater, hone⟩
      · rw [hsent] at hprefix
        exact absurd hprefix.length_le (by simp)
      · refine ⟨hlater, row, hrow, hbest, ?_⟩
        rw [hsent] at hone
        exact congrArg OutputResult.token (singleton_injective hone)
    · unfold Worker.start at hsent
      rw [hnone] at hsent
      cases hsent
  obtain ⟨n, hn, hlater, -⟩ := hpeak 0 (by omega)
  refine ⟨n, hn, fun rank hrank => ?_, hlater⟩
  by_contra hmissing
  obtain ⟨-, hlt, hpos, -⟩ := otherRanks_way hways hrank
  obtain ⟨n', hn', -, row, hrow, hbest, heq⟩ := hpeak _ hlt
  obtain rfl := hn'.unique hn
  have hranks := partialsAfterConfig_ranks (fun frame hmem => hframes frame (mem_of_mem_take hmem) :
    ∀ frame ∈ arrivals.take n', frame ∈ tokenFrames ways)
  obtain ⟨way, hway, hmerged, hfrom⟩ :=
    (peakToken hways (wayOf ways rank) hlt (default : Activation)).merged_way hways hranks
  have hne : way ≠ wayOf ways rank := by
    rintro rfl
    rcases hfrom with hzero | ⟨other, hother, hsame⟩
    · omega
    · exact hmissing (wayOf_injective hways (hranks other hother) hrank hsame ▸ hother)
  have hbetter := peak_better hways hlt hway hne
  rw [heq, hmerged] at hbest
  have hworse := hbest _ ((firstRow_inSpan hways hlt).lt_vocab hways)
  exact absurd (hbetter.symm.trans hworse) (by simp)

/-- Rank 4 sends exactly one result, the best row of all slices and only after every frame has arrived,
for exactly the orderly arrivals of a token's frames. -/
theorem merges_iff_orderly [Inhabited Activation] (hways : ways = 2 ∨ ways = 4) (arrivals : List Arrival)
    (hframes : ∀ frame, frame ∈ arrivals ↔ frame ∈ tokenFrames ways) :
    MergesAll Activation ways arrivals ↔ Orderly ways arrivals :=
  ⟨fun h => h.orderly hways fun frame => (hframes frame).mp,
    fun h _ token hserves => h.merges token hways hserves fun frame => (hframes frame).mp⟩

/-- Input and config in either order, a config repeated, the partials after it, one repeated late. -/
theorem lateRepeat_merges : MergesAll Nat 4
    [.input, .config, .splitPartial 2, .config, .splitPartial 0, .splitPartial 1, .splitPartial 0] := by
  refine (merges_iff_orderly (.inr rfl) _ fun frame => ?_).mpr ⟨6, ⟨by decide, ?_, ?_, by decide⟩, by decide, ?_⟩
  · cases frame with
    | config => decide
    | input => decide
    | splitPartial rank => simp [tokenFrames, otherRanks, splitWaysMin]; omega
  · exact ⟨by decide, by decide, by decide⟩
  · intro m hm hcomplete
    have hcount := hcomplete.2.2
    interval_cases m <;> exact absurd hcount (by decide)
  · intro m hm
    have hcount := hm.now.1
    exact absurd (mem_of_mem_take hcount) (by decide)

/-- The best row is in the slice of rank 2, whose partial comes after rank 0's was delivered twice. -/
theorem repeatedPartial_not_merged :
    let token : SplitToken Nat 4 := peakToken (.inr rfl) 3 (by decide) 0
    (ownerOf token).Serves token ∧ ¬ Merges (ownerOf token) token
      [.config, .input, .splitPartial 0, .splitPartial 1, .splitPartial 0, .splitPartial 2] := by
  intro token
  refine ⟨ownerOf_serves token, fun h => ?_⟩
  obtain ⟨row, -, hsent, hbest⟩ := h.one_result
  have hrun : (Worker.start.arrivals (ownerOf token) token
      [.config, .input, .splitPartial 0, .splitPartial 1, .splitPartial 0, .splitPartial 2]).sent =
        [⟨4, 0, 0, 0, ⟨0⟩⟩] := by decide
  rw [hrun] at hsent
  have hrow : 0 = row := congrArg OutputResult.token (singleton_injective hsent)
  subst hrow
  exact absurd (hbest 186240 (by decide)) (by decide)

end Merging

end FlashGordon.OutputSplit
