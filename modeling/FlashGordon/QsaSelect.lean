import FlashGordon.QsaSession
import FlashGordon.Spans

/-! The sweep of a prefill selection (`select_prefill_batch`): the queries of a chunk are scored against the index
segments of a layer in windows, so that every visible block has its column in the score tile once. The selection of
a decode step scores the same segments without windows. Ids that the top-k merge leaves are not modelled. -/

namespace FlashGordon.QsaSession

open Spans List

/-- `FG_QSA_SELECT_WINDOW_BLOCKS`. -/
def selectWindowBlocks : Nat := 16384

/-- `fg_qsa_index_segment_first`. -/
def indexSegmentFirst (logicalContext segment : Nat) : Nat :=
  if indexSegmentCount logicalContext ≤ segment then 0 else segment * indexSegmentTokenCapacity

/-- `fg_qsa_index_segment_tokens`. -/
def indexSegmentTokens (logicalContext segment : Nat) : Nat :=
  let first := indexSegmentFirst logicalContext segment
  if logicalContext = 0 ∨ indexSegmentCount logicalContext ≤ segment then 0
  else min (logicalContext - first) indexSegmentTokenCapacity

/-- What `fg_vk_qsa_index_score_batch` is called with: the queries, the keys from block `window` of the segment on,
the positions of their tokens, and the columns of the score tile. -/
structure ScoreBatch where
  firstQuery : Nat
  queries : Nat
  segment : Nat
  window : Nat
  firstPosition : Nat
  tokens : Nat
  blockBase : Nat
  scoreStride : Nat
  firstVisible : Nat
  deriving DecidableEq

def ScoreBatch.blocks (batch : ScoreBatch) : Span := ⟨batch.blockBase, batch.tokens / compressRatio⟩

def sweepSegments (maxContext visible : Nat) : List Nat → List (Nat × Span)
  | [] => []
  | segment :: rest =>
    let first := indexSegmentFirst maxContext segment
    if visible < first then []
    else
      let count := min (visible - first) (indexSegmentTokens maxContext segment)
      if count < compressRatio then sweepSegments maxContext visible rest
      else (steps selectWindowBlocks (count / compressRatio)).map (segment, ·) ++
        sweepSegments maxContext visible rest

/-- The dispatch of a window for the queries from `chunk.first` on. -/
def scoreWindow (maxContext firstVisible firstQuery blocksTotal : Nat) (chunk : Span) (window : Nat × Span) :
    ScoreBatch where
  firstQuery := firstQuery + chunk.first
  queries := chunk.count
  segment := window.1
  window := window.2.first
  firstPosition := indexSegmentFirst maxContext window.1 + window.2.first * compressRatio
  tokens := window.2.count * compressRatio
  blockBase := indexSegmentFirst maxContext window.1 / compressRatio + window.2.first
  scoreStride := blocksTotal
  firstVisible := firstVisible + chunk.first

inductive Selecting where
  | complete (selected : List (List Nat))
  | scored (batches : List ScoreBatch)
  deriving DecidableEq

/-- `select_prefill_batch` of a session with this context and score chunk, up to the merges: the counts, and the
selected blocks or the dispatches that score them. -/
def selectPrefillBatch (maxContext selectChunk firstVisible firstQuery queries selectStride : Nat) :
    Except Error (List Nat × Selecting) :=
  if queries = 0 ∨ selectStride < maxSelectedBlocks then
    .error ⟨.argument, "invalid batched QSA selection arguments"⟩
  else
    let blocksTotal := (firstVisible + queries - 1) / compressRatio
    let counts := (List.range queries).map fun q => min ((firstVisible + q) / compressRatio) maxSelectedBlocks
    if blocksTotal ≤ maxSelectedBlocks then .ok (counts, .complete (counts.map List.range))
    else
      let windows := sweepSegments maxContext (firstVisible + queries - 1) (List.range (indexSegmentCount maxContext))
      .ok (counts, .scored ((steps selectChunk queries).flatMap fun chunk =>
        windows.map (scoreWindow maxContext firstVisible firstQuery blocksTotal chunk)))

/-- The segments of `score_index_segments` past the first one's capacity. -/
def scoreSegmentsFrom (maxContext tokens : Nat) : List Nat → List Span
  | [] => []
  | segment :: rest =>
    let first := indexSegmentFirst maxContext segment
    if tokens ≤ first then []
    else
      let blocks := min (tokens - first) (indexSegmentTokens maxContext segment) / compressRatio
      if blocks = 0 then scoreSegmentsFrom maxContext tokens rest
      else ⟨first / compressRatio, blocks⟩ :: scoreSegmentsFrom maxContext tokens rest

/-- `score_index_segments`: the blocks of each dispatch. -/
def scoreIndexSegments (maxContext tokens : Nat) : List Span :=
  if tokens ≤ indexSegmentTokenCapacity then [⟨0, tokens / compressRatio⟩]
  else scoreSegmentsFrom maxContext tokens (List.range (indexSegmentCount maxContext))

variable {maxContext visible segment : Nat}

theorem lt_indexSegmentCount :
    segment < indexSegmentCount maxContext ↔ segment * indexSegmentTokenCapacity < maxContext := by
  rw [indexSegmentCount]
  by_cases hwhole : maxContext % indexSegmentTokenCapacity = 0
  · rw [if_neg (not_not.mpr hwhole)]
    simp only [indexSegmentTokenCapacity] at hwhole ⊢
    omega
  · rw [if_pos hwhole]
    simp only [indexSegmentTokenCapacity] at hwhole ⊢
    omega

theorem indexSegment_eq (hsegment : segment < indexSegmentCount maxContext) :
    indexSegmentFirst maxContext segment = segment * indexSegmentTokenCapacity ∧
      indexSegmentTokens maxContext segment =
        min (maxContext - segment * indexSegmentTokenCapacity) indexSegmentTokenCapacity := by
  have hfirst : indexSegmentFirst maxContext segment = segment * indexSegmentTokenCapacity :=
    if_neg (Nat.not_le.mpr hsegment)
  refine ⟨hfirst, ?_⟩
  have hinside := lt_indexSegmentCount.mp hsegment
  rw [indexSegmentTokens, hfirst, if_neg (by omega)]

def windowBlocks (maxContext : Nat) (window : Nat × Span) : Span :=
  ⟨indexSegmentFirst maxContext window.1 / compressRatio + window.2.first, window.2.count⟩

theorem sweepSegments_tiles (hvisible : visible ≤ maxContext) {first count : Nat}
    (hcount : first + count = indexSegmentCount maxContext) :
    Tiles (first * (indexSegmentTokenCapacity / compressRatio))
        ((sweepSegments maxContext visible (List.range' first count)).map (windowBlocks maxContext)) ∧
      total ((sweepSegments maxContext visible (List.range' first count)).map (windowBlocks maxContext)) =
        visible / compressRatio - first * (indexSegmentTokenCapacity / compressRatio) := by
  induction count generalizing first with
  | zero =>
    have hlast := (not_congr (@lt_indexSegmentCount maxContext first)).mp (by omega)
    refine ⟨trivial, ?_⟩
    simp only [indexSegmentTokenCapacity, compressRatio] at hlast ⊢
    simp only [List.range'_zero, sweepSegments, map_nil, total_nil]
    omega
  | succ count ih =>
    obtain ⟨hfirst, htokens⟩ := indexSegment_eq (by omega : first < indexSegmentCount maxContext)
    obtain ⟨hrest, htotal⟩ := @ih (first + 1) (by omega)
    rw [List.range'_succ, sweepSegments]
    dsimp only
    rw [hfirst, htokens]
    split
    next hbeyond =>
      refine ⟨trivial, ?_⟩
      simp only [indexSegmentTokenCapacity, compressRatio] at hbeyond ⊢
      simp only [map_nil, total_nil]
      omega
    split
    next hsmall =>
      have hdone : total ((sweepSegments maxContext visible (List.range' (first + 1) count)).map
          (windowBlocks maxContext)) = 0 := by
        rw [htotal]
        simp only [indexSegmentTokenCapacity, compressRatio] at hsmall ⊢
        omega
      rw [hdone, hrest.eq_nil hdone]
      refine ⟨trivial, ?_⟩
      simp only [indexSegmentTokenCapacity, compressRatio] at hsmall ⊢
      omega
    next =>
      generalize hblocks : min (visible - first * indexSegmentTokenCapacity)
        (min (maxContext - first * indexSegmentTokenCapacity) indexSegmentTokenCapacity) / compressRatio = blocks
      obtain ⟨htiles, hsteps⟩ := @tiles_steps selectWindowBlocks blocks (by decide)
      have hwindows : ((steps selectWindowBlocks blocks).map (first, ·)).map (windowBlocks maxContext) =
          (steps selectWindowBlocks blocks).map
            fun span => ⟨span.first + first * (indexSegmentTokenCapacity / compressRatio), span.count⟩ := by
        rw [map_map]
        refine map_congr_left fun span _ => ?_
        simp only [Function.comp_apply, windowBlocks, hfirst, indexSegmentTokenCapacity, compressRatio]
        congr 1
        omega
      rw [map_append, hwindows, tiles_append, total_append, total_shift, hsteps, htotal]
      have hshift := htiles.shift (first * (indexSegmentTokenCapacity / compressRatio))
      rw [Nat.zero_add] at hshift
      simp only [indexSegmentTokenCapacity, compressRatio] at hblocks hrest htotal hshift ⊢
      refine ⟨⟨hshift, ?_⟩, by omega⟩
      by_cases hfull : blocks = 32768
      · convert hrest using 1
        omega
      · rw [hrest.eq_nil (htotal.trans (by omega))]
        trivial

theorem sweepSegments_inside {segments : List Nat} (hsegments : ∀ segment ∈ segments, segment < indexSegmentCount maxContext)
    {window : Nat × Span} (hwindow : window ∈ sweepSegments maxContext visible segments) :
    window.1 < indexSegmentCount maxContext ∧ 0 < window.2.count ∧
      (window.2.first + window.2.count) * compressRatio ≤ indexSegmentTokens maxContext window.1 := by
  induction segments with
  | nil => cases hwindow
  | cons segment rest ih =>
    obtain ⟨hsegment, hrest⟩ := forall_mem_cons.mp hsegments
    rw [sweepSegments] at hwindow
    dsimp only at hwindow
    split at hwindow
    · cases hwindow
    split at hwindow
    · exact ih hrest hwindow
    rcases mem_append.mp hwindow with hown | hlater
    · obtain ⟨span, hspan, rfl⟩ := mem_map.mp hown
      obtain ⟨htiles, htotal⟩ := @tiles_steps selectWindowBlocks _ (by decide)
      have hwithin := htiles.within hspan
      rw [htotal] at hwithin
      refine ⟨hsegment, hwithin.2.1, ?_⟩
      have htokens := Nat.min_le_right (visible - indexSegmentFirst maxContext segment)
        (indexSegmentTokens maxContext segment)
      simp only [compressRatio] at hwithin ⊢
      omega
    · exact ih hrest hlater

theorem scoreSegmentsFrom_tiles (hvisible : visible ≤ maxContext) {first count : Nat}
    (hcount : first + count = indexSegmentCount maxContext) :
    Tiles (first * (indexSegmentTokenCapacity / compressRatio))
        (scoreSegmentsFrom maxContext visible (List.range' first count)) ∧
      total (scoreSegmentsFrom maxContext visible (List.range' first count)) =
        visible / compressRatio - first * (indexSegmentTokenCapacity / compressRatio) := by
  induction count generalizing first with
  | zero =>
    have hlast := (not_congr (@lt_indexSegmentCount maxContext first)).mp (by omega)
    refine ⟨trivial, ?_⟩
    simp only [indexSegmentTokenCapacity, compressRatio] at hlast ⊢
    simp only [List.range'_zero, scoreSegmentsFrom, total_nil]
    omega
  | succ count ih =>
    obtain ⟨hfirst, htokens⟩ := indexSegment_eq (by omega : first < indexSegmentCount maxContext)
    obtain ⟨hrest, htotal⟩ := @ih (first + 1) (by omega)
    rw [List.range'_succ, scoreSegmentsFrom]
    dsimp only
    rw [hfirst, htokens]
    split
    next hbeyond =>
      refine ⟨trivial, ?_⟩
      simp only [indexSegmentTokenCapacity, compressRatio] at hbeyond ⊢
      rw [total_nil]
      omega
    split
    next hnone =>
      simp only [indexSegmentTokenCapacity, compressRatio] at hnone hrest htotal ⊢
      rw [hrest.eq_nil (htotal.trans (by omega))]
      exact ⟨trivial, by rw [total_nil]; omega⟩
    next hsome =>
      rw [Tiles, total_cons, htotal]
      simp only [indexSegmentTokenCapacity, compressRatio] at hsome hrest htotal ⊢
      refine ⟨⟨by omega, by omega, ?_⟩, by omega⟩
      by_cases hfull : visible / 4 - first * 32768 < 32768
      · rw [hrest.eq_nil (htotal.trans (by omega))]
        trivial
      · convert hrest using 1
        omega

theorem scoreIndexSegments_tiles (hvisible : visible ≤ maxContext) (hsome : compressRatio ≤ visible) :
    Tiles 0 (scoreIndexSegments maxContext visible) ∧
      total (scoreIndexSegments maxContext visible) = visible / compressRatio := by
  rw [scoreIndexSegments]
  split
  · refine ⟨⟨rfl, Nat.div_pos hsome (by decide), trivial⟩, ?_⟩
    rw [total_cons, total_nil, Nat.add_zero]
  · rw [range_eq_range']
    have htiles := @scoreSegmentsFrom_tiles maxContext visible hvisible 0 _ (Nat.zero_add _)
    exact htiles

/-- The spans hold each number below `last` once, and no other. -/
def Once (spans : List Span) (last : Nat) : Prop :=
  ∀ n, spans.countP (fun span => span.Holds n) = if n < last then 1 else 0

theorem once_of_tiles {spans : List Span} (h : Tiles 0 spans) : Once spans (total spans) := by
  intro n
  split
  next hlt => exact h.countP_holds (Nat.zero_le n) (by omega)
  next hbeyond =>
    refine countP_eq_zero.mpr fun span hspan => ?_
    have hwithin := h.within hspan
    rw [decide_eq_true_eq]
    rintro ⟨-, hlt⟩
    omega

def batchesOf (batches : List ScoreBatch) (query : Nat) : List ScoreBatch :=
  batches.filter fun batch => batch.firstQuery ≤ query ∧ query < batch.firstQuery + batch.queries

variable {firstVisible firstQuery queries blocksTotal : Nat}

theorem countP_batchesOf (chunks : List Span) (windows : List (Nat × Span)) (query block : Nat) :
    ((batchesOf (chunks.flatMap fun chunk => windows.map (scoreWindow maxContext firstVisible firstQuery blocksTotal chunk))
        (firstQuery + query)).map ScoreBatch.blocks).countP (fun span => span.Holds block) =
      chunks.countP (fun chunk => chunk.Holds query) *
        (windows.map (windowBlocks maxContext)).countP (fun span => span.Holds block) := by
  induction chunks with
  | nil => simp [batchesOf]
  | cons chunk rest ih =>
    have hblocks : ∀ window, (scoreWindow maxContext firstVisible firstQuery blocksTotal chunk window).blocks =
        windowBlocks maxContext window := by
      intro window
      rw [ScoreBatch.blocks, scoreWindow, windowBlocks]
      simp only [compressRatio, Nat.mul_div_cancel _ (by decide : 0 < 4)]
    rw [batchesOf, flatMap_cons, filter_append, map_append, countP_append, countP_cons, Nat.add_mul, Nat.add_comm, ← ih]
    congr 1
    by_cases hholds : chunk.Holds query
    · rw [decide_eq_true hholds, if_pos rfl, Nat.one_mul, filter_eq_self.mpr, map_map]
      · congr 1
        exact map_congr_left fun window _ => hblocks window
      · intro batch hbatch
        obtain ⟨window, -, rfl⟩ := mem_map.mp hbatch
        obtain ⟨hle, hlt⟩ := hholds
        rw [decide_eq_true_eq, scoreWindow]
        dsimp only
        omega
    · rw [decide_eq_false hholds, if_neg Bool.false_ne_true, Nat.zero_mul, filter_eq_nil_iff.mpr]
      · rfl
      · intro batch hbatch
        obtain ⟨window, -, rfl⟩ := mem_map.mp hbatch
        rw [decide_eq_true_eq, scoreWindow]
        rintro ⟨hle, hlt⟩
        dsimp only at hle hlt
        exact hholds ⟨by omega, by omega⟩

/-- The dispatch reads queries of the range, keys of one segment and positions of the table, writes columns of the
tile, and takes for each query what it sees. -/
structure ScoreBatch.Inside (batch : ScoreBatch) (maxContext firstVisible firstQuery queries : Nat) : Prop where
  first : firstQuery ≤ batch.firstQuery
  last : batch.firstQuery + batch.queries ≤ firstQuery + queries
  visible : batch.firstVisible + firstQuery = firstVisible + batch.firstQuery
  keys : batch.window * compressRatio + batch.tokens ≤ indexSegmentTokens maxContext batch.segment
  positions : batch.firstPosition + batch.tokens ≤ maxContext
  stride : batch.scoreStride = (firstVisible + queries - 1) / compressRatio
  columns : batch.blockBase + batch.tokens / compressRatio ≤ batch.scoreStride
  some : 0 < batch.queries ∧ 0 < batch.tokens / compressRatio

theorem scoreWindow_inside {selectChunk : Nat} (hvisible : firstVisible + queries - 1 ≤ maxContext)
    (hwidth : 0 < selectChunk) {chunk : Span} (hchunk : chunk ∈ steps selectChunk queries) {window : Nat × Span}
    (hwindow : window ∈ sweepSegments maxContext (firstVisible + queries - 1)
      (List.range (indexSegmentCount maxContext))) :
    (scoreWindow maxContext firstVisible firstQuery ((firstVisible + queries - 1) / compressRatio) chunk window).Inside
      maxContext firstVisible firstQuery queries := by
  obtain ⟨hchunks, hlast⟩ := @tiles_steps selectChunk queries hwidth
  have hqueries := hchunks.within hchunk
  obtain ⟨hsegment, hsome, hkeys⟩ := sweepSegments_inside (fun _ => mem_range.mp) hwindow
  obtain ⟨hfirst, htokens⟩ := indexSegment_eq hsegment
  have htiles := @sweepSegments_tiles maxContext _ hvisible 0 _ (Nat.zero_add _)
  rw [Nat.zero_mul, ← range_eq_range'] at htiles
  have hcolumns := htiles.1.within (mem_map_of_mem hwindow)
  rw [htiles.2, windowBlocks] at hcolumns
  dsimp only at hcolumns
  have hblocks : window.2.count * compressRatio / compressRatio = window.2.count :=
    Nat.mul_div_cancel _ (by decide)
  have hinside := lt_indexSegmentCount.mp hsegment
  rw [Nat.add_mul] at hkeys
  constructor <;> simp only [scoreWindow, hblocks] <;> omega

/-- The counts are the complete blocks of each query, at most 512. While all visible blocks fit, each query selects
its complete blocks in order. Otherwise each query's dispatches score every visible block once, from where its
keys, positions and columns are, and so does a decode step that sees as many tokens. -/
theorem selectPrefillBatch_sweep {selectChunk selectStride : Nat} (hqueries : 0 < queries)
    (hvisible : firstVisible + queries - 1 ≤ maxContext) (hchunk : 0 < selectChunk)
    (hstride : maxSelectedBlocks ≤ selectStride) :
    ∃ counts selecting,
      selectPrefillBatch maxContext selectChunk firstVisible firstQuery queries selectStride =
        .ok (counts, selecting) ∧
      counts = (List.range queries).map (fun q => min ((firstVisible + q) / compressRatio) maxSelectedBlocks) ∧
      ((firstVisible + queries - 1) / compressRatio ≤ maxSelectedBlocks →
        selecting = .complete ((List.range queries).map fun q => List.range ((firstVisible + q) / compressRatio))) ∧
      (maxSelectedBlocks < (firstVisible + queries - 1) / compressRatio → ∃ batches, selecting = .scored batches ∧
        (∀ q < queries, Once ((batchesOf batches (firstQuery + q)).map ScoreBatch.blocks)
          ((firstVisible + queries - 1) / compressRatio)) ∧
        (∀ batch ∈ batches, batch.Inside maxContext firstVisible firstQuery queries) ∧
        Once (scoreIndexSegments maxContext (firstVisible + queries - 1))
          ((firstVisible + queries - 1) / compressRatio)) := by
  rw [selectPrefillBatch, if_neg (by omega)]
  dsimp only
  split
  next hfew =>
    refine ⟨_, _, rfl, rfl, fun _ => ?_, fun hmany => absurd hfew (Nat.not_le.mpr hmany)⟩
    rw [map_map]
    refine congrArg Selecting.complete (map_congr_left fun q hq => ?_)
    have hlt := mem_range.mp hq
    rw [Function.comp_apply, Nat.min_eq_left]
    exact (Nat.div_le_div_right (by omega)).trans hfew
  next hmany =>
    refine ⟨_, _, rfl, rfl, fun hfew => absurd hfew hmany, fun _ => ⟨_, rfl, fun q hq block => ?_,
      fun batch hbatch => ?_, ?_⟩⟩
    · obtain ⟨hchunks, hlast⟩ := @tiles_steps selectChunk queries hchunk
      have htiles := @sweepSegments_tiles maxContext _ hvisible 0 _ (Nat.zero_add _)
      rw [Nat.zero_mul, ← range_eq_range'] at htiles
      rw [countP_batchesOf, hchunks.countP_holds (Nat.zero_le q) (by omega), Nat.one_mul,
        once_of_tiles htiles.1 block, htiles.2]
      rfl
    · obtain ⟨chunk, hchunk', hbatch⟩ := mem_flatMap.mp hbatch
      obtain ⟨window, hwindow, rfl⟩ := mem_map.mp hbatch
      exact scoreWindow_inside hvisible hchunk hchunk' hwindow
    · obtain ⟨htiles, htotal⟩ := scoreIndexSegments_tiles hvisible (by
        simp only [maxSelectedBlocks, compressRatio] at hmany ⊢
        omega)
      rw [← htotal]
      exact once_of_tiles htiles

/-- Three queries in chunks of two, the last of which sees 525 complete blocks. -/
theorem selectPrefillBatch_sweep_three :
    ∃ counts batches, selectPrefillBatch 4000 2 2100 0 3 512 = .ok (counts, .scored batches) ∧
      ∀ q < 3, Once ((batchesOf batches (0 + q)).map ScoreBatch.blocks) 525 := by
  obtain ⟨counts, selecting, hselect, -, -, hscored⟩ := @selectPrefillBatch_sweep 4000 2100 0 3 2 512 (by decide)
    (by decide) (by decide) (by decide)
  obtain ⟨batches, rfl, honce, -⟩ := hscored (by decide)
  exact ⟨counts, batches, hselect, honce⟩

end FlashGordon.QsaSession
