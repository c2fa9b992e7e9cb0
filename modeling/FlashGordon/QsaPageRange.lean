import FlashGordon.QsaOwnerWriter
import FlashGordon.Spans
import Mathlib.Data.List.Nodup

/-! The pages that the chunks of a token stream complete (`protocol.c`, `runtime.c`). A chunk completes the blocks that
end in it; the coordinator publishes them to their owners, and warms its mirror with a range that it rounds on its
own. -/

namespace FlashGordon.QsaOwner

open Spans List

/-- `fg_qsa_completed_page_range`: the first block and the number of blocks. -/
def completedPageRange (firstToken tokenCount : UInt32) : Except Error (UInt32 × UInt32) :=
  if tokenCount = 0 then .error ⟨.argument, "invalid QSA completed-page range"⟩
  else if maxContext ≤ firstToken.toNat ∨ maxContext - firstToken.toNat < tokenCount.toNat then
    .error ⟨.limit, "QSA completed-page range exceeds native context"⟩
  else
    let first := firstToken / .ofNat compressRatio
    let last := (firstToken + tokenCount) / .ofNat compressRatio
    .ok (first, if first < last then last - first else 0)

def coordinatorWarmQsaBlockRange (firstToken tokenCount : UInt32) : UInt32 × UInt32 :=
  let first := (firstToken.toUInt64 + .ofNat compressRatio - 1) / .ofNat compressRatio
  let last := (firstToken.toUInt64 + tokenCount.toUInt64) / .ofNat compressRatio
  let last := if last < first then first else last
  (first.toUInt32, (last - first).toUInt32)

def rangeBlocks (range : UInt32 × UInt32) : List Nat := List.range' range.1.toNat range.2.toNat

def completedPages (chunk : Span) : Except Error (UInt32 × UInt32) :=
  completedPageRange (.ofNat chunk.first) (.ofNat chunk.count)

def warmedPages (chunk : Span) : UInt32 × UInt32 :=
  coordinatorWarmQsaBlockRange (.ofNat chunk.first) (.ofNat chunk.count)

variable {Records : Type}

def layersOf (manifest : Manifest) (rank : UInt8) : List Nat :=
  qsaLayers.filter fun layer => manifest.layerOwner layer == rank

/-- The pages that `coordinator_publish_qsa_pages` lists for an owner. -/
def appendPages (manifest : Manifest) (rank : UInt8) (records : Nat → Nat → Records) (blocks : List Nat) :
    List (Page Records) :=
  blocks.flatMap fun block =>
    (layersOf manifest rank).map fun layer => ⟨.ofNat layer, .ofNat block, some (records layer block)⟩

/-- The append of one chunk to an owner: its guard and the coordinator's `append_sequence`. -/
def coordinatorPublishQsaPages (manifest : Manifest) (rank : UInt8) (records : Nat → Nat → Records) (sessionId : UInt64)
    (state : Guard × UInt32) (chunk : Span) : Except Error (Guard × UInt32) := do
  let range ← completedPages chunk
  let pages := appendPages manifest rank records (rangeBlocks range)
  if appendMaxPages < pages.length then .error ⟨.limit, "QSA complete-page append batch overflow"⟩
  else if pages.isEmpty then .ok state
  else
    match guardAcceptAppend state.1 manifest sessionId ⟨0, rank, state.2, pages⟩ with
    | (.ok (), guard) => .ok (guard, state.2 + 1)
    | (.error err, _) => .error err

variable {chunk : Span} {chunks : List Span} {start : Nat}

theorem ofNat_toNat {n : Nat} (h : n < 2 ^ 32) : (UInt32.ofNat n).toNat = n := UInt32.toNat_ofNat_of_lt' h

theorem completedPages_ok (hpos : 0 < chunk.count) (hlast : chunk.first + chunk.count ≤ maxContext) :
    ∃ range, completedPages chunk = .ok range ∧ rangeBlocks range =
      List.range' (chunk.first / 4) ((chunk.first + chunk.count) / 4 - chunk.first / 4) := by
  obtain ⟨first, count⟩ := chunk
  simp only [maxContext] at hpos hlast ⊢
  have hfirst : (UInt32.ofNat first).toNat = first := ofNat_toNat (by omega)
  have hcount : (UInt32.ofNat count).toNat = count := ofNat_toNat (by omega)
  have hsum : (UInt32.ofNat first + UInt32.ofNat count).toNat = first + count := by
    rw [UInt32.toNat_add, hfirst, hcount]
    omega
  have hzero : UInt32.ofNat count ≠ 0 := fun h => by
    rw [h] at hcount
    exact absurd hcount (Nat.ne_of_lt hpos)
  have hroom : ¬(maxContext ≤ (UInt32.ofNat first).toNat ∨
      maxContext - (UInt32.ofNat first).toNat < (UInt32.ofNat count).toNat) := by
    rw [hfirst, hcount, maxContext]
    omega
  refine ⟨_, by rw [completedPages, completedPageRange, if_neg hzero, if_neg hroom], ?_⟩
  have hratio : (UInt32.ofNat compressRatio).toNat = 4 := rfl
  unfold rangeBlocks
  rw [UInt32.toNat_div, hfirst, hratio]
  congr 1
  split
  next hlt =>
    rw [UInt32.toNat_sub_of_le _ _ (UInt32.le_of_lt hlt), UInt32.toNat_div, UInt32.toNat_div, hsum, hfirst, hratio]
  next hle =>
    rw [UInt32.lt_iff_toNat_lt, UInt32.toNat_div, UInt32.toNat_div, hsum, hfirst, hratio] at hle
    change 0 = _
    omega

theorem completedPages_le {range : UInt32 × UInt32} (hlast : chunk.first + chunk.count < 2 ^ 32)
    (h : completedPages chunk = .ok range) : chunk.first + chunk.count ≤ maxContext := by
  rw [completedPages, completedPageRange, ofNat_toNat (by omega), ofNat_toNat (by omega)] at h
  split at h
  · cases h
  split at h
  · cases h
  next hroom =>
    omega

theorem rangeBlocks_warmedPages (hlast : chunk.first + chunk.count < 2 ^ 32) :
    rangeBlocks (warmedPages chunk) =
      List.range' ((chunk.first + 3) / 4) ((chunk.first + chunk.count) / 4 - (chunk.first + 3) / 4) := by
  obtain ⟨first, count⟩ := chunk
  dsimp only at hlast ⊢
  have hfirst : (UInt32.ofNat first).toNat = first := ofNat_toNat (by omega)
  have hcount : (UInt32.ofNat count).toNat = count := ofNat_toNat (by omega)
  have hratio : (UInt64.ofNat compressRatio).toNat = 4 := rfl
  have hbegin : (((UInt32.ofNat first).toUInt64 + .ofNat compressRatio - 1) / .ofNat compressRatio).toNat =
      (first + 3) / 4 := by
    have hone : (1 : UInt64) ≤ (UInt32.ofNat first).toUInt64 + .ofNat compressRatio := by
      rw [UInt64.le_iff_toNat_le, UInt64.toNat_add, UInt32.toNat_toUInt64, hfirst, hratio]
      change 1 ≤ _
      omega
    rw [UInt64.toNat_div, UInt64.toNat_sub_of_le _ _ hone, UInt64.toNat_add, UInt32.toNat_toUInt64, hfirst, hratio]
    change ((first + 4) % 2 ^ 64 - 1) / 4 = _
    omega
  have hend : (((UInt32.ofNat first).toUInt64 + (UInt32.ofNat count).toUInt64) / .ofNat compressRatio).toNat =
      (first + count) / 4 := by
    rw [UInt64.toNat_div, UInt64.toNat_add, UInt32.toNat_toUInt64, UInt32.toNat_toUInt64, hfirst, hcount, hratio]
    omega
  unfold rangeBlocks warmedPages coordinatorWarmQsaBlockRange
  dsimp only
  rw [UInt64.toNat_toUInt32, UInt64.toNat_toUInt32, hbegin, Nat.mod_eq_of_lt (by omega)]
  congr 1
  split
  next hlt =>
    rw [UInt64.lt_iff_toNat_lt, hend, hbegin] at hlt
    rw [UInt64.sub_self]
    change 0 % 2 ^ 32 = _
    omega
  next hle =>
    rw [UInt64.lt_iff_toNat_lt, hend, hbegin] at hle
    rw [UInt64.toNat_sub_of_le _ _ (UInt64.le_iff_toNat_le.mpr (by omega)), hend, hbegin]
    omega

theorem warmed_eq_iff (hpos : 0 < chunk.count) (hlast : chunk.first + chunk.count ≤ maxContext) :
    (∃ range, completedPages chunk = .ok range ∧ rangeBlocks (warmedPages chunk) = rangeBlocks range) ↔
      4 ∣ chunk.first ∨ (chunk.first + chunk.count) / 4 = chunk.first / 4 := by
  obtain ⟨range, hrange, hblocks⟩ := completedPages_ok hpos hlast
  have hfits : chunk.first + chunk.count < 2 ^ 32 := hlast.trans_lt (by decide)
  simp only [hrange, Except.ok.injEq, exists_eq_left', hblocks, rangeBlocks_warmedPages hfits]
  constructor
  · intro heq
    have hlength := congrArg List.length heq
    rw [length_range', length_range'] at hlength
    omega
  · rintro (haligned | hsame)
    · rw [show (chunk.first + 3) / 4 = chunk.first / 4 by omega]
    · rw [show (chunk.first + chunk.count) / 4 - (chunk.first + 3) / 4 = 0 by omega, hsame, Nat.sub_self]
      rfl

theorem flatMap_completed (h : Tiles start chunks) : (chunks.flatMap fun chunk =>
    List.range' (chunk.first / 4) ((chunk.first + chunk.count) / 4 - chunk.first / 4)) =
      List.range' (start / 4) ((start + total chunks) / 4 - start / 4) := by
  induction chunks generalizing start with
  | nil => simp
  | cons chunk rest ih =>
    obtain ⟨rfl, -, hrest⟩ := h
    rw [flatMap_cons, ih hrest, total_cons, ← Nat.add_assoc]
    rw [show (chunk.first + chunk.count + total rest) / 4 - chunk.first / 4 =
        ((chunk.first + chunk.count) / 4 - chunk.first / 4) +
          ((chunk.first + chunk.count + total rest) / 4 - (chunk.first + chunk.count) / 4) by omega,
      ← List.range'_append_1]
    rw [show chunk.first / 4 + ((chunk.first + chunk.count) / 4 - chunk.first / 4) =
      (chunk.first + chunk.count) / 4 by omega]

section Appended

variable {guard : Guard} {manifest : Manifest} {rank : UInt8} {records : Nat → Nat → Records}

def stepped (layers : List Nat) (frontier : Nat → UInt32) (layer : Nat) : UInt32 :=
  if layer ∈ layers then frontier layer + UInt32.ofNat compressRatio else frontier layer

def counted (layers : List Nat) (pages : Nat → Nat) (layer : Nat) : Nat :=
  if layer ∈ layers then pages layer + 1 else pages layer

@[simp] theorem stepped_nil (frontier : Nat → UInt32) : stepped [] frontier = frontier := by
  funext layer
  exact if_neg not_mem_nil

@[simp] theorem counted_nil (pages : Nat → Nat) : counted [] pages = pages := by
  funext layer
  exact if_neg not_mem_nil

theorem update_stepped {layer : Nat} {layers : List Nat} (h : layer ∉ layers) (frontier : Nat → UInt32) :
    stepped layers (Function.update frontier layer (frontier layer + UInt32.ofNat compressRatio)) =
      stepped (layer :: layers) frontier := by
  funext other
  by_cases hother : other = layer
  · subst hother
    simp [stepped, h]
  · simp [stepped, hother]

theorem update_counted {layer : Nat} {layers : List Nat} (h : layer ∉ layers) (pages : Nat → Nat) :
    counted layers (Function.update pages layer (pages layer + 1)) = counted (layer :: layers) pages := by
  funext other
  by_cases hother : other = layer
  · subst hother
    simp [counted, h]
  · simp [counted, hother]

theorem appendEntries_block {layers : List Nat} (hnodup : layers.Nodup)
    (howned : ∀ layer ∈ layers, layer < 256 ∧ ownedQsaLayer manifest guard.rank layer = true) {block i : Nat}
    (hblock : 4 * block + 4 ≤ guard.contextLimit.toNat) {frontier : Nat → UInt32}
    (hfrontier : ∀ layer ∈ layers, (frontier layer).toNat = 4 * block) {pages : Nat → Nat}
    (hpages : ∀ layer ∈ layers, pages layer < appendLayerMaxPages) (rest : List (Page Records)) :
    appendEntries guard manifest i frontier pages
      (layers.map (fun layer => ⟨.ofNat layer, .ofNat block, some (records layer block)⟩) ++ rest) =
    appendEntries guard manifest (i + layers.length) (stepped layers frontier) (counted layers pages) rest := by
  induction layers generalizing i frontier pages with
  | nil => simp
  | cons layer layers ih =>
    obtain ⟨hnew, hnodup⟩ := nodup_cons.mp hnodup
    obtain ⟨⟨hlt, hown⟩, howned⟩ := forall_mem_cons.mp howned
    obtain ⟨hfirst, hfrontier⟩ := forall_mem_cons.mp hfrontier
    obtain ⟨hcap, hpages⟩ := forall_mem_cons.mp hpages
    have hlimit := guard.contextLimit.toNat_lt
    have hbyte : (UInt8.ofNat layer).toNat = layer := UInt8.toNat_ofNat_of_lt' hlt
    have hword : (UInt32.ofNat block).toNat = block := ofNat_toNat (by omega)
    have hne : ∀ other ∈ layers, other ≠ layer := fun other hmem heq => hnew (heq ▸ hmem)
    rw [map_cons, cons_append, appendEntries]
    rw [hbyte, hword, if_neg]
    · rw [ih hnodup howned, update_stepped hnew, update_counted hnew, length_cons, Nat.add_right_comm, Nat.add_assoc]
      · intro other hmem
        rw [Function.update_of_ne (hne other hmem)]
        exact hfrontier other hmem
      · intro other hmem
        rw [Function.update_of_ne (hne other hmem)]
        exact hpages other hmem
    · rw [hown, hfirst]
      unfold compressRatio
      simp
      omega

theorem appendEntries_blocks {layers : List Nat} (hnodup : layers.Nodup)
    (howned : ∀ layer ∈ layers, layer < 256 ∧ ownedQsaLayer manifest guard.rank layer = true) {block n i : Nat}
    (hblock : 4 * (block + n) ≤ guard.contextLimit.toNat) {frontier : Nat → UInt32}
    (hfrontier : ∀ layer ∈ layers, (frontier layer).toNat = 4 * block) {pages : Nat → Nat}
    (hpages : ∀ layer ∈ layers, pages layer + n ≤ appendLayerMaxPages) :
    ∃ frontier', appendEntries guard manifest i frontier pages ((List.range' block n).flatMap fun block =>
        layers.map fun layer => ⟨.ofNat layer, .ofNat block, some (records layer block)⟩) = .ok frontier' ∧
      ∀ layer ∈ layers, (frontier' layer).toNat = 4 * (block + n) := by
  induction n generalizing block i frontier pages with
  | zero => exact ⟨frontier, rfl, hfrontier⟩
  | succ n ih =>
    have hlimit := guard.contextLimit.toNat_lt
    rw [List.range'_succ, flatMap_cons, appendEntries_block hnodup howned (by omega) hfrontier
      fun layer hlayer => by have := hpages layer hlayer; omega]
    have hfour : (UInt32.ofNat compressRatio).toNat = 4 := rfl
    have hstepped : ∀ layer ∈ layers, (stepped layers frontier layer).toNat = 4 * (block + 1) := by
      intro layer hlayer
      rw [stepped, if_pos hlayer, UInt32.toNat_add, hfrontier layer hlayer, hfour, Nat.mod_eq_of_lt (by omega)]
      rfl
    have hcounted : ∀ layer ∈ layers, counted layers pages layer + n ≤ appendLayerMaxPages := by
      intro layer hlayer
      have hcap := hpages layer hlayer
      rw [counted, if_pos hlayer]
      omega
    obtain ⟨frontier', haccepted, hmoved⟩ :=
      @ih (block + 1) (i + layers.length) (by omega) (stepped layers frontier) hstepped (counted layers pages) hcounted
    exact ⟨frontier', haccepted, fun layer hlayer => by rw [hmoved layer hlayer]; omega⟩

structure Guard.At (guard : Guard) (manifest : Manifest) (rank : UInt8) (sessionId : UInt64) (sequence : UInt32)
    (tokens : Nat) : Prop where
  active : guard.active = true
  session : guard.sessionNonce = sessionId
  rank_eq : guard.rank = rank
  batch : guard.nextAppendBatch = sequence
  frontier : ∀ layer ∈ layersOf manifest rank, (guard.nextToken layer).toNat = 4 * (tokens / 4)

theorem layersOf_owned (hrank : rank.toNat < rankCount) :
    ∀ layer ∈ layersOf manifest rank, layer < 256 ∧ ownedQsaLayer manifest rank layer = true := by
  intro layer hlayer
  obtain ⟨hqsa, howner⟩ := mem_filter.mp hlayer
  obtain ⟨i, hi, rfl⟩ := mem_map.mp hqsa
  have hi : i < 12 := mem_range.mp hi
  refine ⟨by omega, ?_⟩
  simp only [ownedQsaLayer, Bool.and_eq_true, decide_eq_true_eq, beq_iff_eq] at howner ⊢
  exact ⟨⟨⟨hrank, show 4 * i + 3 < 48 by omega⟩, by omega⟩, howner⟩

theorem layersOf_nodup : (layersOf manifest rank).Nodup :=
  List.Nodup.filter _ (List.Nodup.map (fun _ _ h => by omega) nodup_range)

theorem Guard.At.publish {sessionId : UInt64} {sequence : UInt32} (hrank : rank.toNat < rankCount)
    (hlayers : ownedLayerCount manifest rank ≤ ownerLayerCount)
    (h : guard.At manifest rank sessionId sequence chunk.first) (hpos : 0 < chunk.count)
    (hcount : chunk.count ≤ appendLayerMaxPages * compressRatio)
    (hlast : chunk.first + chunk.count ≤ maxContext)
    (hlimit : chunk.first + chunk.count ≤ guard.contextLimit.toNat) :
    ∃ guard' sequence', coordinatorPublishQsaPages manifest rank records sessionId (guard, sequence) chunk =
        .ok (guard', sequence') ∧ guard'.contextLimit = guard.contextLimit ∧
      guard'.At manifest rank sessionId sequence' (chunk.first + chunk.count) := by
  obtain ⟨range, hrange, hblocks⟩ := completedPages_ok hpos hlast
  unfold appendLayerMaxPages compressRatio at hcount
  set block := chunk.first / 4
  set n := (chunk.first + chunk.count) / 4 - block with hn
  have hend : (chunk.first + chunk.count) / 4 = block + n := by omega
  have hlength : (appendPages manifest rank records (List.range' block n)).length = n * (layersOf manifest rank).length := by
    simp [appendPages]
  have hcap : (layersOf manifest rank).length = ownedLayerCount manifest rank := countP_eq_length_filter.symm
  obtain ⟨frontier, haccepted, hmoved⟩ := @appendEntries_blocks _ guard manifest records _ layersOf_nodup
    (by rw [h.rank_eq]; exact layersOf_owned hrank) block n 0 (by omega) guard.nextToken h.frontier (fun _ => 0)
    (fun _ _ => show 0 + n ≤ 128 by omega)
  have hroute : validatePageRoute guard sessionId 0 rank = .ok () := by
    simp [validatePageRoute, h.active, h.session, h.rank_eq]
  have hroom : ¬appendMaxPages < (appendPages manifest rank records (List.range' block n)).length := by
    have hproduct := Nat.mul_le_mul (show n ≤ 128 by omega) (hcap.trans_le hlayers)
    rw [hlength]
    exact Nat.not_lt.mpr (hproduct.trans (by decide))
  unfold coordinatorPublishQsaPages
  rw [hrange]
  simp only [bind, Except.bind, hblocks, if_neg hroom]
  by_cases hempty : (appendPages manifest rank records (List.range' block n)).isEmpty = true
  · rw [if_pos hempty]
    refine ⟨guard, sequence, rfl, rfl, ⟨h.active, h.session, h.rank_eq, h.batch, fun layer hlayer => ?_⟩⟩
    rw [List.isEmpty_iff, ← List.length_eq_zero_iff, hlength, Nat.mul_eq_zero, List.length_eq_zero_iff] at hempty
    rcases hempty with hzero | hnone
    · rw [h.frontier layer hlayer, hend, hzero]
      rfl
    · rw [hnone] at hlayer
      cases hlayer
  · rw [if_neg hempty, guardAcceptAppend]
    rw [hroute, h.batch, if_neg (not_not.mpr rfl)]
    change appendEntries guard manifest 0 guard.nextToken (fun _ => 0)
      (appendPages manifest rank records (List.range' block n)) = .ok frontier at haccepted
    rw [haccepted]
    refine ⟨_, _, rfl, rfl, ⟨h.active, h.session, h.rank_eq, rfl, fun layer hlayer => ?_⟩⟩
    rw [hend]
    exact hmoved layer hlayer

theorem Guard.At.publishAll {sessionId : UInt64} {sequence : UInt32} (hrank : rank.toNat < rankCount)
    (hlayers : ownedLayerCount manifest rank ≤ ownerLayerCount)
    (h : guard.At manifest rank sessionId sequence start) (htiles : Tiles start chunks)
    (hcount : ∀ chunk ∈ chunks, chunk.count ≤ appendLayerMaxPages * compressRatio)
    (hlast : start + total chunks ≤ maxContext) (hlimit : start + total chunks ≤ guard.contextLimit.toNat) :
    ∃ guard' sequence', chunks.foldlM (coordinatorPublishQsaPages manifest rank records sessionId) (guard, sequence) =
        .ok (guard', sequence') ∧ guard'.At manifest rank sessionId sequence' (start + total chunks) := by
  induction chunks generalizing start guard sequence with
  | nil => exact ⟨guard, sequence, rfl, h⟩
  | cons chunk rest ih =>
    obtain ⟨rfl, hpos, hrest⟩ := htiles
    rw [total_cons, ← Nat.add_assoc] at hlast hlimit ⊢
    obtain ⟨hone, hcount⟩ := forall_mem_cons.mp hcount
    obtain ⟨next, sequence', hnext, hsame, hat⟩ :=
      h.publish hrank hlayers hpos hone (by omega) (show _ ≤ _ by omega)
    obtain ⟨last, sequence'', hfold, hdone⟩ := ih hat hrest hcount hlast (by rw [hsame]; exact hlimit)
    refine ⟨last, sequence'', ?_, hdone⟩
    rw [foldlM_cons, hnext]
    exact hfold

end Appended

/-! ## All chunks of a stream -/

theorem mapM_completed (h : Tiles start chunks) (hlast : start + total chunks ≤ maxContext) :
    ∃ ranges, chunks.mapM completedPages = .ok ranges ∧ ranges.flatMap rangeBlocks = chunks.flatMap fun chunk =>
      List.range' (chunk.first / 4) ((chunk.first + chunk.count) / 4 - chunk.first / 4) := by
  induction chunks generalizing start with
  | nil => exact ⟨[], rfl, rfl⟩
  | cons chunk rest ih =>
    obtain ⟨rfl, hpos, hrest⟩ := h
    rw [total_cons, ← Nat.add_assoc] at hlast
    obtain ⟨range, hrange, hblocks⟩ := completedPages_ok hpos (by omega)
    obtain ⟨ranges, hranges, hall⟩ := ih hrest hlast
    refine ⟨range :: ranges, ?_, by rw [flatMap_cons, flatMap_cons, hblocks, hall]⟩
    simp only [mapM_cons, hrange, hranges]
    rfl

theorem exists_last (h : Tiles start chunks) (hne : chunks ≠ []) :
    ∃ chunk ∈ chunks, chunk.first + chunk.count = start + total chunks := by
  induction chunks generalizing start with
  | nil => exact absurd rfl hne
  | cons chunk rest ih =>
    obtain ⟨rfl, -, hrest⟩ := h
    rw [total_cons, ← Nat.add_assoc]
    cases rest with
    | nil => exact ⟨chunk, mem_cons_self, by simp⟩
    | cons next rest =>
      obtain ⟨last, hmem, hend⟩ := ih hrest (cons_ne_nil _ _)
      exact ⟨last, mem_cons_of_mem _ hmem, hend⟩

/-- The ranges of the chunks are the complete blocks of the stream, each once and in order; an owner's guard accepts
the appends of chunks as long as a prefill's, and the mirror is warmed with the blocks of each chunk. -/
structure PagesTile (Records : Type) (chunks : List Span) : Prop where
  completed : ∃ ranges, chunks.mapM completedPages = .ok ranges ∧
    ranges.flatMap rangeBlocks = List.range (total chunks / 4)
  accepted : ∀ (manifest : Manifest) (rank : UInt8) (records : Nat → Nat → Records) (guard : Guard)
    (sessionId : UInt64) (sequence : UInt32), rank.toNat < rankCount →
    ownedLayerCount manifest rank ≤ ownerLayerCount → guard.At manifest rank sessionId sequence 0 →
    (∀ chunk ∈ chunks, chunk.count ≤ appendLayerMaxPages * compressRatio) →
    total chunks ≤ guard.contextLimit.toNat →
    ∃ guard' sequence', chunks.foldlM (coordinatorPublishQsaPages manifest rank records sessionId)
      (guard, sequence) = .ok (guard', sequence') ∧ guard'.At manifest rank sessionId sequence' (total chunks)
  warmed : ∀ chunk ∈ chunks, ∃ range, completedPages chunk = .ok range ∧
    rangeBlocks (warmedPages chunk) = rangeBlocks range

/-- The pages tile a stream within the native context, and the mirror is warmed with all of them, if and only if no
chunk ends a block that began before it. -/
theorem pages_tile_iff (htiles : Tiles 0 chunks) (hword : total chunks < 2 ^ 32) : PagesTile Records chunks ↔
    total chunks ≤ maxContext ∧
      ∀ chunk ∈ chunks, 4 ∣ chunk.first ∨ (chunk.first + chunk.count) / 4 = chunk.first / 4 := by
  constructor
  · intro h
    have hends : ∀ chunk ∈ chunks, chunk.first + chunk.count ≤ maxContext := by
      intro chunk hchunk
      obtain ⟨range, hrange, -⟩ := h.warmed chunk hchunk
      have hwithin := (htiles.within hchunk).2.2
      exact completedPages_le (by omega) hrange
    refine ⟨?_, fun chunk hchunk =>
      (warmed_eq_iff (htiles.within hchunk).2.1 (hends chunk hchunk)).mp (h.warmed chunk hchunk)⟩
    by_cases hne : chunks = []
    · rw [hne]
      exact Nat.zero_le _
    · obtain ⟨last, hmem, hend⟩ := exists_last htiles hne
      rw [Nat.zero_add] at hend
      exact hend ▸ hends last hmem
  · rintro ⟨htotal, haligned⟩
    have hlast : 0 + total chunks ≤ maxContext := by rwa [Nat.zero_add]
    refine ⟨?_, fun manifest rank records guard sessionId sequence hrank hlayers hat hcount hlimit => ?_,
      fun chunk hchunk => ?_⟩
    · obtain ⟨ranges, hranges, hblocks⟩ := mapM_completed htiles hlast
      refine ⟨ranges, hranges, ?_⟩
      rw [hblocks, flatMap_completed htiles, Nat.zero_add, range_eq_range']
      rfl
    · rw [← Nat.zero_add (total chunks)]
      exact hat.publishAll hrank hlayers htiles hcount hlast (by rwa [Nat.zero_add])
    · have hwithin := htiles.within hchunk
      exact (warmed_eq_iff hwithin.2.1 (by omega)).mpr (haligned chunk hchunk)

theorem pages_tile_iff_seven : PagesTile Unit [⟨0, 4⟩, ⟨4, 3⟩] :=
  (pages_tile_iff (show Tiles 0 [⟨0, 4⟩, ⟨4, 3⟩] from ⟨rfl, by decide, rfl, by decide, trivial⟩) (by decide)).mpr ⟨by decide, by decide⟩

/-- Chunks of three and five tokens: the second one ends block 0, and the mirror is warmed with block 1 alone. -/
theorem not_pages_tile : ¬∀ chunks, Tiles 0 chunks → total chunks ≤ maxContext → PagesTile Unit chunks := by
  intro h
  have htile := h [⟨0, 3⟩, ⟨3, 5⟩] ⟨rfl, by decide, rfl, by decide, trivial⟩ (by decide)
  exact absurd ((warmed_eq_iff (by decide) (by decide)).mp (htile.warmed ⟨3, 5⟩ (by decide))) (by decide)

end FlashGordon.QsaOwner
