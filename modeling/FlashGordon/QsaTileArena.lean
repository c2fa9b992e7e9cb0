import FlashGordon.QsaCommittedPrefill

/-! The arena of a prefill tile (`prefill_tile_attention`), record for record. Each query owns a slice of it: the
pages of its selected blocks in the order of the selection, then the records of its partial block. The tails are
copied by the host, the cached pages by the device, and the missing ones by the host once they are fetched,
grouped by block. -/

namespace FlashGordon.QsaSession

open QsaCache (Key Represents uint32Max)
open PinnedLru List

variable {R : Type}

/-- `FG_QSA_SELECTED_TOKENS`: the records of a query's slice. -/
def selectedTokens : Nat := 2051

/-- `qsa_missing_page`: a selected block without a slot, and whose place it is. -/
structure MissingPage where
  block : UInt32
  query : Nat
  index : Nat
  deriving DecidableEq

/-- `batch_records`, whatever an earlier tile has left in it. -/
abbrev Arena (R : Type) : Type := Nat → R

/-- The first `count` records of a page and where they go. -/
structure Copy (R : Type) where
  first : Nat
  count : Nat
  page : Page R

def Arena.fill (arena : Arena R) (copies : List (Copy R)) : Arena R :=
  copies.foldl (fun arena copy place =>
    if copy.first ≤ place ∧ place < copy.first + copy.count then copy.page (place - copy.first) else arena place) arena

def MissingPage.copy (missing : MissingPage) (page : Page R) : Copy R :=
  ⟨missing.query * selectedTokens + missing.index * compressRatio, compressRatio, page⟩

/-- `missing`, as the lookups fill it. -/
def missingPages (rows : List TileRow) : List MissingPage :=
  rows.zipIdx.flatMap fun (row, query) =>
    row.slots.zipIdx.filterMap fun ((block, slot), index) =>
      if slot.isNone then some ⟨block, query, index⟩ else none

def missingPageOrder (left right : MissingPage) : Int :=
  (if left.block > right.block then 1 else 0) - if left.block < right.block then 1 else 0

/-- What `qsort` promises of the list it leaves. Entries that compare equal are in any order. -/
structure Sorts (order : MissingPage → MissingPage → Int) (sort : List MissingPage → List MissingPage) : Prop where
  perm : ∀ list, (sort list).Perm list
  ordered : ∀ list, (sort list).Pairwise fun left right => order left right ≤ 0

def missingGroups : List MissingPage → List (UInt32 × List MissingPage)
  | [] => []
  | first :: rest =>
    match missingGroups rest with
    | [] => [(first.block, [first])]
    | (block, group) :: others =>
      if block = first.block then (block, first :: group) :: others
      else (first.block, [first]) :: (block, group) :: others

/-- What the attention of a tile is dispatched with: the records of each query and the arena; and the fetches
that were made for it. -/
structure Tile (R : Type) where
  fetches : List (List UInt32)
  counts : List Nat
  arena : Arena R

namespace Session

/-- The host's copies of the partial blocks. -/
def tailCopies (s : Session R) (queries : List (Nat × List UInt32)) (rows : List TileRow) : List (Copy R) :=
  (queries.zip rows).zipIdx.filterMap fun ((query, row), q) => row.tail.map fun (_, slot) =>
    ⟨q * selectedTokens + query.2.length * compressRatio, query.1 % compressRatio, s.cacheRecords slot⟩

/-- `fg_vk_qsa_record_gather_batch`, what its threads write at a place. A rank without a slot, and one past the
selection, is padded with `UINT32_MAX`. -/
def recordGatherBatch (s : Session R) (rows : List TileRow) (arena : Arena R) : Arena R := fun place =>
  match rows[place / selectedTokens]?.bind fun row => row.slots[place % selectedTokens / compressRatio]? with
  | some (_, some slot) =>
    if slot < s.cachePages then s.cacheRecords slot (place % selectedTokens % compressRatio) else arena place
  | _ => arena place

/-- The fetched pages of a batch: each goes to its group's places, and then to the cache while that has a slot to
give. -/
def placeEach (s : Session R) (layer : UInt32) (arena : Arena R) :
    List ((UInt32 × List MissingPage) × Page R) → Option (Arena R × Session R)
  | [] => some (arena, s)
  | ((block, group), page) :: rest => do
    let filled := arena.fill (group.map fun missing => missing.copy page)
    let (slot, _, acquired) ← s.qsaCacheAcquire true layer block
    (if slot = uint32Max then acquired else acquired.writePage slot page).placeEach layer filled rest

/-- The loop over the sorted list. -/
def fetchGroups (s : Session R) (input : Selected R) (layer : UInt32) (counts : List Nat) (arena : Arena R) :
    List (List (UInt32 × List MissingPage)) → Option (Except Error (Tile R) × Session R)
  | [] => some (.ok ⟨[], counts, arena⟩, s)
  | batch :: rest =>
    match s.fetch ⟨[], [], input.fetched⟩ layer (batch.map Prod.fst) with
    | .error error => some (.error error, s)
    | .ok pages => do
      let (filled, placed) ← s.placeEach layer arena (batch.zip pages)
      let (tile, after) ← placed.fetchGroups input layer counts filled rest
      return (tile.map fun tile => { tile with fetches := batch.map Prod.fst :: tile.fetches }, after)

/-- `prefill_tile_attention` up to its dispatch. The device's copies are waited for before a fetched page is
placed in the cache. -/
def prefillTile (s : Session R) (qsort : List MissingPage → List MissingPage) (index : Nat)
    (queries : List (Nat × List UInt32)) (input : Selected R) (arena : Arena R) :
    Option (Except Error (Tile R) × Session R) :=
  if queries = [] ∨ prefillBatchQueries < queries.length then
    some (.error ⟨.argument, "invalid batched QSA attention tile"⟩, s)
  else do
    let layer := s.layerAt index
    let (rows, looked) ← s.lookupQueries layer queries
    match rows with
    | .error error => return (.error error, looked)
    | .ok rows =>
      let counts := queries.map fun (tokens, selected) => selected.length * compressRatio + tokens % compressRatio
      let gathered := looked.recordGatherBatch rows (arena.fill (looked.tailCopies queries rows))
      looked.fetchGroups input layer counts gathered
        (pieces maxSelectedBlocks (missingGroups (qsort (missingPages rows))))

end Session

variable {arena : Arena R} {page : Page R} {q i j : Nat} {entries : List MissingPage}
  {groups : List (UInt32 × List MissingPage)}

def Copy.Covers (copy : Copy R) (place : Nat) : Prop := copy.first ≤ place ∧ place < copy.first + copy.count

theorem Arena.fill_cons (copy : Copy R) (rest : List (Copy R)) :
    arena.fill (copy :: rest) = Arena.fill (fun place => if copy.first ≤ place ∧ place < copy.first + copy.count then
      copy.page (place - copy.first) else arena place) rest := rfl

theorem Arena.fill_frame {copies : List (Copy R)} {place : Nat} (h : ∀ copy ∈ copies, ¬copy.Covers place) :
    arena.fill copies place = arena place := by
  induction copies generalizing arena with
  | nil => rfl
  | cons copy rest ih =>
    obtain ⟨hcopy, hrest⟩ := forall_mem_cons.mp h
    rw [fill_cons, ih hrest]
    exact if_neg hcopy

theorem Arena.fill_covered {copies : List (Copy R)} {place : Nat} {value : R}
    (h : ∀ copy ∈ copies, copy.Covers place → copy.page (place - copy.first) = value)
    (hsome : ∃ copy ∈ copies, copy.Covers place) : arena.fill copies place = value := by
  induction copies generalizing arena with
  | nil =>
    obtain ⟨copy, hcopy, -⟩ := hsome
    cases hcopy
  | cons copy rest ih =>
    obtain ⟨hcopy, hrest⟩ := forall_mem_cons.mp h
    rw [fill_cons]
    by_cases hlater : ∃ copy ∈ rest, copy.Covers place
    · exact ih hrest hlater
    · rw [fill_frame fun copy hmem hcovers => hlater ⟨copy, hmem, hcovers⟩]
      have hfirst := (exists_mem_cons_iff _ _ _).mp hsome |>.resolve_right hlater
      exact (if_pos hfirst).trans (hcopy hfirst)

theorem Arena.fill_append (copies more : List (Copy R)) :
    arena.fill (copies ++ more) = (arena.fill copies).fill more := foldl_append

theorem MissingPage.covers_iff {missing : MissingPage} (hindex : missing.index < maxSelectedBlocks)
    (hj : j < compressRatio) (hplace : i * compressRatio + j < selectedTokens) :
    (missing.copy page).Covers (q * selectedTokens + i * compressRatio + j) ↔
      missing.query = q ∧ missing.index = i := by
  simp only [Copy.Covers, MissingPage.copy, compressRatio, selectedTokens, maxSelectedBlocks] at *
  rcases lt_trichotomy missing.query q with hlt | heq | hgt <;> omega

structure Grouped (entries : List MissingPage) (groups : List (UInt32 × List MissingPage)) : Prop where
  all : groups.flatMap Prod.snd = entries
  own : ∀ group ∈ groups, ∀ entry ∈ group.2, entry.block = group.1
  filled : ∀ group ∈ groups, group.2 ≠ []

theorem grouped_missingGroups (entries : List MissingPage) : Grouped entries (missingGroups entries) := by
  induction entries with
  | nil => exact ⟨rfl, fun _ hgroup => (nomatch hgroup), fun _ hgroup => (nomatch hgroup)⟩
  | cons first rest ih =>
    obtain ⟨hall, hown, hfilled⟩ := ih
    rw [missingGroups]
    split
    next hnil =>
      rw [hnil] at hall
      refine ⟨congrArg (first :: ·) hall, ?_, ?_⟩
      · simp
      · simp
    next block group others hgroups =>
      rw [hgroups, forall_mem_cons] at hown hfilled
      rw [hgroups] at hall
      split
      next hblock =>
        refine ⟨congrArg (first :: ·) hall, forall_mem_cons.mpr ⟨?_, hown.2⟩,
          forall_mem_cons.mpr ⟨cons_ne_nil _ _, hfilled.2⟩⟩
        exact forall_mem_cons.mpr ⟨hblock.symm, hown.1⟩
      next =>
        refine ⟨congrArg (first :: ·) hall, forall_mem_cons.mpr ⟨?_, forall_mem_cons.mpr hown⟩,
          forall_mem_cons.mpr ⟨cons_ne_nil _ _, forall_mem_cons.mpr hfilled⟩⟩
        exact forall_mem_singleton.mpr rfl

theorem Grouped.mem (h : Grouped entries groups) {group : UInt32 × List MissingPage} (hgroup : group ∈ groups) :
    ∃ entry ∈ entries, entry.block = group.1 := by
  obtain ⟨entry, hentry⟩ := exists_mem_of_ne_nil _ (h.filled group hgroup)
  exact ⟨entry, h.all ▸ mem_flatMap.mpr ⟨group, hgroup, hentry⟩, h.own group hgroup entry hentry⟩

theorem missingPageOrder_le {left right : MissingPage} :
    missingPageOrder left right ≤ 0 ↔ left.block ≤ right.block := by
  simp only [missingPageOrder, gt_iff_lt, UInt32.lt_iff_toNat_lt, UInt32.le_iff_toNat_le]
  split <;> split <;> omega

theorem sorts_mergeSort :
    Sorts missingPageOrder (List.mergeSort · fun left right => missingPageOrder left right ≤ 0) := by
  refine ⟨fun list => mergeSort_perm list _, fun list => ?_⟩
  refine (pairwise_mergeSort (fun a b c => ?_) (fun a b => ?_) list).imp of_decide_eq_true
  · simpa only [decide_eq_true_eq, missingPageOrder_le] using UInt32.le_trans
  · simpa only [Bool.or_eq_true, decide_eq_true_eq, missingPageOrder_le] using UInt32.le_total a.block b.block

theorem pairwise_missingGroups {entries : List MissingPage}
    (h : entries.Pairwise fun left right => missingPageOrder left right ≤ 0) :
    ((missingGroups entries).map Prod.fst).Pairwise (· < ·) := by
  induction entries with
  | nil => exact .nil
  | cons first rest ih =>
    obtain ⟨hfirst, hrest⟩ := pairwise_cons.mp h
    have hlater := ih hrest
    have hle : ∀ group ∈ missingGroups rest, first.block ≤ group.1 := by
      intro group hgroup
      obtain ⟨entry, hentry, heq⟩ := (grouped_missingGroups rest).mem hgroup
      exact heq ▸ missingPageOrder_le.mp (hfirst entry hentry)
    rw [missingGroups]
    split
    next => simp
    next block group others hgroups =>
      rw [hgroups] at hlater hle
      split
      next => exact hlater
      next hdiffers =>
        refine pairwise_cons.mpr ⟨?_, hlater⟩
        have hlt : first.block < block :=
          UInt32.lt_of_le_of_ne (hle _ mem_cons_self) (Ne.symm hdiffers)
        intro other hother
        rcases mem_cons.mp hother with rfl | hmore
        · exact hlt
        · exact UInt32.lt_trans hlt ((pairwise_cons.mp hlater).1 other hmore)

theorem mem_missingPages {rows : List TileRow} {entry : MissingPage} :
    entry ∈ missingPages rows ↔
      ∃ row, rows[entry.query]? = some row ∧ row.slots[entry.index]? = some (entry.block, none) := by
  obtain ⟨block, query, index⟩ := entry
  simp only [missingPages, mem_flatMap, mem_filterMap, Prod.exists, mem_zipIdx_iff_getElem?]
  constructor
  · rintro ⟨row, own, hrow, ⟨other, slot, rank, hslot, hmissing⟩⟩
    split at hmissing
    next hnone =>
      rw [Option.isNone_iff_eq_none] at hnone
      obtain ⟨rfl, rfl, rfl⟩ := MissingPage.mk.inj (Option.some.inj hmissing)
      exact ⟨row, hrow, hnone ▸ hslot⟩
    next => cases hmissing
  · rintro ⟨row, hrow, hslot⟩
    exact ⟨row, query, hrow, block, none, index, hslot, rfl⟩

variable {s : Session R} {capacity : Nat} {map : Map Key capacity} {layer : UInt32}
  {queries : List (Nat × List UInt32)} {query : Nat × List UInt32} {qsort : List MissingPage → List MissingPage}

theorem mem_missingPages_tileRow {entry : MissingPage} :
    entry ∈ missingPages (queries.map (tileRow map layer)) ↔ map.frame? (layer, entry.block) = none ∧
      ∃ query, queries[entry.query]? = some query ∧ query.2[entry.index]? = some entry.block := by
  simp only [mem_missingPages, List.getElem?_map, Option.map_eq_some_iff, tileRow, exists_exists_and_eq_and,
    Prod.mk.injEq]
  constructor
  · rintro ⟨query, hquery, block, hblock, rfl, hnone⟩
    exact ⟨hnone, query, hquery, hblock⟩
  · rintro ⟨hnone, query, hquery, hblock⟩
    exact ⟨query, hquery, entry.block, hblock, rfl, hnone⟩

/-! ## The copies of the device and of the tails -/

theorem place_div_mod (hj : j < compressRatio) (hplace : i * compressRatio + j < selectedTokens) :
    (q * selectedTokens + i * compressRatio + j) / selectedTokens = q ∧
      (q * selectedTokens + i * compressRatio + j) % selectedTokens / compressRatio = i ∧
      (q * selectedTokens + i * compressRatio + j) % selectedTokens % compressRatio = j := by
  have hrank : (q * selectedTokens + i * compressRatio + j) % selectedTokens = i * compressRatio + j := by
    rw [Nat.add_assoc, Nat.mul_comm, Nat.mul_add_mod, Nat.mod_eq_of_lt hplace]
  rw [hrank]
  simp only [compressRatio, selectedTokens] at *
  omega

theorem recordGatherBatch_rank {rows : List TileRow} {row : TileRow} (hrow : rows[q]? = some row)
    (hj : j < compressRatio) (hplace : i * compressRatio + j < selectedTokens) :
    s.recordGatherBatch rows arena (q * selectedTokens + i * compressRatio + j) =
      match row.slots[i]? with
      | some (_, some slot) =>
        if slot < s.cachePages then s.cacheRecords slot j else arena (q * selectedTokens + i * compressRatio + j)
      | _ => arena (q * selectedTokens + i * compressRatio + j) := by
  obtain ⟨hq, hi, hj⟩ := @place_div_mod q i j hj hplace
  rw [Session.recordGatherBatch, hq, hi, hj, hrow, Option.bind_some]

theorem fill_tailCopies {slot : Nat}
    (hmany : ∀ query ∈ queries, query.2.length ≤ maxSelectedBlocks) (hquery : queries[q]? = some query)
    (hslot : map.frame? (layer, UInt32.ofNat (query.1 / compressRatio)) = some slot)
    (hj : j < query.1 % compressRatio) :
    arena.fill (s.tailCopies queries (queries.map (tileRow map layer)))
      (q * selectedTokens + query.2.length * compressRatio + j) = s.cacheRecords slot j := by
  have hpartial : query.1 % compressRatio ≠ 0 := by omega
  have hown : (tileRow map layer query).tail = some (UInt32.ofNat (query.1 / compressRatio), slot) := by
    rw [tileRow, if_neg hpartial, hslot]
    rfl
  have hat : ∀ {other : Nat × List UInt32} {row : TileRow} {n : Nat},
      ((other, row), n) ∈ (queries.zip (queries.map (tileRow map layer))).zipIdx ↔
        queries[n]? = some other ∧ row = tileRow map layer other := by
    intro other row n
    rw [mem_zipIdx_iff_getElem?, List.getElem?_zip_eq_some, List.getElem?_map]
    constructor
    · rintro ⟨hother, hrow⟩
      rw [hother] at hrow
      exact ⟨hother, (Option.some.inj hrow).symm⟩
    · rintro ⟨hother, rfl⟩
      exact ⟨hother, by rw [hother]; rfl⟩
  refine Arena.fill_covered ?_ ?_
  rotate_left
  · refine ⟨⟨q * selectedTokens + query.2.length * compressRatio, query.1 % compressRatio, s.cacheRecords slot⟩,
      mem_filterMap.mpr ⟨((query, tileRow map layer query), q), hat.mpr ⟨hquery, rfl⟩, ?_⟩,
      Nat.le_add_right _ _, Nat.add_lt_add_left hj _⟩
    dsimp only
    rw [hown]
    rfl
  · intro copy hcopy hcovers
    obtain ⟨⟨⟨other, row⟩, n⟩, hmem, htail⟩ := mem_filterMap.mp hcopy
    obtain ⟨hother, rfl⟩ := hat.mp hmem
    obtain ⟨⟨block, found⟩, hfound, rfl⟩ := Option.map_eq_some_iff.mp htail
    have hn : n = q := by
      have hsmall := hmany other (mem_of_getElem? hother)
      have hsmall' := hmany query (mem_of_getElem? hquery)
      simp only [Copy.Covers, compressRatio, selectedTokens, maxSelectedBlocks] at *
      rcases lt_trichotomy n q with hlt | heq | hgt <;> omega
    subst hn
    obtain rfl := Option.some.inj (hother.symm.trans hquery)
    obtain ⟨-, rfl⟩ := Prod.mk.inj (Option.some.inj (hown.symm.trans hfound))
    rw [Nat.add_sub_cancel_left]

/-- Pages have come and gone, while the file and the fetch service are as they were. -/
structure Swaps (s after : Session R) (map' : Map Key capacity) : Prop where
  mirrors : Mirrors after map'
  same : SameSession s after
  state : after.state = s.state

variable {after : Session R} {map' : Map Key capacity} {index : Nat} {input : Selected R} {fetched : UInt32 → Page R}

theorem Swaps.trans {second third : Session R} {map'' : Map Key capacity} (h : Swaps s second map')
    (h' : Swaps second third map'') : Swaps s third map'' :=
  ⟨h'.mirrors, h.same.trans h'.same, h'.state.trans h.state⟩

theorem Swaps.fetch (h : Swaps s after map') (blocks : List UInt32) :
    after.fetch ⟨[], [], input.fetched⟩ layer blocks = s.fetch ⟨[], [], input.fetched⟩ layer blocks := by
  simp only [Session.fetch, Session.stateFetchPages, h.same.fetchPages, h.state, h.same.shape.layerSlot,
    h.same.shape.maxBlocks]

theorem Mirrors.warm (h : Mirrors s map) (hlayer : s.layerSlot layer = some index) (block : UInt32) (page : Page R) :
    ∃ (slot : Nat) (hit : Bool) (acquired : Session R) (map' : Map Key capacity),
      s.qsaCacheAcquire true layer block = some (slot, hit, acquired) ∧
      Swaps s (if slot = uint32Max then acquired else acquired.writePage slot page) map' := by
  obtain ⟨slot, acquired, hacquire, -, hacquired⟩ := h.acquire true hlayer block
  obtain ⟨cache, table, lengths, rfl⟩ := qsaCacheAcquire_eq hacquire
  refine ⟨slot, _, _, (map.acquire true (layer, block)).2, hacquire, ?_⟩
  split
  · exact ⟨hacquired, ⟨⟨rfl, rfl, rfl, rfl⟩, rfl, rfl, rfl⟩, rfl⟩
  · exact ⟨hacquired.writePage slot page, ⟨⟨rfl, rfl, rfl, rfl⟩, rfl, rfl, rfl⟩, rfl⟩

variable (arena fetched) in
/-- The loop over the pages warms the cache as the list of blocks does, and fills the groups' places. -/
theorem Mirrors.placeEach (h : Mirrors s map) (hlayer : s.layerSlot layer = some index)
    (groups : List (UInt32 × List MissingPage)) :
    ∃ (after : Session R) (map' : Map Key capacity),
      s.warmEach layer (groups.map fun group => (group.1, fetched group.1)) = some after ∧
      s.placeEach layer arena (groups.map fun group => (group, fetched group.1)) =
        some (arena.fill (groups.flatMap fun group => group.2.map (·.copy (fetched group.1))), after) ∧
      Swaps s after map' := by
  induction groups generalizing s map arena with
  | nil => exact ⟨s, map, rfl, rfl, h, .refl s, rfl⟩
  | cons group rest ih =>
    obtain ⟨slot, hit, acquired, map₁, hacquire, hnext⟩ := h.warm hlayer group.1 (fetched group.1)
    obtain ⟨after, map₂, hwarm, hplace, hafter⟩ := ih (arena.fill (group.2.map (·.copy (fetched group.1))))
      hnext.mirrors (hnext.same.shape.layerSlot layer ▸ hlayer)
    refine ⟨after, map₂, ?_, ?_, hnext.trans hafter⟩
    · rw [map_cons, Session.warmEach, hacquire, Option.bind_eq_bind, Option.bind_some]
      exact hwarm
    · rw [map_cons, Session.placeEach, hacquire, Option.bind_eq_bind, Option.bind_some, flatMap_cons, Arena.fill_append]
      exact hplace

variable (arena) in
theorem Mirrors.fetchGroups (h : Mirrors s map) (hlayer : s.layerSlot layer = some index) (counts : List Nat)
    {batches : List (List (UInt32 × List MissingPage))}
    (hfetch : ∀ batch ∈ batches, s.fetch ⟨[], [], input.fetched⟩ layer (batch.map Prod.fst) =
      .ok ((batch.map Prod.fst).map fetched)) :
    ∃ (after : Session R) (map' : Map Key capacity),
      s.fetchBatches input layer (batches.map fun batch => batch.map Prod.fst) =
        some (.ok ((batches.flatten.map Prod.fst).map fun block => (block, fetched block)), after) ∧
      s.fetchGroups input layer counts arena batches = some (.ok ⟨batches.map fun batch => batch.map Prod.fst, counts,
        arena.fill (batches.flatten.flatMap fun group => group.2.map (·.copy (fetched group.1)))⟩, after) ∧
      Swaps s after map' := by
  induction batches generalizing s map arena with
  | nil => exact ⟨s, map, rfl, rfl, h, .refl s, rfl⟩
  | cons batch rest ih =>
    obtain ⟨hfirst, hrest⟩ := forall_mem_cons.mp hfetch
    obtain ⟨placed, map₁, hwarm, hplace, hnext⟩ := h.placeEach arena fetched hlayer batch
    obtain ⟨after, map₂, hbatches, hgroups, hafter⟩ := ih
      (arena.fill (batch.flatMap fun group => group.2.map (·.copy (fetched group.1)))) hnext.mirrors
      (hnext.same.shape.layerSlot layer ▸ hlayer) fun other hother => (hnext.fetch _).trans (hrest other hother)
    refine ⟨after, map₂, ?_, ?_, hnext.trans hafter⟩
    · have hzip : (batch.map Prod.fst).map (fun block => (block, fetched block)) =
          batch.map fun group => (group.1, fetched group.1) := map_map
      rw [map_cons, Session.fetchBatches, hfirst, flatten_cons, map_append, map_append, hzip]
      dsimp only
      rw [← map_prod_left_eq_zip, hzip, Option.bind_eq_bind, hwarm, Option.bind_some, Option.bind_eq_bind, hbatches]
      rfl
    · rw [Session.fetchGroups, hfirst]
      dsimp only
      rw [map_map, ← map_prod_left_eq_zip, Option.bind_eq_bind]
      have hzip : (batch.map fun group => (group, (fetched ∘ Prod.fst) group)) =
          batch.map fun group => (group, fetched group.1) := rfl
      rw [hzip, hplace, Option.bind_some, Option.bind_eq_bind, hgroups, flatten_cons, flatMap_append, Arena.fill_append]
      rfl

def recordsOf (s : Session R) (map : Map Key capacity) (layer : UInt32) (fetched : UInt32 → Page R)
    (block : UInt32) : Page R :=
  match map.frame? (layer, block) with
  | some slot => s.cacheRecords slot
  | none => fetched block

/-- What a query's gather copies when nothing is lost. -/
def gatheredOf (s : Session R) (map : Map Key capacity) (layer : UInt32) (fetched : UInt32 → Page R)
    (query : Nat × List UInt32) : Gathered R where
  pages := query.2.map fun block => (block, recordsOf s map layer fetched block)
  tail :=
    if query.1 % compressRatio = 0 then none
    else
      let block := UInt32.ofNat (query.1 / compressRatio)
      some (block, recordsOf s map layer fetched block)

/-- What the callers of `prefill_tile_attention` promise, and that a fetch answers with the pages of its blocks. -/
structure Served (s : Session R) (map : Map Key capacity) (layer : UInt32) (queries : List (Nat × List UInt32))
    (input : Selected R) (fetched : UInt32 → Page R) : Prop where
  some : queries ≠ []
  few : queries.length ≤ prefillBatchQueries
  many : ∀ query ∈ queries, query.2.length ≤ maxSelectedBlocks
  fetch : ∀ blocks, blocks ≠ [] → blocks.length ≤ maxSelectedBlocks →
    (∀ block ∈ blocks, map.frame? (layer, block) = none ∧ ∃ query ∈ queries, block ∈ query.2) →
    s.fetch ⟨[], [], input.fetched⟩ layer blocks = .ok (blocks.map fetched)

structure Staged (s : Session R) (map : Map Key capacity) (layer : UInt32) (fetched : UInt32 → Page R)
    (queries : List (Nat × List UInt32)) (tile : Tile R) : Prop where
  batches : ∀ batch ∈ tile.fetches, batch ≠ [] ∧ batch.length ≤ maxSelectedBlocks
  once : tile.fetches.flatten.Nodup
  missing : ∀ block, block ∈ tile.fetches.flatten ↔
    map.frame? (layer, block) = none ∧ ∃ query ∈ queries, block ∈ query.2
  counts : tile.counts = queries.map fun query => query.2.length * compressRatio + query.1 % compressRatio
  selected : ∀ q query i block, queries[q]? = some query → query.2[i]? = some block → ∀ j < compressRatio,
    tile.arena (q * selectedTokens + i * compressRatio + j) = recordsOf s map layer fetched block j
  tail : ∀ q query, queries[q]? = some query → ∀ j < query.1 % compressRatio,
    tile.arena (q * selectedTokens + query.2.length * compressRatio + j) =
      recordsOf s map layer fetched (UInt32.ofNat (query.1 / compressRatio)) j

theorem Grouped.copies (h : Grouped entries groups) (fetched : UInt32 → Page R) :
    (groups.flatMap fun group => group.2.map (·.copy (fetched group.1))) =
      entries.map fun entry => entry.copy (fetched entry.block) := by
  rw [← h.all, map_flatMap]
  refine flatMap_congr fun group hgroup => map_congr_left fun entry hentry => ?_
  rw [h.own group hgroup entry hentry]

/-- A fetched page is copied to a place just where the block of its rank is missing. -/
theorem covers_copies
    (hmany : ∀ query ∈ queries, query.2.length ≤ maxSelectedBlocks) (hquery : queries[q]? = some query)
    (hj : j < compressRatio) (hplace : i * compressRatio + j < selectedTokens) {copy : Copy R}
    (hcopy : copy ∈ (missingPages (queries.map (tileRow map layer))).map fun entry => entry.copy (fetched entry.block))
    (hcovers : copy.Covers (q * selectedTokens + i * compressRatio + j)) :
    ∃ block, query.2[i]? = some block ∧ map.frame? (layer, block) = none ∧
      copy.page (q * selectedTokens + i * compressRatio + j - copy.first) = fetched block j := by
  obtain ⟨entry, hentry, rfl⟩ := mem_map.mp hcopy
  obtain ⟨hnone, own, hown, hblock⟩ := mem_missingPages_tileRow.mp hentry
  have hindex : entry.index < maxSelectedBlocks :=
    (List.getElem?_eq_some_iff.mp hblock).1.trans_le (hmany own (mem_of_getElem? hown))
  obtain ⟨rfl, rfl⟩ := (MissingPage.covers_iff hindex hj hplace).mp hcovers
  obtain rfl := Option.some.inj (hown.symm.trans hquery)
  refine ⟨entry.block, hblock, hnone, ?_⟩
  rw [MissingPage.copy]
  rw [Nat.add_sub_cancel_left]

/-- The arena once the missing pages are there. Only a place past the selection is as the tails' copies left it. -/
theorem arena_rank (h : Mirrors s map)
    (hmany : ∀ query ∈ queries, query.2.length ≤ maxSelectedBlocks) {copies : List (Copy R)}
    (hcopies : copies.Perm ((missingPages (queries.map (tileRow map layer))).map
      fun entry => entry.copy (fetched entry.block)))
    (hquery : queries[q]? = some query) (hj : j < compressRatio) (hplace : i * compressRatio + j < selectedTokens) :
    (s.recordGatherBatch (queries.map (tileRow map layer)) arena).fill copies
        (q * selectedTokens + i * compressRatio + j) =
      match query.2[i]? with
      | some block => recordsOf s map layer fetched block j
      | none => arena (q * selectedTokens + i * compressRatio + j) := by
  have hgather := @recordGatherBatch_rank R arena q i j s _ (tileRow map layer query)
    (by rw [List.getElem?_map, hquery]; rfl : (queries.map (tileRow map layer))[q]? = _) hj hplace
  rw [tileRow, List.getElem?_map] at hgather
  have hcovers := fun copy (hcopy : copy ∈ copies) => covers_copies hmany hquery hj hplace (hcopies.mem_iff.mp hcopy)
  cases hrank : query.2[i]? with
  | none =>
    rw [hrank] at hgather hcovers
    have hnone : ∀ copy ∈ copies, ¬copy.Covers (q * selectedTokens + i * compressRatio + j) := by
      intro copy hcopy hcovered
      obtain ⟨block, hblock, -⟩ := hcovers copy hcopy hcovered
      cases hblock
    exact (Arena.fill_frame hnone).trans hgather
  | some block =>
    rw [hrank] at hgather hcovers
    dsimp only [Option.map_some] at hgather ⊢
    rw [recordsOf]
    cases hframe : map.frame? (layer, block) with
    | none =>
      have hindex : i < maxSelectedBlocks :=
        (List.getElem?_eq_some_iff.mp hrank).1.trans_le (hmany query (mem_of_getElem? hquery))
      have hentry : (⟨block, q, i⟩ : MissingPage) ∈ missingPages (queries.map (tileRow map layer)) :=
        mem_missingPages_tileRow.mpr ⟨hframe, query, hquery, hrank⟩
      refine Arena.fill_covered (fun copy hcopy hcovered => ?_) ⟨_, hcopies.mem_iff.mpr (mem_map_of_mem hentry),
        (MissingPage.covers_iff hindex hj hplace).mpr ⟨rfl, rfl⟩⟩
      obtain ⟨other, hother, -, hpage⟩ := hcovers copy hcopy hcovered
      rw [hpage, Option.some.inj hother]
    | some slot =>
      rw [hframe] at hgather
      have hnone : ∀ copy ∈ copies, ¬copy.Covers (q * selectedTokens + i * compressRatio + j) := by
        intro copy hcopy hcovered
        obtain ⟨other, hother, hmissing, -⟩ := hcovers copy hcopy hcovered
        rw [← Option.some.inj hother, hframe] at hmissing
        cases hmissing
      exact (Arena.fill_frame hnone).trans (hgather.trans (if_pos (h.frame?_ne hframe).2))

theorem pieces_map {α β : Type} (f : α → β) (size : Nat) (list : List α) :
    pieces size (list.map f) = (pieces size list).map (List.map f) := by
  have haux : ∀ (list : List α) (n left : Nat), (list.map f).toChunksAux n left =
      ((list.toChunksAux n left).1.map f, (list.toChunksAux n left).2.map (List.map f)) := by
    intro list
    induction list with
    | nil => exact fun _ _ => rfl
    | cons head rest ih =>
      intro n left
      cases left with
      | zero => simp only [map_cons, List.toChunksAux, ih, map_nil]
      | succ left => simp only [map_cons, List.toChunksAux, ih]
  cases list with
  | nil => rfl
  | cons head rest => simp only [map_cons, pieces, haux]

theorem missingBlocks_eq (rows : List TileRow) (hsort : Sorts missingPageOrder qsort) :
    (missingGroups (qsort (missingPages rows))).map Prod.fst = Session.missingBlocks rows := by
  have hgroups := pairwise_missingGroups (hsort.ordered (missingPages rows))
  have hsorted : (Session.missingBlocks rows).Pairwise (· ≤ ·) :=
    (pairwise_insertionSort _ _).sublist (dedup_sublist _)
  refine List.Perm.eq_of_pairwise (fun a b _ _ => UInt32.le_antisymm) (hgroups.imp UInt32.le_of_lt) hsorted ?_
  refine (perm_ext_iff_of_nodup (hgroups.imp UInt32.ne_of_lt) (nodup_dedup _)).mpr
    fun block => Iff.trans ?_ mem_missingBlocks.symm
  have hgrouped := grouped_missingGroups (qsort (missingPages rows))
  constructor
  · intro hblock
    obtain ⟨group, hgroup, rfl⟩ := mem_map.mp hblock
    obtain ⟨entry, hentry, heq⟩ := hgrouped.mem hgroup
    obtain ⟨row, hrow, hslot⟩ := mem_missingPages.mp ((hsort.perm _).mem_iff.mp hentry)
    exact ⟨row, mem_of_getElem? hrow, heq ▸ mem_of_getElem? hslot⟩
  · rintro ⟨row, hrow, hslot⟩
    obtain ⟨q, hq⟩ := mem_iff_getElem?.mp hrow
    obtain ⟨i, hi⟩ := mem_iff_getElem?.mp hslot
    have hentry : (⟨block, q, i⟩ : MissingPage) ∈ qsort (missingPages rows) :=
      (hsort.perm _).mem_iff.mpr (mem_missingPages.mpr ⟨row, hq, hi⟩)
    rw [← hgrouped.all] at hentry
    obtain ⟨group, hgroup, hown⟩ := mem_flatMap.mp hentry
    exact mem_map.mpr ⟨group, hgroup, (hgrouped.own group hgroup _ hown).symm⟩

theorem mem_missingBlocks_tileRow {block : UInt32} :
    block ∈ Session.missingBlocks (queries.map (tileRow map layer)) ↔
      map.frame? (layer, block) = none ∧ ∃ query ∈ queries, block ∈ query.2 := by
  rw [mem_missingBlocks]
  constructor
  · rintro ⟨row, hrow, hslot⟩
    obtain ⟨query, hquery, rfl⟩ := mem_map.mp hrow
    obtain ⟨other, hother, heq⟩ := mem_map.mp hslot
    obtain ⟨rfl, hnone⟩ := Prod.mk.inj heq
    exact ⟨hnone, query, hquery, hother⟩
  · rintro ⟨hnone, query, hquery, hblock⟩
    exact ⟨_, mem_map_of_mem hquery, mem_map.mpr ⟨block, hblock, by rw [hnone]⟩⟩

theorem gatherRow_tileRow {pages : List (UInt32 × Page R)}
    (hcached : TailCached map layer query)
    (hpages : ∀ block ∈ query.2, map.frame? (layer, block) = none → pages.lookup block = some (fetched block)) :
    s.gatherRow pages (tileRow map layer query) = gatheredOf s map layer fetched query := by
  rw [Session.gatherRow, gatheredOf, tileRow]
  dsimp only
  congr 1
  · rw [filterMap_map, ← filterMap_eq_map']
    refine filterMap_congr fun block hblock => ?_
    dsimp only [Function.comp_apply]
    rw [recordsOf]
    cases hframe : map.frame? (layer, block) with
    | none =>
      rw [hpages block hblock hframe]
      rfl
    | some slot => rfl
  · split
    · rfl
    next hpartial =>
      obtain ⟨slot, hslot⟩ := Option.isSome_iff_exists.mp (hcached hpartial)
      rw [recordsOf, hslot]
      rfl

theorem Stays.recordsOf (h : Stays s map after map') (layer : UInt32) (fetched : UInt32 → Page R) :
    recordsOf after map' layer fetched = recordsOf s map layer fetched := by
  funext block
  rw [QsaSession.recordsOf, h.frames, h.records, QsaSession.recordsOf]

theorem Stays.staged (h : Stays s map after map') {tile : Tile R}
    (htile : Staged after map' layer fetched queries tile) : Staged s map layer fetched queries tile := by
  refine ⟨htile.batches, htile.once, fun block => ?_, htile.counts, ?_, ?_⟩
  · rw [← h.frames]
    exact htile.missing block
  · rw [← h.recordsOf]
    exact htile.selected
  · rw [← h.recordsOf]
    exact htile.tail

variable (arena fetched) in
theorem staged_groups (h : Mirrors s map) (hmany : ∀ query ∈ queries, query.2.length ≤ maxSelectedBlocks)
    (hcached : ∀ query ∈ queries, TailCached map layer query) (hsort : Sorts missingPageOrder qsort)
    (hgroups : missingGroups (qsort (missingPages (queries.map (tileRow map layer)))) = groups) :
    Staged s map layer fetched queries ⟨(pieces maxSelectedBlocks groups).map fun batch => batch.map Prod.fst,
      queries.map fun query => query.2.length * compressRatio + query.1 % compressRatio,
      (s.recordGatherBatch (queries.map (tileRow map layer))
          (arena.fill (s.tailCopies queries (queries.map (tileRow map layer))))).fill
        ((pieces maxSelectedBlocks groups).flatten.flatMap fun group =>
          group.2.map (·.copy (fetched group.1)))⟩ := by
  have hblocks := missingBlocks_eq (queries.map (tileRow map layer)) hsort
  rw [hgroups] at hblocks
  have hfetches : ((pieces maxSelectedBlocks groups).map fun batch => batch.map Prod.fst).flatten =
      Session.missingBlocks (queries.map (tileRow map layer)) := by
    rw [← map_flatten, flatten_pieces, hblocks]
  have hcopies : (groups.flatMap fun group => group.2.map (·.copy (fetched group.1))).Perm
      ((missingPages (queries.map (tileRow map layer))).map fun entry => entry.copy (fetched entry.block)) := by
    rw [← hgroups, (grouped_missingGroups _).copies fetched]
    exact (hsort.perm _).map _
  rw [flatten_pieces]
  refine ⟨fun batch hbatch => ?_, ?_, fun block => ?_, rfl, fun q query i block hquery hblock j hj => ?_,
    fun q query hquery j hj => ?_⟩
  · obtain ⟨piece, hpiece, rfl⟩ := mem_map.mp hbatch
    rw [Ne, map_eq_nil_iff, length_map]
    exact length_pieces_le (by decide) hpiece
  · rw [hfetches]
    exact nodup_dedup _
  · rw [hfetches]
    exact mem_missingBlocks_tileRow
  · have hrank := hmany query (mem_of_getElem? hquery)
    have hindex := (List.getElem?_eq_some_iff.mp hblock).1
    dsimp only
    rw [arena_rank h hmany hcopies hquery hj (by
      simp only [compressRatio, maxSelectedBlocks, selectedTokens] at *
      omega), hblock]
  · have hrank := hmany query (mem_of_getElem? hquery)
    have hpartial : query.1 % compressRatio ≠ 0 := by omega
    obtain ⟨slot, hslot⟩ := Option.isSome_iff_exists.mp (hcached query (mem_of_getElem? hquery) hpartial)
    dsimp only
    rw [arena_rank h hmany hcopies hquery (hj.trans (Nat.mod_lt _ (by decide))) (by
      simp only [compressRatio, maxSelectedBlocks, selectedTokens] at *
      omega), List.getElem?_eq_none (Nat.le_refl _)]
    rw [fill_tailCopies hmany hquery hslot hj, recordsOf, hslot]

/-- A tile whose tails are cached and whose fetches succeed is staged. The gathers of `prefillTileAttention` copy
the same records and leave the same session. -/
theorem Mirrors.prefillTile (h : Mirrors s map) (hindex : index < s.layerCount)
    (hserved : Served s map (s.layerAt index) queries input fetched) (hsort : Sorts missingPageOrder qsort)
    (hcached : ∀ query ∈ queries, TailCached map (s.layerAt index) query) (arena : Arena R) :
    ∃ (tile : Tile R) (after : Session R) (map' : Map Key capacity),
      s.prefillTile qsort index queries input arena = some (.ok tile, after) ∧
      Staged s map (s.layerAt index) fetched queries tile ∧ Swaps s after map' ∧
      s.prefillTileAttention index queries input =
        some (.ok (queries.map (gatheredOf s map (s.layerAt index) fetched)), after) := by
  obtain ⟨rows, looked, map₁, hlookup, hlooked, hrows⟩ := h.lookupQueries (s.layerAt index) queries
  obtain rfl : rows = .ok (queries.map (tileRow map (s.layerAt index))) :=
    (hrows.resolve_right fun hlost => hlost.1 hcached).2
  have hswaps : Swaps s looked map₁ := ⟨hlooked.mirrors, hlooked.same, hlooked.state⟩
  rw [← hlooked.tileRow] at hlookup
  have hblocks := missingBlocks_eq (queries.map (tileRow map₁ (s.layerAt index))) hsort
  have hstaged := staged_groups arena fetched hlooked.mirrors hserved.many
    (fun query hquery => hlooked.tailCached.mpr (hcached query hquery)) hsort rfl
  generalize hgroups : missingGroups (qsort (missingPages (queries.map (tileRow map₁ (s.layerAt index))))) = groups
    at hblocks hstaged
  have hanswer : ∀ batch ∈ pieces maxSelectedBlocks groups,
      looked.fetch ⟨[], [], input.fetched⟩ (s.layerAt index) (batch.map Prod.fst) =
        .ok ((batch.map Prod.fst).map fetched) := by
    intro batch hmem
    obtain ⟨hne, hle⟩ := length_pieces_le (by decide) hmem
    rw [hswaps.fetch]
    refine hserved.fetch _ (by rwa [Ne, map_eq_nil_iff]) (by rwa [length_map]) fun block hblock => ?_
    rw [← hlooked.frames, ← mem_missingBlocks_tileRow, ← hblocks]
    obtain ⟨group, hgroup, rfl⟩ := mem_map.mp hblock
    refine mem_map_of_mem ?_
    rw [← flatten_pieces maxSelectedBlocks groups]
    exact mem_flatten_of_mem hmem hgroup
  have hlayer : looked.layerSlot (s.layerAt index) = some index := by
    rw [hlooked.same.shape.layerSlot]
    exact layerSlot_layerAt h.layers hindex
  obtain ⟨after, map₂, hbatches, htile, hafter⟩ := hlooked.mirrors.fetchGroups
    (looked.recordGatherBatch (queries.map (tileRow map₁ (s.layerAt index)))
      (arena.fill (looked.tailCopies queries (queries.map (tileRow map₁ (s.layerAt index))))))
    hlayer (queries.map fun query => query.2.length * compressRatio + query.1 % compressRatio) hanswer
  refine ⟨_, after, map₂, ?_, hlooked.staged hstaged, hswaps.trans hafter, ?_⟩
  · rw [Session.prefillTile, if_neg (not_or.mpr ⟨hserved.some, Nat.not_lt.mpr hserved.few⟩)]
    dsimp only
    rw [hlookup, Option.bind_eq_bind, Option.bind_some]
    dsimp only
    rw [hgroups]
    exact htile
  · rw [Session.prefillTileAttention]
    rw [hlookup, Option.bind_eq_bind, Option.bind_some]
    dsimp only
    rw [← hblocks, pieces_map, hbatches, Option.bind_eq_bind, Option.bind_some, flatten_pieces, hblocks]
    refine congrArg (fun list => some (Except.ok list, after)) ?_
    dsimp only
    rw [map_map]
    refine map_congr_left fun query hquery => ?_
    rw [Function.comp_apply, gatherRow_tileRow (hlooked.tailCached.mpr (hcached query hquery)), gatheredOf,
      hlooked.recordsOf]
    · rfl
    · intro block hblock hnone
      exact lookup_graph fetched (mem_missingBlocks_tileRow.mpr ⟨hnone, query, hquery, hblock⟩)

/-- Whatever the cache has, a tile whose fetches succeed fetches each missing block once and is dispatched with the
records of its selections and tails, and without a cached tail it fails. What a decode step fetches is what it
misses and complete blocks behind it. -/
theorem prefillTile_gathers (h : Mirrors s map) (hindex : index < s.layerCount)
    (hserved : Served s map (s.layerAt index) queries input fetched) (hsort : Sorts missingPageOrder qsort)
    (arena : Arena R) :
    ((∀ query ∈ queries, TailCached map (s.layerAt index) query) →
      ∃ (tile : Tile R) (after : Session R) (map' : Map Key capacity),
        s.prefillTile qsort index queries input arena = some (.ok tile, after) ∧
        Staged s map (s.layerAt index) fetched queries tile ∧ Mirrors after map') ∧
    ((¬∀ query ∈ queries, TailCached map (s.layerAt index) query) → ∃ after,
      s.prefillTile qsort index queries input arena =
        some (.error ⟨.mismatch, "QSA tile lost its causal tail"⟩, after)) ∧
    ∀ completeBlocks retainedFirst limit missing, ∃ extra,
      Session.planFetch s.cache (s.layerAt index) completeBlocks retainedFirst limit missing missing =
        some (missing ++ extra) ∧
      Along map (s.layerAt index) completeBlocks limit missing missing extra := by
  refine ⟨fun hcached => ?_, fun hlost => ?_, fun completeBlocks retainedFirst limit missing =>
    planFetch_spec h.represents (s.layerAt index) completeBlocks retainedFirst limit missing missing⟩
  · obtain ⟨tile, after, map₁, htile, hstaged, hafter, -⟩ :=
      h.prefillTile hindex hserved hsort hcached arena
    exact ⟨tile, after, map₁, htile, hstaged, hafter.mirrors⟩
  · obtain ⟨rows, looked, map₁, hlookup, hlooked, hrows⟩ := h.lookupQueries (s.layerAt index) queries
    obtain rfl := (hrows.resolve_left fun hfound => hlost hfound.1).2
    refine ⟨looked, ?_⟩
    rw [Session.prefillTile, if_neg (not_or.mpr ⟨hserved.some, Nat.not_lt.mpr hserved.few⟩)]
    dsimp only
    rw [hlookup, Option.bind_eq_bind, Option.bind_some]
    rfl

/-- Two queries of layer 3 with block 1 as their tail, which is cached, and block 0 selected, which is not. -/
theorem prefillTile_gathers_two :
    ∃ (opened s after : Session Nat) (map : Map Key 4) (tile : Tile Nat),
      openDecodeConfig 0 true (fun layer => if layer = 3 then 0 else 1) 16 4 8 false true none (fun _ _ => 0) id id =
        .ok opened ∧
      opened.exec [.acquire false 3 1] = some s ∧ Mirrors s map ∧
      s.prefillTile (List.mergeSort · fun left right => missingPageOrder left right ≤ 0) 0 [(5, [0]), (6, [0])]
        ⟨fun _ => [], fun _ blocks => .ok (blocks.map fun block _ => block.toNat)⟩ (fun _ => 0) =
          some (.ok tile, after) ∧
      Staged s map (s.layerAt 0) (fun block _ => block.toNat) [(5, [0]), (6, [0])] tile := by
  obtain ⟨opened, hopen⟩ : ∃ opened : Session Nat,
      openDecodeConfig 0 true (fun layer => if layer = 3 then 0 else 1) 16 4 8 false true none (fun _ _ => 0) id id =
        .ok opened := ⟨_, rfl⟩
  obtain ⟨s, map, hexec, hmirrors, -⟩ := (openDecodeConfig_mirrors hopen).1.exec [.acquire false 3 1]
  have hrun : ((openDecodeConfig 0 true (fun layer => if layer = 3 then 0 else 1) 16 4 8 false true none
      (fun _ _ => 0) id id).toOption.bind fun opened : Session Nat =>
        (opened.exec [.acquire false 3 1]).map fun s => (s.fetchPages, s.maxContext, s.layerCount, s.slotTable 1)) =
      some (.remote, 16, 1, 0) := by
    decide +kernel
  rw [hopen] at hrun
  change (opened.exec _).map _ = _ at hrun
  rw [hexec, Option.map_some, Option.some_inj] at hrun
  simp only [Prod.mk.injEq] at hrun
  obtain ⟨hremote, hcontext, hcount, hslot⟩ := hrun
  have hcached : ∀ query ∈ [((5 : Nat), [(0 : UInt32)]), (6, [0])], TailCached map (s.layerAt 0) query := by
    have hblocks : s.maxBlocks = 4 := by rw [Session.maxBlocks, hcontext]
    have hframe : map.frame? (s.layerAt 0, 1) = some 0 := by
      apply (hmirrors.table_iff (by omega) (by rw [hblocks]; decide) _).mp
      rw [hblocks]
      exact ⟨by decide, hslot⟩
    simp only [forall_mem_cons, TailCached]
    exact ⟨fun _ => Option.isSome_of_eq_some hframe, fun _ => Option.isSome_of_eq_some hframe,
      fun _ hquery => absurd hquery List.not_mem_nil⟩
  let input : Selected Nat := ⟨fun _ => [], fun _ blocks => .ok (blocks.map fun block _ => block.toNat)⟩
  have hfetch : ∀ blocks, s.fetch ⟨[], [], input.fetched⟩ (s.layerAt 0) blocks =
      .ok (blocks.map fun block _ => block.toNat) := by
    intro blocks
    rw [Session.fetch, hremote]
  obtain ⟨tile, after, -, htile, hstaged, -⟩ := (prefillTile_gathers hmirrors (by omega)
    ⟨by decide, by decide, by decide, fun blocks _ _ _ => hfetch blocks⟩ sorts_mergeSort fun _ => 0).1 hcached
  exact ⟨opened, s, after, map, tile, hopen, hexec, hmirrors, htile, hstaged⟩

end FlashGordon.QsaSession
