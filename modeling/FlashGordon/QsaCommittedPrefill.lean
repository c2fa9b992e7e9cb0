import FlashGordon.QsaCommittedAttend

/-! Prefill steps keep the committed records. A chunk's records are committed to pinned pages, its tiles gather
from pages that are right, and what is committed is then written to the state file, block after block from the
frontier on. While a layer is being written its pages need not be pinned, as nothing is evicted. -/

namespace FlashGordon.QsaSession

open QsaCache (Key Represents uint32Max)
open PinnedLru Option

variable {R : Type} {s : Session R} {capacity : Nat} {map : Map Key capacity} {log : Log R} {state : State R}

theorem indexTokenLocation_of_lt {context token : Nat} (hnarrow : context ≤ indexMaxSegments * indexSegmentTokenCapacity)
    (htoken : token < context) : ∃ offset,
      indexTokenLocation context token = some (token / indexSegmentTokenCapacity, offset) ∧
        token / indexSegmentTokenCapacity < indexSegmentCount context := by
  have hcount : indexSegmentCount context ≤ indexMaxSegments ∧
      token / indexSegmentTokenCapacity < indexSegmentCount context := by
    rw [indexSegmentCount]
    by_cases hwhole : context % indexSegmentTokenCapacity = 0
    · rw [if_neg (not_not.mpr hwhole)]
      simp only [indexMaxSegments, indexSegmentTokenCapacity] at hnarrow hwhole ⊢
      omega
    · rw [if_pos hwhole]
      simp only [indexMaxSegments, indexSegmentTokenCapacity] at hnarrow hwhole ⊢
      omega
  refine ⟨token % indexSegmentTokenCapacity, ?_, hcount.2⟩
  rw [indexTokenLocation, if_neg, if_pos]
  · exact Nat.lt_of_lt_of_le hcount.2 hcount.1
  · omega

theorem Kept.ensureIndexSegment_ok (h : Kept s map log state) {index segment : Nat} (hindex : index < s.layerCount)
    (hsegment : segment < indexSegmentCount s.maxContext) :
    ∃ after, s.ensureIndexSegment index segment = .ok after ∧ Rests s map after map log state := by
  obtain ⟨after, hensure⟩ : ∃ after, s.ensureIndexSegment index segment = .ok after :=
    ⟨_, by rw [Session.ensureIndexSegment, if_neg (by omega)]⟩
  exact ⟨after, hensure, h.rests (h.mirrors.ensureIndexSegment hensure)⟩

theorem Kept.commitPrefillRecord (h : Kept s map log state) {index token : Nat} (hindex : index < s.layerCount)
    (htoken : (log index).length = token) (hcontext : token < s.maxContext) (hfits : Fits s map index token 1)
    (record : R) :
    ∃ (after : Session R) (map' : Map Key capacity), s.commitPrefillRecord index token record = some (.ok (), after) ∧
      Kept after map' (log.extend index [record]) state ∧ SameSession s after ∧
      map'.pinned = map.pinned ∪ rangePages (s.layerAt index) token 1 := by
  obtain ⟨offset, hlocation, hsegment⟩ := indexTokenLocation_of_lt h.narrow hcontext
  obtain ⟨ensured, hensure, hensured⟩ := h.ensureIndexSegment_ok hindex hsegment
  have hlayerAt := hensured.same.shape.layerAt index
  have hcard := hfits.room
  rw [pinned_union_one, ← hlayerAt] at hcard
  obtain ⟨slot, hit, acquired, held, map₁, hacquire, hpin, hkept, hsame, hpins⟩ :=
    hensured.kept.commit (hensured.same.shape.layerCount ▸ hindex) htoken
      (hensured.same.shape.maxContext ▸ hcontext) (hlayerAt ▸ hfits.cached) hcard record
  rw [hlayerAt] at hacquire hpin hpins
  refine ⟨held.commitRecord slot token record, map₁, ?_, hkept, hensured.same.trans hsame, ?_⟩
  · rw [Session.commitPrefillRecord, hlocation]
    dsimp only
    rw [hensure]
    dsimp only
    rw [hacquire, bind_eq_bind, bind_some]
    rw [hpin, bind_eq_bind, bind_some]
    rfl
  · rw [hpins, pinned_union_one]

theorem rangePages_succ (layer : UInt32) (first count : Nat) :
    rangePages layer first (count + 1) = rangePages layer first 1 ∪ rangePages layer (first + 1) count := by
  ext key
  simp only [rangePages, Finset.mem_union, Finset.mem_image, Finset.mem_range]
  constructor
  · rintro ⟨i, hi, rfl⟩
    cases i with
    | zero => exact .inl ⟨0, Nat.one_pos, rfl⟩
    | succ i => exact .inr ⟨i, by omega, by rw [Nat.add_assoc, Nat.add_comm 1 i]⟩
  · rintro (⟨i, hi, rfl⟩ | ⟨i, hi, rfl⟩)
    · exact ⟨i, by omega, rfl⟩
    · exact ⟨i + 1, by omega, by rw [Nat.add_assoc, Nat.add_comm 1 i]⟩

theorem Log.extend_extend (log : Log R) (index : Nat) (records more : List R) :
    (log.extend index records).extend index more = log.extend index (records ++ more) := by
  rw [Log.extend, Log.extend_self, Log.extend, Log.extend, Function.update_idem, List.append_assoc]

theorem Kept.commitPrefillRecords (h : Kept s map log state) {index token : Nat} (hindex : index < s.layerCount)
    (htoken : (log index).length = token) {records : List R} (hcontext : token + records.length ≤ s.maxContext)
    (hfits : Fits s map index token records.length) :
    ∃ (after : Session R) (map' : Map Key capacity), s.commitPrefillRecords index token records = some (.ok (), after) ∧
      Kept after map' (log.extend index records) state ∧ SameSession s after ∧
      map'.pinned = map.pinned ∪ rangePages (s.layerAt index) token records.length := by
  induction records generalizing s map log token with
  | nil =>
    refine ⟨s, map, rfl, ?_, .refl s, ?_⟩
    · rw [Log.extend_nil]
      exact h
    · simp [rangePages]
  | cons record rest ih =>
    rw [List.length_cons] at hcontext hfits ⊢
    have hroom := hfits.room
    rw [rangePages_succ, ← Finset.union_assoc] at hroom
    have hfirst : Fits s map index token 1 :=
      ⟨hfits.cached, (Finset.card_le_card Finset.subset_union_left).trans hroom⟩
    obtain ⟨next, map₁, hcommit, hnext, hsame, hpins⟩ :=
      h.commitPrefillRecord hindex htoken (by omega) hfirst record
    have hlayerAt := hsame.shape.layerAt index
    have hfits' : Fits next map₁ index (token + 1) rest.length := by
      constructor
      · intro hinside
        have hblock : (token + 1) / compressRatio = token / compressRatio := by
          simp only [compressRatio] at hinside ⊢
          omega
        apply Map.frame?_isSome_of_pinned
        rw [hpins, hlayerAt, hblock, pinned_union_one]
        exact Finset.mem_insert_self _ _
      · rw [hpins, hlayerAt]
        exact hroom
    have hlength : (log.extend index [record] index).length = token + 1 := by
      rw [Log.extend_self, List.length_append, htoken]
      rfl
    obtain ⟨after, map₂, hrest, hafter, hsame', hpins'⟩ := ih hnext (hsame.shape.layerCount ▸ hindex) hlength
      (by rw [hsame.shape.maxContext]; omega) hfits'
    refine ⟨after, map₂, ?_, ?_, hsame.trans hsame', ?_⟩
    · rw [Session.commitPrefillRecords, hcommit, bind_eq_bind, bind_some]
      exact hrest
    · rw [Log.extend_extend] at hafter
      exact hafter
    · rw [hpins', hpins, hlayerAt, rangePages_succ _ token rest.length, Finset.union_assoc]

variable {index : Nat}

theorem Kept.shrink {records : List R} (h : Kept s map (log.extend index records) state)
    (hindex : index < s.layerCount) (hfrontier : state.layerTokens index ≤ (log index).length) :
    Kept s map log state := by
  have hlogs : ∀ other, ∃ more, log.extend index records other = log other ++ more := by
    intro other
    by_cases heq : other = index
    · subst heq
      exact ⟨records, Log.extend_self log other records⟩
    · exact ⟨[], by rw [Log.extend_of_ne heq, List.append_nil]⟩
  refine ⟨h.mirrors, h.backed, h.narrow, fun other hother => ?_, fun other hother => ?_,
    h.coherent.mono (fun key page hright other hother => ?_) ?_⟩
  · obtain ⟨more, hmore⟩ := hlogs other
    have hbound := h.bounded other hother
    rw [hmore, List.length_append] at hbound
    omega
  · by_cases heq : other = index
    · subst heq
      have hfiled := h.filed other hother
      rw [Log.extend_self] at hfiled
      exact hfiled.of_append hfrontier
    · have hfiled := h.filed other hother
      rw [Log.extend_of_ne heq] at hfiled
      exact hfiled
  · obtain ⟨more, hmore⟩ := hlogs other
    have hholds := hright other hother
    rw [hmore] at hholds
    exact hholds.of_append
  · rintro key ⟨other, hother, token, hfrom, hbelow, hblock⟩
    obtain ⟨more, hmore⟩ := hlogs other
    refine ⟨other, hother, token, hfrom, ?_, hblock⟩
    rw [hmore, List.length_append]
    omega

structure Found (map : Map Key capacity) (layer : UInt32) (row : TileRow) : Prop where
  slots : ∀ block slot, (block, slot) ∈ row.slots → map.frame? (layer, block) = slot
  tail : ∀ block slot, row.tail = some (block, slot) → map.frame? (layer, block) = some slot

variable {layer : UInt32}

theorem Found.moved {map' : Map Key capacity} {row : TileRow} (h : Found map layer row)
    (hframes : ∀ key, map'.frame? key = map.frame? key) : Found map' layer row :=
  ⟨fun block slot hslot => (hframes _).trans (h.slots block slot hslot),
    fun block slot htail => (hframes _).trans (h.tail block slot htail)⟩

/-- What a query's lookups find. -/
def tileRow (map : Map Key capacity) (layer : UInt32) (query : Nat × List UInt32) : TileRow where
  slots := query.2.map fun block => (block, map.frame? (layer, block))
  tail :=
    if query.1 % compressRatio = 0 then none
    else (map.frame? (layer, UInt32.ofNat (query.1 / compressRatio))).map
      fun slot => (UInt32.ofNat (query.1 / compressRatio), slot)

def TailCached (map : Map Key capacity) (layer : UInt32) (query : Nat × List UInt32) : Prop :=
  query.1 % compressRatio ≠ 0 → (map.frame? (layer, UInt32.ofNat (query.1 / compressRatio))).isSome

theorem found_tileRow (map : Map Key capacity) (layer : UInt32) (query : Nat × List UInt32) :
    Found map layer (tileRow map layer query) := by
  constructor
  · intro block slot hslot
    obtain ⟨other, -, heq⟩ := List.mem_map.mp hslot
    obtain ⟨rfl, hfound⟩ := Prod.mk.inj heq
    exact hfound
  · intro block slot htail
    rw [tileRow] at htail
    split at htail
    · cases htail
    · obtain ⟨found, hfound, heq⟩ := map_eq_some_iff.mp htail
      obtain ⟨rfl, rfl⟩ := Prod.mk.inj heq
      exact hfound

theorem Stays.tileRow (h : Stays s map after map') (layer : UInt32) : tileRow map' layer = tileRow map layer := by
  funext query
  simp only [QsaSession.tileRow, h.frames]

theorem Stays.tailCached (h : Stays s map after map') {query : Nat × List UInt32} :
    TailCached map' layer query ↔ TailCached map layer query := by
  rw [TailCached, h.frames, TailCached]

theorem Mirrors.lookupSlots (h : Mirrors s map) (layer : UInt32) (blocks : List UInt32) :
    ∃ after map',
      s.lookupSlots layer blocks = some (blocks.map fun block => (block, map.frame? (layer, block)), after) ∧
      Stays s map after map' := by
  induction blocks generalizing s map with
  | nil => exact ⟨s, map, rfl, h.stays_self⟩
  | cons block rest ih =>
    obtain ⟨looked, map₁, hlookup, hlooked⟩ := h.lookup_stays layer block
    obtain ⟨after, map₂, hrest, hafter⟩ := ih hlooked.mirrors
    refine ⟨after, map₂, ?_, hlooked.trans hafter⟩
    rw [Session.lookupSlots, hlookup, bind_eq_bind, bind_some]
    dsimp only
    rw [hrest]
    simp only [hlooked.frames]
    rfl

theorem Mirrors.lookupQuery (h : Mirrors s map) (layer : UInt32) (query : Nat × List UInt32) :
    ∃ row after map',
      s.lookupQuery layer query.1 query.2 = some (row, after) ∧ Stays s map after map' ∧
      (TailCached map layer query ∧ row = .ok (tileRow map layer query) ∨
        ¬TailCached map layer query ∧ row = .error ⟨.mismatch, "QSA tile lost its causal tail"⟩) := by
  obtain ⟨looked, map₁, hlookup, hlooked⟩ := h.lookupSlots layer query.2
  rw [Session.lookupQuery, hlookup, bind_eq_bind, bind_some]
  dsimp only
  split
  next hwhole =>
    refine ⟨_, looked, map₁, rfl, hlooked, .inl ⟨fun hpartial => absurd hwhole hpartial, ?_⟩⟩
    rw [tileRow, if_pos hwhole]
  next hpartial =>
    obtain ⟨after, map₂, hlast, hafter⟩ :=
      hlooked.mirrors.lookup_stays layer (UInt32.ofNat (query.1 / compressRatio))
    rw [hlast, bind_eq_bind, bind_some, hlooked.frames]
    rw [TailCached, tileRow, if_neg hpartial]
    cases map.frame? (layer, UInt32.ofNat (query.1 / compressRatio)) with
    | none => exact ⟨_, after, map₂, rfl, hlooked.trans hafter, .inr ⟨fun h => Bool.false_ne_true (h hpartial), rfl⟩⟩
    | some slot => exact ⟨_, after, map₂, rfl, hlooked.trans hafter, .inl ⟨fun _ => rfl, rfl⟩⟩

theorem Mirrors.lookupQueries (h : Mirrors s map) (layer : UInt32) (queries : List (Nat × List UInt32)) :
    ∃ (rows : Except Error (List TileRow)) (after : Session R) (map' : Map Key capacity),
      s.lookupQueries layer queries = some (rows, after) ∧ Stays s map after map' ∧
      ((∀ query ∈ queries, TailCached map layer query) ∧ rows = .ok (queries.map (tileRow map layer)) ∨
        (¬∀ query ∈ queries, TailCached map layer query) ∧
          rows = .error ⟨.mismatch, "QSA tile lost its causal tail"⟩) := by
  induction queries generalizing s map with
  | nil => exact ⟨.ok [], s, map, rfl, h.stays_self, .inl ⟨fun _ hquery => (nomatch hquery), rfl⟩⟩
  | cons query rest ih =>
    obtain ⟨row, looked, map₁, hquery, hlooked, hrow⟩ := h.lookupQuery layer query
    rw [Session.lookupQueries, hquery, bind_eq_bind, bind_some, List.forall_mem_cons]
    rcases hrow with ⟨hcached, rfl⟩ | ⟨hlost, rfl⟩
    · obtain ⟨rows, after, map₂, hrest, hafter, hrows⟩ := ih hlooked.mirrors
      refine ⟨rows.map (tileRow map layer query :: ·), after, map₂, ?_, hlooked.trans hafter, ?_⟩
      · dsimp only
        rw [hrest]
        rfl
      · simp only [hlooked.tailCached] at hrows
        rcases hrows with ⟨hall, rfl⟩ | ⟨hlost, rfl⟩
        · refine .inl ⟨⟨hcached, hall⟩, ?_⟩
          simp only [Except.map, List.map_cons, hlooked.tileRow]
        · exact .inr ⟨fun h => hlost h.2, rfl⟩
    · exact ⟨_, looked, map₁, rfl, hlooked, .inr ⟨fun h => hlost h.1, rfl⟩⟩

theorem Kept.warmEach (h : Kept s map log state)
    (hlayer : s.layerSlot layer = some index) {pages : List (UInt32 × Page R)}
    (hpages : ∀ page ∈ pages, Holds (log index) page.1.toNat page.2) :
    ∃ after map', s.warmEach layer pages = some after ∧
      Rests s map after map' log state := by
  induction pages generalizing s map with
  | nil => exact ⟨s, map, rfl, h.rests_self⟩
  | cons page rest ih =>
    obtain ⟨block, page⟩ := page
    obtain ⟨slot, hit, acquired, map₁, hacquire, hrefused, hwritten⟩ :=
      h.insert hlayer (Map.spares_soft map (layer, block)) (hpages _ List.mem_cons_self)
    have hnext : Rests s map (if slot = uint32Max then acquired else acquired.writePage slot page) map₁ log state := by
      split
      next hnull => exact (hrefused hnull).2
      next hnonnull => exact hwritten hnonnull
    obtain ⟨after, map₂, hwarm, hafter⟩ := ih hnext.kept (hnext.same.shape.layerSlot layer ▸ hlayer)
      (List.forall_mem_cons.mp hpages).2
    refine ⟨after, map₂, ?_, hnext.trans hafter⟩
    rw [Session.warmEach, bind_eq_bind, hacquire, bind_some]
    exact hwarm

variable {input : Selected R}

theorem Kept.fetchBatches (h : Kept s map log state)
    (hlayer : s.layerSlot layer = some index) (hinput : Truthful s log input.fetched)
    {batches : List (List UInt32)} (hclean : ∀ batch ∈ batches, ∀ block ∈ batch, (layer, block) ∉ map.pinned) :
    ∃ (fetched : Except Error (List (UInt32 × Page R))) (after : Session R) (map' : Map Key capacity),
      s.fetchBatches input layer batches = some (fetched, after) ∧ Rests s map after map' log state ∧
      ∀ pages, fetched = .ok pages → ∀ page ∈ pages, Holds (log index) page.1.toNat page.2 := by
  induction batches generalizing s map with
  | nil =>
    refine ⟨.ok [], s, map, rfl, h.rests_self, fun pages hpages => ?_⟩
    obtain rfl := Except.ok.inj hpages
    exact fun _ hpage => (nomatch hpage)
  | cons batch rest ih =>
    rw [Session.fetchBatches]
    split
    next => exact ⟨_, s, map, rfl, h.rests_self, fun _ hpages => (nomatch hpages)⟩
    next pages hfetch =>
      have hpages := h.fetch hlayer hinput (hclean batch List.mem_cons_self) hfetch
      obtain ⟨warmed, map₁, hwarm, hwarmed⟩ := h.warmEach hlayer hpages
      have hclean₁ : ∀ other ∈ rest, ∀ block ∈ other, (layer, block) ∉ map₁.pinned := by
        intro other hother
        rw [hwarmed.pins]
        exact hclean other (List.mem_cons_of_mem _ hother)
      obtain ⟨others, after, map₂, hrest, hafter, hothers⟩ := ih hwarmed.kept
        (hwarmed.same.shape.layerSlot layer ▸ hlayer) (hwarmed.same.truthful hinput) hclean₁
      refine ⟨others.map (batch.zip pages ++ ·), after, map₂, ?_, hwarmed.trans hafter, fun all hall => ?_⟩
      · rw [bind_eq_bind, hwarm, bind_some, bind_eq_bind, hrest]
        rfl
      · cases others with
        | error error => cases hall
        | ok others =>
          obtain rfl := Except.ok.inj hall
          intro page hpage
          rcases List.mem_append.mp hpage with hfirst | hlater
          · exact hpages page hfirst
          · exact hothers others rfl page hlater

theorem toChunksAux_spec {α : Type} (size left : Nat) (list : List α) :
    (list.toChunksAux size left).1 ++ (list.toChunksAux size left).2.flatten = list ∧
      (list.toChunksAux size left).1.length ≤ left ∧
      ∀ piece ∈ (list.toChunksAux size left).2, piece ≠ [] ∧ piece.length ≤ size + 1 := by
  induction list generalizing left with
  | nil => exact ⟨rfl, Nat.zero_le _, fun _ h => (nomatch h)⟩
  | cons head rest ih =>
    cases left with
    | zero =>
      obtain ⟨hall, hfirst, hothers⟩ := ih size
      refine ⟨congrArg (head :: ·) hall, Nat.le_refl 0, fun piece hpiece => ?_⟩
      rcases List.mem_cons.mp hpiece with rfl | hlater
      · exact ⟨List.cons_ne_nil _ _, Nat.succ_le_succ hfirst⟩
      · exact hothers piece hlater
    | succ left =>
      obtain ⟨hall, hfirst, hothers⟩ := ih left
      exact ⟨congrArg (head :: ·) hall, Nat.succ_le_succ hfirst, hothers⟩

theorem flatten_pieces {α : Type} (size : Nat) (list : List α) : (pieces size list).flatten = list := by
  cases list with
  | nil => rfl
  | cons head rest => exact congrArg (head :: ·) (toChunksAux_spec (size - 1) (size - 1) rest).1

theorem length_pieces_le {α : Type} {size : Nat} (hpositive : 0 < size) {list piece : List α}
    (hpiece : piece ∈ pieces size list) : piece ≠ [] ∧ piece.length ≤ size := by
  cases list with
  | nil => cases hpiece
  | cons head rest =>
    obtain ⟨-, hfirst, hothers⟩ := toChunksAux_spec (size - 1) (size - 1) rest
    rcases List.mem_cons.mp hpiece with rfl | hlater
    · refine ⟨List.cons_ne_nil _ _, ?_⟩
      rw [List.length_cons]
      omega
    · have hother := hothers piece hlater
      exact ⟨hother.1, by omega⟩

theorem mem_missingBlocks {rows : List TileRow} {block : UInt32} :
    block ∈ Session.missingBlocks rows ↔ ∃ row ∈ rows, (block, none) ∈ row.slots := by
  rw [Session.missingBlocks]
  rw [List.mem_dedup, List.mem_insertionSort, List.mem_flatMap]
  refine exists_congr fun row => and_congr_right fun _ => ?_
  rw [List.mem_filterMap]
  constructor
  · rintro ⟨⟨other, slot⟩, hslot, hnone⟩
    cases slot with
    | none =>
      obtain rfl := Option.some.inj hnone
      exact hslot
    | some slot => cases hnone
  · exact fun hslot => ⟨_, hslot, rfl⟩

/-- What a query's gather copies has the records of its blocks. -/
structure Gathered.Right (gathered : Gathered R) (log : List R) : Prop where
  pages : ∀ page ∈ gathered.pages, Holds log page.1.toNat page.2
  tail : ∀ page, gathered.tail = some page → Holds log page.1.toNat page.2

theorem Kept.gatherRow (h : Kept s map log state) (hindex : index < s.layerCount)
    {fetched : List (UInt32 × Page R)} (hfetched : ∀ page ∈ fetched, Holds (log index) page.1.toNat page.2)
    {row : TileRow} (hrow : Found map (s.layerAt index) row) : (s.gatherRow fetched row).Right (log index) := by
  have hframe : ∀ block slot, map.frame? (s.layerAt index, block) = some slot →
      Holds (log index) block.toNat (s.cacheRecords slot) := by
    intro block slot hslot
    exact h.coherent.frames _ slot hslot index (layerSlot_layerAt h.mirrors.layers hindex)
  constructor
  · intro page hpage
    obtain ⟨⟨block, slot⟩, hslot, hcopied⟩ := List.mem_filterMap.mp hpage
    cases slot with
    | none =>
      obtain ⟨found, hfound, rfl⟩ := map_eq_some_iff.mp hcopied
      obtain ⟨first, last, rfl, -⟩ := List.lookup_eq_some_iff.mp hfound
      exact hfetched (block, found) (List.mem_append_right first List.mem_cons_self)
    | some slot =>
      obtain rfl := Option.some.inj hcopied
      exact hframe block slot (hrow.slots block (some slot) hslot)
  · intro page hpage
    obtain ⟨⟨block, slot⟩, htail, rfl⟩ := map_eq_some_iff.mp hpage
    exact hframe block slot (hrow.tail block slot htail)

theorem Kept.prefillTileAttention (h : Kept s map log state) (hindex : index < s.layerCount)
    (hinput : Truthful s log input.fetched) (queries : List (Nat × List UInt32)) :
    ∃ (gathered : Except Error (List (Gathered R))) (after : Session R) (map' : Map Key capacity),
      s.prefillTileAttention index queries input = some (gathered, after) ∧ Rests s map after map' log state ∧
      ∀ list, gathered = .ok list → ∀ one ∈ list, one.Right (log index) := by
  obtain ⟨rows, looked, map₁, hlookup, hstays, hrows⟩ := h.mirrors.lookupQueries (s.layerAt index) queries
  have hlooked := h.rests hstays
  rw [Session.prefillTileAttention]
  rw [hlookup, bind_eq_bind, bind_some]
  have hfound : ∀ found, rows = .ok found → ∀ row ∈ found, Found map (s.layerAt index) row := by
    rintro found rfl row hrow
    rcases hrows with ⟨-, heq⟩ | ⟨-, heq⟩
    · rw [Except.ok.inj heq] at hrow
      obtain ⟨query, -, rfl⟩ := List.mem_map.mp hrow
      exact found_tileRow map _ query
    · cases heq
  cases rows with
  | error error => exact ⟨_, looked, map₁, rfl, hlooked, fun _ hlist => (nomatch hlist)⟩
  | ok rows =>
    have hlayer : looked.layerSlot (s.layerAt index) = some index := by
      rw [hlooked.same.shape.layerSlot]
      exact layerSlot_layerAt h.mirrors.layers hindex
    have hclean : ∀ batch ∈ pieces maxSelectedBlocks (Session.missingBlocks rows), ∀ block ∈ batch,
        (s.layerAt index, block) ∉ map₁.pinned := by
      intro batch hbatch block hblock hpinned
      obtain ⟨row, hrow, hslot⟩ := mem_missingBlocks.mp
        (flatten_pieces maxSelectedBlocks (Session.missingBlocks rows) ▸ List.mem_flatten_of_mem hbatch hblock)
      have hframe := Map.frame?_isSome_of_pinned hpinned
      rw [hstays.frames, (hfound rows rfl row hrow).slots block none hslot] at hframe
      cases hframe
    obtain ⟨fetched, after, map₂, hfetch, hafter, hfetched⟩ :=
      hlooked.kept.fetchBatches hlayer (hlooked.same.truthful hinput) hclean
    refine ⟨fetched.map fun pages => rows.map (looked.gatherRow pages), after, map₂, ?_, hlooked.trans hafter,
      fun list hlist => ?_⟩
    · dsimp only
      rw [hfetch]
      rfl
    · cases fetched with
      | error error => cases hlist
      | ok pages =>
        obtain rfl := Except.ok.inj hlist
        intro one hone
        obtain ⟨row, hrow, rfl⟩ := List.mem_map.mp hone
        apply hlooked.kept.gatherRow (hlooked.same.shape.layerCount ▸ hindex) (hfetched pages rfl)
        rw [hlooked.same.shape.layerAt]
        exact (hfound rows rfl row hrow).moved hstays.frames

theorem Kept.attendTiles (h : Kept s map log state) (hindex : index < s.layerCount)
    (hinput : Truthful s log input.fetched) (tiles : List (List (Nat × List UInt32))) :
    ∃ (gathered : Except Error (List (Gathered R))) (after : Session R) (map' : Map Key capacity),
      s.attendTiles index input tiles = some (gathered, after) ∧ Rests s map after map' log state ∧
      ∀ list, gathered = .ok list → ∀ one ∈ list, one.Right (log index) := by
  induction tiles generalizing s map with
  | nil =>
    refine ⟨.ok [], s, map, rfl, h.rests_self, fun list hlist => ?_⟩
    obtain rfl := Except.ok.inj hlist
    exact fun _ hone => (nomatch hone)
  | cons tile rest ih =>
    obtain ⟨gathered, attended, map₁, htile, hattended, hgathered⟩ := h.prefillTileAttention hindex hinput tile
    rw [Session.attendTiles, htile, bind_eq_bind, bind_some]
    cases gathered with
    | error error => exact ⟨_, attended, map₁, rfl, hattended, fun _ hlist => (nomatch hlist)⟩
    | ok gathered =>
      obtain ⟨others, after, map₂, hrest, hafter, hothers⟩ := ih hattended.kept
        (hattended.same.shape.layerCount ▸ hindex) (hattended.same.truthful hinput)
      refine ⟨others.map (gathered ++ ·), after, map₂, ?_, hattended.trans hafter, fun list hlist => ?_⟩
      · dsimp only
        rw [hrest]
        rfl
      · cases others with
        | error error => cases hlist
        | ok others =>
          obtain rfl := Except.ok.inj hlist
          intro one hone
          rcases List.mem_append.mp hone with hfirst | hlater
          · exact hgathered gathered rfl one hfirst
          · exact hothers others rfl one hlater

end FlashGordon.QsaSession
