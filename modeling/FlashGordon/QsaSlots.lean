import FlashGordon.PinnedFrames
import FlashGordon.QsaCacheRun
import FlashGordon.QsaSession

/-! The slot table and the cached prefixes follow the page cache. What they say is compared with the frames
of the bounded map the cache stands for: a store of a slot or of `UINT32_MAX` changes the frame of one key,
and the hook has stored `UINT32_MAX` for every key the cache gave up. -/

namespace FlashGordon.QsaSession

open QsaCache (Key Represents Answers uint32Max slotReply)
open PinnedLru Function

variable {R : Type}

/-! ## What a store leaves alone -/

theorem qsaSlotStore_eq (s : Session R) (layer block : UInt32) (slot : Nat) :
    ∃ table lengths, s.qsaSlotStore layer block slot =
      { s with slotTable := table, cachedPrefix := lengths } := by
  unfold Session.qsaSlotStore
  split
  · exact ⟨_, _, rfl⟩
  · split
    · exact ⟨_, _, rfl⟩
    · split <;> exact ⟨_, _, rfl⟩

theorem foldl_evict_eq (s : Session R) (pages : List (UInt8 × UInt32)) :
    ∃ table lengths, pages.foldl Session.qsaSlotEvict s =
      { s with slotTable := table, cachedPrefix := lengths } := by
  induction pages generalizing s with
  | nil => exact ⟨_, _, rfl⟩
  | cons page rest ih =>
    obtain ⟨table, lengths, hstore⟩ := qsaSlotStore_eq s page.1.toUInt32 page.2 uint32Max
    obtain ⟨table', lengths', hrest⟩ := ih (s.qsaSlotEvict page)
    refine ⟨table', lengths', hrest.trans ?_⟩
    rw [Session.qsaSlotEvict, hstore]

theorem withCache_eq (s : Session R) (cache : QsaCache.Cache) :
    ∃ table lengths, s.withCache cache =
      { s with cache := cache, slotTable := table, cachedPrefix := lengths } :=
  foldl_evict_eq _ _

variable {layer block : UInt32}

theorem qsaCacheAcquire_eq {s after : Session R} {soft hit : Bool} {slot : Nat}
    (h : s.qsaCacheAcquire soft layer block = some (slot, hit, after)) :
    ∃ cache table lengths, after = { s with cache := cache, slotTable := table, cachedPrefix := lengths } := by
  simp only [Session.qsaCacheAcquire, Option.bind_eq_bind, Option.bind_eq_some_iff] at h
  obtain ⟨⟨found, known, cache⟩, -, heq⟩ := h
  obtain ⟨rfl, rfl, rfl⟩ := by simpa using heq
  obtain ⟨table, lengths, hcache⟩ := withCache_eq s cache
  split
  · exact ⟨cache, table, lengths, hcache⟩
  · obtain ⟨table', lengths', hstore⟩ := qsaSlotStore_eq (s.withCache cache) layer block found
    refine ⟨cache, table', lengths', ?_⟩
    rw [hstore, hcache]

/-! ## The table says where each key stands -/

theorem place_injective {blocks index index' block block' : Nat} (hblock : block < blocks)
    (hblock' : block' < blocks) (h : index * blocks + block = index' * blocks + block') :
    index = index' ∧ block = block' := by
  have hindex : index = index' := by
    have hdiv := congrArg (· / blocks) h
    have hpos : 0 < blocks := Nat.lt_of_le_of_lt (Nat.zero_le _) hblock
    simp only [Nat.mul_comm _ blocks, Nat.mul_add_div hpos, Nat.div_eq_of_lt hblock,
      Nat.div_eq_of_lt hblock', Nat.add_zero] at hdiv
    exact hdiv
  subst hindex
  exact ⟨rfl, Nat.add_left_cancel h⟩

/-- The table has the frame of every key, or `UINT32_MAX`, and the keys below a prefix have frames. -/
structure Reflects (s : Session R) (frames : Key → Option Nat) : Prop where
  table : ∀ index < s.layerCount, ∀ block : UInt32, block.toNat < s.maxBlocks →
    s.slotTable (index * s.maxBlocks + block.toNat) = (frames (s.layerAt index, block)).getD uint32Max
  cached : ∀ index < s.layerCount, ∀ block : UInt32, block.toNat < s.cachedPrefix index →
    (frames (s.layerAt index, block)).isSome
  bounded : ∀ index < s.layerCount, s.cachedPrefix index ≤ s.maxBlocks

variable {s : Session R} {index : Nat}

theorem layerSlot_layerAt (hlayers : s.layers.Nodup) (h : index < s.layerCount) :
    s.layerSlot (s.layerAt index) = some index := by
  have hlt : index < s.layers.length := h
  have hat : s.layers.getD index 0 = s.layers[index] := by
    rw [List.getD_eq_getElem?_getD, List.getElem?_eq_getElem hlt, Option.getD_some]
  rw [Session.layerSlot, Session.layerAt, hat, List.findIdx?_eq_some_iff_getElem]
  refine ⟨hlt, by simp, fun other hother hsame => ?_⟩
  have hsame : s.layers[other].toUInt32 = s.layers[index].toUInt32 := by simpa using hsame
  have heq : s.layers[other] = s.layers[index] := by
    apply UInt8.toNat_inj.mp
    have hnat := congrArg UInt32.toNat hsame
    simpa using hnat
  have hplace := (List.Nodup.getElem_inj_iff hlayers).mp heq
  omega

variable {layer : UInt32}

theorem layerAt_of_layerSlot (h : s.layerSlot layer = some index) : index < s.layerCount ∧ s.layerAt index = layer := by
  rw [Session.layerSlot, List.findIdx?_eq_some_iff_getElem] at h
  obtain ⟨hlt, hlayer, -⟩ := h
  refine ⟨hlt, ?_⟩
  rw [Session.layerAt, List.getD_eq_getElem?_getD, List.getElem?_eq_getElem hlt, Option.getD_some]
  simpa using hlayer

theorem layerAt_injective (hlayers : s.layers.Nodup) {index other : Nat}
    (h : index < s.layerCount) (h' : other < s.layerCount) (heq : s.layerAt index = s.layerAt other) :
    index = other := by
  have hindex := layerSlot_layerAt hlayers h
  rw [heq, layerSlot_layerAt hlayers h'] at hindex
  exact (Option.some.inj hindex).symm

variable {s : Session R} {frames : Key → Option Nat}

theorem Reflects.congr (h : Reflects s frames) {frames' : Key → Option Nat} (heq : ∀ key, frames' key = frames key) :
    Reflects s frames' := by
  obtain rfl : frames' = frames := funext heq
  exact h

theorem lowered_apply (lengths : Nat → Nat) (place block index : Nat) :
    (if block < lengths place then update lengths place block else lengths) index =
      if index = place then min block (lengths place) else lengths index := by
  by_cases heq : index = place
  · subst heq
    split
    next hlow => rw [update_self, if_pos rfl, Nat.min_eq_left hlow.le]
    next hhigh => rw [if_pos rfl, Nat.min_eq_right (Nat.not_lt.mp hhigh)]
  · rw [if_neg heq]
    split
    · exact update_of_ne heq _ _
    · rfl

theorem raised_apply (lengths : Nat → Nat) (place block index : Nat) :
    (if block = lengths place then update lengths place (lengths place + 1) else lengths) index =
      if index = place ∧ block = lengths place then lengths place + 1 else lengths index := by
  by_cases heq : index = place
  · subst heq
    by_cases hend : block = lengths index
    · rw [if_pos hend, update_self, if_pos ⟨rfl, hend⟩]
    · rw [if_neg hend, if_neg fun h => hend h.2]
  · rw [if_neg fun h : index = place ∧ _ => heq h.1]
    split
    · exact update_of_ne heq _ _
    · rfl

section

variable (h : Reflects s frames)
include h

theorem Reflects.store_outside {frame : Option Nat}
    (hout : ∀ index < s.layerCount, ∀ other, other.toNat < s.maxBlocks →
      (s.layerAt index, other) ≠ (layer, block)) :
    Reflects s (update frames (layer, block) frame) := by
  refine ⟨fun index hindex other hlt => ?_, fun index hindex other hlt => ?_, h.bounded⟩
  · rw [update_of_ne (hout index hindex other hlt), h.table index hindex other hlt]
  · have hbound := Nat.lt_of_lt_of_le hlt (h.bounded index hindex)
    rw [update_of_ne (hout index hindex other hbound)]
    exact h.cached index hindex other hlt

theorem Reflects.store_inside (hlayers : s.layers.Nodup) {place : Nat}
    (hplace : place < s.layerCount) {block : UInt32} (hblock : block.toNat < s.maxBlocks) (slot : Nat) :
    Reflects (s.qsaSlotStore (s.layerAt place) block slot)
      (update frames (s.layerAt place, block) (slotReply slot)) := by
  have hkey : ∀ index < s.layerCount, ∀ other,
      (s.layerAt index, other) = (s.layerAt place, block) ↔ index = place ∧ other = block := by
    intro index hindex other
    rw [Prod.ext_iff]
    constructor
    · exact fun heq => ⟨layerAt_injective hlayers hindex hplace heq.1, heq.2⟩
    · rintro ⟨rfl, rfl⟩
      exact ⟨rfl, rfl⟩
  have htable : ∀ index < s.layerCount, ∀ other, other.toNat < s.maxBlocks →
      update s.slotTable (place * s.maxBlocks + block.toNat) slot (index * s.maxBlocks + other.toNat) =
        (update frames (s.layerAt place, block) (slotReply slot)
          (s.layerAt index, other)).getD uint32Max := by
    intro index hindex other hlt
    by_cases hsame : index = place ∧ other = block
    · obtain ⟨rfl, rfl⟩ := hsame
      rw [update_self, update_self, slotReply]
      split
      next hnull => exact hnull
      next => rfl
    · rw [update_of_ne fun heq => hsame ((hkey index hindex other).mp heq), update_of_ne,
        h.table index hindex other hlt]
      intro heq
      obtain ⟨hindexEq, hblockEq⟩ := place_injective hlt hblock heq
      exact hsame ⟨hindexEq, UInt32.toNat_inj.mp hblockEq⟩
  have hother : ∀ index < s.layerCount, ∀ other, other.toNat < s.cachedPrefix index →
      ¬(index = place ∧ other = block) →
      (update frames (s.layerAt place, block) (slotReply slot) (s.layerAt index, other)).isSome := by
    intro index hindex other hlt hne
    rw [update_of_ne fun heq => hne ((hkey index hindex other).mp heq)]
    exact h.cached index hindex other hlt
  have hbounded := h.bounded place hplace
  by_cases hnull : slot = uint32Max
  · simp only [Session.qsaSlotStore, layerSlot_layerAt hlayers hplace, if_neg (Nat.not_le.mpr hblock), if_pos hnull]
    refine ⟨htable, fun index hindex other hbound => ?_, fun index hindex => ?_⟩
    · have hlt : other.toNat <
          if index = place then min block.toNat (s.cachedPrefix place) else s.cachedPrefix index := by
        rw [← lowered_apply]
        exact hbound
      split at hlt
      next heq =>
        subst heq
        refine hother index hindex other (Nat.lt_of_lt_of_le hlt (Nat.min_le_right _ _)) ?_
        rintro ⟨-, rfl⟩
        exact Nat.lt_irrefl _ (Nat.lt_of_lt_of_le hlt (Nat.min_le_left _ _))
      next hne => exact hother index hindex other hlt fun hsame => hne hsame.1
    · refine Nat.le_trans (Nat.le_of_eq (lowered_apply s.cachedPrefix place block.toNat index)) ?_
      split
      next => exact Nat.le_trans (Nat.min_le_right _ _) hbounded
      next => exact h.bounded index hindex
  · simp only [Session.qsaSlotStore, layerSlot_layerAt hlayers hplace, if_neg (Nat.not_le.mpr hblock), if_neg hnull]
    refine ⟨htable, fun index hindex other hbound => ?_, fun index hindex => ?_⟩
    · by_cases hsame : index = place ∧ other = block
      · show (update frames _ (slotReply slot) (s.layerAt index, other)).isSome
        rw [(hkey index hindex other).mpr hsame, update_self, slotReply, if_neg hnull]
        rfl
      · apply hother index hindex other ?_ hsame
        have hlt : other.toNat < if index = place ∧ block.toNat = s.cachedPrefix place then
            s.cachedPrefix place + 1 else s.cachedPrefix index := by
          rw [← raised_apply]
          exact hbound
        split at hlt
        next hend =>
          have hne : other.toNat ≠ block.toNat := fun heq => hsame ⟨hend.1, UInt32.toNat_inj.mp heq⟩
          rw [hend.1, ← hend.2]
          omega
        next => exact hlt
    · refine Nat.le_trans (Nat.le_of_eq (raised_apply s.cachedPrefix place block.toNat index)) ?_
      split
      next hend =>
        show s.cachedPrefix place + 1 ≤ s.maxBlocks
        omega
      next => exact h.bounded index hindex

theorem Reflects.store (hlayers : s.layers.Nodup) (layer block : UInt32) (slot : Nat) :
    Reflects (s.qsaSlotStore layer block slot) (update frames (layer, block) (slotReply slot)) := by
  cases hslot : s.layerSlot layer with
  | none =>
    have hstore : s.qsaSlotStore layer block slot = s := by rw [Session.qsaSlotStore, hslot]
    rw [hstore]
    apply h.store_outside
    intro index hindex other _ heq
    have hlayer : s.layerAt index = layer := congrArg Prod.fst heq
    rw [← hlayer, layerSlot_layerAt hlayers hindex] at hslot
    cases hslot
  | some place =>
    obtain ⟨hplace, rfl⟩ := layerAt_of_layerSlot hslot
    by_cases hblocks : s.maxBlocks ≤ block.toNat
    · have hstore : s.qsaSlotStore (s.layerAt place) block slot = s := by
        simp only [Session.qsaSlotStore, hslot, if_pos hblocks]
      rw [hstore]
      apply h.store_outside
      intro index _ other hlt heq
      obtain rfl : other = block := congrArg Prod.snd heq
      exact Nat.not_lt.mpr hblocks hlt
    · exact h.store_inside hlayers hplace (Nat.not_le.mp hblocks) slot

/-! ## The session keeps up with the cache -/

theorem Reflects.evict (hlayers : s.layers.Nodup) (pages : List (UInt8 × UInt32)) :
    Reflects (pages.foldl Session.qsaSlotEvict s)
      ((pages.map fun page => (page.1.toUInt32, page.2)).foldl
        (fun frames key => update frames key none) frames) := by
  induction pages generalizing s frames with
  | nil => exact h
  | cons page rest ih =>
    obtain ⟨table, lengths, hstore⟩ := qsaSlotStore_eq s page.1.toUInt32 page.2 uint32Max
    have hnext := h.store hlayers page.1.toUInt32 page.2 uint32Max
    refine ih hnext ?_
    show (s.qsaSlotStore page.1.toUInt32 page.2 uint32Max).layers.Nodup
    rw [hstore]
    exact hlayers

end

theorem told_of_answers {capacity : Nat} {before after : QsaCache.Cache} {map : Map Key capacity}
    {evicted : List Key} (h : Answers before after map evicted) (hhook : before.evictHook = true) :
    (Session.told before after).map (fun page => (page.1.toUInt32, page.2)) = evicted := by
  have hcalls := h.calls
  rw [hhook, if_pos rfl] at hcalls
  rw [Session.told, List.map_drop, hcalls, List.drop_left' (List.length_map _)]

structure Mirrors {capacity : Nat} (s : Session R) (map : Map Key capacity) : Prop where
  layers : s.layers.Nodup
  pages : s.cachePages = capacity
  represents : Represents s.cache map
  hook : s.cache.evictHook = true
  reflects : Reflects s map.frame?

variable {capacity : Nat} {map : Map Key capacity}

theorem Mirrors.withCache (h : Mirrors s map) {cache : QsaCache.Cache} {after : Map Key capacity}
    {evicted : List Key} (hcache : Answers s.cache cache after evicted) :
    Reflects (s.withCache cache)
      (evicted.foldl (fun frames key => update frames key none) map.frame?) ∧
      (s.withCache cache).cache = cache ∧ (s.withCache cache).layers = s.layers ∧
      (s.withCache cache).cachePages = s.cachePages := by
  obtain ⟨table, lengths, heq⟩ := withCache_eq s cache
  have hcongr : Reflects { s with cache := cache } map.frame? :=
    ⟨h.reflects.table, h.reflects.cached, h.reflects.bounded⟩
  have hreflects := hcongr.evict h.layers (Session.told s.cache cache)
  rw [told_of_answers hcache h.hook] at hreflects
  refine ⟨hreflects, ?_, ?_, ?_⟩ <;> rw [heq]

theorem Mirrors.quiet (h : Mirrors s map) {cache : QsaCache.Cache} {after : Map Key capacity}
    (hcache : Answers s.cache cache after []) (hframes : ∀ key, after.frame? key = map.frame? key) :
    Mirrors { s with cache := cache } after := by
  refine ⟨h.layers, h.pages, hcache.represents, hcache.hook.trans h.hook, ?_⟩
  have hreflects := h.reflects.congr hframes
  exact ⟨hreflects.table, hreflects.cached, hreflects.bounded⟩

theorem layer_lt (h : s.layerSlot layer = some index) : layer < 256 := by
  rw [← (layerAt_of_layerSlot h).2, UInt32.lt_iff_toNat_lt]
  have hlt := (s.layers.getD index 0).toNat_lt
  rw [Session.layerAt, UInt8.toNat_toUInt32]
  exact hlt

theorem erase_apply (frames : Key → Option Nat) (evicted : Option Key) (key : Key) :
    evicted.toList.foldl (fun frames key => update frames key none) frames key =
      if evicted = some key then none else frames key := by
  cases evicted with
  | none => rfl
  | some gone =>
    show update frames gone none key = _
    by_cases heq : key = gone
    · rw [heq, update_self, if_pos rfl]
    · rw [update_of_ne heq, if_neg fun h => heq (Option.some.inj h).symm]

section

variable (h : Mirrors s map)
include h

theorem Mirrors.acquire (soft : Bool) (hlayer : s.layerSlot layer = some index) (block : UInt32) :
    ∃ slot after, s.qsaCacheAcquire soft layer block =
        some (slot, (map.acquire soft (layer, block)).1.hit, after) ∧
      slotReply slot = (map.acquire soft (layer, block)).1.frame ∧
      Mirrors after (map.acquire soft (layer, block)).2 := by
  have hlt : ((layer, block) : Key).1 < 256 := layer_lt hlayer
  obtain ⟨slot, cache, hacquire, hslot, hanswers⟩ := h.represents.acquire soft hlt
  obtain ⟨hevicted, hcache, hlayers, hpages⟩ := h.withCache hanswers
  have hrepresents : Represents (s.withCache cache).cache (map.acquire soft (layer, block)).2 := by
    rw [hcache]
    exact hanswers.represents
  have hhook : (s.withCache cache).cache.evictHook = true := by
    rw [hcache]
    exact hanswers.hook.trans h.hook
  refine ⟨slot, if soft ∧ slot = uint32Max then s.withCache cache
    else (s.withCache cache).qsaSlotStore layer block slot, ?_, hslot, ?_⟩
  · rw [Session.qsaCacheAcquire, Option.bind_eq_bind, hacquire]
    rfl
  split
  next hrefused =>
    refine ⟨hlayers ▸ h.layers, hpages.trans h.pages, hrepresents, hhook, hevicted.congr fun key => ?_⟩
    have hnone : (map.acquire soft (layer, block)).1.frame = none := by
      rw [← hslot, slotReply, if_pos hrefused.2]
    rw [Map.frame?_acquire, erase_apply]
    split
    next => rfl
    next =>
      split
      next heq => rw [hnone, heq, Map.frame?_of_refused hnone]
      next => rfl
  next =>
    obtain ⟨table, lengths, hstore⟩ := qsaSlotStore_eq (s.withCache cache) layer block slot
    have hreflects := hevicted.store (hlayers ▸ h.layers) layer block slot
    rw [hslot] at hreflects
    rw [hstore] at hreflects ⊢
    refine ⟨hlayers ▸ h.layers, hpages.trans h.pages, hrepresents, hhook, hreflects.congr fun key => ?_⟩
    rw [Map.frame?_acquire]
    by_cases heq : key = (layer, block)
    · subst heq
      rw [update_self, if_neg fun h => Map.acquire_evicted_ne h rfl, if_pos rfl]
    · rw [update_of_ne heq, erase_apply, if_neg heq]

theorem Mirrors.lookup (layer block : UInt32) :
    ∃ after, s.lookup layer block = some (map.frame? (layer, block), after) ∧
      (∃ cache, after = { s with cache := cache }) ∧ Mirrors after (map.lookup (layer, block)).2 := by
  obtain ⟨cache, hlookup, hanswers⟩ := h.represents.lookup (layer, block)
  refine ⟨{ s with cache := cache }, ?_, ⟨cache, rfl⟩, h.quiet hanswers fun key => Map.frame?_lookup⟩
  rw [Session.lookup, hlookup, Map.lookup_fst]
  rfl

theorem Mirrors.store_found {slot : Nat}
    (hfound : map.frame? (layer, block) = some slot) : Mirrors (s.qsaSlotStore layer block slot) map := by
  obtain ⟨table, lengths, hstore⟩ := qsaSlotStore_eq s layer block slot
  have hreflects := h.reflects.store h.layers layer block slot
  rw [hstore] at hreflects ⊢
  refine ⟨h.layers, h.pages, h.represents, h.hook, hreflects.congr fun key => ?_⟩
  obtain ⟨entry, hentry, -, rfl⟩ := Map.frame?_eq_some.mp hfound
  by_cases heq : key = (layer, block)
  · rw [heq, update_self, slotReply, if_neg (h.represents.frame_ne hentry), hfound]
  · rw [update_of_ne heq]

theorem Mirrors.lookupStore (layer block : UInt32) :
    ∃ after, s.lookupStore layer block = some (map.frame? (layer, block), after) ∧
      (∃ cache table lengths, after =
        { s with cache := cache, slotTable := table, cachedPrefix := lengths }) ∧
      Mirrors after (map.lookup (layer, block)).2 := by
  obtain ⟨looked, hlookup, ⟨cache, rfl⟩, hlooked⟩ := h.lookup layer block
  rw [Session.lookupStore, hlookup, Option.map_some]
  cases hfound : map.frame? (layer, block) with
  | none => exact ⟨_, rfl, ⟨cache, _, _, rfl⟩, hlooked⟩
  | some slot =>
    obtain ⟨table, lengths, hstore⟩ := qsaSlotStore_eq { s with cache := cache } layer block slot
    refine ⟨_, rfl, ⟨cache, table, lengths, hstore⟩, hlooked.store_found ?_⟩
    rw [Map.frame?_lookup, hfound]

theorem Mirrors.touch (slot : Nat) : Mirrors (s.touch slot) (map.touch slot) :=
  h.quiet (h.represents.touch slot) fun _ => Map.frame?_touch

theorem Mirrors.pin (layer block : UInt32) :
    ∃ result after, s.pin layer block = some (result, after) ∧
      result.isOk = (map.find? (layer, block)).isSome ∧ (∃ cache, after = { s with cache := cache }) ∧
      Mirrors after (map.setPin (layer, block) true) := by
  obtain ⟨result, cache, hpin, hresult, hanswers⟩ := h.represents.pin (layer, block)
  refine ⟨result, { s with cache := cache }, ?_, hresult, ⟨cache, rfl⟩, h.quiet hanswers fun _ => Map.frame?_setPin⟩
  rw [Session.pin, hpin]
  rfl

theorem Mirrors.pagePublished (layer block : UInt32) :
    ∃ after, s.pagePublished layer block = some after ∧ (∃ cache, after = { s with cache := cache }) ∧
      Mirrors after (map.setPin (layer, block) false) := by
  obtain ⟨cache, hunpin, hanswers⟩ := h.represents.unpin (layer, block)
  refine ⟨{ s with cache := cache }, ?_, ⟨cache, rfl⟩, h.quiet hanswers fun _ => Map.frame?_setPin⟩
  rw [Session.pagePublished, hunpin]
  rfl

end

theorem reflects_empty {lengths : Nat → Nat} {table : Nat → Nat} (hlengths : ∀ index, lengths index = 0)
    (htable : ∀ place, table place = uint32Max) :
    Reflects { s with slotTable := table, cachedPrefix := lengths } (Map.empty : Map Key capacity).frame? := by
  refine ⟨fun _ _ _ _ => htable _, fun index _ block hlt => ?_, fun index _ => ?_⟩
  · have hlt : block.toNat < lengths index := hlt
    rw [hlengths] at hlt
    exact absurd hlt (Nat.not_lt_zero _)
  · show lengths index ≤ _
    rw [hlengths]
    exact Nat.zero_le _

theorem Mirrors.reset (h : Mirrors s map) : Mirrors s.qsaCacheReset (Map.empty : Map Key capacity) := by
  have hreset := h.represents.reset
  refine ⟨h.layers, h.pages, hreset.represents, hreset.hook.trans h.hook, ?_⟩
  have hempty := @reflects_empty R { s with cache := QsaCache.reset s.cache } capacity (fun _ => 0)
    (fun _ => uint32Max) (fun _ => rfl) fun _ => rfl
  exact hempty

theorem ownedLayers_nodup (rank : Nat) (ownedOnly : Bool) (layerOwner : Nat → Nat) :
    (ownedLayers rank ownedOnly layerOwner).Nodup := by
  have hall : (((List.range maxLayers).map fun i => 4 * i + 3).map UInt8.ofNat).Nodup := by decide
  exact hall.sublist (List.filter_sublist.map UInt8.ofNat)

theorem openDecodeConfig_eq {rank : Nat} {ownedOnly : Bool} {layerOwner : Nat → Nat}
    {logicalContext cachePages batchSize : Nat} {locality remote : Bool} {state : Option (State R)}
    {records : Nat → Page R} {lruPrev lruNext : Nat → Nat}
    (h : openDecodeConfig rank ownedOnly layerOwner logicalContext cachePages batchSize locality remote state records
      lruPrev lruNext = .ok s) :
    indexSegmentCount logicalContext ≤ indexMaxSegments ∧
      ∃ cache, QsaCache.create cachePages true lruPrev lruNext = .ok cache ∧ s = {
        layers := ownedLayers rank ownedOnly layerOwner
        maxContext := logicalContext
        maxTokens := batchSize
        cachePages := cachePages
        locality := locality
        committed := fun _ => 0
        positions := fun _ => none
        indexKeys := fun index segment =>
          decide (index < (ownedLayers rank ownedOnly layerOwner).length ∧ segment = 0)
        cache := cache
        cacheRecords := records
        slotTable := fun _ => uint32Max
        cachedPrefix := fun _ => 0
        state := state
        fetchPages := if remote then .remote else if state.isSome then .state else .none } := by
  unfold openDecodeConfig at h
  dsimp only at h
  generalize (if rank = 0 then maxLayers else ownerLayers) = expected at h
  split at h
  · cases h
  split at h
  · cases h
  next hsegments =>
    split at h
    · cases h
    split at h
    · cases h
    split at h
    · cases h
    cases hcreate : QsaCache.create cachePages true lruPrev lruNext with
    | error error =>
      rw [hcreate] at h
      cases h
    | ok cache =>
      rw [hcreate] at h
      exact ⟨Nat.not_lt.mp hsegments, cache, rfl, (Except.ok.inj h).symm⟩

theorem openDecodeConfig_mirrors {rank : Nat} {ownedOnly : Bool} {layerOwner : Nat → Nat}
    {logicalContext cachePages batchSize : Nat} {locality remote : Bool} {state : Option (State R)}
    {records : Nat → Page R} {lruPrev lruNext : Nat → Nat}
    (h : openDecodeConfig rank ownedOnly layerOwner logicalContext cachePages batchSize locality remote state records
      lruPrev lruNext = .ok s) :
    Mirrors s (Map.empty : Map Key cachePages) ∧ s.maxContext = logicalContext ∧
      indexSegmentCount logicalContext ≤ indexMaxSegments := by
  obtain ⟨hsegments, cache, hcreate, rfl⟩ := openDecodeConfig_eq h
  obtain ⟨hempty, hhook, -⟩ := QsaCache.create_represents hcreate
  refine ⟨⟨ownedLayers_nodup .., rfl, hempty, hhook, ?_⟩, rfl, hsegments⟩
  exact ⟨fun _ _ _ _ => rfl, fun _ _ _ hlt => absurd hlt (Nat.not_lt_zero _), fun _ _ => Nat.zero_le _⟩

end FlashGordon.QsaSession
