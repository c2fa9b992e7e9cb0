import FlashGordon.QsaCache
import Mathlib.Data.List.Find
import Mathlib.Data.List.Perm.Subperm

/-! What a page cache stands for: a bounded map in order of use with pins. The slots show the map's entries,
the list of use has them in order and every hash chain has the slots of its bucket. Searching, moving a slot
to the front, filling a fresh slot and evicting one keep to this. -/

namespace FlashGordon.QsaCache

open Links PinnedLru Function List

theorem findLink_chain {cache : Cache} {layer block : UInt32} {fuel link : Nat} {cells : List Nat}
    (h : Chain cache.hash.next link cells) (hfuel : cells.length < fuel) :
    findLink cache layer block fuel link =
      some ((cells.find? (cache.holds layer block)).getD uint32Max) := by
  induction cells generalizing fuel link with
  | nil =>
    obtain ⟨fuel, rfl⟩ := Nat.exists_eq_add_one.mpr (Nat.zero_lt_of_lt hfuel)
    obtain rfl : link = 0 := h
    rfl
  | cons cell rest ih =>
    obtain ⟨fuel, rfl⟩ := Nat.exists_eq_add_one.mpr (Nat.zero_lt_of_lt hfuel)
    obtain ⟨rfl, hrest⟩ := h
    rw [length_cons, Nat.succ_lt_succ_iff] at hfuel
    simp only [findLink, List.find?_cons]
    split
    next hholds => simp [hholds]
    next hholds =>
      simp only [hholds]
      exact ih hrest hfuel

theorem victimFrom_segment {cache : Cache} {fuel after : Nat} {slots : List Nat}
    (h : Segment cache.lru.prev cache.lru.next uint32Max slots after) (hnull : uint32Max ∉ slots)
    (hfuel : slots.length < fuel) :
    victimFrom cache fuel (slots.getLastD uint32Max) =
      some ((slots.reverse.find? fun slot => !cache.pinned slot).getD uint32Max) := by
  induction slots using List.reverseRecOn generalizing fuel after with
  | nil =>
    obtain ⟨fuel, rfl⟩ := Nat.exists_eq_add_one.mpr (Nat.zero_lt_of_lt hfuel)
    simp [victimFrom]
  | append_singleton init last ih =>
    obtain ⟨fuel, rfl⟩ := Nat.exists_eq_add_one.mpr (Nat.zero_lt_of_lt hfuel)
    obtain ⟨hinit, hlast, -⟩ := segment_append.mp h
    simp only [mem_append, mem_singleton, not_or] at hnull
    rw [length_append, length_singleton, Nat.succ_lt_succ_iff] at hfuel
    have hend : (init ++ [last]).getLastD uint32Max = last := by simp
    rw [hend, victimFrom, reverse_append, reverse_singleton, singleton_append, List.find?_cons]
    cases hpinned : cache.pinned last with
    | true =>
      rw [if_pos ⟨Ne.symm hnull.2, rfl⟩, hlast]
      exact ih hinit hnull.1 hfuel
    | false =>
      rw [if_neg fun h => Bool.false_ne_true h.2]
      rfl

structure Removed (slot : Nat) (cells : List Nat) (ref : LinkRef) (hash after : HashLinks) : Prop where
  chain : Chain after.next (after.read ref) (cells.erase slot)
  buckets : ∀ bucket, ref ≠ .bucket bucket → after.buckets bucket = hash.buckets bucket
  next : ∀ cell, cell ∉ cells → ref ≠ .next cell → after.next cell = hash.next cell

theorem removeLink_chain {slot fuel : Nat} {hash : HashLinks} {ref : LinkRef} {cells : List Nat}
    (h : Chain hash.next (hash.read ref) cells) (hnodup : cells.Nodup) (hslot : slot ∈ cells)
    (href : ∀ cell, ref = .next cell → cell ∉ cells) (hfuel : cells.length < fuel) :
    ∃ after, removeLink slot fuel hash ref = some after ∧ Removed slot cells ref hash after := by
  induction cells generalizing fuel ref with
  | nil => cases hslot
  | cons cell rest ih =>
    obtain ⟨fuel, rfl⟩ := Nat.exists_eq_add_one.mpr (Nat.zero_lt_of_lt hfuel)
    obtain ⟨hlink, hrest⟩ := h
    obtain ⟨hcell, hnodup⟩ := nodup_cons.mp hnodup
    rw [length_cons, Nat.succ_lt_succ_iff] at hfuel
    simp only [removeLink, hlink]
    by_cases heq : cell = slot
    · subst heq
      refine ⟨hash.write ref (hash.next cell), if_pos rfl, ?_⟩
      have herase : (cell :: rest).erase cell = rest := erase_cons_head ..
      cases ref with
      | bucket bucket =>
        refine ⟨?_, fun other hne => ?_, fun _ _ _ => rfl⟩
        · show Chain hash.next (update hash.buckets bucket _ bucket) _
          rwa [update_self, herase]
        · exact update_of_ne (fun heq : other = bucket => hne (heq ▸ rfl)) _ _
      | next before =>
        have hbefore := href before rfl
        refine ⟨?_, fun _ _ => rfl, fun other _ hne => ?_⟩
        · show Chain (update hash.next before _) (update hash.next before _ before) _
          rw [update_self, herase]
          exact hrest.update fun hmem => hbefore (mem_cons_of_mem cell hmem)
        · exact update_of_ne (fun heq : other = before => hne (heq ▸ rfl)) _ _
    · have hslot' : slot ∈ rest := (mem_cons.mp hslot).resolve_left (Ne.symm heq)
      obtain ⟨after, hremoved, hafter⟩ := @ih fuel (.next cell) hrest hnodup hslot'
        (by rintro other ⟨⟩; exact hcell) hfuel
      refine ⟨after, by rw [if_neg heq]; exact hremoved, ?_⟩
      have herase : (cell :: rest).erase slot = cell :: rest.erase slot :=
        erase_cons_tail (by simpa using heq)
      have hread : after.read ref = hash.read ref := by
        cases ref with
        | bucket bucket => exact hafter.buckets bucket (by simp)
        | next before =>
          have hbefore := href before rfl
          rw [mem_cons, not_or] at hbefore
          exact hafter.next before hbefore.2 fun hcell => hbefore.1 (LinkRef.next.inj hcell).symm
      refine ⟨herase ▸ ⟨hread.trans hlink, hafter.chain⟩, fun bucket _ => hafter.buckets bucket (by simp), ?_⟩
      intro other hother _
      rw [mem_cons, not_or] at hother
      exact hafter.next other hother.2 fun hcell => hother.1 (LinkRef.next.inj hcell).symm

theorem cacheLruFront_eq (lru : Deque) (slot : Nat) :
    cacheLruFront lru slot = (lru.unlink uint32Max slot).push uint32Max slot := by
  show _ = Deque.push uint32Max (Deque.bypassPrev _ (Deque.bypassNext _ _ _) _ _ _) _
  unfold cacheLruFront Deque.push Deque.bypassPrev Deque.bypassNext
  dsimp only
  split_ifs <;> rfl

/-! ## What a cache stands for -/

structure Cache.Shows (cache : Cache) (entry : Resident Key) : Prop where
  valid : cache.valid entry.frame = true
  layer : (cache.layers entry.frame).toUInt32 = entry.key.1
  block : cache.blocks entry.frame = entry.key.2
  pinned : cache.pinned entry.frame = entry.pinned

def Cache.page (cache : Cache) (slot : Nat) : Key := ((cache.layers slot).toUInt32, cache.blocks slot)

structure Chained (cache : Cache) (entries : List (Resident Key)) (bucket : Nat) (cells : List Nat) : Prop where
  chain : Chain cache.hash.next (cache.hash.buckets bucket) cells
  nodup : cells.Nodup
  mem : ∀ slot, slot ∈ cells ↔
    ∃ entry ∈ entries, entry.frame = slot ∧ cache.bucket entry.key.1 entry.key.2 = bucket

/-- The cache stands for the map: its slots show the entries, the list of use has them in order, and every
hash chain has the slots of its bucket. -/
structure Represents {capacity : Nat} (cache : Cache) (map : Map Key capacity) : Prop where
  pages : cache.pages = capacity
  positive : 0 < capacity
  bounded : capacity ≤ 2 ^ 30
  hashed : 0 < cache.hashCapacity
  used : cache.used = map.entries.length
  shows : ∀ entry ∈ map.entries, cache.Shows entry
  unused : ∀ slot, cache.used ≤ slot → cache.valid slot = false ∧ cache.pinned slot = false
  lru : cache.lru.Holds uint32Max (map.entries.map Resident.frame)
  chains : ∀ bucket, ∃ cells, Chained cache map.entries bucket cells

variable {capacity : Nat} {cache : Cache} {map : Map Key capacity}

variable {entry : Resident Key}

section

variable (h : Represents cache map)
include h

theorem Represents.frame_lt (hentry : entry ∈ map.entries) : entry.frame < cache.used :=
  h.used ▸ map.frame_lt hentry

theorem Represents.entry_of_lt {slot : Nat} (hslot : slot < cache.used) :
    ∃ entry ∈ map.entries, entry.frame = slot := by
  apply mem_map.mp
  apply map.frames.mem_iff.mpr
  apply mem_range.mpr
  rw [← h.used]
  exact hslot

theorem Represents.used_le : cache.used ≤ 2 ^ 30 := by
  have hlength := map.length_le
  have hbounded := h.bounded
  rw [h.used]
  omega

theorem Represents.frame_ne (hentry : entry ∈ map.entries) : entry.frame ≠ uint32Max := by
  have hlt := h.frame_lt hentry
  have hle := h.used_le
  unfold uint32Max
  omega

end

theorem Cache.Shows.holds_iff (h : cache.Shows entry) (layer block : UInt32) :
    cache.holds layer block entry.frame = true ↔ entry.key = (layer, block) := by
  simp only [Cache.holds, h.valid, h.layer, h.block, Bool.true_and, Bool.and_eq_true, beq_iff_eq, Prod.ext_iff]

theorem Chained.length_le {entries : List (Resident Key)} {bucket : Nat} {cells : List Nat}
    (h : Chained cache entries bucket cells) : cells.length ≤ entries.length := by
  have hsubset : cells ⊆ entries.map Resident.frame := by
    intro slot hslot
    obtain ⟨entry, hentry, rfl, -⟩ := (h.mem slot).mp hslot
    exact mem_map_of_mem hentry
  have hle := (subperm_of_subset h.nodup hsubset).length_le
  rwa [length_map] at hle

theorem Represents.cacheFind (h : Represents cache map) (layer block : UInt32) :
    cacheFind cache layer block =
      some (((map.find? (layer, block)).map Resident.frame).getD uint32Max) := by
  obtain ⟨cells, hcells⟩ := h.chains (cache.bucket layer block)
  have hfuel : cells.length < cache.pages + 1 := by
    have hlength := Nat.le_trans hcells.length_le map.length_le
    rw [h.pages]
    omega
  have hpages : cache.pages ≠ 0 := by
    have hpositive := h.positive
    rw [h.pages]
    omega
  rw [QsaCache.cacheFind, if_neg hpages, findLink_chain hcells.chain hfuel]
  congr 2
  cases hfind : map.find? (layer, block) with
  | none =>
    rw [Option.map_none, List.find?_eq_none]
    intro slot hslot hholds
    obtain ⟨entry, hentry, rfl, -⟩ := (hcells.mem slot).mp hslot
    have hkey := ((h.shows entry hentry).holds_iff layer block).mp hholds
    exact Map.find?_eq_none.mp hfind (hkey ▸ mem_map_of_mem hentry)
  | some entry =>
    obtain ⟨hentry, hkey⟩ := Map.find?_mem hfind
    have hmem : entry.frame ∈ cells := by
      apply (hcells.mem _).mpr
      exact ⟨entry, hentry, rfl, by rw [hkey]⟩
    cases hfirst : cells.find? (cache.holds layer block) with
    | none =>
      exact absurd (((h.shows entry hentry).holds_iff layer block).mpr hkey)
        (List.find?_eq_none.mp hfirst _ hmem)
    | some slot =>
      obtain ⟨other, hother, rfl, -⟩ := (hcells.mem slot).mp (mem_of_find?_eq_some hfirst)
      have hotherKey := ((h.shows other hother).holds_iff layer block).mp (List.find?_some hfirst)
      rw [map.key_injective hother hentry (hotherKey.trans hkey.symm)]
      rfl

/-! ## Moving a slot to the front -/

theorem Represents.lru_front (h : Represents cache map) {first second : List (Resident Key)}
    (hsplit : map.entries = first ++ entry :: second) :
    (cacheLruFront cache.lru entry.frame).Holds uint32Max
      (entry.frame :: (first ++ second).map Resident.frame) := by
  have hholds := h.lru
  have hentry : entry ∈ map.entries := hsplit ▸ mem_append_right _ mem_cons_self
  have hnodup := map.frames_nodup
  rw [hsplit, map_append, map_cons] at hholds hnodup
  rw [cacheLruFront_eq, map_append]
  apply hholds.unlink.push
  · exact (nodup_cons.mp (nodup_middle.mp hnodup)).1
  · exact h.frame_ne hentry

theorem Represents.front (h : Represents cache map) (hentry : entry ∈ map.entries) :
    Represents { cache with lru := cacheLruFront cache.lru entry.frame } (map.use entry hentry) := by
  obtain ⟨first, second, hsplit⟩ := append_of_mem hentry
  have hentries : (map.use entry hentry).entries = entry :: (first ++ second) := by
    show entry :: without entry.key map.entries = _
    rw [without_eq_append map.keys hsplit]
  have hperm : (map.use entry hentry).entries.Perm map.entries := by
    rw [hentries, hsplit]
    exact perm_middle.symm
  refine ⟨h.pages, h.positive, h.bounded, h.hashed, ?_, ?_, h.unused, ?_, ?_⟩
  · rw [hperm.length_eq]
    exact h.used
  · intro other hother
    exact ⟨(h.shows other (hperm.subset hother)).valid, (h.shows other (hperm.subset hother)).layer,
      (h.shows other (hperm.subset hother)).block, (h.shows other (hperm.subset hother)).pinned⟩
  · rw [hentries, map_cons]
    exact h.lru_front hsplit
  · intro bucket
    obtain ⟨cells, hcells⟩ := h.chains bucket
    refine ⟨cells, hcells.chain, hcells.nodup, fun slot => (hcells.mem slot).trans ?_⟩
    simp only [hperm.mem_iff]
    rfl

structure Vacant (cache : Cache) (slot : Nat) (rest : List (Resident Key)) : Prop where
  shows : ∀ entry ∈ rest, cache.Shows entry
  free : ∀ entry ∈ rest, entry.frame ≠ slot
  unpinned : cache.pinned slot = false
  lru : (cacheLruFront cache.lru slot).Holds uint32Max (slot :: rest.map Resident.frame)
  chains : ∀ bucket, ∃ cells, Chained cache rest bucket cells

theorem toUInt8_toUInt32 {layer : UInt32} (h : layer < 256) : layer.toUInt8.toUInt32 = layer := by
  apply UInt32.toNat_inj.mp
  have hlt : layer.toNat < 256 := UInt32.lt_iff_toNat_lt.mp h
  simp only [UInt8.toNat_toUInt32, UInt32.toNat_toUInt8]
  omega

variable {slot : Nat} {rest : List (Resident Key)}

theorem Vacant.occupy_shows (h : Vacant cache slot rest) {layer : UInt32} (hlayer : layer < 256)
    (block : UInt32) :
    ∀ entry ∈ ⟨(layer, block), slot, false⟩ :: rest, (occupy cache slot layer block).Shows entry := by
  rintro entry (_ | ⟨_, hentry⟩)
  · refine ⟨update_self .., ?_, update_self .., h.unpinned⟩
    show (update cache.layers slot _ slot).toUInt32 = layer
    rw [update_self]
    exact toUInt8_toUInt32 hlayer
  · have hne := h.free entry hentry
    have hshows := h.shows entry hentry
    refine ⟨?_, ?_, ?_, hshows.pinned⟩
    · exact (update_of_ne hne _ _).trans hshows.valid
    · exact (congrArg UInt8.toUInt32 (update_of_ne hne _ _)).trans hshows.layer
    · exact (update_of_ne hne _ _).trans hshows.block

theorem Vacant.occupy_chains (h : Vacant cache slot rest) (layer block : UInt32) (bucket : Nat) :
    ∃ cells, Chained (occupy cache slot layer block) (⟨(layer, block), slot, false⟩ :: rest) bucket cells := by
  obtain ⟨cells, hcells⟩ := h.chains bucket
  have hslot : slot ∉ cells := by
    intro hmem
    obtain ⟨entry, hentry, hframe, -⟩ := (hcells.mem slot).mp hmem
    exact h.free entry hentry hframe
  by_cases hbucket : bucket = cache.bucket layer block
  · subst hbucket
    refine ⟨slot :: cells, ?_, nodup_cons.mpr ⟨hslot, hcells.nodup⟩, fun other => ?_⟩
    · show Chain (update cache.hash.next slot _)
        (update cache.hash.buckets (cache.bucket layer block) (slot + 1) _) _
      rw [update_self]
      exact hcells.chain.push hslot
    · simp only [mem_cons, hcells.mem other, exists_eq_or_imp]
      constructor
      · rintro (rfl | hrest)
        · exact .inl ⟨rfl, rfl⟩
        · exact .inr hrest
      · rintro (⟨rfl, -⟩ | hrest)
        · exact .inl rfl
        · exact .inr hrest
  · refine ⟨cells, ?_, hcells.nodup, fun other => ?_⟩
    · show Chain (update cache.hash.next slot _)
        (update cache.hash.buckets (cache.bucket layer block) (slot + 1) _) _
      rw [update_of_ne hbucket]
      exact hcells.chain.update hslot
    · simp only [mem_cons, hcells.mem other, exists_eq_or_imp]
      constructor
      · exact .inr
      · rintro (⟨-, heq⟩ | hrest)
        · exact absurd heq.symm hbucket
        · exact hrest

section

variable (h : Represents cache map)
include h

theorem Represents.vacant_fresh :
    Vacant { cache with
      used := cache.used + 1
      lru := { cache.lru with
        prev := update cache.lru.prev cache.used uint32Max
        next := update cache.lru.next cache.used uint32Max } } cache.used map.entries := by
  have hfree : ∀ entry ∈ map.entries, entry.frame ≠ cache.used := by
    intro entry hentry
    exact Nat.ne_of_lt (h.frame_lt hentry)
  have hnot : cache.used ∉ map.entries.map Resident.frame := by
    intro hmem
    obtain ⟨entry, hentry, hframe⟩ := mem_map.mp hmem
    exact hfree entry hentry hframe
  have hnull : cache.used ≠ uint32Max := by
    have hle := h.used_le
    unfold uint32Max
    omega
  refine ⟨fun entry hentry => ?_, hfree, (h.unused _ (Nat.le_refl _)).2, ?_, fun bucket => ?_⟩
  · exact ⟨(h.shows entry hentry).valid, (h.shows entry hentry).layer, (h.shows entry hentry).block,
      (h.shows entry hentry).pinned⟩
  · have hholds := h.lru.update hnot uint32Max uint32Max
    obtain ⟨hhead, htail⟩ := h.lru.head_ne hnot hnull
    have hunlink : Deque.unlink uint32Max
        { cache.lru with
          prev := update cache.lru.prev cache.used uint32Max
          next := update cache.lru.next cache.used uint32Max } cache.used =
        { cache.lru with
          prev := update cache.lru.prev cache.used uint32Max
          next := update cache.lru.next cache.used uint32Max } :=
      Deque.unlink_eq_self (update_self ..) (update_self ..) hhead htail
    rw [cacheLruFront_eq, hunlink]
    exact hholds.push hnot hnull
  · obtain ⟨cells, hcells⟩ := h.chains bucket
    exact ⟨cells, hcells.chain, hcells.nodup, hcells.mem⟩

theorem Represents.insert {layer block : UInt32} (hlayer : layer < 256)
    (hkey : (layer, block) ∉ map.entries.map Resident.key) (hroom : map.entries.length < capacity) :
    Represents (occupy { cache with
      used := cache.used + 1
      lru := { cache.lru with
        prev := update cache.lru.prev cache.used uint32Max
        next := update cache.lru.next cache.used uint32Max } } cache.used layer block)
      (map.insert (layer, block) hkey hroom) := by
  have hvacant := h.vacant_fresh
  have hentries : (map.insert (layer, block) hkey hroom).entries =
      ⟨(layer, block), cache.used, false⟩ :: map.entries := by
    rw [h.used]
    rfl
  refine ⟨h.pages, h.positive, h.bounded, h.hashed, ?_, ?_, ?_, ?_, ?_⟩
  · rw [hentries, length_cons, ← h.used]
    rfl
  · rw [hentries]
    exact hvacant.occupy_shows hlayer block
  · intro slot hslot
    have hslot' : cache.used + 1 ≤ slot := hslot
    obtain ⟨hvalid, hpinned⟩ := h.unused slot (by omega)
    exact ⟨(update_of_ne (by omega) _ _).trans hvalid, hpinned⟩
  · rw [hentries, map_cons]
    exact hvacant.lru
  · rw [hentries]
    exact hvacant.occupy_chains layer block

theorem Represents.vacant_evict {first second : List (Resident Key)} (hsplit : map.entries = first ++ entry :: second) :
    ∃ hash, cacheRemoveHash cache entry.frame = some hash ∧
      Vacant { cache with
        evictCalls :=
          if cache.evictHook then
            cache.evictCalls ++ [(cache.layers entry.frame, cache.blocks entry.frame)]
          else cache.evictCalls
        hash := hash
        pinned := update cache.pinned entry.frame false } entry.frame (first ++ second) := by
  have hentry : entry ∈ map.entries := hsplit ▸ mem_append_right _ mem_cons_self
  have hrest : ∀ other ∈ first ++ second, other ∈ map.entries ∧ other ≠ entry := by
    have hnodup : (first ++ entry :: second).Nodup := hsplit ▸ map.frames_nodup.of_map
    intro other hother
    refine ⟨?_, ?_⟩
    · rw [hsplit]
      rcases mem_append.mp hother with hleft | hright
      · exact mem_append_left _ hleft
      · exact mem_append_right _ (mem_cons_of_mem _ hright)
    · rintro rfl
      exact (nodup_cons.mp (nodup_middle.mp hnodup)).1 hother
  have hmem : ∀ other ∈ map.entries, other = entry ∨ other ∈ first ++ second := by
    intro other hother
    rw [hsplit] at hother
    rcases mem_append.mp hother with hleft | hright
    · exact .inr (mem_append_left _ hleft)
    · rcases mem_cons.mp hright with heq | hright
      · exact .inl heq
      · exact .inr (mem_append_right _ hright)
  have hfree : ∀ other ∈ first ++ second, other.frame ≠ entry.frame :=
    fun other hother hframe => (hrest other hother).2
      (map.frame_injective (hrest other hother).1 hentry hframe)
  have hshows := h.shows entry hentry
  obtain ⟨cells, hcells⟩ := h.chains (cache.bucket entry.key.1 entry.key.2)
  have hslot : entry.frame ∈ cells := (hcells.mem _).mpr ⟨entry, hentry, rfl, rfl⟩
  have hfuel : cells.length < cache.pages + 1 := by
    have hlength := Nat.le_trans hcells.length_le map.length_le
    rw [h.pages]
    omega
  obtain ⟨hash, hremove, hremoved⟩ := @removeLink_chain entry.frame (cache.pages + 1) cache.hash
    (.bucket (cache.bucket entry.key.1 entry.key.2)) cells hcells.chain hcells.nodup hslot
    (by simp) hfuel
  refine ⟨hash, ?_, ?_⟩
  · rw [cacheRemoveHash, hshows.layer, hshows.block]
    exact hremove
  refine ⟨fun other hother => ?_, hfree, update_self .., h.lru_front hsplit, fun bucket => ?_⟩
  · have hother' := h.shows other (hrest other hother).1
    exact ⟨hother'.valid, hother'.layer, hother'.block, (update_of_ne (hfree other hother) _ _).trans hother'.pinned⟩
  · by_cases hbucket : bucket = cache.bucket entry.key.1 entry.key.2
    · subst hbucket
      refine ⟨cells.erase entry.frame, hremoved.chain, hcells.nodup.erase _, fun slot => ?_⟩
      rw [hcells.nodup.mem_erase_iff, hcells.mem slot]
      constructor
      · rintro ⟨hne, other, hother, rfl, heq⟩
        rcases hmem other hother with rfl | hother
        · exact absurd rfl hne
        · exact ⟨other, hother, rfl, heq⟩
      · rintro ⟨other, hother, rfl, heq⟩
        exact ⟨hfree other hother, other, (hrest other hother).1, rfl, heq⟩
    · -- another bucket's slots are not on the chain that was walked
      obtain ⟨others, hothers⟩ := h.chains bucket
      have hapart : ∀ slot ∈ others, slot ∉ cells := by
        intro slot hin hin'
        obtain ⟨one, hone, rfl, hfirst⟩ := (hothers.mem slot).mp hin
        obtain ⟨two, htwo, hframe, hsecond⟩ := (hcells.mem _).mp hin'
        obtain rfl := map.frame_injective htwo hone hframe
        exact hbucket (hfirst.symm.trans hsecond)
      refine ⟨others, ?_, hothers.nodup, fun slot => ?_⟩
      · show Chain hash.next (hash.buckets bucket) others
        rw [hremoved.buckets bucket (by simpa using Ne.symm hbucket)]
        exact hothers.chain.congr fun slot hin => hremoved.next slot (hapart slot hin) (by simp)
      · rw [hothers.mem slot]
        constructor
        · rintro ⟨other, hother, rfl, heq⟩
          rcases hmem other hother with rfl | hother
          · exact absurd heq.symm hbucket
          · exact ⟨other, hother, rfl, heq⟩
        · rintro ⟨other, hother, rfl, heq⟩
          exact ⟨other, (hrest other hother).1, rfl, heq⟩

theorem Represents.replace (hentry : entry ∈ map.entries)
    {layer block : UInt32} (hlayer : layer < 256) (hkey : (layer, block) ∉ map.entries.map Resident.key) :
    ∃ evicted, evict cache entry.frame = some evicted ∧
      evicted.evictHook = cache.evictHook ∧
      evicted.evictCalls =
        (if cache.evictHook then
          cache.evictCalls ++ [(cache.layers entry.frame, cache.blocks entry.frame)]
        else cache.evictCalls) ∧
      Represents (occupy evicted entry.frame layer block)
        (map.replace entry ⟨(layer, block), entry.frame, false⟩ hentry (.inr hkey) rfl) := by
  obtain ⟨first, second, hsplit⟩ := append_of_mem hentry
  obtain ⟨hash, hremove, hvacant⟩ := h.vacant_evict hsplit
  have hentries : (map.replace entry ⟨(layer, block), entry.frame, false⟩ hentry (.inr hkey) rfl).entries =
      ⟨(layer, block), entry.frame, false⟩ :: (first ++ second) := by
    show _ :: without entry.key map.entries = _
    rw [without_eq_append map.keys hsplit]
  simp only [evict, hremove, Option.map_some, Option.some.injEq, exists_eq_left']
  refine ⟨trivial, trivial, ?_⟩
  refine ⟨h.pages, h.positive, h.bounded, h.hashed, ?_, ?_, ?_, ?_, ?_⟩
  · have hused : cache.used = (first ++ entry :: second).length := hsplit ▸ h.used
    rw [hentries, length_cons]
    refine hused.trans ?_
    simp only [length_append, length_cons]
    omega
  · rw [hentries]
    exact hvacant.occupy_shows hlayer block
  · intro slot hslot
    have hne : slot ≠ entry.frame := Nat.ne_of_gt (Nat.lt_of_lt_of_le (h.frame_lt hentry) hslot)
    obtain ⟨hvalid, hpinned⟩ := h.unused slot hslot
    exact ⟨(update_of_ne hne _ _).trans hvalid, (update_of_ne hne _ _).trans hpinned⟩
  · rw [hentries, map_cons]
    exact hvacant.lru
  · rw [hentries]
    exact hvacant.occupy_chains layer block

end

end FlashGordon.QsaCache
