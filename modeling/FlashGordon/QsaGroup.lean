import FlashGordon.PinnedBacking
import FlashGordon.QsaAttend
import FlashGordon.QsaSlotsRun

/-! Decode steps recorded in a submit group. The device runs a recorded gather at some later time, when the
table and the cache may have changed; with a slot for every block of every layer nothing is evicted in
between, so each gather still reads the slots that hold its blocks. -/

namespace FlashGordon.QsaSession

open QsaCache (Key Represents uint32Max)
open PinnedLru List

variable {R : Type} {s : Session R} {capacity : Nat} {map : Map Key capacity}

/-- What neither an attention nor a lookup changes. -/
structure SameSession (s after : Session R) : Prop where
  shape : SameShape s after
  maxTokens : after.maxTokens = s.maxTokens
  committed : after.committed = s.committed
  fetchPages : after.fetchPages = s.fetchPages

theorem SameSession.refl (s : Session R) : SameSession s s := ⟨⟨rfl, rfl, rfl, rfl⟩, rfl, rfl, rfl⟩

variable {second third : Session R}

theorem SameSession.trans (h : SameSession s second) (h' : SameSession second third) : SameSession s third :=
  ⟨h.shape.trans h'.shape, h'.maxTokens.trans h.maxTokens, h'.committed.trans h.committed,
    h'.fetchPages.trans h.fetchPages⟩

/-! ## Steps that move no page -/

/-- No page has moved, and the pins, the records and the state are the same: what lookups leave. -/
structure Stays (s : Session R) (map : Map Key capacity) (after : Session R) (map' : Map Key capacity) : Prop where
  mirrors : Mirrors after map'
  same : SameSession s after
  state : after.state = s.state
  records : after.cacheRecords = s.cacheRecords
  frames : ∀ key, map'.frame? key = map.frame? key
  pins : map'.pinned = map.pinned

variable {map' : Map Key capacity} {after : Session R} {index tokens : Nat}

theorem Mirrors.stays_self (h : Mirrors s map) : Stays s map s map := ⟨h, .refl s, rfl, rfl, fun _ => rfl, rfl⟩

theorem Stays.trans {map'' : Map Key capacity} (h : Stays s map second map')
    (h' : Stays second map' third map'') : Stays s map third map'' :=
  ⟨h'.mirrors, h.same.trans h'.same, h'.state.trans h.state, h'.records.trans h.records,
    fun key => (h'.frames key).trans (h.frames key), h'.pins.trans h.pins⟩

section

variable (h : Mirrors s map)
include h

theorem Mirrors.lookup_stays (layer block : UInt32) :
    ∃ after map', s.lookup layer block = some (map.frame? (layer, block), after) ∧
      Stays s map after map' := by
  obtain ⟨after, hlookup, ⟨cache, rfl⟩, hafter⟩ := h.lookup layer block
  exact ⟨_, _, hlookup, hafter, ⟨⟨rfl, rfl, rfl, rfl⟩, rfl, rfl, rfl⟩, rfl, rfl, fun _ => Map.frame?_lookup,
    Map.pinned_lookup⟩

theorem Mirrors.lookupStore_stays (layer block : UInt32) :
    ∃ after map',
      s.lookupStore layer block = some (map.frame? (layer, block), after) ∧ Stays s map after map' := by
  obtain ⟨after, hlookup, ⟨cache, table, lengths, rfl⟩, hafter⟩ := h.lookupStore layer block
  exact ⟨_, _, hlookup, hafter, ⟨⟨rfl, rfl, rfl, rfl⟩, rfl, rfl, rfl⟩, rfl, rfl, fun _ => Map.frame?_lookup,
    Map.pinned_lookup⟩

theorem Mirrors.touch_stays (slot : Nat) : Stays s map (s.touch slot) (map.touch slot) :=
  ⟨h.touch slot, ⟨⟨rfl, rfl, rfl, rfl⟩, rfl, rfl, rfl⟩, rfl, rfl, fun _ => Map.frame?_touch, Map.pinned_touch⟩

theorem Mirrors.lookupEach (layer : UInt32) (blocks : List UInt32) :
    ∃ missing after map',
      s.lookupEach layer blocks = some (missing, after) ∧ Stays s map after map' ∧ missing ⊆ blocks ∧
      ((∀ block ∈ blocks, (map.frame? (layer, block)).isSome) → missing = []) ∧
      ∀ block ∈ missing, map.frame? (layer, block) = none := by
  induction blocks generalizing s map with
  | nil =>
    exact ⟨[], s, map, rfl, h.stays_self, List.Subset.refl _, fun _ => rfl, fun _ hmissing => (nomatch hmissing)⟩
  | cons block rest ih =>
    obtain ⟨looked, map₁, hlookup, hlooked⟩ := h.lookup_stays layer block
    obtain ⟨missing, after, map₂, hrest, hafter, hsubset, hmissing, hnone⟩ := ih hlooked.mirrors
    refine ⟨if (map.frame? (layer, block)).isSome then missing else block :: missing, after, map₂, ?_,
      hlooked.trans hafter, ?_, fun hcached => ?_, fun other hother => ?_⟩
    · rw [Session.lookupEach, hlookup, Option.bind_eq_bind, Option.bind_some]
      dsimp only
      rw [hrest]
      rfl
    · split
      · exact fun other hother => mem_cons_of_mem _ (hsubset hother)
      · exact cons_subset_cons block hsubset
    · rw [if_pos (hcached block mem_cons_self)]
      apply hmissing
      intro other hother
      rw [hlooked.frames]
      exact hcached other (mem_cons_of_mem _ hother)
    · split at hother
      · exact (hlooked.frames _).symm.trans (hnone other hother)
      next hmiss =>
        rcases mem_cons.mp hother with rfl | hlater
        · rw [Bool.not_eq_true, Option.isSome_eq_false_iff, Option.isNone_iff_eq_none] at hmiss
          exact hmiss
        · exact (hlooked.frames _).symm.trans (hnone other hlater)

theorem Mirrors.lookupStoreEach (layer : UInt32) (blocks : List UInt32) :
    ∃ (slots : Except Error (List Nat)) (after : Session R) (map' : Map Key capacity),
      s.lookupStoreEach layer blocks = some (slots, after) ∧ Stays s map after map' ∧
      ∀ list, slots = .ok list → List.Forall₂ (fun block slot => map'.frame? (layer, block) = some slot) blocks list := by
  induction blocks generalizing s map with
  | nil =>
    refine ⟨.ok [], s, map, rfl, h.stays_self, fun list hlist => ?_⟩
    obtain rfl := Except.ok.inj hlist
    exact .nil
  | cons block rest ih =>
    obtain ⟨looked, map₁, hlookup, hlooked⟩ := h.lookupStore_stays layer block
    rw [Session.lookupStoreEach, hlookup, Option.bind_eq_bind, Option.bind_some]
    cases hframe : map.frame? (layer, block) with
    | none => exact ⟨_, looked, map₁, rfl, hlooked, fun list hlist => nomatch hlist⟩
    | some slot =>
      obtain ⟨slots, after, map₂, hrest, hafter, hslots⟩ := ih hlooked.mirrors
      refine ⟨slots.map (slot :: ·), after, map₂, ?_, hlooked.trans hafter, fun list hlist => ?_⟩
      · dsimp only
        rw [hrest]
        rfl
      · cases slots with
        | error error => cases hlist
        | ok tail =>
          obtain rfl := Except.ok.inj hlist
          exact .cons (((hlooked.trans hafter).frames _).trans hframe) (hslots tail rfl)

theorem Mirrors.touchEach (slots : List Nat) : ∃ map', Stays s map (s.touchEach slots).2 map' := by
  induction slots generalizing s map with
  | nil => exact ⟨map, h.stays_self⟩
  | cons slot rest ih =>
    rw [Session.touchEach]
    split
    · exact ⟨map, h.stays_self⟩
    · obtain ⟨map', hrest⟩ := ih (h.touch_stays slot).mirrors
      exact ⟨map', (h.touch_stays slot).trans hrest⟩

end

variable {index : Nat} {ids : List UInt32}

section

variable (h : Mirrors s map)
include h

theorem Mirrors.resolve (hindex : index < s.layerCount)
    (hids : ∀ block ∈ ids, block.toNat < s.maxBlocks)
    (hcached : ∀ block ∈ ids, (map.frame? (s.layerAt index, block)).isSome) :
    List.Forall₂ (fun block slot => map.frame? (s.layerAt index, block) = some slot) ids (s.resolve index ids) := by
  rw [Session.resolve, selectResolve, forall₂_map_right_iff, forall₂_same]
  intro block hblock
  rw [if_pos (hids block hblock)]
  apply (h.table_iff hindex (hids block hblock) _).mp
  refine ⟨?_, rfl⟩
  obtain ⟨slot, hslot⟩ := Option.isSome_iff_exists.mp (hcached block hblock)
  rw [((h.table_iff hindex (hids block hblock) slot).mpr hslot).2]
  exact (h.frame?_ne hslot).1

theorem Mirrors.cached_of_resolve (hindex : index < s.layerCount)
    {block : UInt32} (hrange : block.toNat < s.maxBlocks) (hblock : block ∈ ids)
    (hresolved : uint32Max ∉ s.resolve index ids) : (map.frame? (s.layerAt index, block)).isSome := by
  have hentry : s.slotTable (index * s.maxBlocks + block.toNat) ≠ uint32Max := by
    intro hnull
    apply hresolved
    rw [← hnull]
    apply mem_map.mpr
    exact ⟨block, hblock, if_pos hrange⟩
  rw [(h.table_iff hindex hrange _).mp ⟨hentry, rfl⟩]
  rfl

theorem Mirrors.selectBlocksResolve (hindex : index < s.layerCount) (hids : ∀ block ∈ ids, block.toNat < s.maxBlocks)
    (hcomplete : ∀ block ∈ ids, block.toNat < tokens / compressRatio) (groupActive : Bool) :
    ∃ map', Stays s map (s.selectBlocksResolve index tokens ids groupActive).2 map' ∧
      ∀ selection, (s.selectBlocksResolve index tokens ids groupActive).1 = .ok selection →
        selection ≠ .fallback → ∀ block ∈ ids, (map'.frame? (s.layerAt index, block)).isSome := by
  unfold Session.selectBlocksResolve
  split
  next hdevice =>
    refine ⟨map, h.stays_self, fun selection _ _ block hblock => ?_⟩
    apply h.reflects.cached index hindex block
    have hlt := hcomplete block hblock
    have hcached := hdevice.2.2.2
    simp only [compressRatio] at hlt hcached
    omega
  next =>
    dsimp only
    split
    next => exact ⟨map, h.stays_self, fun selection hselection hne => absurd (Except.ok.inj hselection).symm hne⟩
    next hresolved =>
      obtain ⟨map', htouched⟩ := h.touchEach (s.resolve index ids)
      have hcached : ∀ block ∈ ids, (map'.frame? (s.layerAt index, block)).isSome := by
        intro block hblock
        rw [htouched.frames]
        exact h.cached_of_resolve hindex (hids block hblock) hblock hresolved
      revert htouched
      split
      next hanswer =>
        rw [hanswer]
        exact fun htouched => ⟨map', htouched, fun _ _ _ => hcached⟩
      next hanswer =>
        rw [hanswer]
        exact fun htouched => ⟨map', htouched, fun _ hselection => by cases hselection⟩

theorem Mirrors.ensureIndexSegment {segment : Nat}
    (hensure : s.ensureIndexSegment index segment = .ok after) : Stays s map after map := by
  unfold Session.ensureIndexSegment at hensure
  split at hensure
  · cases hensure
  · obtain rfl := Except.ok.inj hensure
    exact ⟨h.congr ⟨rfl, rfl, rfl, rfl⟩ rfl rfl rfl, ⟨⟨rfl, rfl, rfl, rfl⟩, rfl, rfl, rfl⟩, rfl, rfl, fun _ => rfl, rfl⟩

theorem Mirrors.ensureIndexSegments {segments : List Nat}
    (hensure : s.ensureIndexSegments index segments = .ok after) : Stays s map after map := by
  induction segments generalizing s with
  | nil =>
    obtain rfl := Except.ok.inj hensure
    exact h.stays_self
  | cons segment rest ih =>
    rw [Session.ensureIndexSegments] at hensure
    split at hensure
    next => cases hensure
    next ensured hfirst =>
      have hensured := h.ensureIndexSegment hfirst
      exact hensured.trans (ih hensured.mirrors hensure)

theorem Mirrors.markPosition {token : Nat} {position : Position}
    (hmark : s.markPosition token position = .ok after) : Stays s map after map := by
  unfold Session.markPosition at hmark
  split at hmark
  next =>
    obtain rfl := Except.ok.inj hmark
    exact ⟨h.congr ⟨rfl, rfl, rfl, rfl⟩ rfl rfl rfl, ⟨⟨rfl, rfl, rfl, rfl⟩, rfl, rfl, rfl⟩, rfl, rfl, fun _ => rfl, rfl⟩
  next =>
    split at hmark
    · obtain rfl := Except.ok.inj hmark
      exact h.stays_self
    · cases hmark

end

/-! ## Sessions that evict nothing -/

/-- The cache has a slot for every block of every layer, and holds nothing else. -/
structure Roomy (s : Session R) (map : Map Key capacity) : Prop where
  mirrors : Mirrors s map
  among : map.Among s.allPages
  room : s.layerCount * s.maxBlocks ≤ s.cachePages
  narrow : s.maxContext ≤ indexMaxSegments * indexSegmentTokenCapacity

structure Leads (s : Session R) (map : Map Key capacity) (after : Session R) (map' : Map Key capacity) : Prop where
  roomy : Roomy after map'
  shape : SameShape s after
  keeps : ∀ key frame, map.frame? key = some frame → map'.frame? key = some frame

theorem Roomy.leads_self (h : Roomy s map) : Leads s map s map :=
  ⟨h, ⟨rfl, rfl, rfl, rfl⟩, fun _ _ hframe => hframe⟩

theorem Leads.trans {map' map'' : Map Key capacity} (h : Leads s map second map')
    (h' : Leads second map' third map'') : Leads s map third map'' :=
  ⟨h'.roomy, h.shape.trans h'.shape, fun key frame hframe => h'.keeps key frame (h.keeps key frame hframe)⟩

section

variable (h : Roomy s map)
include h

theorem Roomy.still (hmirrors : Mirrors after map')
    (hshape : SameShape s after) (hframes : ∀ key, map'.frame? key = map.frame? key) : Leads s map after map' := by
  refine ⟨⟨hmirrors, ?_, ?_, hshape.maxContext ▸ h.narrow⟩, hshape, fun key frame hframe => ?_⟩
  · rw [hshape.allPages]
    exact h.among.of_frame? fun page _ hnone => (hframes page).trans hnone
  · rw [hshape.layerCount, hshape.maxBlocks, hshape.cachePages]
    exact h.room
  · rw [hframes]
    exact hframe

theorem Roomy.leads (hstays : Stays s map after map') : Leads s map after map' :=
  h.still hstays.mirrors hstays.same.shape hstays.frames

theorem Roomy.congr (hshape : SameShape s after)
    (hcache : after.cache = s.cache) (htable : after.slotTable = s.slotTable)
    (hcached : after.cachedPrefix = s.cachedPrefix) : Leads s map after map :=
  h.still (h.mirrors.congr hshape hcache htable hcached) hshape fun _ => rfl

theorem Roomy.capacity_le : s.allPages.length ≤ capacity := by
  rw [length_allPages, ← h.mirrors.pages]
  exact h.room

theorem Roomy.acquire (soft : Bool) {layer block : UInt32}
    (hlayer : s.layerSlot layer = some index) (hblock : block.toNat < s.maxBlocks) :
    ∃ slot hit after map',
      s.qsaCacheAcquire soft layer block = some (slot, hit, after) ∧ Leads s map after map' ∧
      map'.frame? (layer, block) = some slot ∧ slot ≠ uint32Max ∧ after.committed = s.committed ∧
      after.state = s.state := by
  have hpage : (layer, block) ∈ s.allPages := mem_allPages hlayer hblock
  obtain ⟨slot, after, hacquire, hslot, hafter⟩ := h.mirrors.acquire soft hlayer block
  obtain ⟨cache, table, lengths, rfl⟩ := qsaCacheAcquire_eq hacquire
  have hevicted : (map.acquire soft (layer, block)).1.evicted = none := h.among.acquire_evicted hpage h.capacity_le
  have hserved : (map.acquire soft (layer, block)).1.frame.isSome := h.among.acquire_isSome hpage h.capacity_le
  have hframes : ∀ key, (map.acquire soft (layer, block)).2.frame? key =
      if key = (layer, block) then (map.acquire soft (layer, block)).1.frame else map.frame? key := by
    intro key
    rw [Map.frame?_acquire, hevicted, if_neg (Option.some_ne_none key).symm]
  have hnonnull : slot ≠ uint32Max := by
    rintro rfl
    rw [← hslot, QsaCache.slotReply, if_pos rfl] at hserved
    cases hserved
  have hframe : (map.acquire soft (layer, block)).1.frame = some slot := by
    rw [← hslot, QsaCache.slotReply, if_neg hnonnull]
  refine ⟨slot, _, _, _, hacquire, ⟨⟨hafter, ?_, h.room, h.narrow⟩, ⟨rfl, rfl, rfl, rfl⟩, ?_⟩, ?_, hnonnull, rfl, rfl⟩
  · refine h.among.of_frame? fun page hout hnone => ?_
    rw [hframes, if_neg fun heq : page = _ => hout (heq ▸ hpage), hnone]
  · intro key frame hkey
    rw [hframes]
    split
    next heq =>
      obtain ⟨entry, hentry⟩ : ∃ entry, map.find? (layer, block) = some entry := by
        rw [heq, Map.frame?, Option.map_eq_some_iff] at hkey
        exact ⟨hkey.choose, hkey.choose_spec.1⟩
      rw [Map.acquire_of_find hentry, ← hkey, heq, Map.frame?, hentry]
      rfl
    next => exact hkey
  · rw [hframes, if_pos rfl, hframe]

theorem Roomy.writePage (slot : Nat) (page : Page R) : Leads s map (s.writePage slot page) map :=
  h.congr ⟨rfl, rfl, rfl, rfl⟩ rfl rfl rfl

end

/-! ## The loops of a decode step -/

variable {layer : UInt32}

/-- The blocks a fetch takes along with those it has: complete ones behind a missing one, and not cached. -/
structure Along (map : Map Key capacity) (layer : UInt32) (completeBlocks limit : Nat)
    (missing fetch extra : List UInt32) : Prop where
  nodup : extra.Nodup
  fresh : ∀ block ∈ extra, block ∉ fetch
  follows : ∀ block ∈ extra, ∃ before ∈ missing, block = before + 1
  complete : ∀ block ∈ extra, block.toNat < completeBlocks
  uncached : ∀ block ∈ extra, map.frame? (layer, block) = none
  room : fetch.length ≤ limit → fetch.length + extra.length ≤ limit

theorem Along.nil {completeBlocks limit : Nat} {missing fetch : List UInt32} :
    Along map layer completeBlocks limit missing fetch [] := by
  constructor <;> simp

theorem Along.later {completeBlocks limit : Nat} {missing fetch extra : List UInt32} {layer block : UInt32}
    (h : Along map layer completeBlocks limit missing fetch extra) :
    Along map layer completeBlocks limit (block :: missing) fetch extra :=
  { h with
    follows := fun other hother =>
      let ⟨before, hbefore, heq⟩ := h.follows other hother
      ⟨before, mem_cons_of_mem _ hbefore, heq⟩ }

theorem planFetch_spec {cache : QsaCache.Cache} (h : Represents cache map) (layer : UInt32)
    (completeBlocks retainedFirst limit : Nat) (missing fetch : List UInt32) :
    ∃ extra, Session.planFetch cache layer completeBlocks retainedFirst limit missing fetch = some (fetch ++ extra) ∧
      Along map layer completeBlocks limit missing fetch extra := by
  induction missing generalizing fetch with
  | nil => exact ⟨[], by rw [Session.planFetch, append_nil], .nil⟩
  | cons block rest ih =>
    rw [Session.planFetch]
    split
    · exact ⟨[], by rw [append_nil], .nil⟩
    next hroom =>
    dsimp only
    split
    · obtain ⟨extra, hplan, halong⟩ := ih fetch
      exact ⟨extra, hplan, halong.later⟩
    next hcandidate =>
      rw [h.cacheFind]
      dsimp only
      split
      · obtain ⟨extra, hplan, halong⟩ := ih fetch
        exact ⟨extra, hplan, halong.later⟩
      next hfound =>
        rw [not_or, not_not] at hfound
        have hnone : map.frame? (layer, block + 1) = none := by
          rw [Map.frame?, Option.map_eq_none_iff]
          cases hentry : map.find? (layer, block + 1) with
          | none => rfl
          | some entry =>
            rw [hentry] at hfound
            exact absurd hfound.1 (h.frame_ne (Map.find?_mem hentry).1)
        rw [not_or, Nat.not_le] at hcandidate
        obtain ⟨extra, hplan, halong⟩ := ih (fetch ++ [block + 1])
        have hfresh : ∀ other ∈ extra, other ∉ fetch ∧ other ≠ block + 1 := by
          intro other hother
          have hnew := halong.fresh other hother
          rw [mem_append, mem_singleton, not_or] at hnew
          exact hnew
        refine ⟨(block + 1) :: extra, ?_, nodup_cons.mpr ⟨fun hmem => (hfresh _ hmem).2 rfl, halong.nodup⟩,
          forall_mem_cons.mpr ⟨hfound.2, fun other hother => (hfresh other hother).1⟩,
          forall_mem_cons.mpr ⟨⟨block, mem_cons_self, rfl⟩, halong.later.follows⟩,
          forall_mem_cons.mpr ⟨hcandidate.1, halong.complete⟩,
          forall_mem_cons.mpr ⟨hnone, halong.uncached⟩, fun _ => ?_⟩
        · rw [hplan, append_assoc]
          rfl
        · have hmore := halong.room
          rw [length_append, length_singleton] at hmore
          rw [length_cons]
          omega

/-! ## Gathers that read the right slots -/

structure Reads (s : Session R) (gather : Gather) : Prop where
  selected : List.Forall₂ (fun block slot =>
    slot < s.cachePages ∧ s.cache.holds (s.layerAt gather.index) block slot = true)
    gather.selected (s.gatherSlots gather)
  tail : gather.tail ≠ 0 → s.cache.holds (s.layerAt gather.index) gather.tailBlock gather.tailSlot = true

/-- Every block of the gather has its frame, and slots that the host wrote are these frames. -/
structure Aimed (s : Session R) (map : Map Key capacity) (gather : Gather) : Prop where
  index : gather.index < s.layerCount
  inRange : ∀ block ∈ gather.selected, block.toNat < s.maxBlocks
  cached : ∀ block ∈ gather.selected, (map.frame? (s.layerAt gather.index, block)).isSome
  written : ∀ slots, gather.source = .written slots →
    List.Forall₂ (fun block slot => map.frame? (s.layerAt gather.index, block) = some slot) gather.selected slots
  tail : gather.tail ≠ 0 → map.frame? (s.layerAt gather.index, gather.tailBlock) = some gather.tailSlot

variable {gather : Gather}

section

variable (h : Aimed s map gather)
include h

theorem Aimed.moved (hshape : SameShape s after)
    (hkeeps : ∀ key frame, map.frame? key = some frame → map'.frame? key = some frame) : Aimed after map' gather := by
  have hlayer := hshape.layerAt gather.index
  refine ⟨hshape.layerCount ▸ h.index, fun block hblock => ?_, fun block hblock => ?_, fun slots hslots => ?_,
    fun htail => ?_⟩
  · rw [hshape.maxBlocks]
    exact h.inRange block hblock
  · obtain ⟨slot, hslot⟩ := Option.isSome_iff_exists.mp (h.cached block hblock)
    rw [hlayer, hkeeps _ _ hslot]
    rfl
  · rw [hlayer]
    exact (h.written slots hslots).imp fun _ _ => hkeeps _ _
  · rw [hlayer]
    exact hkeeps _ _ (h.tail htail)

theorem Aimed.leads (hleads : Leads s map after map') : Aimed after map' gather := h.moved hleads.shape hleads.keeps

theorem Aimed.slots (hmirrors : Mirrors s map) :
    List.Forall₂ (fun block slot => map.frame? (s.layerAt gather.index, block) = some slot)
      gather.selected (s.gatherSlots gather) := by
  unfold Session.gatherSlots
  split
  next => exact hmirrors.resolve h.index h.inRange h.cached
  next slots hsource => exact h.written slots hsource

theorem Aimed.reads (hmirrors : Mirrors s map) : Reads s gather := by
  constructor
  · refine (h.slots hmirrors).imp ?_
    intro block slot hslot
    exact ⟨(hmirrors.frame?_ne hslot).2, (holds_iff_frame? hmirrors.represents).mpr hslot⟩
  · intro htail
    exact (holds_iff_frame? hmirrors.represents).mpr (h.tail htail)

end

variable {Path : Session R → Map Key capacity → Session R → Map Key capacity → Prop}

/-- What a recording step leaves: the session has gone along a path, and a gather it recorded is aimed. -/
def Answers (Path : Session R → Map Key capacity → Session R → Map Key capacity → Prop) (s : Session R)
    (map : Map Key capacity) (result : Option (Except Error Gather × Session R)) : Prop :=
  ∃ (answer : Except Error Gather) (after : Session R) (map' : Map Key capacity), result = some (answer, after) ∧
    Path s map after map' ∧ ∀ gather, answer = .ok gather → Aimed after map' gather

theorem Answers.refuse (h : Path s map after map') (error : Error) : Answers Path s map (some (.error error, after)) :=
  ⟨_, after, map', rfl, h, fun _ hgather => nomatch hgather⟩

variable {selected : List UInt32}

theorem Mirrors.attendTail (h : Mirrors s map) {source : Source}
    (hindex : index < s.layerCount) (hids : ∀ block ∈ selected, block.toNat < s.maxBlocks)
    (hcached : ∀ block ∈ selected, (map.frame? (s.layerAt index, block)).isSome)
    (hwritten : ∀ slots, source = .written slots →
      List.Forall₂ (fun block slot => map.frame? (s.layerAt index, block) = some slot) selected slots) :
    Answers Stays s map (s.attendTail index tokens selected source) := by
  unfold Session.attendTail
  dsimp only
  split
  next =>
    refine ⟨_, s, map, rfl, h.stays_self, fun gather hgather => ?_⟩
    obtain rfl := Except.ok.inj hgather
    exact ⟨hindex, hids, hcached, hwritten, fun htail => absurd rfl htail⟩
  next =>
    obtain ⟨after, map', hlookup, hafter⟩ := h.lookup_stays (s.layerAt index) (UInt32.ofNat (tokens / compressRatio))
    rw [hlookup, Option.bind_eq_bind, Option.bind_some]
    cases hframe : map.frame? (s.layerAt index, UInt32.ofNat (tokens / compressRatio)) with
    | none => exact ⟨_, after, map', rfl, hafter, fun gather hgather => nomatch hgather⟩
    | some slot =>
      refine ⟨_, after, map', rfl, hafter, fun gather hgather => ?_⟩
      obtain rfl := Except.ok.inj hgather
      have haimed : Aimed s map ⟨index, selected, source, tokens % compressRatio,
          UInt32.ofNat (tokens / compressRatio), slot⟩ :=
        ⟨hindex, hids, hcached, hwritten, fun _ => hframe⟩
      exact haimed.moved hafter.same.shape fun key frame hkey => (hafter.frames key).trans hkey

theorem Mirrors.attendSlots (h : Mirrors s map)
    (hindex : index < s.layerCount) (hids : ∀ block ∈ selected, block.toNat < s.maxBlocks) :
    Answers Stays s map (s.attendSlots index tokens selected) := by
  obtain ⟨slots, stored, map₁, hstore, hstored, hslots⟩ := h.lookupStoreEach (s.layerAt index) selected
  rw [Session.attendSlots, hstore, Option.bind_eq_bind, Option.bind_some]
  cases slots with
  | error error => exact ⟨_, stored, map₁, rfl, hstored, fun gather hgather => nomatch hgather⟩
  | ok list =>
    have hlist := hslots list rfl
    rw [← hstored.same.shape.layerAt index] at hlist
    have htail : Answers Stays stored map₁ (stored.attendTail index tokens selected (.written list)) := by
      apply hstored.mirrors.attendTail (hstored.same.shape.layerCount ▸ hindex) (hstored.same.shape.maxBlocks ▸ hids)
      · intro block hblock
        obtain ⟨n, hn, rfl⟩ := getElem_of_mem hblock
        obtain ⟨hlength, hget⟩ := forall₂_iff_get.mp hlist
        have hframe := hget n hn (hlength ▸ hn)
        rw [get_eq_getElem] at hframe
        rw [hframe]
        rfl
      · intro slots hsource
        obtain rfl := Source.written.inj hsource
        exact hlist
    obtain ⟨answer, after, map₂, hattend, hafter, haimed⟩ := htail
    exact ⟨answer, after, map₂, hattend, hstored.trans hafter, haimed⟩

/-! ## Decode steps along a course -/

/-- The blocks a token attends to: every complete one while they fit, and what the scan selects after. -/
def attended (tokens : Nat) (ids : List UInt32) : List UInt32 :=
  if tokens / compressRatio ≤ maxSelectedBlocks then (List.range (tokens / compressRatio)).map UInt32.ofNat else ids

theorem attended_lt {ids : List UInt32} (hids : ∀ block ∈ ids, block.toNat < tokens / compressRatio) :
    ∀ block ∈ attended tokens ids, block.toNat < tokens / compressRatio := by
  unfold attended
  split
  · intro block hblock
    obtain ⟨n, hn, rfl⟩ := mem_map.mp hblock
    rw [UInt32.toNat_ofNat']
    exact Nat.lt_of_le_of_lt (Nat.mod_le _ _) (mem_range.mp hn)
  · exact hids

/-- Paths of a session: lookups keep to them, and so does a page that fits once it is inserted. The cache must give
a slot while there is room. -/
structure Course (Path : Session R → Map Key capacity → Session R → Map Key capacity → Prop)
    (Fit : Session R → UInt32 → UInt32 × Page R → Prop) (Room : Map Key capacity → Prop) : Prop where
  trans : ∀ {s map second map' third map''}, Path s map second map' → Path second map' third map'' →
    Path s map third map''
  mirrors : ∀ {s map after map'}, Path s map after map' → Mirrors after map'
  shape : ∀ {s map after map'}, Path s map after map' → SameShape s after
  fit : ∀ {s map after map' layer page}, Path s map after map' → Fit s layer page → Fit after layer page
  room : ∀ {s map after map'}, Path s map after map' → Room map → Room map'
  stays : ∀ {s map after map'}, Path s map s map → Stays s map after map' → Path s map after map'
  last : ∀ {s map after map'}, Path s map after map' → Path after map' after map'
  insert : ∀ {s map}, Path s map s map → ∀ {soft layer block page index}, s.layerSlot layer = some index →
    Fit s layer (block, page) → (soft = false → Room map) → ∃ slot hit acquired map',
      s.qsaCacheAcquire soft layer block = some (slot, hit, acquired) ∧
      (slot = uint32Max → soft = true ∧ Path s map acquired map') ∧
      (slot ≠ uint32Max → Path s map (acquired.writePage slot page) map')

structure Cold (map : Map Key capacity) (layer : UInt32) (completeBlocks : Nat) (selected fetch : List UInt32) :
    Prop where
  missing : ∃ block ∈ selected, map.frame? (layer, block) = none
  complete : ∀ block ∈ fetch, block.toNat < completeBlocks
  uncached : ∀ block ∈ fetch, map.frame? (layer, block) = none

section

variable {Fit : Session R → UInt32 → UInt32 × Page R → Prop} {Room : Map Key capacity → Prop}
  {result : Option (Except Error Gather × Session R)} {input : Attention R} (course : Course Path Fit Room)
include course

theorem Course.before (h : Answers Path second map' result) (hpath : Path s map second map') :
    Answers Path s map result := by
  obtain ⟨answer, after, map'', hresult, hafter, haimed⟩ := h
  exact ⟨answer, after, map'', hresult, course.trans hpath hafter, haimed⟩

theorem Course.answers (h : Answers Stays s map result) (hpath : Path s map s map) : Answers Path s map result := by
  obtain ⟨answer, after, map', hresult, hafter, haimed⟩ := h
  exact ⟨answer, after, map', hresult, course.stays hpath hafter, haimed⟩

theorem Course.prefetchReap (h : Path s map s map) (hlayer : s.layerSlot layer = some index)
    {pages : List (UInt32 × Page R)} (hpages : ∀ page ∈ pages, Fit s layer page) :
    ∃ after map', s.prefetchReap layer pages = some after ∧ Path s map after map' := by
  induction pages generalizing s map with
  | nil => exact ⟨s, map, rfl, h⟩
  | cons page rest ih =>
    obtain ⟨block, page⟩ := page
    obtain ⟨hpage, hrest⟩ := forall_mem_cons.mp hpages
    obtain ⟨looked, map₁, hlookup, hstays⟩ := (course.mirrors h).lookup_stays layer block
    have hlooked := course.stays h hstays
    have hlayer₁ : looked.layerSlot layer = some index := (course.shape hlooked).layerSlot layer ▸ hlayer
    simp only [Session.prefetchReap, hlookup, Option.bind_eq_bind, Option.bind_some]
    split
    · obtain ⟨after, map₂, hreap, hafter⟩ := ih (course.last hlooked) hlayer₁ fun page hmem =>
        course.fit hlooked (hrest page hmem)
      exact ⟨after, map₂, hreap, course.trans hlooked hafter⟩
    · obtain ⟨slot, hit, acquired, map₂, hacquire, hrefused, hwritten⟩ :=
        course.insert (course.last hlooked) hlayer₁ (course.fit hlooked hpage) fun hsoft : true = false => Bool.noConfusion hsoft
      rw [hacquire, Option.bind_some]
      split
      next hnull => exact ⟨acquired, map₂, rfl, course.trans hlooked (hrefused hnull).2⟩
      next hnonnull =>
        have hpath := course.trans hlooked (hwritten hnonnull)
        obtain ⟨after, map₃, hreap, hafter⟩ := ih (course.last hpath)
          ((course.shape hpath).layerSlot layer ▸ hlayer) fun page hmem => course.fit hpath (hrest page hmem)
        exact ⟨after, map₃, hreap, course.trans hpath hafter⟩

theorem Course.insertEach (h : Path s map s map) (hlayer : s.layerSlot layer = some index) (hroom : Room map)
    {pages : List (UInt32 × Page R)} (hpages : ∀ page ∈ pages, Fit s layer page) :
    ∃ after map', s.insertEach layer pages = some after ∧ Path s map after map' := by
  induction pages generalizing s map with
  | nil => exact ⟨s, map, rfl, h⟩
  | cons page rest ih =>
    obtain ⟨block, page⟩ := page
    obtain ⟨hpage, hrest⟩ := forall_mem_cons.mp hpages
    obtain ⟨slot, hit, acquired, map₁, hacquire, hrefused, hwritten⟩ := course.insert h hlayer hpage fun _ => hroom
    have hpath := hwritten fun hnull => absurd (hrefused hnull).1 Bool.false_ne_true
    obtain ⟨after, map₂, hinsert, hafter⟩ := ih (course.last hpath) ((course.shape hpath).layerSlot layer ▸ hlayer)
      (course.room hpath hroom) fun page hmem => course.fit hpath (hrest page hmem)
    refine ⟨after, map₂, ?_, course.trans hpath hafter⟩
    rw [Session.insertEach, Option.bind_eq_bind, hacquire, Option.bind_some]
    exact hinsert

theorem Course.attendHost (h : Path s map s map) (hindex : index < s.layerCount) (htokens : tokens ≤ s.maxContext)
    (hids : ∀ block ∈ selected, block.toNat < tokens / compressRatio)
    (hfetch : ∀ {looked map' fetch pages}, Stays s map looked map' →
      Cold map (s.layerAt index) (tokens / compressRatio) selected fetch →
      looked.fetch input (s.layerAt index) fetch = .ok pages →
      Room map ∧ ∀ page ∈ fetch.zip pages, Fit looked (s.layerAt index) page) :
    Answers Path s map (s.attendHost index tokens selected input) := by
  obtain ⟨missing, looked, map₁, hlookup, hstays, hsubset, hmissing, hnone⟩ :=
    (course.mirrors h).lookupEach (s.layerAt index) selected
  have hlooked := course.stays h hstays
  have hslots {after : Session R} {map' : Map Key capacity} (hafter : Path s map after map') :
      Answers Path s map (after.attendSlots index tokens selected) := by
    have hshape := course.shape hafter
    refine course.before (course.answers ((course.mirrors hafter).attendSlots (hshape.layerCount ▸ hindex)
      fun block hblock => ?_) (course.last hafter)) hafter
    have hlt := hids block hblock
    rw [hshape.maxBlocks, Session.maxBlocks]
    simp only [compressRatio] at hlt
    omega
  rw [Session.attendHost, Option.bind_eq_bind]
  rw [hlookup, Option.bind_some]
  dsimp only
  split
  next => exact hslots hlooked
  next hsome =>
    obtain ⟨extra, hplan, halong⟩ := planFetch_spec hstays.mirrors.represents (s.layerAt index)
      (tokens / compressRatio) (2 ^ 32 - 1) maxSelectedBlocks missing missing
    have hcold : Cold map (s.layerAt index) (tokens / compressRatio) selected (missing ++ extra) := by
      refine ⟨?_, fun block hblock => ?_, fun block hblock => ?_⟩
      · by_contra hall
        refine hsome (hmissing fun block hblock => Option.isSome_iff_ne_none.mpr fun hblockNone => ?_)
        exact hall ⟨block, hblock, hblockNone⟩
      · rcases mem_append.mp hblock with hmiss | hmore
        · exact hids block (hsubset hmiss)
        · exact halong.complete block hmore
      · rcases mem_append.mp hblock with hmiss | hmore
        · exact hnone block hmiss
        · exact (hstays.frames _).symm.trans (halong.uncached block hmore)
    rw [hplan, Option.bind_eq_bind, Option.bind_some]
    split
    next => exact .refuse hlooked _
    next pages hfetched =>
      obtain ⟨hroom, hpages⟩ := hfetch hstays hcold hfetched
      have hlayer : looked.layerSlot (s.layerAt index) = some index := by
        rw [hstays.same.shape.layerSlot]
        exact layerSlot_layerAt (course.mirrors h).layers hindex
      obtain ⟨inserted, map₂, hinsert, hinserted⟩ :=
        course.insertEach (course.last hlooked) hlayer (course.room hlooked hroom) hpages
      rw [hinsert, Option.bind_eq_bind, Option.bind_some]
      exact hslots (course.trans hlooked hinserted)

theorem Course.attendCache (h : Path s map s map) (hindex : index < s.layerCount) (htokens : tokens ≤ s.maxContext)
    (hids : ∀ block ∈ input.ids, block.toNat < tokens / compressRatio)
    (hreaped : ∀ page ∈ if s.state.isSome then input.reaped else [], Fit s (s.layerAt index) page)
    (hfetch : ∀ {before map₁ looked map₂ fetch pages}, Path s map before map₁ → Stays before map₁ looked map₂ →
      Cold map₁ (s.layerAt index) (tokens / compressRatio) (attended tokens input.ids) fetch →
      looked.fetch input (s.layerAt index) fetch = .ok pages →
      Room map₁ ∧ ∀ page ∈ fetch.zip pages, Fit looked (s.layerAt index) page) (groupActive : Bool) :
    Answers Path s map (s.attendCache index tokens input groupActive) := by
  obtain ⟨reaped, map₁, hreap, hpath⟩ :=
    course.prefetchReap h (layerSlot_layerAt (course.mirrors h).layers hindex) hreaped
  have hhost {before : Session R} {map₂ : Map Key capacity} (hbefore : Path s map before map₂) :
      Answers Path s map (before.attendHost index tokens (attended tokens input.ids) input) := by
    have hshape := course.shape hbefore
    refine course.before (course.attendHost (course.last hbefore) (hshape.layerCount ▸ hindex)
      (hshape.maxContext ▸ htokens) (attended_lt hids) ?_) hbefore
    rw [hshape.layerAt]
    exact hfetch hbefore
  rw [Session.attendCache, Option.bind_eq_bind]
  rw [hreap, Option.bind_some]
  have hselected := @hhost
  unfold attended at hselected
  split
  next hfew =>
    rw [if_pos hfew] at hselected
    exact hselected hpath
  next hmany =>
    rw [if_neg hmany] at hselected
    split
    next => exact hselected hpath
    next =>
      have hshape := course.shape hpath
      have hrange : ∀ block ∈ input.ids, block.toNat < reaped.maxBlocks := by
        intro block hblock
        have hlt := hids block hblock
        rw [hshape.maxBlocks, Session.maxBlocks]
        simp only [compressRatio] at hlt
        omega
      obtain ⟨map₂, htouched, hcached⟩ :=
        (course.mirrors hpath).selectBlocksResolve (hshape.layerCount ▸ hindex) hrange hids groupActive
      replace htouched := course.trans hpath (course.stays (course.last hpath) htouched)
      revert hcached
      revert htouched
      split
      next error touched hselect =>
        rw [hselect]
        exact fun htouched _ => .refuse htouched _
      next touched hselect =>
        rw [hselect]
        exact fun htouched _ => hselected htouched
      next selection touched hne hselect =>
        rw [hselect]
        intro htouched hcached
        have hshape' := course.shape htouched
        refine course.before (course.answers ((course.mirrors htouched).attendTail (hshape'.layerCount ▸ hindex)
          (fun block hblock => ?_) (fun block hblock => ?_) fun slots hsource => by cases hsource)
          (course.last htouched)) htouched
        · rw [hshape'.maxBlocks, ← hshape.maxBlocks]
          exact hrange block hblock
        · rw [hshape'.layerAt, ← hshape.layerAt]
          exact hcached selection rfl (fun heq => hne (heq ▸ rfl)) block hblock

end

/-- What a decode step is handed names blocks of the session only: the scan selects complete blocks, and no
read-ahead goes past the last block of a layer. -/
structure Attention.InRange (input : Attention R) (maxBlocks tokens : Nat) : Prop where
  ids : ∀ block ∈ input.ids, block.toNat < tokens / compressRatio
  reaped : ∀ page ∈ input.reaped, page.1.toNat < maxBlocks

variable {input : Attention R}

theorem Leads.course : Course (@Leads R capacity) (fun s _ page => page.1.toNat < s.maxBlocks)
    fun _ => True where
  trans := Leads.trans
  mirrors h := h.roomy.mirrors
  shape h := h.shape
  fit h hpage := h.shape.maxBlocks ▸ hpage
  room _ _ := trivial
  stays h := h.roomy.leads
  last h := h.roomy.leads_self
  insert := by
    intro s map h soft layer block page index hlayer hblock _
    obtain ⟨slot, hit, acquired, map', hacquire, hacquired, -, hslot, -⟩ := h.roomy.acquire soft hlayer hblock
    exact ⟨slot, hit, acquired, map', hacquire, fun hnull => absurd hnull hslot,
      fun _ => hacquired.trans (hacquired.roomy.writePage slot page)⟩

theorem Roomy.attendCache (h : Roomy s map)
    (hindex : index < s.layerCount) (htokens : tokens ≤ s.maxContext) (hinput : input.InRange s.maxBlocks tokens)
    (groupActive : Bool) : Answers Leads s map (s.attendCache index tokens input groupActive) := by
  apply Leads.course.attendCache h.leads_self hindex htokens hinput.ids
  · intro page hpage
    split at hpage
    · exact hinput.reaped page hpage
    · cases hpage
  · intro before map₁ looked map₂ fetch pages hbefore hstays hcold _
    refine ⟨trivial, fun page hpage => ?_⟩
    have hlt := hcold.complete _ (of_mem_zip hpage).1
    rw [hstays.same.shape.maxBlocks, hbefore.shape.maxBlocks, Session.maxBlocks]
    simp only [compressRatio] at hlt
    omega

theorem Roomy.commitAndAttendCache (h : Roomy s map) {index token : Nat}
    (hindex : index < s.layerCount) (hinput : input.InRange s.maxBlocks (token + 1)) (record : R)
    (groupActive : Bool) : Answers Leads s map (s.commitAndAttendCache index token record input groupActive) := by
  unfold Session.commitAndAttendCache
  split
  next => exact .refuse h.leads_self _
  next hstart =>
    rw [not_or, Nat.not_le] at hstart
    split
    next => exact .refuse h.leads_self _
    next =>
      split
      next => exact .refuse h.leads_self _
      next ensured hensure =>
        have hensured := h.leads (h.mirrors.ensureIndexSegment hensure)
        have hlayer : ensured.layerSlot (s.layerAt index) = some index := by
          rw [hensured.shape.layerSlot]
          exact layerSlot_layerAt h.mirrors.layers hindex
        have hblock : (UInt32.ofNat (token / compressRatio)).toNat < ensured.maxBlocks := by
          rw [hensured.shape.maxBlocks, Session.maxBlocks, UInt32.toNat_ofNat']
          have hmod := Nat.mod_le (token / compressRatio) (2 ^ 32)
          simp only [compressRatio] at hmod ⊢
          omega
        obtain ⟨slot, hit, acquired, map₁, hacquire, hacquired, -⟩ := hensured.roomy.acquire false hlayer hblock
        obtain ⟨result, held, hpin, -, ⟨cache, rfl⟩, hheld⟩ :=
          hacquired.roomy.mirrors.pin (s.layerAt index) (UInt32.ofNat (token / compressRatio))
        have hpinned := (hensured.trans hacquired).trans
          (hacquired.roomy.still hheld ⟨rfl, rfl, rfl, rfl⟩ fun _ => Map.frame?_setPin)
        rw [Option.bind_eq_bind]
        dsimp only
        rw [hacquire, Option.bind_some]
        rw [hpin, Option.bind_eq_bind, Option.bind_some]
        cases result with
        | error error => exact .refuse hpinned _
        | ok =>
          have hcommitted : Leads s map
              { ({ acquired with cache := cache } : Session R).commitRecord slot token record with
                committed := Function.update acquired.committed index (token + 1) }
              (map₁.setPin (s.layerAt index, UInt32.ofNat (token / compressRatio)) true) :=
            hpinned.trans (hpinned.roomy.congr ⟨rfl, rfl, rfl, rfl⟩ rfl rfl rfl)
          refine Leads.course.before (hcommitted.roomy.attendCache (hcommitted.shape.layerCount ▸ hindex) ?_
            (hcommitted.shape.maxBlocks ▸ hinput) groupActive) hcommitted
          rw [hcommitted.shape.maxContext]
          exact hstart.2

theorem Roomy.decode (h : Roomy s map) (layer : UInt32) {token : Nat}
    (hinput : input.InRange s.maxBlocks (token + 1)) (position : Position) (record : R) (groupActive : Bool) :
    Answers Leads s map (s.decode layer token position record input groupActive) := by
  unfold Session.decode
  split
  next => exact .refuse h.leads_self _
  next index hlayer =>
    split
    next => exact .refuse h.leads_self _
    next =>
      split
      next => exact .refuse h.leads_self _
      next ensured hensure =>
        have hensured := h.leads (h.mirrors.ensureIndexSegments hensure)
        split
        next => exact .refuse hensured _
        next marked hmark =>
          have hmarked := hensured.trans (hensured.roomy.leads (hensured.roomy.mirrors.markPosition hmark))
          exact Leads.course.before (hmarked.roomy.commitAndAttendCache
            (hmarked.shape.layerCount ▸ (layerAt_of_layerSlot hlayer).1) (hmarked.shape.maxBlocks ▸ hinput)
            record groupActive) hmarked

/-- The host records a decode step, or the device runs the oldest gather it has been given. -/
inductive GroupEvent (R : Type) where
  | decode (layer : UInt32) (token : Nat) (position : Position) (record : R) (input : Attention R)
  | run

def GroupEvent.InRange (maxBlocks : Nat) : GroupEvent R → Prop
  | .decode _ token _ _ input => input.InRange maxBlocks (token + 1)
  | .run => True

/-- A group: the gathers still to run, and those that ran with the session as it was then. -/
structure Group (R : Type) where
  session : Session R
  pending : List Gather
  ran : List (Gather × Session R)

/-- A step that fails aborts the group, and what was not submitted never runs. -/
def Group.step (group : Group R) : GroupEvent R → Option (Group R)
  | .decode layer token position record input =>
    (group.session.decode layer token position record input true).map fun answer =>
      match answer.1 with
      | .ok gather => { group with session := answer.2, pending := group.pending ++ [gather] }
      | .error _ => { group with session := answer.2, pending := [] }
  | .run =>
    match group.pending with
    | [] => some group
    | gather :: rest => some { group with pending := rest, ran := group.ran ++ [(gather, group.session)] }

def Group.exec (group : Group R) : List (GroupEvent R) → Option (Group R)
  | [] => some group
  | event :: rest => (group.step event).bind fun after => after.exec rest

/-- No page has moved since the group began, its pending gathers are aimed, and those that ran read right. -/
structure Group.Sound (group : Group R) (s : Session R) (map map' : Map Key capacity) : Prop where
  leads : Leads s map group.session map'
  pending : ∀ gather ∈ group.pending, Aimed group.session map' gather
  ran : ∀ run ∈ group.ran, Reads run.2 run.1

theorem Group.Sound.step {group : Group R} (h : group.Sound s map map')
    {event : GroupEvent R} (hevent : event.InRange s.maxBlocks) :
    ∃ after map'', group.step event = some after ∧ after.Sound s map map'' := by
  cases event with
  | decode layer token position record input =>
    obtain ⟨answer, session, map'', hdecode, hleads, haimed⟩ :=
      h.leads.roomy.decode layer (h.leads.shape.maxBlocks ▸ hevent) position record true
    have hpath := h.leads.trans hleads
    cases answer with
    | ok gather =>
      refine ⟨{ group with session := session, pending := group.pending ++ [gather] }, map'', ?_, hpath, ?_, h.ran⟩
      · rw [Group.step, hdecode]
        rfl
      · intro other hother
        rcases mem_append.mp hother with hold | hnew
        · exact (h.pending other hold).leads hleads
        · rw [mem_singleton.mp hnew]
          exact haimed gather rfl
    | error error =>
      refine ⟨{ group with session := session, pending := [] }, map'', ?_, hpath, ?_, h.ran⟩
      · rw [Group.step, hdecode]
        rfl
      · exact fun gather hgather => absurd hgather not_mem_nil
  | run =>
    cases hpending : group.pending with
    | nil => exact ⟨group, map', by rw [Group.step, hpending], h⟩
    | cons gather rest =>
      have haimed := h.pending gather (hpending ▸ mem_cons_self)
      refine ⟨{ group with pending := rest, ran := group.ran ++ [(gather, group.session)] }, map',
        by rw [Group.step, hpending], h.leads, fun other hother => ?_, fun run hrun => ?_⟩
      · exact h.pending other (hpending ▸ mem_cons_of_mem _ hother)
      · rcases mem_append.mp hrun with hold | hnew
        · exact h.ran run hold
        · rw [mem_singleton.mp hnew]
          exact haimed.reads h.leads.roomy.mirrors

theorem Group.Sound.exec {group : Group R} (h : group.Sound s map map')
    {events : List (GroupEvent R)} (hevents : ∀ event ∈ events, event.InRange s.maxBlocks) :
    ∃ after map'', group.exec events = some after ∧ after.Sound s map map'' := by
  induction events generalizing group map' with
  | nil => exact ⟨group, map', rfl, h⟩
  | cons event rest ih =>
    obtain ⟨next, map₁, hstep, hnext⟩ := h.step (hevents event mem_cons_self)
    obtain ⟨after, map₂, hexec, hafter⟩ := ih hnext (forall_mem_cons.mp hevents).2
    exact ⟨after, map₂, by rw [Group.exec, hstep, Option.bind_some, hexec], hafter⟩

theorem room_of_ready {firstLayer lastLayer token : Nat}
    (h : s.submitGroupReady firstLayer lastLayer token = true) : s.layerCount * s.maxBlocks ≤ s.cachePages := by
  unfold Session.submitGroupReady at h
  split at h
  · cases h
  next hready =>
    simp only [not_or, Nat.not_lt] at hready
    exact hready.2.2.2.2

theorem maxContext_le {logicalContext : Nat} (h : indexSegmentCount logicalContext ≤ indexMaxSegments) :
    logicalContext ≤ indexMaxSegments * indexSegmentTokenCapacity := by
  unfold indexSegmentCount at h
  split at h
  all_goals
    next hrest =>
      simp only [indexMaxSegments, indexSegmentTokenCapacity] at h hrest ⊢
      omega

/-- However a session has been called, its table says where each page is and its prefixes count cached
blocks. In a submit group that the session allows, whenever the device runs a gather that was recorded, also
one whose slots never came back to the host, it reads each block from the slot that holds it. -/
theorem exec_mirrored {rank : Nat} {ownedOnly : Bool} {layerOwner : Nat → Nat}
    {logicalContext cachePages batchSize : Nat} {locality remote : Bool} {state : Option (State R)}
    {records : Nat → Page R} {lruPrev lruNext : Nat → Nat} {opened : Session R}
    (hopen : openDecodeConfig rank ownedOnly layerOwner logicalContext cachePages batchSize locality remote state
      records lruPrev lruNext = .ok opened) (calls : List (Call R)) :
    ∃ s, opened.exec calls = some s ∧ Mirrored s ∧
      ((∀ call ∈ calls, call.InRange s.maxBlocks) →
        ∀ firstLayer lastLayer token, s.submitGroupReady firstLayer lastLayer token = true →
          ∀ events : List (GroupEvent R), (∀ event ∈ events, event.InRange s.maxBlocks) →
            ∃ group, (⟨s, [], []⟩ : Group R).exec events = some group ∧
              ∀ run ∈ group.ran, Reads run.2 run.1) := by
  obtain ⟨hopened, hcontext, hsegments⟩ := openDecodeConfig_mirrors hopen
  obtain ⟨s, map, hexec, hmirrors, hshape, hamong⟩ := hopened.exec calls
  refine ⟨s, hexec, hmirrors.mirrored, fun hcalls firstLayer lastLayer token hready events hevents => ?_⟩
  have hroomy : Roomy s map := by
    refine ⟨hmirrors, ?_, room_of_ready hready, ?_⟩
    · rw [hshape.allPages]
      apply hamong (hshape.maxBlocks ▸ hcalls)
      exact fun entry hentry => absurd hentry not_mem_nil
    · rw [hshape.maxContext, hcontext]
      exact maxContext_le hsegments
  have hstart : (⟨s, [], []⟩ : Group R).Sound s map map :=
    ⟨hroomy.leads_self, fun gather hgather => absurd hgather not_mem_nil, fun run hrun => absurd hrun not_mem_nil⟩
  obtain ⟨group, map', hgroup, hsound⟩ := hstart.exec hevents
  exact ⟨group, hgroup, hsound.ran⟩

/-- One layer of sixteen tokens with its first block cached: a group may decode token 4, and the one gather of
the step reads block 0 and the partial block 1. -/
theorem exec_mirrored_group :
    ∃ (opened s : Session Nat) (group : Group Nat),
      openDecodeConfig 0 true (fun layer => if layer = 3 then 0 else 1) 16 4 8 false false none
        (fun _ _ => 0) id id = .ok opened ∧
      opened.exec [.acquire false 3 0, .acquire true 3 1, .commit 0 4] = some s ∧ Mirrored s ∧
      s.submitGroupReady 3 3 4 = true ∧
      (⟨s, [], []⟩ : Group Nat).exec
        [.decode 3 4 (4, 0, 0) 7 ⟨[], [], fun _ _ => .ok []⟩, .run] = some group ∧
      (group.ran.map fun run => (run.2.gatherSlots run.1, run.1.tailSlot)) = [([0], 1)] ∧
      ∀ run ∈ group.ran, Reads run.2 run.1 := by
  obtain ⟨opened, hopen⟩ : ∃ opened : Session Nat,
      openDecodeConfig 0 true (fun layer => if layer = 3 then 0 else 1) 16 4 8 false false none
        (fun _ _ => 0) id id = .ok opened := ⟨_, rfl⟩
  have hrun : ((openDecodeConfig 0 true (fun layer => if layer = 3 then 0 else 1) 16 4 8 false false none
      (fun _ _ => 0) id id).toOption.bind fun opened : Session Nat =>
        (opened.exec [.acquire false 3 0, .acquire true 3 1, .commit 0 4]).bind fun s =>
          ((⟨s, [], []⟩ : Group Nat).exec
            [.decode 3 4 (4, 0, 0) 7 ⟨[], [], fun _ _ => .ok []⟩, .run]).map fun group =>
              (s.submitGroupReady 3 3 4, group.ran.map fun run => (run.2.gatherSlots run.1, run.1.tailSlot))) =
      some (true, [([0], 1)]) := by
    decide +kernel
  rw [hopen] at hrun
  obtain ⟨s, hexec, hmirrored, hgroups⟩ :=
    exec_mirrored hopen [.acquire false 3 0, .acquire true 3 1, .commit 0 4]
  have hshape : s.maxBlocks = 4 := by
    have hblocks : (opened.exec [.acquire false 3 0, .acquire true 3 1, .commit 0 4]).map Session.maxBlocks =
        some 4 := by
      have hopen' := hopen
      cases hopen'
      decide +kernel
    rw [hexec] at hblocks
    exact Option.some.inj hblocks
  change (opened.exec _).bind _ = _ at hrun
  rw [hexec, Option.bind_some, Option.map_eq_some_iff] at hrun
  obtain ⟨group, hgroup, heq⟩ := hrun
  obtain ⟨hready, hran⟩ := Prod.mk.inj heq
  obtain ⟨group', hgroup', hreads⟩ := hgroups (by simp [hshape, Call.InRange]) 3 3 4 hready
    [.decode 3 4 (4, 0, 0) 7 ⟨[], [], fun _ _ => .ok []⟩, .run] (by
      rw [hshape]
      intro event hevent
      rcases mem_cons.mp hevent with rfl | hevent
      · exact ⟨fun block hblock => absurd hblock not_mem_nil, fun page hpage => absurd hpage not_mem_nil⟩
      · rw [mem_singleton.mp hevent]
        trivial)
  obtain rfl : group' = group := Option.some.inj (hgroup'.symm.trans hgroup)
  exact ⟨opened, s, group', hopen, hexec, hmirrored, hready, hgroup, hran, hreads⟩

end FlashGordon.QsaSession
