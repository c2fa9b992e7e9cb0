import FlashGordon.QsaSlots

/-! Runs of the calls that reach a session's cache, its table and its counters, in any order: whatever the
layers, the blocks and the evictions, the table keeps saying where each page is. When the cache has a slot
for every block of every layer, a page that is there stays in its slot until the session is reset. -/

namespace FlashGordon.QsaSession

open QsaCache (Key Represents uint32Max)
open PinnedLru

variable {R : Type}

/-- A call of the session's own code. Acquisitions name a layer, and a layer that is not the session's is
refused before the cache is asked. -/
inductive Call (R : Type) where
  | acquire (soft : Bool) (layer block : UInt32)
  | lookup (layer block : UInt32)
  | lookupStore (layer block : UInt32)
  | touch (slot : Nat)
  | pin (layer block : UInt32)
  | unpin (layer block : UInt32)
  | record (slot : Nat) (page : Page R)
  | commit (index tokens : Nat)
  | segment (index segment : Nat)
  | mark (token : Nat) (position : Position)
  | reset

def Session.take (s : Session R) : Call R → Option (Session R)
  | .acquire soft layer block =>
    if (s.layerSlot layer).isSome then (s.qsaCacheAcquire soft layer block).map fun answer => answer.2.2
    else some s
  | .lookup layer block => (s.lookup layer block).map Prod.snd
  | .lookupStore layer block => (s.lookupStore layer block).map Prod.snd
  | .touch slot => some (s.touch slot)
  | .pin layer block => (s.pin layer block).map Prod.snd
  | .unpin layer block => s.pagePublished layer block
  | .record slot page => some (s.writePage slot page)
  | .commit index tokens => some { s with committed := Function.update s.committed index tokens }
  | .segment index segment =>
    some { s with
      indexKeys := Function.update s.indexKeys index (Function.update (s.indexKeys index) segment true) }
  | .mark token position => some { s with positions := Function.update s.positions token (some position) }
  | .reset => some { s.qsaCacheReset with committed := fun _ => 0, positions := fun _ => none }

def Session.exec (s : Session R) : List (Call R) → Option (Session R)
  | [] => some s
  | call :: rest => (s.take call).bind fun after => after.exec rest

/-- The table has a page's slot and `UINT32_MAX` for a page that no slot holds, and the blocks below a
layer's prefix are cached. -/
structure Mirrored (s : Session R) : Prop where
  found : ∀ index < s.layerCount, ∀ block : UInt32, block.toNat < s.maxBlocks → ∀ slot,
    s.cache.holds (s.layerAt index) block slot = true ↔
      slot ≠ uint32Max ∧ s.slotTable (index * s.maxBlocks + block.toNat) = slot
  cached : ∀ index < s.layerCount, ∀ block : UInt32, block.toNat < s.cachedPrefix index →
    ∃ slot < s.cachePages, s.cache.holds (s.layerAt index) block slot = true

variable {s : Session R} {capacity : Nat} {map : Map Key capacity}

theorem holds_iff_frame? {cache : QsaCache.Cache} (h : Represents cache map) {layer block : UInt32} {slot : Nat} :
    cache.holds layer block slot = true ↔ map.frame? (layer, block) = some slot := by
  rw [Map.frame?_eq_some]
  constructor
  · intro hholds
    have hvalid : cache.valid slot = true := by
      simp only [QsaCache.Cache.holds, Bool.and_eq_true] at hholds
      exact hholds.1.1
    have hslot : slot < cache.used := by
      by_contra hout
      rw [(h.unused slot (Nat.not_lt.mp hout)).1] at hvalid
      cases hvalid
    obtain ⟨entry, hentry, rfl⟩ := h.entry_of_lt hslot
    exact ⟨entry, hentry, ((h.shows entry hentry).holds_iff layer block).mp hholds, rfl⟩
  · rintro ⟨entry, hentry, hkey, rfl⟩
    exact ((h.shows entry hentry).holds_iff layer block).mpr hkey

theorem Mirrors.frame?_ne (h : Mirrors s map) {key : Key} {slot : Nat} (hframe : map.frame? key = some slot) :
    slot ≠ uint32Max ∧ slot < s.cachePages := by
  obtain ⟨entry, hentry, -, rfl⟩ := Map.frame?_eq_some.mp hframe
  refine ⟨h.represents.frame_ne hentry, ?_⟩
  rw [h.pages]
  exact Nat.lt_of_lt_of_le (map.frame_lt hentry) map.length_le

theorem Mirrors.table_iff (h : Mirrors s map) {index : Nat} (hindex : index < s.layerCount) {block : UInt32}
    (hblock : block.toNat < s.maxBlocks) (slot : Nat) :
    slot ≠ uint32Max ∧ s.slotTable (index * s.maxBlocks + block.toNat) = slot ↔
      map.frame? (s.layerAt index, block) = some slot := by
  rw [h.reflects.table index hindex block hblock]
  constructor
  · rintro ⟨hne, hslot⟩
    cases hframe : map.frame? (s.layerAt index, block) with
    | none =>
      rw [hframe] at hslot
      exact absurd hslot.symm hne
    | some frame =>
      rw [hframe] at hslot
      exact congrArg some hslot
  · intro hframe
    rw [hframe]
    exact ⟨(h.frame?_ne hframe).1, rfl⟩

theorem Mirrors.mirrored (h : Mirrors s map) : Mirrored s := by
  refine ⟨fun index hindex block hblock slot => ?_, fun index hindex block hblock => ?_⟩
  · rw [holds_iff_frame? h.represents, h.table_iff hindex hblock]
  · obtain ⟨slot, hframe⟩ := Option.isSome_iff_exists.mp (h.reflects.cached index hindex block hblock)
    exact ⟨slot, (h.frame?_ne hframe).2, (holds_iff_frame? h.represents).mpr hframe⟩

/-- The sizes of a session do not change. -/
structure SameShape (s after : Session R) : Prop where
  layers : after.layers = s.layers
  maxContext : after.maxContext = s.maxContext
  cachePages : after.cachePages = s.cachePages
  locality : after.locality = s.locality

theorem SameShape.trans {s second third : Session R} (h : SameShape s second) (h' : SameShape second third) :
    SameShape s third :=
  ⟨h'.layers.trans h.layers, h'.maxContext.trans h.maxContext, h'.cachePages.trans h.cachePages,
    h'.locality.trans h.locality⟩

variable {after : Session R}

section

variable (h : SameShape s after)
include h

theorem SameShape.maxBlocks : after.maxBlocks = s.maxBlocks := by
  rw [Session.maxBlocks, h.maxContext, Session.maxBlocks]

theorem SameShape.layerCount : after.layerCount = s.layerCount := by
  rw [Session.layerCount, h.layers, Session.layerCount]

theorem SameShape.layerAt (index : Nat) : after.layerAt index = s.layerAt index := by
  rw [Session.layerAt, h.layers, Session.layerAt]

theorem SameShape.layerSlot (layer : UInt32) : after.layerSlot layer = s.layerSlot layer := by
  rw [Session.layerSlot, h.layers, Session.layerSlot]

end

theorem Mirrors.congr (h : Mirrors s map) (hshape : SameShape s after)
    (hcache : after.cache = s.cache) (htable : after.slotTable = s.slotTable)
    (hcached : after.cachedPrefix = s.cachedPrefix) : Mirrors after map := by
  refine ⟨hshape.layers ▸ h.layers, hshape.cachePages.trans h.pages, hcache ▸ h.represents, hcache ▸ h.hook, ?_⟩
  refine ⟨fun index hindex block hblock => ?_, fun index hindex block hblock => ?_, fun index hindex => ?_⟩
  · rw [hshape.layerCount] at hindex
    rw [hshape.maxBlocks] at hblock ⊢
    rw [htable, hshape.layerAt, h.reflects.table index hindex block hblock]
  · rw [hshape.layerCount] at hindex
    rw [hcached] at hblock
    rw [hshape.layerAt]
    exact h.reflects.cached index hindex block hblock
  · rw [hshape.layerCount] at hindex
    rw [hcached, hshape.maxBlocks]
    exact h.reflects.bounded index hindex

theorem Mirrors.take (h : Mirrors s map) (call : Call R) :
    ∃ (after : Session R) (map' : Map Key capacity), s.take call = some after ∧ Mirrors after map' ∧
      SameShape s after ∧ ∀ key, map.frame? key = none → map'.frame? key = none ∨
        (s.layerSlot key.1).isSome ∧ ∃ soft, call = .acquire soft key.1 key.2 := by
  cases call with
  | acquire soft layer block =>
    rw [Session.take]
    cases hlayer : s.layerSlot layer with
    | none => exact ⟨s, map, rfl, h, ⟨rfl, rfl, rfl, rfl⟩, fun _ hnone => .inl hnone⟩
    | some index =>
      obtain ⟨slot, after, hacquire, -, hafter⟩ := h.acquire soft hlayer block
      obtain ⟨cache, table, lengths, rfl⟩ := qsaCacheAcquire_eq hacquire
      refine ⟨_, _, by rw [hacquire]; rfl, hafter, ⟨rfl, rfl, rfl, rfl⟩, fun key hnone => ?_⟩
      rw [Map.frame?_acquire]
      by_cases heq : key = (layer, block)
      · subst heq
        exact .inr ⟨Option.isSome_of_eq_some hlayer, soft, rfl⟩
      · left
        split
        next => rfl
        next => exact hnone
  | lookup layer block =>
    obtain ⟨after, hlookup, ⟨cache, rfl⟩, hafter⟩ := h.lookup layer block
    exact ⟨_, _, by rw [Session.take, hlookup]; rfl, hafter, ⟨rfl, rfl, rfl, rfl⟩,
      fun _ hnone => .inl (Map.frame?_lookup.trans hnone)⟩
  | lookupStore layer block =>
    obtain ⟨after, hlookup, ⟨cache, table, lengths, rfl⟩, hafter⟩ := h.lookupStore layer block
    exact ⟨_, _, by rw [Session.take, hlookup]; rfl, hafter, ⟨rfl, rfl, rfl, rfl⟩,
      fun _ hnone => .inl (Map.frame?_lookup.trans hnone)⟩
  | touch slot =>
    exact ⟨_, _, rfl, h.touch slot, ⟨rfl, rfl, rfl, rfl⟩, fun _ hnone => .inl (Map.frame?_touch.trans hnone)⟩
  | pin layer block =>
    obtain ⟨result, after, hpin, -, ⟨cache, rfl⟩, hafter⟩ := h.pin layer block
    exact ⟨_, _, by rw [Session.take, hpin]; rfl, hafter, ⟨rfl, rfl, rfl, rfl⟩,
      fun _ hnone => .inl (Map.frame?_setPin.trans hnone)⟩
  | unpin layer block =>
    obtain ⟨after, hunpin, ⟨cache, rfl⟩, hafter⟩ := h.pagePublished layer block
    exact ⟨_, _, hunpin, hafter, ⟨rfl, rfl, rfl, rfl⟩, fun _ hnone => .inl (Map.frame?_setPin.trans hnone)⟩
  | record slot page =>
    exact ⟨_, map, rfl, h.congr ⟨rfl, rfl, rfl, rfl⟩ rfl rfl rfl, ⟨rfl, rfl, rfl, rfl⟩, fun _ hnone => .inl hnone⟩
  | commit index tokens =>
    exact ⟨_, map, rfl, h.congr ⟨rfl, rfl, rfl, rfl⟩ rfl rfl rfl, ⟨rfl, rfl, rfl, rfl⟩, fun _ hnone => .inl hnone⟩
  | segment index segment =>
    exact ⟨_, map, rfl, h.congr ⟨rfl, rfl, rfl, rfl⟩ rfl rfl rfl, ⟨rfl, rfl, rfl, rfl⟩, fun _ hnone => .inl hnone⟩
  | mark token position =>
    exact ⟨_, map, rfl, h.congr ⟨rfl, rfl, rfl, rfl⟩ rfl rfl rfl, ⟨rfl, rfl, rfl, rfl⟩, fun _ hnone => .inl hnone⟩
  | reset =>
    exact ⟨_, _, rfl, h.reset.congr ⟨rfl, rfl, rfl, rfl⟩ rfl rfl rfl, ⟨rfl, rfl, rfl, rfl⟩, fun _ _ => .inl rfl⟩

/-! ## A cache with a slot for every block -/

def Session.allPages (s : Session R) : List Key :=
  (List.range s.layerCount).flatMap fun index =>
    (List.range s.maxBlocks).map fun block => (s.layerAt index, UInt32.ofNat block)

theorem length_allPages (s : Session R) : s.allPages.length = s.layerCount * s.maxBlocks := by
  simp [Session.allPages, List.length_flatMap]

theorem mem_allPages {layer block : UInt32} {index : Nat} (hlayer : s.layerSlot layer = some index)
    (hblock : block.toNat < s.maxBlocks) : (layer, block) ∈ s.allPages := by
  obtain ⟨hindex, rfl⟩ := layerAt_of_layerSlot hlayer
  apply List.mem_flatMap.mpr
  refine ⟨index, List.mem_range.mpr hindex, List.mem_map.mpr ⟨block.toNat, List.mem_range.mpr hblock, ?_⟩⟩
  rw [UInt32.ofNat_toNat]

theorem SameShape.allPages (h : SameShape s after) : after.allPages = s.allPages := by
  have hlayer : after.layerAt = s.layerAt := funext h.layerAt
  rw [Session.allPages, h.layerCount, h.maxBlocks, hlayer, Session.allPages]

def Call.InRange (maxBlocks : Nat) : Call R → Prop
  | .acquire _ _ block => block.toNat < maxBlocks
  | _ => True

theorem Mirrors.take_among (h : Mirrors s map) (call : Call R) :
    ∃ (after : Session R) (map' : Map Key capacity), s.take call = some after ∧ Mirrors after map' ∧
      SameShape s after ∧ (call.InRange s.maxBlocks → map.Among s.allPages → map'.Among s.allPages) := by
  obtain ⟨after, map', htake, hafter, hshape, hnew⟩ := h.take call
  refine ⟨after, map', htake, hafter, hshape, fun hcall hamong => hamong.of_frame? fun page hpage hnone => ?_⟩
  rcases hnew page hnone with hnone' | ⟨hlayer, soft, rfl⟩
  · exact hnone'
  · obtain ⟨index, hindex⟩ := Option.isSome_iff_exists.mp hlayer
    exact absurd (mem_allPages hindex hcall) hpage

theorem Mirrors.exec (h : Mirrors s map) (calls : List (Call R)) :
    ∃ (after : Session R) (map' : Map Key capacity), s.exec calls = some after ∧ Mirrors after map' ∧
      SameShape s after ∧
      ((∀ call ∈ calls, call.InRange s.maxBlocks) → map.Among s.allPages → map'.Among s.allPages) := by
  induction calls generalizing s map with
  | nil => exact ⟨s, map, rfl, h, ⟨rfl, rfl, rfl, rfl⟩, fun _ => id⟩
  | cons call rest ih =>
    obtain ⟨next, map', htake, hnext, hshape, hamong⟩ := h.take_among call
    obtain ⟨after, map'', hexec, hafter, hshape', hamong'⟩ := ih hnext
    refine ⟨after, map'', by rw [Session.exec, htake, Option.bind_some, hexec], hafter, hshape.trans hshape',
      fun hcalls hstart => ?_⟩
    rw [hshape.maxBlocks, hshape.allPages] at hamong'
    apply hamong' (List.forall_mem_cons.mp hcalls).2
    exact hamong (hcalls call List.mem_cons_self) hstart

end FlashGordon.QsaSession
