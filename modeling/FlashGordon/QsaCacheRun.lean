import FlashGordon.QsaCacheRefine

/-! The calls of the page cache against the map: each replies as the map does and leaves a cache that stands
for the map's next state, so a run of calls in any order does. -/

namespace FlashGordon.QsaCache

open Links PinnedLru List

variable {capacity : Nat} {cache : Cache} {map : Map Key capacity}

/-- A cache stands for the map, has called its hook for these pages, and a call left its hook alone. -/
structure Answers {capacity : Nat} (before after : Cache) (map : Map Key capacity) (evicted : List Key) :
    Prop where
  represents : Represents after map
  hook : after.evictHook = before.evictHook
  calls : after.evictCalls.map (fun page => (page.1.toUInt32, page.2)) =
    before.evictCalls.map (fun page => (page.1.toUInt32, page.2)) ++
      if before.evictHook then evicted else []

theorem Answers.quiet {after : Cache} (h : Represents after map) (hhook : after.evictHook = cache.evictHook)
    (hcalls : after.evictCalls = cache.evictCalls) : Answers cache after map [] := by
  refine ⟨h, hhook, ?_⟩
  rw [hcalls, ite_self, append_nil]

theorem Represents.lookup (h : Represents cache map) (key : Key) :
    ∃ after, QsaCache.lookup cache key.1 key.2 = some ((map.lookup key).1, after) ∧
      Answers cache after (map.lookup key).2 [] := by
  rw [QsaCache.lookup, h.cacheFind, Option.map_some]
  cases hfind : map.find? (key.1, key.2) with
  | some entry =>
    have hentry := (Map.find?_mem hfind).1
    rw [Map.lookup_of_find hfind, Option.map_some, Option.getD_some, if_neg (h.frame_ne hentry)]
    exact ⟨_, rfl, .quiet (h.front hentry) rfl rfl⟩
  | none =>
    rw [Map.lookup_of_none hfind, Option.map_none, Option.getD_none, if_pos rfl]
    exact ⟨cache, rfl, .quiet h rfl rfl⟩

theorem Represents.touch (h : Represents cache map) (slot : Nat) :
    Answers cache (QsaCache.touch cache slot) (map.touch slot) [] := by
  by_cases hslot : slot < map.entries.length
  · obtain ⟨entry, hentry, rfl⟩ := h.entry_of_lt (h.used ▸ hslot)
    have hpages : ¬(cache.pages ≤ entry.frame ∨ !cache.valid entry.frame) := by
      have hle := map.length_le
      rw [(h.shows entry hentry).valid, h.pages]
      simp
      omega
    rw [QsaCache.touch, if_neg hpages, Map.touch_of_mem hentry]
    exact .quiet (h.front hentry) rfl rfl
  · have hvalid := (h.unused slot (h.used ▸ Nat.not_lt.mp hslot)).1
    rw [QsaCache.touch, if_pos (by simp [hvalid]), Map.touch_of_le (Nat.not_lt.mp hslot)]
    exact .quiet h rfl rfl

variable {entry : Resident Key}

section

variable (h : Represents cache map)
include h

theorem Represents.setPin (hentry : entry ∈ map.entries) (pinned : Bool) :
    Represents { cache with pinned := Function.update cache.pinned entry.frame pinned }
      (map.setPin entry.key pinned) := by
  have hframes : (map.setPin entry.key pinned).entries.map Resident.frame = map.entries.map Resident.frame := by
    show (map.entries.map (Resident.withPin entry.key pinned)).map Resident.frame = _
    rw [map_map]
    exact map_congr_left fun other _ => Resident.withPin_frame entry.key pinned other
  refine ⟨h.pages, h.positive, h.bounded, h.hashed, ?_, ?_, ?_, ?_, ?_⟩
  · rw [← length_map, hframes, length_map]
    exact h.used
  · intro changed hchanged
    obtain ⟨other, hother, rfl⟩ := mem_map.mp hchanged
    have hshows := h.shows other hother
    refine ⟨?_, ?_, ?_, ?_⟩
    · rw [Resident.withPin_frame]
      exact hshows.valid
    · rw [Resident.withPin_frame, Resident.withPin_key]
      exact hshows.layer
    · rw [Resident.withPin_frame, Resident.withPin_key]
      exact hshows.block
    · rw [Resident.withPin_frame]
      show Function.update cache.pinned entry.frame pinned other.frame = _
      by_cases hkey : other.key = entry.key
      · obtain rfl := map.key_injective hother hentry hkey
        rw [Function.update_self, Resident.withPin, if_pos rfl]
      · have hframe : other.frame ≠ entry.frame :=
          fun heq => hkey (congrArg Resident.key (map.frame_injective hother hentry heq))
        rw [Function.update_of_ne hframe, Resident.withPin, if_neg hkey]
        exact hshows.pinned
  · intro slot hslot
    have hne : slot ≠ entry.frame := Nat.ne_of_gt (Nat.lt_of_lt_of_le (h.frame_lt hentry) hslot)
    obtain ⟨hvalid, hpinned⟩ := h.unused slot hslot
    exact ⟨hvalid, (Function.update_of_ne hne _ _).trans hpinned⟩
  · rw [hframes]
    exact h.lru
  · intro bucket
    obtain ⟨cells, hcells⟩ := h.chains bucket
    refine ⟨cells, hcells.chain, hcells.nodup, fun slot => (hcells.mem slot).trans ?_⟩
    simp only [Map.setPin, mem_map, exists_exists_and_eq_and, Resident.withPin_frame, Resident.withPin_key]
    rfl

theorem Represents.pin (key : Key) : ∃ result after, QsaCache.pin cache key.1 key.2 = some (result, after) ∧
      result.isOk = (map.find? key).isSome ∧ Answers cache after (map.setPin key true) [] := by
  rw [QsaCache.pin, h.cacheFind, Option.map_some]
  cases hfind : map.find? (key.1, key.2) with
  | some entry =>
    obtain ⟨hentry, hkey⟩ := Map.find?_mem hfind
    rw [Option.map_some, Option.getD_some, if_neg (h.frame_ne hentry)]
    have hpinned := h.setPin hentry true
    rw [hkey] at hpinned
    exact ⟨_, _, rfl, rfl, .quiet hpinned rfl rfl⟩
  | none =>
    rw [Option.map_none, Option.getD_none, if_pos rfl, Map.setPin_of_none hfind]
    exact ⟨_, _, rfl, rfl, .quiet h rfl rfl⟩

theorem Represents.unpin (key : Key) :
    ∃ after, QsaCache.unpin cache key.1 key.2 = some after ∧ Answers cache after (map.setPin key false) [] := by
  rw [QsaCache.unpin, h.cacheFind, Option.map_some]
  cases hfind : map.find? (key.1, key.2) with
  | some entry =>
    obtain ⟨hentry, hkey⟩ := Map.find?_mem hfind
    have hunpinned := h.setPin hentry false
    rw [hkey] at hunpinned
    rw [Option.map_some, Option.getD_some, if_pos (h.frame_ne hentry)]
    exact ⟨_, rfl, .quiet hunpinned rfl rfl⟩
  | none =>
    rw [Option.map_none, Option.getD_none, if_neg (not_not.mpr rfl), Map.setPin_of_none hfind]
    exact ⟨_, rfl, .quiet h rfl rfl⟩

theorem Represents.victimFrom : QsaCache.victimFrom cache (cache.pages + 1) cache.lru.tail =
      some (((map.entries.reverse.find? fun entry => !entry.pinned).map Resident.frame).getD uint32Max) := by
  have hfuel : (map.entries.map Resident.frame).length < cache.pages + 1 := by
    have hlength := map.length_le
    rw [length_map, h.pages]
    omega
  rw [h.lru.tail, victimFrom_segment h.lru.segment h.lru.null_not_mem hfuel, ← map_reverse, List.find?_map]
  congr 3
  apply List.find?_congr
  intro entry hentry
  show (!cache.pinned entry.frame) = !entry.pinned
  rw [(h.shows entry (mem_reverse.mp hentry)).pinned]

theorem Represents.tail (hentry : map.entries.getLast? = some entry) : cache.lru.tail = entry.frame := by
  rw [h.lru.tail, getLastD_eq_getLast?, List.getLast?_map, hentry]
  rfl

theorem Represents.victim {soft : Bool} (hvictim : victim? soft map.entries = some entry) :
    ∃ unpinned, QsaCache.victimFrom cache (cache.pages + 1) cache.lru.tail = some unpinned ∧
      ¬(unpinned = uint32Max ∧ soft) ∧
      (if unpinned = uint32Max then cache.lru.tail else unpinned) = entry.frame := by
  refine ⟨_, h.victimFrom, ?_⟩
  unfold victim? at hvictim
  split at hvictim
  next found hfound =>
    obtain rfl := Option.some.inj hvictim
    have hne := h.frame_ne (mem_reverse.mp (mem_of_find?_eq_some hfound))
    rw [hfound, Option.map_some, Option.getD_some, if_neg hne]
    exact ⟨fun hnull => hne hnull.1, rfl⟩
  next hfound =>
    rw [hfound, Option.map_none, Option.getD_none, if_pos rfl]
    split at hvictim
    · cases hvictim
    next hsoft => exact ⟨fun hnull => hsoft hnull.2, h.tail hvictim⟩

end

theorem Cache.Shows.page (h : cache.Shows entry) : cache.page entry.frame = entry.key :=
  Prod.ext h.layer h.block

section

variable (h : Represents cache map)
include h

theorem Represents.acquire_found (soft : Bool) {key : Key}
    (hfind : map.find? key = some entry) :
    cacheAcquire soft cache key.1 key.2 =
      some (entry.frame, true, { cache with lru := cacheLruFront cache.lru entry.frame }) := by
  have hentry := (Map.find?_mem hfind).1
  rw [cacheAcquire, h.cacheFind, Option.bind_eq_bind, Option.bind_some,
    show map.find? (key.1, key.2) = some entry from hfind, Option.map_some, Option.getD_some,
    if_pos (h.frame_ne hentry)]
  rfl

theorem Represents.acquire_missing (soft : Bool) {key : Key}
    (hfind : map.find? key = none) :
    cacheAcquire soft cache key.1 key.2 =
      if cache.used < cache.pages then
        some (cache.used, false, occupy { cache with
          used := cache.used + 1
          lru := { cache.lru with
            prev := Function.update cache.lru.prev cache.used uint32Max
            next := Function.update cache.lru.next cache.used uint32Max } } cache.used key.1 key.2)
      else
        (QsaCache.victimFrom cache (cache.pages + 1) cache.lru.tail).bind fun unpinned =>
          if unpinned = uint32Max ∧ soft then some (uint32Max, false, cache)
          else
            (evict cache (if unpinned = uint32Max then cache.lru.tail else unpinned)).map fun evicted =>
              (if unpinned = uint32Max then cache.lru.tail else unpinned, false,
                occupy evicted (if unpinned = uint32Max then cache.lru.tail else unpinned) key.1 key.2) := by
  rw [cacheAcquire, h.cacheFind, Option.bind_eq_bind, Option.bind_some,
    show map.find? (key.1, key.2) = none from hfind, Option.map_none, Option.getD_none,
    if_neg (not_not.mpr rfl)]
  simp only [Option.map_eq_bind]
  rfl

theorem Represents.acquire_refused {soft : Bool} {key : Key}
    (hfind : map.find? key = none) (hfull : cache.pages ≤ cache.used)
    (hvictim : victim? soft map.entries = none) :
    cacheAcquire soft cache key.1 key.2 = some (uint32Max, false, cache) := by
  have hentries : map.entries ≠ [] := by
    apply ne_nil_of_length_pos
    have hpositive := h.positive
    rw [h.pages, h.used] at hfull
    omega
  obtain ⟨hsoft, hpinned⟩ := victim?_eq_none hvictim hentries
  rw [h.acquire_missing soft hfind, if_neg (Nat.not_lt.mpr hfull), h.victimFrom, hpinned, Option.map_none,
    Option.getD_none, Option.bind_some, if_pos ⟨rfl, hsoft⟩]

theorem Represents.acquire_victim {soft : Bool} {key : Key} (hlayer : key.1 < 256)
    (hfind : map.find? key = none) (hfull : cache.pages ≤ cache.used)
    (hvictim : victim? soft map.entries = some entry) :
    ∃ after, cacheAcquire soft cache key.1 key.2 = some (entry.frame, false, after) ∧
      after.evictHook = cache.evictHook ∧
      after.evictCalls =
        (if cache.evictHook then
          cache.evictCalls ++ [(cache.layers entry.frame, cache.blocks entry.frame)]
        else cache.evictCalls) ∧
      Represents after (map.replace entry ⟨key, entry.frame, false⟩ (victim?_mem hvictim)
        (.inr (Map.find?_eq_none.mp hfind)) rfl) := by
  obtain ⟨unpinned, hwalk, hhard, hslot⟩ := h.victim hvictim
  obtain ⟨evicted, hevict, hhook, hcalls, hafter⟩ :=
    h.replace (victim?_mem hvictim) hlayer (Map.find?_eq_none.mp hfind)
  refine ⟨occupy evicted entry.frame key.1 key.2, ?_, hhook, hcalls, hafter⟩
  rw [h.acquire_missing soft hfind, if_neg (Nat.not_lt.mpr hfull), hwalk, Option.bind_some, if_neg hhard, hslot,
    hevict, Option.map_some]

theorem Represents.acquire (soft : Bool) {key : Key} (hlayer : key.1 < 256) :
    ∃ slot after, cacheAcquire soft cache key.1 key.2 = some (slot, (map.acquire soft key).1.hit, after) ∧
      slotReply slot = (map.acquire soft key).1.frame ∧
      Answers cache after (map.acquire soft key).2 (map.acquire soft key).1.evicted.toList := by
  have hused := h.used
  have hpages := h.pages
  have hreply : ∀ entry ∈ map.entries, slotReply entry.frame = some entry.frame :=
    fun entry hentry => if_neg (h.frame_ne hentry)
  cases hfind : map.find? key with
  | some entry =>
    have hentry := (Map.find?_mem hfind).1
    rw [Map.acquire_of_find hfind, h.acquire_found soft hfind]
    exact ⟨_, _, rfl, hreply entry hentry, .quiet (h.front hentry) rfl rfl⟩
  | none =>
    by_cases hroom : map.entries.length < capacity
    · rw [Map.acquire_of_room hfind hroom, h.acquire_missing soft hfind, if_pos (by omega)]
      refine ⟨_, _, rfl, ?_, .quiet (h.insert hlayer (Map.find?_eq_none.mp hfind) hroom) rfl rfl⟩
      have hle := h.used_le
      rw [slotReply, if_neg (by unfold uint32Max; omega), hused]
    · have hfull : cache.pages ≤ cache.used := by omega
      cases hvictim : victim? soft map.entries with
      | none =>
        rw [Map.acquire_of_refused hfind (Nat.not_lt.mp hroom) hvictim, h.acquire_refused hfind hfull hvictim]
        exact ⟨_, _, rfl, rfl, .quiet h rfl rfl⟩
      | some entry =>
        obtain ⟨after, hacquire, hhook, hcalls, hafter⟩ := h.acquire_victim hlayer hfind hfull hvictim
        have hentry := victim?_mem hvictim
        rw [Map.acquire_of_victim hfind (Nat.not_lt.mp hroom) hvictim]
        refine ⟨_, after, hacquire, hreply entry hentry, hafter, hhook, ?_⟩
        rw [hcalls]
        split
        · rw [map_append, map_singleton]
          exact congrArg (fun key => _ ++ [key]) (h.shows entry hentry).page
        · rw [append_nil]

end

theorem cacheBucket_lt {hashCapacity : Nat} (h : 0 < hashCapacity) (layer block : UInt32) :
    cacheBucket hashCapacity layer block < hashCapacity := by
  have hle : cacheBucket hashCapacity layer block ≤ hashCapacity - 1 := Nat.and_le_right
  omega

theorem Represents.buckets_eq_zero (h : Represents cache map) {bucket : Nat}
    (hbucket : cache.hashCapacity ≤ bucket) : cache.hash.buckets bucket = 0 := by
  obtain ⟨cells, hcells⟩ := h.chains bucket
  have hnil : cells = [] := by
    apply eq_nil_iff_forall_not_mem.mpr
    intro slot hslot
    obtain ⟨entry, -, -, heq⟩ := (hcells.mem slot).mp hslot
    have hlt : cache.bucket entry.key.1 entry.key.2 < cache.hashCapacity :=
      cacheBucket_lt h.hashed entry.key.1 entry.key.2
    omega
  have hchain := hcells.chain
  rw [hnil] at hchain
  exact hchain

theorem represents_empty (hpages : cache.pages = capacity) (hpositive : 0 < capacity)
    (hbounded : capacity ≤ 2 ^ 30) (hhashed : 0 < cache.hashCapacity) (hused : cache.used = 0)
    (hunused : ∀ slot, cache.valid slot = false ∧ cache.pinned slot = false)
    (hhead : cache.lru.head = uint32Max) (htail : cache.lru.tail = uint32Max)
    (hbuckets : ∀ bucket, cache.hash.buckets bucket = 0) :
    Represents cache (Map.empty : Map Key capacity) := by
  refine ⟨hpages, hpositive, hbounded, hhashed, hused, ?_, fun slot _ => hunused slot, ?_, fun bucket => ?_⟩
  · intro entry hentry
    cases hentry
  · exact ⟨hhead, htail, trivial, nodup_nil, not_mem_nil⟩
  · refine ⟨[], hbuckets bucket, nodup_nil, fun slot => ?_⟩
    simp [Map.empty]

theorem Represents.reset (h : Represents cache map) :
    Answers cache (QsaCache.reset cache) (Map.empty : Map Key capacity) [] := by
  refine .quiet ?_ rfl rfl
  refine @represents_empty capacity (QsaCache.reset cache) h.pages h.positive h.bounded h.hashed rfl ?_ rfl rfl ?_
  rotate_left
  · intro bucket
    show (if bucket < cache.hashCapacity then 0 else cache.hash.buckets bucket) = 0
    split
    next => rfl
    next hbucket => exact h.buckets_eq_zero (Nat.not_lt.mp hbucket)
  · intro slot
    show (if slot < cache.pages then false else cache.valid slot) = false ∧
      (if slot < cache.pages then false else cache.pinned slot) = false
    split
    next => exact ⟨rfl, rfl⟩
    next hslot =>
      apply h.unused slot
      have hle := map.length_le
      rw [h.pages] at hslot
      rw [h.used]
      omega

theorem growCapacity_pos (wanted fuel capacity : Nat) (h : 0 < capacity) : 0 < growCapacity wanted fuel capacity := by
  induction fuel generalizing capacity with
  | zero => exact h
  | succ fuel ih =>
    rw [growCapacity]
    split
    · exact ih _ (Nat.mul_pos Nat.two_pos h)
    · exact h

variable {evictHook : Bool}

theorem create_represents {pages : Nat} {lruPrev lruNext : Nat → Nat}
    (h : create pages evictHook lruPrev lruNext = .ok cache) :
    Represents cache (Map.empty : Map Key pages) ∧ cache.evictHook = evictHook ∧ cache.evictCalls = [] := by
  unfold create at h
  split at h
  · cases h
  next hpages =>
    obtain rfl := Except.ok.inj h
    rw [not_or] at hpages
    refine ⟨?_, rfl, rfl⟩
    exact represents_empty rfl (Nat.pos_of_ne_zero hpages.1) (Nat.not_lt.mp hpages.2)
      (growCapacity_pos _ _ _ Nat.one_pos) rfl (fun _ => ⟨rfl, rfl⟩) rfl rfl fun _ => rfl

def evictedKeys (events : List (Event Key)) : List Key :=
  events.filterMap fun event =>
    match event with
    | .evicted key => some key
    | _ => none

theorem evictedKeys_used (keys : List Key) : evictedKeys (keys.map Event.used) = [] := by
  rw [evictedKeys, filterMap_map]
  exact filterMap_eq_nil_iff.mpr fun _ _ => rfl

theorem Represents.call (h : Represents cache map) {op : Op Key}
    (hop : ∀ soft key, op = .acquire soft key → key.1 < 256) :
    ∃ after, QsaCache.call cache op = some ((map.apply op).1, after) ∧
      Answers cache after (map.apply op).2.2 (evictedKeys (map.apply op).2.1) := by
  cases op with
  | lookup key =>
    obtain ⟨after, hlookup, hafter⟩ := h.lookup key
    refine ⟨after, by rw [QsaCache.call, hlookup]; rfl, ?_⟩
    have hevicted : evictedKeys (map.apply (.lookup key)).2.1 = [] := by
      simp only [Map.apply]
      split
      · exact evictedKeys_used [key]
      · exact evictedKeys_used []
    rw [hevicted]
    exact hafter
  | acquire soft key =>
    obtain ⟨slot, after, hacquire, hslot, hafter⟩ := h.acquire soft (hop soft key rfl)
    refine ⟨after, by rw [QsaCache.call, hacquire, Option.map_some, hslot]; rfl, ?_⟩
    have hevicted : evictedKeys (map.apply (.acquire soft key)).2.1 = (map.acquire soft key).1.evicted.toList := by
      simp only [Map.apply, evictedKeys]
      cases (map.acquire soft key).1.evicted <;> split <;> rfl
    rw [hevicted]
    exact hafter
  | touch slot =>
    have hevicted : evictedKeys (map.apply (.touch slot)).2.1 = [] := by
      simp only [Map.apply]
      cases map.entries.find? fun entry => entry.frame = slot with
      | none => exact evictedKeys_used []
      | some entry => exact evictedKeys_used [entry.key]
    refine ⟨_, rfl, ?_⟩
    rw [hevicted]
    exact h.touch slot
  | pin key =>
    obtain ⟨result, after, hpin, hresult, hafter⟩ := h.pin key
    exact ⟨after, by rw [QsaCache.call, hpin, Option.map_some, hresult]; rfl, hafter⟩
  | unpin key =>
    obtain ⟨after, hunpin, hafter⟩ := h.unpin key
    exact ⟨after, by rw [QsaCache.call, hunpin]; rfl, hafter⟩
  | reset => exact ⟨_, rfl, h.reset⟩

structure Follows {pages : Nat} (evictHook : Bool) (session : Session Key pages) (cache : Cache) : Prop where
  represents : Represents cache session.map
  hook : cache.evictHook = evictHook
  told : cache.evictCalls.map (fun page => (page.1.toUInt32, page.2)) =
    if evictHook then evictedKeys session.events else []

variable {session : Session Key capacity}

theorem Follows.call (h : Follows evictHook session cache)
    {op : Op Key} (hop : ∀ soft key, op = .acquire soft key → key.1 < 256) :
    ∃ after, QsaCache.call cache op = some ((session.map.apply op).1, after) ∧
      Follows evictHook (session.take op) after := by
  obtain ⟨after, hcall, hafter⟩ := h.represents.call hop
  refine ⟨after, hcall, hafter.represents, hafter.hook.trans h.hook, ?_⟩
  rw [hafter.calls, h.told, h.hook]
  split
  · show _ = evictedKeys (session.events ++ (session.map.apply op).2.1)
    rw [evictedKeys, evictedKeys, evictedKeys, filterMap_append]
  · rfl

theorem Follows.calls (h : Follows evictHook session cache)
    {ops : List (Op Key)} (hops : ∀ soft key, .acquire soft key ∈ ops → key.1 < 256) :
    ∃ replies after, QsaCache.calls cache ops = some (replies, after) ∧
      (ops.foldl Session.take session).replies = session.replies ++ replies ∧
      Follows evictHook (ops.foldl Session.take session) after := by
  induction ops generalizing session cache with
  | nil => exact ⟨[], cache, rfl, (append_nil _).symm, h⟩
  | cons op rest ih =>
    obtain ⟨next, hcall, hnext⟩ := h.call fun soft key hop => hops soft key (hop ▸ mem_cons_self)
    obtain ⟨replies, after, hcalls, hreplies, hafter⟩ :=
      ih hnext fun soft key hmem => hops soft key (mem_cons_of_mem op hmem)
    refine ⟨(session.map.apply op).1 :: replies, after, ?_, ?_, hafter⟩
    · rw [QsaCache.calls, hcall, Option.bind_some, hcalls]
      rfl
    · rw [foldl_cons, hreplies]
      exact append_assoc ..

theorem Represents.distinct (h : Represents cache map) {first second : Nat} (hfirst : cache.valid first = true)
    (hsecond : cache.valid second = true) (hpage : cache.page first = cache.page second) : first = second := by
  have hentry : ∀ {slot}, cache.valid slot = true → ∃ entry ∈ map.entries, entry.frame = slot := by
    intro slot hvalid
    apply h.entry_of_lt
    by_contra hslot
    rw [(h.unused slot (Nat.not_lt.mp hslot)).1] at hvalid
    cases hvalid
  obtain ⟨one, hone, rfl⟩ := hentry hfirst
  obtain ⟨two, htwo, rfl⟩ := hentry hsecond
  have hkey : one.key = two.key := by
    rw [← (h.shows one hone).page, ← (h.shows two htwo).page, hpage]
  rw [map.key_injective hone htwo hkey]

/-- The slot a full cache gives up: an unpinned one if there is any, and of those it could have given up the
one whose last use lies furthest back. -/
structure Oldest (events : List (Event Key)) (cache : Cache) (victim : Nat) : Prop where
  lt : victim < cache.pages
  unpinned : cache.pinned victim = true → ∀ slot < cache.pages, cache.pinned slot = true
  since : ∀ slot < cache.pages, slot ≠ victim →
    (cache.pinned slot = true ∧ cache.pinned victim = false) ∨
      UsedSince events (cache.page slot) (cache.page victim)

theorem Represents.oldest (h : Represents cache map) {events : List (Event Key)} (hrecent : map.Recent events)
    (hfull : cache.used = cache.pages) {soft : Bool} {victim : Resident Key}
    (hvictim : victim? soft map.entries = some victim) : Oldest events cache victim.frame := by
  have hmem := victim?_mem hvictim
  obtain ⟨first, second, hsplit, hsecond, hpinned⟩ := victim?_split hvictim
  have hentry : ∀ slot < cache.pages, ∃ entry ∈ map.entries, entry.frame = slot :=
    fun slot hslot => h.entry_of_lt (hfull ▸ hslot)
  refine ⟨hfull ▸ h.frame_lt hmem, ?_, ?_⟩
  · intro hvictimPinned slot hslot
    obtain ⟨entry, hin, rfl⟩ := hentry slot hslot
    rw [(h.shows entry hin).pinned]
    exact (hpinned ((h.shows victim hmem).pinned.symm.trans hvictimPinned)).2 entry hin
  · intro slot hslot hne
    obtain ⟨entry, hin, rfl⟩ := hentry slot hslot
    have hshows := h.shows entry hin
    rw [hsplit] at hin
    rcases mem_append.mp hin with hfirst | hrest
    · right
      have hpairs : (first ++ victim :: second).Pairwise
          fun entry other => UsedSince events entry.key other.key := hsplit ▸ hrecent
      rw [hshows.page, (h.shows victim hmem).page]
      exact (pairwise_append.mp hpairs).2.2 entry hfirst victim mem_cons_self
    · have hin' : entry ∈ second := by
        apply (mem_cons.mp hrest).resolve_left
        rintro rfl
        exact hne rfl
      left
      refine ⟨hshows.pinned.trans (hsecond entry hin'), ?_⟩
      rw [(h.shows victim hmem).pinned]
      by_contra hcontra
      rw [(hpinned (Bool.eq_true_of_not_eq_false hcontra)).1] at hin'
      cases hin'

structure Promises (evictHook : Bool) (events : List (Event Key)) (cache : Cache) : Prop where
  /-- A lookup hits the keys that were acquired and since then neither evicted nor reset, and shows them. -/
  hits : ∀ layer block, ∃ found after, lookup cache layer block = some (found, after) ∧
    (found.isSome = true ↔ Live events (layer, block)) ∧
    ∀ slot, found = some slot → cache.valid slot = true ∧ cache.page slot = (layer, block)
  distinct : ∀ first second, cache.valid first = true → cache.valid second = true →
    cache.page first = cache.page second → first = second
  /-- A missing key in a full cache takes the place of the oldest slot, and the hook is told once. -/
  hard : ∀ layer block, layer < 256 → ¬Live events (layer, block) → cache.used = cache.pages →
    ∃ victim after, cacheAcquire false cache layer block = some (victim, false, after) ∧
      Oldest events cache victim ∧
      after.evictCalls =
        if evictHook then cache.evictCalls ++ [(cache.layers victim, cache.blocks victim)]
        else cache.evictCalls
  /-- A soft request for a missing key leaves a cache that is pinned all over untouched. -/
  soft : ∀ layer block, ¬Live events (layer, block) → cache.used = cache.pages →
    (∀ slot < cache.pages, cache.pinned slot = true) →
    cacheAcquire true cache layer block = some (uint32Max, false, cache)
  told : cache.evictCalls.map (fun page => (page.1.toUInt32, page.2)) =
    if evictHook then evictedKeys events else []

theorem Follows.promises (h : Follows evictHook session cache)
    (hlive : ∀ key, session.map.Has key ↔ Live session.events key)
    (hrecent : session.map.Recent session.events) : Promises evictHook session.events cache := by
  have hmissing : ∀ {key}, ¬Live session.events key → session.map.find? key = none :=
    fun hkey => Map.find?_eq_none.mpr fun hmem => hkey ((hlive _).mp hmem)
  have hrep := h.represents
  refine ⟨fun layer block => ?_, fun first second => ?_, fun layer block => ?_, fun layer block => ?_, h.told⟩
  · obtain ⟨after, hlookup, -⟩ := hrep.lookup (layer, block)
    refine ⟨_, after, hlookup, Map.lookup_isSome.trans (hlive _), fun slot hslot => ?_⟩
    cases hfind : session.map.find? (layer, block) with
    | none =>
      rw [Map.lookup_of_none hfind] at hslot
      cases hslot
    | some entry =>
      obtain ⟨hentry, hkey⟩ := Map.find?_mem hfind
      rw [Map.lookup_of_find hfind] at hslot
      obtain rfl := Option.some.inj hslot
      exact ⟨(hrep.shows entry hentry).valid, (hrep.shows entry hentry).page.trans hkey⟩
  · exact hrep.distinct
  · intro hlayer hkey hfull
    cases hvictim : victim? false session.map.entries with
    | none =>
      have hentries : session.map.entries ≠ [] := by
        apply ne_nil_of_length_pos
        have hpositive := hrep.positive
        rw [← hrep.used, hfull, hrep.pages]
        exact hpositive
      exact absurd (victim?_eq_none hvictim hentries).1 Bool.false_ne_true
    | some victim =>
      obtain ⟨after, hacquire, -, hcalls, -⟩ :=
        @Represents.acquire_victim capacity cache session.map victim hrep false (layer, block) hlayer (hmissing hkey)
          (Nat.le_of_eq hfull.symm) hvictim
      rw [h.hook] at hcalls
      exact ⟨victim.frame, after, hacquire, hrep.oldest hrecent hfull hvictim, hcalls⟩
  · intro hkey hfull hpinned
    have hnone : victim? true session.map.entries = none := by
      rw [victim?, List.find?_eq_none.mpr]
      · rfl
      · intro entry hentry
        have hentry := mem_reverse.mp hentry
        rw [← (hrep.shows entry hentry).pinned, hpinned _ (hfull ▸ hrep.frame_lt hentry)]
        exact Bool.false_ne_true
    exact @Represents.acquire_refused capacity cache session.map hrep true (layer, block) (hmissing hkey)
      (Nat.le_of_eq hfull.symm) hnone

/-- The page cache is a bounded map in order of use with pins: whatever it is asked in whatever order, its
loops end, it replies as the map does, and it keeps its promises. -/
theorem calls_refine_lru {pages : Nat} {evictHook : Bool} {lruPrev lruNext : Nat → Nat} {cache : Cache}
    (hcreate : create pages evictHook lruPrev lruNext = .ok cache) {ops : List (Op Key)}
    (hlayers : ∀ soft key, .acquire soft key ∈ ops → key.1 < 256) :
    ∃ after, calls cache ops = some ((run pages ops).replies, after) ∧
      Represents after (run pages ops).map ∧
      Promises evictHook (run pages ops).events after := by
  obtain ⟨hempty, hhook, hcalls⟩ := create_represents hcreate
  have hstart : Follows evictHook (⟨.empty, [], []⟩ : Session Key pages) cache :=
    ⟨hempty, hhook, by simp [hcalls, evictedKeys]⟩
  obtain ⟨replies, after, hrun, hreplies, hafter⟩ := hstart.calls hlayers
  refine ⟨after, ?_, hafter.represents, hafter.promises (run_live ops) (run_recent ops)⟩
  rw [hrun, run, hreplies, nil_append]

/-- Two slots, both pinned: a soft request is turned down, a hard one evicts the older page. -/
theorem calls_refine_lru_pinned :
    ∃ cache after, create 2 true id id = .ok cache ∧
      calls cache [.acquire false (3, 1), .acquire false (3, 2), .lookup (3, 1), .pin (3, 1), .pin (3, 2),
          .acquire true (3, 4), .acquire false (3, 4), .lookup (3, 2)] =
        some ([.acquired (some 0) false, .acquired (some 1) false, .frame (some 0), .pinned true, .pinned true,
          .acquired none false, .acquired (some 1) false, .frame none], after) ∧
      after.evictCalls.map (fun page => (page.1.toUInt32, page.2)) = [(3, 2)] ∧
      Promises true (run 2 [.acquire false ((3, 1) : Key), .acquire false (3, 2), .lookup (3, 1), .pin (3, 1),
          .pin (3, 2), .acquire true (3, 4), .acquire false (3, 4), .lookup (3, 2)]).events after := by
  obtain ⟨cache, hcreate⟩ : ∃ cache, create 2 true id id = .ok cache := ⟨_, rfl⟩
  obtain ⟨after, hcalls, -, hpromises⟩ := @calls_refine_lru 2 true id id cache hcreate
    [.acquire false (3, 1), .acquire false (3, 2), .lookup (3, 1), .pin (3, 1), .pin (3, 2), .acquire true (3, 4),
      .acquire false (3, 4), .lookup (3, 2)]
    (by
      intro soft key hkey
      simp only [mem_cons, Op.acquire.injEq, reduceCtorEq, not_mem_nil, or_false, false_or] at hkey
      rcases hkey with ⟨-, rfl⟩ | ⟨-, rfl⟩ | ⟨-, rfl⟩ | ⟨-, rfl⟩ <;> decide)
  exact ⟨cache, after, hcreate, hcalls, hpromises.told, hpromises⟩

end FlashGordon.QsaCache
