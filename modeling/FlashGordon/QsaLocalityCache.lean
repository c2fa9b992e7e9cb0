import FlashGordon.QsaCacheRun
import FlashGordon.QsaLocalityRun

/-! What the tracker counts as hits of a budget is what the page cache of that budget answers. Without pins the cache
is the stack cache: it forgets the page used longest ago. -/

namespace StackDistance

open List

variable {α β : Type*} [DecidableEq α] [DecidableEq β]

theorem map_erase_of_inj {f : α → β} {l : List α} {x : α} (h : ∀ y ∈ l, f y = f x → y = x) :
    (l.erase x).map f = (l.map f).erase (f x) := by
  induction l with
  | nil => rfl
  | cons y rest ih =>
    obtain ⟨hy, hrest⟩ := forall_mem_cons.mp h
    by_cases hyx : y = x
    · rw [hyx, erase_cons_head, map_cons, erase_cons_head]
    · rw [erase_cons_tail (by simpa using hyx), map_cons, map_cons, erase_cons_tail (by simpa using mt hy hyx), ih hrest]

end StackDistance

namespace PinnedLru

open StackDistance List

variable {K : Type*} [DecidableEq K] {capacity : Nat} (soft : Bool)

def Reply.hit : Reply → Bool
  | .acquired _ hit => hit
  | _ => false

/-- The map holds these keys in this order, and has no pin. -/
structure Map.Lists (map : Map K capacity) (keys : List K) : Prop where
  keys : map.entries.map Resident.key = keys
  unpinned : ∀ entry ∈ map.entries, entry.pinned = false

theorem without_key {entries : List (Resident K)} (h : (entries.map Resident.key).Nodup) (key : K) :
    (without key entries).map Resident.key = (entries.map Resident.key).erase key := by
  rw [h.erase_eq_filter, filter_map, without]
  congr 1
  exact filter_congr fun entry _ => by by_cases hkey : entry.key = key <;> simp [hkey]

theorem acquire_lists {map : Map K capacity} {keys : List K} (h : map.Lists keys) (hpos : 0 < capacity) (key : K) :
    (map.acquire soft key).2.Lists ((touch keys key).take capacity) ∧
      (map.acquire soft key).1.hit = decide (key ∈ keys) := by
  obtain ⟨rfl, hunpinned⟩ := h
  have hlength := map.length_le
  cases hfind : map.find? key with
  | some entry =>
    obtain ⟨hentry, rfl⟩ := Map.find?_mem hfind
    have hmem : entry.key ∈ map.entries.map Resident.key := mem_map_of_mem hentry
    rw [Map.acquire_of_find hfind]
    refine ⟨⟨?_, ?_⟩, (decide_eq_true hmem).symm⟩
    · have hfits : (touch (map.entries.map Resident.key) entry.key).length ≤ capacity := by
        rw [touch, length_cons, length_erase_add_one hmem, length_map]
        exact hlength
      rw [take_of_length_le hfits, touch, ← without_key map.keys]
      rfl
    · exact forall_mem_cons.mpr ⟨hunpinned entry hentry, fun other hother => hunpinned other (mem_of_mem_filter hother)⟩
  | none =>
    have hnew := Map.find?_eq_none.mp hfind
    rw [touch, erase_of_not_mem hnew]
    by_cases hroom : map.entries.length < capacity
    · rw [Map.acquire_of_room hfind hroom]
      refine ⟨⟨?_, forall_mem_cons.mpr ⟨rfl, hunpinned⟩⟩, (decide_eq_false hnew).symm⟩
      rw [take_of_length_le (by rw [length_cons, length_map]; exact hroom)]
      rfl
    · have hfull : map.entries.length = capacity := by omega
      cases hvictim : victim? soft map.entries with
      | none =>
        obtain ⟨-, hnone⟩ := victim?_eq_none hvictim (ne_nil_of_length_pos (hfull.symm ▸ hpos))
        obtain ⟨entry, hentry⟩ := exists_mem_of_length_pos (hfull.symm ▸ hpos : 0 < map.entries.length)
        have hpinned := List.find?_eq_none.mp hnone entry (mem_reverse.mpr hentry)
        rw [hunpinned entry hentry] at hpinned
        exact absurd rfl hpinned
      | some victim =>
        obtain ⟨first, second, hsplit, hsecond, -⟩ := victim?_split hvictim
        have hlast : second = [] := eq_nil_iff_forall_not_mem.mpr fun entry hentry => by
          have hpinned := hsecond entry hentry
          rw [hunpinned entry (by simp [hsplit, hentry])] at hpinned
          cases hpinned
        subst hlast
        have hwithout := without_eq_append map.keys hsplit
        rw [Map.acquire_of_victim hfind (Nat.le_of_eq hfull.symm) hvictim]
        refine ⟨⟨?_, ?_⟩, (decide_eq_false hnew).symm⟩
        · show key :: (without victim.key map.entries).map Resident.key = _
          rw [hwithout, hsplit, ← hfull, hsplit]
          simp
        · show ∀ entry ∈ (⟨key, victim.frame, false⟩ :: without victim.key map.entries : List (Resident K)), _
          exact forall_mem_cons.mpr ⟨rfl, fun other hother => hunpinned other (mem_of_mem_filter hother)⟩

theorem run_acquires (hpos : 0 < capacity) {α : Type*} [DecidableEq α] {f : α → K} {refs : List α}
    (h : ∀ x ∈ refs, ∀ y ∈ refs, f x = f y → x = y) :
    let session := run capacity (refs.map fun x => Op.acquire soft (f x))
    session.map.Lists ((cache capacity refs).map f) ∧ session.replies.countP Reply.hit = hits capacity refs := by
  induction refs using List.reverseRecOn with
  | nil => exact ⟨⟨rfl, fun entry hentry => absurd hentry not_mem_nil⟩, rfl⟩
  | append_singleton refs x ih =>
    obtain ⟨hlists, hhits⟩ := ih fun y hy z hz => h y (mem_append_left _ hy) z (mem_append_left _ hz)
    have hinj : ∀ y ∈ cache capacity refs, f y = f x → y = x := fun y hy =>
      h y (mem_append_left _ (mem_stack.mp (mem_of_mem_take (cache_eq capacity refs ▸ hy)))) x (by simp)
    have hmem : f x ∈ (cache capacity refs).map f ↔ x ∈ cache capacity refs :=
      ⟨fun hx => let ⟨y, hy, heq⟩ := mem_map.mp hx; hinj y hy heq ▸ hy, mem_map_of_mem⟩
    obtain ⟨hnext, hhit⟩ := acquire_lists soft hlists hpos (f x)
    have hcache : cache capacity (refs ++ [x]) = (touch (cache capacity refs) x).take capacity := foldl_append
    rw [touch, ← map_erase_of_inj hinj, ← map_cons, ← touch, ← map_take, ← hcache] at hnext
    rw [run, map_append, foldl_append, ← run]
    refine ⟨hnext, ?_⟩
    rw [hits_concat, ← hhits]
    show (_ ++ [Reply.acquired _ _]).countP Reply.hit = _
    rw [countP_append, countP_singleton, Reply.hit, hhit]
    simp only [decide_eq_true_eq, hmem]

end PinnedLru

namespace FlashGordon.QsaLocality

open StackDistance PinnedLru List

/-- The layer and the block of a node. -/
def Config.page (config : Config) (node : Nat) : QsaCache.Key :=
  (.ofNat ((node - 1) / config.maxBlocks * 4 + 3), .ofNat ((node - 1) % config.maxBlocks))

theorem page_layer {config : Config} {node : Nat} (h : node ≠ 0 ∧ node < config.fuel) :
    (node - 1) / config.maxBlocks < 12 ∧ (config.page node).1.toNat = (node - 1) / config.maxBlocks * 4 + 3 := by
  rw [Config.fuel, localityLayerCount] at h
  have hslot : (node - 1) / config.maxBlocks < 12 := Nat.div_lt_of_lt_mul (by omega)
  exact ⟨hslot, UInt32.toNat_ofNat_of_lt' (by simp only [UInt32.size]; omega)⟩

theorem page_injective {config : Config} (hblocks : localityLayerCount * config.maxBlocks < 2 ^ 32) {m n : Nat}
    (hm : m ≠ 0 ∧ m < config.fuel) (hn : n ≠ 0 ∧ n < config.fuel) (h : config.page m = config.page n) : m = n := by
  have hslot : (m - 1) / config.maxBlocks = (n - 1) / config.maxBlocks := by
    have hlayer := congrArg (fun page => page.1.toNat) h
    simp only [(page_layer hm).2, (page_layer hn).2] at hlayer
    omega
  have hblock : (m - 1) % config.maxBlocks = (n - 1) % config.maxBlocks := by
    have hlt : ∀ k, (k - 1) % config.maxBlocks < 2 ^ 32 := fun k =>
      (Nat.mod_lt _ (Nat.pos_of_ne_zero fun hzero => by rw [Config.fuel, hzero] at hm; omega)).trans (by
        rw [localityLayerCount] at hblocks
        omega)
    have hmod := congrArg UInt32.toNat (Prod.mk.inj h).2
    rwa [UInt32.toNat_ofNat_of_lt' (hlt m), UInt32.toNat_ofNat_of_lt' (hlt n)] at hmod
  have hsame := Nat.div_add_mod (m - 1) config.maxBlocks
  rw [hslot, hblock, Nat.div_add_mod] at hsame
  omega

/-- The hits that the tracker has counted for a budget are the hits of the page cache of as many pages, when every page
that was recorded is acquired there in turn. -/
theorem budgetHits_of_pageCache {config : Config} {tracker : Tracker} (hcreate : create config = some tracker)
    (selections : List Selection) {s : System} (hexec : Runs.exec (step config) ⟨tracker, []⟩ selections = some s)
    {i budget : Nat} (hbudget : config.budgetMib[i]? = some budget) {evictHook : Bool} {lruPrev lruNext : Nat → Nat}
    {cache : QsaCache.Cache} (hcache : QsaCache.create (capacityPages budget) evictHook lruPrev lruNext = .ok cache)
    (soft : Bool) :
    ∃ replies after, QsaCache.calls cache ((selections.flatMap config.references).map fun node =>
        .acquire soft (config.page node)) = some (replies, after) ∧
      s.tracker.stats.budgetHits[i]? = some (replies.countP Reply.hit) := by
  obtain ⟨s', hexec', hsound⟩ := exec_sound (create_sound hcreate) selections
  obtain rfl := Option.some.inj (hexec'.symm.trans hexec)
  generalize selections.flatMap config.references = refs at hsound ⊢
  rw [nil_append] at hsound
  have hblocks : localityLayerCount * config.maxBlocks < 2 ^ 32 := by
    rw [create] at hcreate
    split at hcreate
    · cases hcreate
    · omega
  have hrange := hsound.tracked.inRange
  obtain ⟨hempty, hhook, hcalls⟩ := QsaCache.create_represents hcache
  have hstart : QsaCache.Follows evictHook (⟨.empty, [], []⟩ : Session QsaCache.Key (capacityPages budget)) cache :=
    ⟨hempty, hhook, by simp [hcalls, QsaCache.evictedKeys]⟩
  have hlayers : ∀ soft' key, Op.acquire soft' key ∈ refs.map (fun node => Op.acquire soft (config.page node)) →
      key.1 < 256 := by
    intro soft' key hkey
    obtain ⟨node, hnode, hop⟩ := mem_map.mp hkey
    cases hop
    obtain ⟨hslot, hlayer⟩ := page_layer (hrange node hnode)
    rw [UInt32.lt_iff_toNat_lt, hlayer]
    show _ < 256
    omega
  obtain ⟨replies, after, hrun, hreplies, -⟩ := hstart.calls hlayers
  refine ⟨replies, after, hrun, ?_⟩
  have hacquires := (run_acquires soft hempty.positive fun m hm n hn =>
    page_injective hblocks (hrange m hm) (hrange n hn)).2
  rw [nil_append] at hreplies
  rw [hsound.tracked.hits, getElem?_map, hbudget, Option.map_some, ← hacquires, ← hreplies]
  rfl

theorem budgetHits_of_pageCache_again :
    let selections : List Selection := [⟨3, 16, [0, 1, 1]⟩, ⟨7, 16, [2]⟩, ⟨3, 16, [1, 0]⟩]
    ∃ s cache replies after, QsaCache.create (capacityPages 1) false id id = .ok cache ∧
      QsaCache.calls cache ((selections.flatMap (Config.references ⟨4, 4, [1], 0⟩)).map fun node =>
        .acquire true (Config.page ⟨4, 4, [1], 0⟩ node)) = some (replies, after) ∧
      Runs.exec (step ⟨4, 4, [1], 0⟩) ⟨.zero ⟨4, 4, [1], 0⟩, []⟩ selections = some s ∧
      s.tracker.stats.budgetHits[0]? = some (replies.countP Reply.hit) := by
  intro selections
  have hcreate : create ⟨4, 4, [1], 0⟩ = some (.zero ⟨4, 4, [1], 0⟩) := rfl
  obtain ⟨s, hexec, -⟩ := exec_sound (create_sound hcreate) selections
  obtain ⟨cache, hcache⟩ : ∃ cache, QsaCache.create (capacityPages 1) false id id = .ok cache := ⟨_, rfl⟩
  obtain ⟨replies, after, hcalls, hhits⟩ := budgetHits_of_pageCache hcreate selections hexec (i := 0) rfl hcache true
  exact ⟨s, cache, replies, after, hcache, hcalls, hexec, hhits⟩

end FlashGordon.QsaLocality
