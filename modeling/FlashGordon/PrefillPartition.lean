import FlashGordon.PrefillBatch
import FlashGordon.Checks
import FlashGordon.Buckets
import FlashGordon.FirstSeen
import Mathlib.Algebra.Order.BigOperators.Group.List

/-!
`fg_partition_prefill_routes` over the storage it is given. The pairs of every rank are counted while
they are checked, the routes are laid out over the pair storage by these counts, and a second pass over
the pairs writes each at the cursor of its route. What the routes list is what `partitionPrefillRoutes`
returns.
-/

namespace FlashGordon.Prefill

open Checks Buckets FirstSeen Shares List

structure RouteSlice where
  destinationRank : Nat
  pairCount : Nat
  first : Nat

def RouteSlice.read (slice : RouteSlice) (storage : Nat → PrefillPair) : List PrefillPair :=
  (List.range slice.pairCount).map fun i => storage (slice.first + i)

structure Layout where
  routes : List RouteSlice
  routeForRank : Nat → Option Nat
  used : Nat
  routedMask : List Nat

/-- One slot of the group. A rank outside the fleet has no entry in `counts` and `route_for_rank`. -/
def layoutSlot (counts : Nat → Nat) (s : Layout) (rank : Nat) : Except Halt Layout :=
  if rank ∈ s.routedMask then .ok s
  else if rankCount ≤ rank then .error .overrun
  else if counts rank = 0 then .ok { s with routedMask := s.routedMask ++ [rank] }
  else .ok
    { routes := s.routes ++ [⟨rank, counts rank, s.used⟩]
      routeForRank := Function.update s.routeForRank rank (some s.routes.length)
      used := s.used + counts rank
      routedMask := s.routedMask ++ [rank] }

def layoutSlots (counts : Nat → Nat) : List Nat → Layout → Except Halt Layout
  | [], s => .ok s
  | rank :: rest, s => do layoutSlots counts rest (← layoutSlot counts s rank)

/-- One pair of the second pass: a write into `pairs` past the storage, or to a route there is not, is
outside its array. -/
def writePair (manifest : Manifest) (layer capacity : Nat) (layout : Layout) (s : State Nat PrefillPair)
    (pair : PrefillPair) : Except Halt (State Nat PrefillPair) :=
  match layout.routeForRank (manifest.pairRank layer pair) with
  | none => .error .overrun
  | some route => match layout.routes[route]? with
      | none => .error .overrun
      | some slice =>
        if capacity ≤ slice.first + s.written route then .error .overrun
        else .ok
          { storage := Function.update s.storage (slice.first + s.written route) pair
            written := Function.update s.written route (s.written route + 1) }

def writePairs (manifest : Manifest) (layer capacity : Nat) (layout : Layout) :
    List PrefillPair → State Nat PrefillPair → Except Halt (State Nat PrefillPair)
  | [], s => .ok s
  | pair :: rest, s => do
    writePairs manifest layer capacity layout rest (← writePair manifest layer capacity layout s pair)

/-- How many pairs fall to a rank. -/
def rankPairs (manifest : Manifest) (layer : Nat) (pairs : List PrefillPair) (rank : Nat) : Nat :=
  pairs.countP fun pair => manifest.pairRank layer pair = rank

def partitionChecked (manifest : Manifest) (layer : Nat) (routing : Routing) (capacity : Nat)
    (storage : Nat → PrefillPair) : Except Halt (List RouteSlice × (Nat → PrefillPair)) := do
  let layout ← layoutSlots (rankPairs manifest layer routing.pairs)
    ((List.finRange 4).map (manifest.layerGroups layer)) ⟨[], fun _ => none, 0, []⟩
  refuse (capacity < layout.used) (.error ⟨.limit, "prefill route partition exceeds pair storage"⟩)
  let s ← writePairs manifest layer capacity layout routing.pairs ⟨storage, fun _ => 0⟩
  refuse (∃ i : Fin layout.routes.length, s.written i ≠ layout.routes[i].pairCount)
    (.error ⟨.mismatch, "prefill route partition count mismatch"⟩)
  .ok (layout.routes, s.storage)

/-- `fg_partition_prefill_routes`: the routes, and the pair storage after it. -/
def partitionSlices (manifest : Manifest) (layer : Nat) (routing : Routing) (capacity : Nat)
    (storage : Nat → PrefillPair) : Except Halt (List RouteSlice × (Nat → PrefillPair)) :=
  if layerCount ≤ layer ∨ routing.tokenCount = 0 ∨ prefillMaxTokens < routing.tokenCount ∨
      capacity < routing.tokenCount * topK then
    .error (.error ⟨.argument, "invalid prefill route partition arguments"⟩)
  else match checkRoutes manifest layer [] routing.pairs with
    | .error err => .error (.error err)
    | .ok () => partitionChecked manifest layer routing capacity storage

/-- Where the slice of the k-th rank begins. -/
def offset (counts : Nat → Nat) (ranks : List Nat) (k : Nat) : Nat := ((ranks.take k).map counts).sum

def slicesOf (counts : Nat → Nat) (ranks : List Nat) : List RouteSlice :=
  ranks.mapIdx fun k rank => ⟨rank, counts rank, offset counts ranks k⟩

def liveRanks (counts : Nat → Nat) (ranks : List Nat) : List Nat := (firstSeen ranks).filter fun rank => counts rank ≠ 0

section Layout

variable {counts : Nat → Nat} {ranks : List Nat} {rank : Nat}

theorem offset_append {more : List Nat} {k : Nat} (h : k ≤ ranks.length) :
    offset counts (ranks ++ more) k = offset counts ranks k := by
  rw [offset, take_append_of_le_length h, offset]

theorem offset_length : offset counts ranks ranks.length = (ranks.map counts).sum := by
  rw [offset, take_length]

theorem slicesOf_append_singleton :
    slicesOf counts (ranks ++ [rank]) = slicesOf counts ranks ++ [⟨rank, counts rank, (ranks.map counts).sum⟩] := by
  rw [slicesOf, slicesOf, mapIdx_append, mapIdx_singleton, Nat.zero_add, offset_append (Nat.le_refl _), offset_length]
  congr 1
  refine ext_getElem (by simp) fun k hk _ => ?_
  rw [length_mapIdx] at hk
  rw [getElem_mapIdx, getElem_mapIdx, offset_append hk.le]

theorem length_slicesOf : (slicesOf counts ranks).length = ranks.length := by rw [slicesOf, length_mapIdx]

theorem offset_succ {k : Nat} (hk : k < ranks.length) :
    offset counts ranks (k + 1) = offset counts ranks k + counts ranks[k] := by
  rw [offset, offset, take_succ_eq_append_getElem hk, map_append, sum_append, map_singleton, sum_singleton]

theorem offset_mono {k k' : Nat} (h : k ≤ k') : offset counts ranks k ≤ offset counts ranks k' := by
  rw [offset, offset]
  exact ((take_sublist_take_left h).map counts).sum_le_sum fun _ _ => Nat.zero_le _

/-- What the layout loop has done after some slots of the group. -/
structure LaidOut (counts : Nat → Nat) (done : List Nat) (s : Layout) : Prop where
  routes : s.routes = slicesOf counts (liveRanks counts done)
  routeFor : ∀ rank ∈ liveRanks counts done, s.routeForRank rank = some ((liveRanks counts done).idxOf rank)
  used : s.used = ((liveRanks counts done).map counts).sum
  mask : ∀ rank, rank ∈ s.routedMask ↔ rank ∈ done

theorem LaidOut.slot {done : List Nat} {s : Layout} (h : LaidOut counts done s) (hrank : rank < rankCount) :
    ∃ s', layoutSlot counts s rank = .ok s' ∧ LaidOut counts (done ++ [rank]) s' := by
  rw [layoutSlot]
  by_cases hseen : rank ∈ done
  · have hlive : liveRanks counts (done ++ [rank]) = liveRanks counts done := by
      rw [liveRanks, firstSeen_append_singleton, note, if_pos (mem_firstSeen.mpr hseen), liveRanks]
    refine ⟨s, if_pos ((h.mask rank).mpr hseen), ?_, ?_, ?_, fun other => ?_⟩
    · rw [hlive, h.routes]
    · rw [hlive]
      exact h.routeFor
    · rw [hlive, h.used]
    · rw [h.mask, mem_append, mem_singleton]
      exact ⟨Or.inl, fun hor => hor.elim id fun heq => heq ▸ hseen⟩
  · have hmask (other) : other ∈ s.routedMask ++ [rank] ↔ other ∈ done ++ [rank] := by
      rw [mem_append, mem_append, h.mask]
    rw [if_neg ((h.mask rank).not.mpr hseen), if_neg (Nat.not_le.mpr hrank)]
    have hfirst : firstSeen (done ++ [rank]) = firstSeen done ++ [rank] := by
      rw [firstSeen_append_singleton, note, if_neg (mem_firstSeen.not.mpr hseen)]
    by_cases hzero : counts rank = 0
    · have hlive : liveRanks counts (done ++ [rank]) = liveRanks counts done := by
        rw [liveRanks, hfirst, filter_append, filter_cons_of_neg (by simpa using hzero), filter_nil,
          append_nil, liveRanks]
      refine ⟨_, if_pos hzero, ?_, ?_, ?_, hmask⟩
      · rw [hlive]
        exact h.routes
      · rw [hlive]
        exact h.routeFor
      · rw [hlive]
        exact h.used
    · have hlive : liveRanks counts (done ++ [rank]) = liveRanks counts done ++ [rank] := by
        rw [liveRanks, hfirst, filter_append, filter_cons_of_pos (by simpa using hzero), filter_nil, liveRanks]
      have hnew : rank ∉ liveRanks counts done := fun hmem =>
        hseen (mem_firstSeen.mp (mem_filter.mp hmem).1)
      refine ⟨_, if_neg hzero, ?_, fun other hother => ?_, ?_, hmask⟩
      · rw [hlive, slicesOf_append_singleton, ← h.routes, ← h.used]
      · rw [hlive] at hother ⊢
        rcases mem_append.mp hother with hother | hother
        · refine (Function.update_of_ne (ne_of_mem_of_not_mem hother hnew) _ _).trans ?_
          rw [h.routeFor other hother, idxOf_append_of_mem hother]
        · obtain rfl := mem_singleton.mp hother
          rw [idxOf_append_of_notMem hnew, idxOf_cons_self, h.routes, length_slicesOf]
          exact Function.update_self _ _ _
      · rw [hlive, map_append, sum_append, ← h.used, map_singleton, sum_singleton]

theorem layoutSlots_ok {rest done : List Nat} {s : Layout} (h : LaidOut counts done s)
    (hrest : ∀ rank ∈ rest, rank < rankCount) :
    ∃ s', layoutSlots counts rest s = .ok s' ∧ LaidOut counts (done ++ rest) s' := by
  induction rest generalizing done s with
  | nil => exact ⟨s, rfl, by rwa [append_nil]⟩
  | cons rank rest ih =>
    obtain ⟨s₁, hone, hlaid⟩ := h.slot (hrest rank mem_cons_self)
    obtain ⟨s₂, hrun, hdone⟩ := ih hlaid (forall_mem_cons.mp hrest).2
    refine ⟨s₂, ?_, by rwa [append_cons]⟩
    rw [layoutSlots, hone, ok_bind, hrun]

theorem layoutSlots_inv {rest : List Nat} {s s' : Layout} (hmask : ∀ rank ∈ s.routedMask, rank < rankCount)
    (h : layoutSlots counts rest s = .ok s') : ∀ rank ∈ rest, rank < rankCount := by
  induction rest generalizing s with
  | nil => exact fun rank hrank => nomatch hrank
  | cons rank rest ih =>
    rw [layoutSlots, bind_eq_ok] at h
    obtain ⟨s₁, hone, hrest⟩ := h
    have hstep : rank < rankCount ∧ ∀ other ∈ s₁.routedMask, other < rankCount := by
      rw [layoutSlot] at hone
      by_cases hseen : rank ∈ s.routedMask
      · rw [if_pos hseen] at hone
        cases hone
        exact ⟨hmask rank hseen, hmask⟩
      · rw [if_neg hseen] at hone
        by_cases hout : rankCount ≤ rank
        · rw [if_pos hout] at hone
          nomatch hone
        · rw [if_neg hout] at hone
          have hmask' : s₁.routedMask = s.routedMask ++ [rank] := by
            split at hone <;> cases hone <;> rfl
          refine ⟨Nat.not_le.mp hout, fun other hother => ?_⟩
          rw [hmask'] at hother
          rcases mem_append.mp hother with hother | hother
          · exact hmask other hother
          · exact mem_singleton.mp hother ▸ Nat.not_le.mp hout
    exact forall_mem_cons.mpr ⟨hstep.1, ih hstep.2 hrest⟩

theorem mem_liveRanks : rank ∈ liveRanks counts ranks ↔ rank ∈ ranks ∧ counts rank ≠ 0 := by
  rw [liveRanks, mem_filter, mem_firstSeen, decide_eq_true_eq]

theorem nodup_liveRanks : (liveRanks counts ranks).Nodup := nodup_firstSeen.filter _

/-- How many pairs the k-th slice has room for. -/
def roomFor (counts : Nat → Nat) (ranks : List Nat) (k : Nat) : Nat := (ranks[k]?.map counts).getD 0

theorem roomFor_of_lt {k : Nat} (hk : k < ranks.length) : roomFor counts ranks k = counts ranks[k] := by
  rw [roomFor, List.getElem?_eq_getElem hk]
  rfl

theorem offset_add_roomFor (k : Nat) (hk : 0 < roomFor counts ranks k) :
    offset counts ranks k + roomFor counts ranks k = offset counts ranks (k + 1) := by
  have hlt : k < ranks.length := by
    by_contra hge
    rw [roomFor, List.getElem?_eq_none (Nat.not_lt.mp hge)] at hk
    exact absurd hk (Nat.lt_irrefl 0)
  rw [roomFor_of_lt hlt, offset_succ hlt]

theorem slices_apart : Apart (offset counts ranks) (roomFor counts ranks) := by
  have hlt {k k' i j : Nat} (hkk : k < k') (hi : i < roomFor counts ranks k) :
      offset counts ranks k + i < offset counts ranks k' + j := by
    have hend := offset_add_roomFor k (Nat.zero_lt_of_lt hi)
    have hmono : offset counts ranks (k + 1) ≤ offset counts ranks k' := offset_mono hkk
    omega
  intro k k' hne i hi j hj
  rcases Nat.lt_or_gt_of_ne hne with h | h
  · exact (hlt h hi).ne
  · exact (hlt h hj).ne'

theorem offset_le_sum (k : Nat) : offset counts ranks k ≤ (ranks.map counts).sum := by
  rw [← offset_length]
  rcases Nat.le_total k ranks.length with h | h
  · exact offset_mono h
  · rw [offset, offset, take_of_length_le h, take_length]

end Layout

section Write

variable {manifest : Manifest} {layer : Nat} {pairs : List PrefillPair} {groups : List Nat} {layout : Layout}
  {storage : Nat → PrefillPair} {capacity : Nat}

def routeOf (manifest : Manifest) (layer : Nat) (ranks : List Nat) (pair : PrefillPair) : Nat :=
  ranks.idxOf (manifest.pairRank layer pair)

section

variable (hgroup : ∀ pair ∈ pairs, manifest.pairRank layer pair ∈ groups)
include hgroup

theorem live_of_mem {pair : PrefillPair} (h : pair ∈ pairs) :
    manifest.pairRank layer pair ∈ liveRanks (rankPairs manifest layer pairs) groups := by
  refine mem_liveRanks.mpr ⟨hgroup pair h, fun hzero => ?_⟩
  exact countP_eq_zero.mp hzero pair h (decide_eq_true rfl)

theorem ofKey_routeOf {k : Nat} (hk : k < (liveRanks (rankPairs manifest layer pairs) groups).length) :
    ofKey (routeOf manifest layer (liveRanks (rankPairs manifest layer pairs) groups)) pairs k =
      pairs.filter fun pair => manifest.pairRank layer pair = (liveRanks (rankPairs manifest layer pairs) groups)[k] := by
  refine filter_congr fun pair hpair => decide_eq_decide.mpr ?_
  rw [routeOf]
  constructor
  · intro h
    rw [← getElem_idxOf (idxOf_lt_length_of_mem (live_of_mem hgroup hpair))]
    simp only [h]
  · intro h
    rw [h]
    exact nodup_liveRanks.idxOf_getElem k hk

theorem length_ofKey_routeOf (k : Nat) :
    (ofKey (routeOf manifest layer (liveRanks (rankPairs manifest layer pairs) groups)) pairs k).length =
      roomFor (rankPairs manifest layer pairs) (liveRanks (rankPairs manifest layer pairs) groups) k := by
  by_cases hk : k < (liveRanks (rankPairs manifest layer pairs) groups).length
  · rw [ofKey_routeOf hgroup hk, roomFor_of_lt hk, rankPairs, countP_eq_length_filter]
  · rw [roomFor, List.getElem?_eq_none (Nat.not_lt.mp hk), ofKey, filter_eq_nil_iff.mpr]
    · rfl
    · intro pair hpair
      rw [decide_eq_true_eq]
      exact fun h => hk (h ▸ idxOf_lt_length_of_mem (live_of_mem hgroup hpair))

end

variable {counts : Nat → Nat} {ranks : List Nat}

theorem writePair_ok {s : State Nat PrefillPair} {pair : PrefillPair} (hroutes : layout.routes = slicesOf counts ranks)
    (hfor : layout.routeForRank (manifest.pairRank layer pair) = some (routeOf manifest layer ranks pair))
    (hk : routeOf manifest layer ranks pair < ranks.length)
    (hinside : offset counts ranks (routeOf manifest layer ranks pair) + s.written (routeOf manifest layer ranks pair) < capacity) :
    writePair manifest layer capacity layout s pair =
      .ok (put (routeOf manifest layer ranks) (offset counts ranks) s pair) := by
  have hslice : layout.routes[routeOf manifest layer ranks pair]? =
      some ⟨ranks[routeOf manifest layer ranks pair], counts ranks[routeOf manifest layer ranks pair],
        offset counts ranks (routeOf manifest layer ranks pair)⟩ := by
    rw [hroutes, slicesOf, List.getElem?_mapIdx, List.getElem?_eq_getElem hk]
    rfl
  simp only [writePair, hfor, hslice, if_neg (Nat.not_le.mpr hinside)]
  rfl

theorem writePairs_ok (hroutes : layout.routes = slicesOf counts ranks)
    (hfor : ∀ pair ∈ pairs, layout.routeForRank (manifest.pairRank layer pair) = some (routeOf manifest layer ranks pair))
    (hlt : ∀ pair ∈ pairs, routeOf manifest layer ranks pair < ranks.length)
    (hcount : ∀ k, (ofKey (routeOf manifest layer ranks) pairs k).length = roomFor counts ranks k)
    (hcap : (ranks.map counts).sum ≤ capacity) (rest done : List PrefillPair) (hsplit : done ++ rest = pairs) :
    writePairs manifest layer capacity layout rest
      (run (routeOf manifest layer ranks) (offset counts ranks) storage done) =
      .ok (run (routeOf manifest layer ranks) (offset counts ranks) storage pairs) := by
  induction rest generalizing done with
  | nil =>
    rw [append_nil] at hsplit
    rw [hsplit]
    rfl
  | cons pair rest ih =>
    have hpair : pair ∈ pairs := hsplit ▸ mem_append_right _ mem_cons_self
    -- the cursor of the route has passed fewer pairs than were counted for it
    have hcursor : (run (routeOf manifest layer ranks) (offset counts ranks) storage done).written
        (routeOf manifest layer ranks pair) < roomFor counts ranks (routeOf manifest layer ranks pair) := by
      rw [← hcount, run_written, ← hsplit, append_cons, ofKey, ofKey, filter_append]
      have hone := congrArg List.length (@ofKey_append_singleton Nat PrefillPair _ (routeOf manifest layer ranks) done
        pair (routeOf manifest layer ranks pair))
      rw [if_pos rfl, ofKey, ofKey, length_append, length_singleton] at hone
      rw [length_append, hone]
      exact Nat.lt_of_lt_of_le (Nat.lt_succ_self _) (Nat.le_add_right _ _)
    have hend := offset_add_roomFor _ (Nat.zero_lt_of_lt hcursor)
    have hsum := @offset_le_sum counts ranks (routeOf manifest layer ranks pair + 1)
    have hinside : offset counts ranks (routeOf manifest layer ranks pair) +
        (run (routeOf manifest layer ranks) (offset counts ranks) storage done).written
          (routeOf manifest layer ranks pair) < capacity := by omega
    have hstep := writePair_ok hroutes (hfor pair hpair) (hlt pair hpair) hinside
    rw [writePairs, hstep, ok_bind, ← run_append_singleton]
    exact ih (done ++ [pair]) ((append_cons done pair rest).symm.trans hsplit)

/-- What the routes say of the storage: the slices of the ranks that have pairs, each with its pairs in
the order of the routing. -/
structure Partitioned (manifest : Manifest) (layer : Nat) (pairs : List PrefillPair) (groups : List Nat)
    (slices : List RouteSlice) (storage storage' : Nat → PrefillPair) : Prop where
  slices_eq : slices = slicesOf (rankPairs manifest layer pairs) (liveRanks (rankPairs manifest layer pairs) groups)
  read : ∀ slice ∈ slices, slice.read storage' =
    pairs.filter fun pair => manifest.pairRank layer pair = slice.destinationRank
  frame : ∀ i, pairs.length ≤ i → storage' i = storage i

theorem sum_rankPairs (hgroup : ∀ pair ∈ pairs, manifest.pairRank layer pair ∈ groups) :
    ((liveRanks (rankPairs manifest layer pairs) groups).map (rankPairs manifest layer pairs)).sum = pairs.length := by
  have hperm := flatMap_filter_key_perm (manifest.pairRank layer)
    (@nodup_liveRanks (rankPairs manifest layer pairs) groups) pairs
  rw [filter_eq_self.mpr fun pair hpair => decide_eq_true (live_of_mem hgroup hpair)] at hperm
  rw [← hperm.length_eq, length_flatMap]
  congr 1
  exact map_congr_left fun rank _ => countP_eq_length_filter

/-- The storage and the cursors after the second pass. -/
def filled (manifest : Manifest) (layer : Nat) (pairs : List PrefillPair) (groups : List Nat)
    (storage : Nat → PrefillPair) : State Nat PrefillPair :=
  run (routeOf manifest layer (liveRanks (rankPairs manifest layer pairs) groups))
    (offset (rankPairs manifest layer pairs) (liveRanks (rankPairs manifest layer pairs) groups)) storage pairs

theorem filled_written (hgroup : ∀ pair ∈ pairs, manifest.pairRank layer pair ∈ groups) (k : Nat) :
    (filled manifest layer pairs groups storage).written k =
      roomFor (rankPairs manifest layer pairs) (liveRanks (rankPairs manifest layer pairs) groups) k :=
  (run_written k).trans (length_ofKey_routeOf hgroup k)

theorem mem_slicesOf {slice : RouteSlice} : slice ∈ slicesOf counts ranks ↔
    ∃ k, ∃ h : k < ranks.length, slice = ⟨ranks[k], counts ranks[k], offset counts ranks k⟩ := by
  rw [slicesOf, mem_mapIdx]
  exact exists_congr fun k => exists_congr fun _ => eq_comm

theorem roomFor_of_slices {routes : List RouteSlice} (h : routes = slicesOf counts ranks) {k : Nat} (hk : k < routes.length) :
    roomFor counts ranks k = routes[k].pairCount := by
  subst h
  simp only [slicesOf, getElem_mapIdx]
  rw [length_slicesOf] at hk
  exact roomFor_of_lt hk

theorem partitioned_filled (hgroup : ∀ pair ∈ pairs, manifest.pairRank layer pair ∈ groups) :
    Partitioned manifest layer pairs groups
      (slicesOf (rankPairs manifest layer pairs) (liveRanks (rankPairs manifest layer pairs) groups)) storage
      (filled manifest layer pairs groups storage).storage where
  slices_eq := rfl
  read := by
    intro slice hslice
    obtain ⟨k, hk, rfl⟩ := mem_slicesOf.mp hslice
    have hroom (k) := (length_ofKey_routeOf hgroup k).le
    have hread := @run_read Nat PrefillPair _ _ _ storage pairs _ slices_apart hroom k
    rw [length_ofKey_routeOf hgroup k, roomFor_of_lt hk, ofKey_routeOf hgroup hk] at hread
    exact hread
  frame := by
    intro i hi
    refine run_frame fun k j hj => ?_
    rw [length_ofKey_routeOf hgroup k] at hj
    have hend := offset_add_roomFor k (Nat.zero_lt_of_lt hj)
    have hsum := (offset_le_sum (k + 1)).trans (sum_rankPairs hgroup).le
    omega

theorem partitionChecked_ok {routing : Routing} (hfleet : ∀ i, manifest.layerGroups layer i < rankCount)
    (hgroup : ∀ pair ∈ routing.pairs, manifest.pairRank layer pair ∈ (List.finRange 4).map (manifest.layerGroups layer))
    (hcap : routing.pairs.length ≤ capacity) :
    ∃ slices storage', partitionChecked manifest layer routing capacity storage = .ok (slices, storage') ∧
      Partitioned manifest layer routing.pairs ((List.finRange 4).map (manifest.layerGroups layer)) slices storage
        storage' := by
  have hstart : LaidOut (rankPairs manifest layer routing.pairs) [] ⟨[], fun _ => none, 0, []⟩ :=
    ⟨rfl, (fun _ hrank => nomatch hrank), rfl, fun _ => Iff.rfl⟩
  have hranks : ∀ rank ∈ (List.finRange 4).map (manifest.layerGroups layer), rank < rankCount := by
    intro rank hrank
    obtain ⟨i, -, rfl⟩ := mem_map.mp hrank
    exact hfleet i
  obtain ⟨layout, hlayout, hlaid⟩ := layoutSlots_ok hstart hranks
  have hsum := sum_rankPairs hgroup
  have hused : layout.used = routing.pairs.length := hlaid.used.trans hsum
  have hwrites : writePairs manifest layer capacity layout routing.pairs ⟨storage, fun _ => 0⟩ =
      .ok (filled manifest layer routing.pairs ((List.finRange 4).map (manifest.layerGroups layer)) storage) :=
    writePairs_ok hlaid.routes (fun pair hpair => hlaid.routeFor _ (live_of_mem hgroup hpair))
      (fun pair hpair => idxOf_lt_length_of_mem (live_of_mem hgroup hpair))
      (length_ofKey_routeOf hgroup) (hsum.trans_le hcap) routing.pairs [] rfl
  refine ⟨layout.routes, _, ?_, hlaid.routes ▸ partitioned_filled hgroup⟩
  rw [partitionChecked, hlayout, ok_bind, refuse_eq_ok.mpr (Nat.not_lt.mpr (hused.trans_le hcap)), ok_bind, hwrites, ok_bind,
    refuse_eq_ok.mpr, ok_bind]
  rintro ⟨⟨k, hk⟩, hne⟩
  exact hne ((filled_written hgroup k).trans (roomFor_of_slices hlaid.routes hk))

end Write

section Accepted

variable {manifest : Manifest} {layer capacity : Nat} {routing : Routing} {storage : Nat → PrefillPair}

/-- Two pairs of one token do not name one expert. -/
def PrefillPair.Differ (pair other : PrefillPair) : Prop :=
  ¬ (pair.tokenSlot = other.tokenSlot ∧ pair.expertId = other.expertId)

theorem checkRoutes_inv {before pairs : List PrefillPair} (h : checkRoutes manifest layer before pairs = .ok ())
    (hbefore : before.Pairwise PrefillPair.Differ) :
    (∀ pair ∈ pairs, pair.expertId < expertCount ∧ pair.gate.isFinite = true ∧
      rankInLayer manifest layer (manifest.pairRank layer pair) = true) ∧
    (before ++ pairs).Pairwise PrefillPair.Differ := by
  induction pairs generalizing before with
  | nil => exact ⟨fun _ hpair => absurd hpair not_mem_nil, by rwa [append_nil]⟩
  | cons pair rest ih =>
    unfold checkRoutes at h
    by_cases hbad : expertCount ≤ pair.expertId ∨ pair.gate.isFinite = false ∨
        (before.any fun other => other.tokenSlot = pair.tokenSlot ∧ other.expertId = pair.expertId) = true
    · rw [if_pos hbad] at h
      cases h
    · rw [if_neg hbad] at h
      obtain ⟨hexpert, hgate, hnew⟩ : pair.expertId < expertCount ∧ pair.gate.isFinite = true ∧
          ∀ other ∈ before, other.Differ pair := by
        simpa [PrefillPair.Differ] using hbad
      by_cases hrank : rankInLayer manifest layer (manifest.pairRank layer pair) = false
      · rw [if_pos hrank] at h
        cases h
      · rw [if_neg hrank] at h
        have hnext : (before ++ [pair]).Pairwise PrefillPair.Differ :=
          pairwise_append.mpr ⟨hbefore, pairwise_singleton _ _, fun other hother last hlast =>
            mem_singleton.mp hlast ▸ hnew other hother⟩
        obtain ⟨hrest, hall⟩ := ih h hnext
        rw [← append_cons] at hall
        exact ⟨forall_mem_cons.mpr ⟨⟨hexpert, hgate, Bool.not_eq_false _ ▸ hrank⟩, hrest⟩, hall⟩

theorem mem_groups_of_rankInLayer {rank : Nat} (h : rankInLayer manifest layer rank = true) :
    rank ∈ (List.finRange 4).map (manifest.layerGroups layer) := by
  rw [rankInLayer, decide_eq_true_eq] at h
  obtain ⟨i, hi⟩ := h.2.2
  exact hi ▸ mem_map_of_mem (mem_finRange i)

theorem map_slicesOf {β : Type} (counts : Nat → Nat) (ranks : List Nat) (f : Nat → β) :
    (slicesOf counts ranks).map (fun slice => f slice.destinationRank) = ranks.map f := by
  refine ext_getElem (by rw [length_map, length_map, length_slicesOf]) fun k _ _ => ?_
  rw [getElem_map, getElem_map]
  simp only [slicesOf, getElem_mapIdx]

theorem filterMap_routes (pairs : List PrefillPair) (ranks : List Nat) :
    (ranks.filterMap fun rank => match pairs.filter fun pair => manifest.pairRank layer pair = rank with
      | [] => none
      | pairs => some (PrefillRoute.mk rank pairs)) =
    (ranks.filter fun rank => rankPairs manifest layer pairs rank ≠ 0).map fun rank =>
      PrefillRoute.mk rank (pairs.filter fun pair => manifest.pairRank layer pair = rank) := by
  induction ranks with
  | nil => rfl
  | cons rank rest ih =>
    have hcount : rankPairs manifest layer pairs rank =
        (pairs.filter fun pair => manifest.pairRank layer pair = rank).length := countP_eq_length_filter
    rw [filterMap_cons, filter_cons, ih, hcount]
    cases hrank : pairs.filter fun pair => manifest.pairRank layer pair = rank with
    | nil => rfl
    | cons first more =>
      have hne : decide ((first :: more).length ≠ 0) = true := decide_eq_true (Nat.succ_ne_zero _)
      rw [if_pos hne, map_cons, hrank]

theorem Partitioned.routes {slices : List RouteSlice} {storage' : Nat → PrefillPair}
    (h : Partitioned manifest layer routing.pairs ((List.finRange 4).map (manifest.layerGroups layer)) slices storage storage') :
    slices.map (fun slice => PrefillRoute.mk slice.destinationRank (slice.read storage')) =
      (groupRanks manifest layer).filterMap fun rank =>
        match routing.pairs.filter fun pair => manifest.pairRank layer pair = rank with
        | [] => none
        | pairs => some ⟨rank, pairs⟩ := by
  rw [filterMap_routes, groupRanks, eraseDups_eq_firstSeen]
  calc slices.map (fun slice => PrefillRoute.mk slice.destinationRank (slice.read storage'))
      = slices.map fun slice => PrefillRoute.mk slice.destinationRank
          (routing.pairs.filter fun pair => manifest.pairRank layer pair = slice.destinationRank) :=
        map_congr_left fun slice hslice => by rw [h.read slice hslice]
    _ = _ := by
        rw [h.slices_eq]
        exact map_slicesOf _ _ fun rank =>
          PrefillRoute.mk rank (routing.pairs.filter fun pair => manifest.pairRank layer pair = rank)

/-- For a group inside the fleet and a storage for all pairs the partition over the storage is the one
into lists: it fails as that fails, and its routes list what that returns. -/
theorem partitionSlices_refines (hfleet : ∀ i, manifest.layerGroups layer i < rankCount)
    (hcap : routing.tokenCount * topK ≤ capacity) :
    (∀ err, partitionPrefillRoutes manifest layer routing = .error err →
      partitionSlices manifest layer routing capacity storage = .error (.error err)) ∧
    ∀ routes, partitionPrefillRoutes manifest layer routing = .ok routes →
      ∃ slices storage', partitionSlices manifest layer routing capacity storage = .ok (slices, storage') ∧
        Partitioned manifest layer routing.pairs ((List.finRange 4).map (manifest.layerGroups layer)) slices storage storage' ∧
        slices.map (fun slice => PrefillRoute.mk slice.destinationRank (slice.read storage')) = routes := by
  rw [partitionPrefillRoutes, partitionSlices]
  by_cases hargs : layerCount ≤ layer ∨ routing.tokenCount = 0 ∨ prefillMaxTokens < routing.tokenCount
  · rw [if_pos hargs, if_pos (by tauto)]
    refine ⟨fun err herr => ?_, fun routes hroutes => by cases hroutes⟩
    cases herr
    rfl
  · rw [if_neg hargs, if_neg (by omega)]
    cases hcheck : checkRoutes manifest layer [] routing.pairs with
    | error err =>
      refine ⟨fun err' herr => ?_, fun routes hroutes => by cases hroutes⟩
      cases herr
      rfl
    | ok u =>
      refine ⟨fun err herr => (by cases herr), fun routes hroutes => ?_⟩
      obtain ⟨hpairs, -⟩ := checkRoutes_inv hcheck List.Pairwise.nil
      obtain ⟨slices, storage', hrun, hparts⟩ := @partitionChecked_ok manifest layer storage capacity routing hfleet
        (fun pair hpair => mem_groups_of_rankInLayer (hpairs pair hpair).2.2)
        (by rwa [Routing.length_pairs])
      cases hroutes
      exact ⟨slices, storage', hrun, hparts, hparts.routes⟩

theorem partitionSlices_inv {slices : List RouteSlice} {storage' : Nat → PrefillPair}
    (h : partitionSlices manifest layer routing capacity storage = .ok (slices, storage')) :
    layer < layerCount ∧ 0 < routing.tokenCount ∧ routing.tokenCount * topK ≤ capacity ∧
      checkRoutes manifest layer [] routing.pairs = .ok () ∧ (∀ i, manifest.layerGroups layer i < rankCount) ∧
      Partitioned manifest layer routing.pairs ((List.finRange 4).map (manifest.layerGroups layer)) slices storage storage' := by
  rw [partitionSlices] at h
  by_cases hargs : layerCount ≤ layer ∨ routing.tokenCount = 0 ∨ prefillMaxTokens < routing.tokenCount ∨
      capacity < routing.tokenCount * topK
  · rw [if_pos hargs] at h
    nomatch h
  · rw [if_neg hargs] at h
    cases hcheck : checkRoutes manifest layer [] routing.pairs with
    | error err =>
      rw [hcheck] at h
      nomatch h
    | ok u =>
      rw [hcheck] at h
      obtain ⟨hpairs, -⟩ := checkRoutes_inv hcheck List.Pairwise.nil
      have hfleet : ∀ i, manifest.layerGroups layer i < rankCount := by
        rw [partitionChecked, bind_eq_ok] at h
        obtain ⟨layout, hlayout, -⟩ := h
        exact fun i => layoutSlots_inv (fun _ hrank => absurd hrank not_mem_nil) hlayout _
          (mem_map_of_mem (mem_finRange i))
      have hcap : routing.pairs.length ≤ capacity := by
        rw [Routing.length_pairs]
        omega
      obtain ⟨slices', storage'', hrun, hparts⟩ := @partitionChecked_ok manifest layer storage capacity routing hfleet
        (fun pair hpair => mem_groups_of_rankInLayer (hpairs pair hpair).2.2) hcap
      obtain ⟨rfl, rfl⟩ := Prod.mk.inj (Except.ok.inj (h.symm.trans hrun))
      exact ⟨by omega, by omega, by omega, rfl, hfleet, hparts⟩

end Accepted

end FlashGordon.Prefill
