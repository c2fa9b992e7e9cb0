import FlashGordon.PrefillPartition
import FlashGordon.PrefillRoute

/-!
`fg_partition_route`, which partitions the routing of one token: a route is added when the first expert
of its rank comes. It lists for every rank what the partition of a whole batch lists for it at the token,
and says where an expert is in the shard of its rank.
-/

namespace FlashGordon.Prefill

open Checks FirstSeen Shares List

structure RouteEntry where
  globalExpert : Nat
  localExpert : Nat
  routingSlot : Nat
  gate : Binary32

structure ExpertRoute where
  destinationRank : Nat
  selected : List RouteEntry

def localExpert (manifest : Manifest) (layer expert : Nat) : Nat :=
  (List.range expert).countP fun e => manifest.expertRank layer e = manifest.expertRank layer expert

def selectExpert (rank : Nat) (entry : RouteEntry) (routes : List ExpertRoute) : Except Error (List ExpertRoute) :=
  let ri := routes.findIdx fun route => route.destinationRank = rank
  if ri = routes.length ∧ groupSize ≤ routes.length then .error ⟨.limit, "route exceeds layer group"⟩
  else
    let routes := if ri = routes.length then routes ++ [⟨rank, []⟩] else routes
    if topK ≤ (routes.getD ri ⟨rank, []⟩).selected.length then .error ⟨.limit, "too many destination routes"⟩
    else if expertCount ≤ entry.localExpert then
      .error ⟨.mismatch, s!"expert {entry.globalExpert} local index exceeds rank shard"⟩
    else .ok (routes.modify ri fun route => { route with selected := route.selected ++ [entry] })

section Model

variable (manifest : Manifest) (layer : Nat) (ids : Nat → Nat) (gates : Nat → Binary32)

def rankOf (slot : Nat) : Nat := manifest.expertRank layer (ids slot)

def entryOf (slot : Nat) : RouteEntry := ⟨ids slot, localExpert manifest layer (ids slot), slot, gates slot⟩

def partitionSlots : List Nat → List Nat → List ExpertRoute → Except Error (List ExpertRoute)
  | [], _, routes => .ok routes
  | slot :: rest, seen, routes =>
    if expertCount ≤ ids slot ∨ ids slot ∈ seen ∨ (gates slot).isFinite = false then
      .error ⟨.format, s!"invalid routed expert at slot {slot}"⟩
    else if rankInLayer manifest layer (rankOf manifest layer ids slot) = false then
      .error ⟨.mismatch, s!"expert {ids slot} is outside layer {layer} group"⟩
    else do
      let routes ← selectExpert (rankOf manifest layer ids slot) (entryOf manifest layer ids gates slot) routes
      partitionSlots rest (seen ++ [ids slot]) routes

/-- `fg_partition_route`. -/
def partitionRoute : Except Error (List ExpertRoute) :=
  if layerCount ≤ layer then .error ⟨.argument, "invalid route partition arguments"⟩
  else partitionSlots manifest layer ids gates (List.range topK) [] []

def routeFor (slots : List Nat) (rank : Nat) : ExpertRoute :=
  ⟨rank, (slots.filter fun slot => rankOf manifest layer ids slot = rank).map (entryOf manifest layer ids gates)⟩

def grouped (slots : List Nat) : List ExpertRoute :=
  (firstSeen (slots.map (rankOf manifest layer ids))).map (routeFor manifest layer ids gates slots)

end Model

theorem modify_map_idxOf {α β : Type} [DecidableEq α] {keys : List α} {key : α} (f : α → β) (g : β → β)
    (hnodup : keys.Nodup) :
    (keys.map f).modify (keys.idxOf key) g = keys.map fun k => if k = key then g (f k) else f k := by
  refine ext_getElem (by simp) fun i hi _ => ?_
  rw [length_modify, length_map] at hi
  rw [getElem_modify, getElem_map, getElem_map]
  by_cases h : keys[i] = key
  · rw [if_pos h, if_pos]
    rw [← h]
    exact hnodup.idxOf_getElem i hi
  · rw [if_neg h, if_neg]
    intro hidx
    subst hidx
    exact h (getElem_idxOf hi)

section Grouped

variable {manifest : Manifest} {layer : Nat} {ids : Nat → Nat} {gates : Nat → Binary32} {done : List Nat} {slot : Nat}

theorem findIdx_routes (f : Nat → ExpertRoute) (hf : ∀ rank, (f rank).destinationRank = rank) (ranks : List Nat) (rank : Nat) :
    (ranks.map f).findIdx (fun route => route.destinationRank = rank) = ranks.idxOf rank := by
  rw [findIdx_map, List.idxOf]
  congr 1
  funext other
  rw [Function.comp_apply, hf]
  rfl

theorem note_routes {ranks : List Nat} {rank : Nat} (f : Nat → ExpertRoute) (hnew : rank ∉ ranks → f rank = ⟨rank, []⟩) :
    (if ranks.idxOf rank = (ranks.map f).length then ranks.map f ++ [⟨rank, []⟩] else ranks.map f) =
      (note ranks rank).map f ∧ (note ranks rank).idxOf rank = ranks.idxOf rank ∧ rank ∈ note ranks rank := by
  rw [length_map]
  by_cases h : rank ∈ ranks
  · rw [if_neg (idxOf_lt_length_of_mem h).ne, note, if_pos h]
    exact ⟨rfl, rfl, h⟩
  · rw [if_pos (idxOf_eq_length_iff.mpr h), note, if_neg h, map_append, map_singleton, hnew h,
      idxOf_append_of_notMem h, idxOf_cons_self, idxOf_eq_length_iff.mpr h]
    exact ⟨rfl, rfl, mem_append_right _ mem_cons_self⟩

theorem routeFor_append (rank : Nat) : routeFor manifest layer ids gates (done ++ [slot]) rank =
    if rank = rankOf manifest layer ids slot then
      { routeFor manifest layer ids gates done rank with
        selected := (routeFor manifest layer ids gates done rank).selected ++ [entryOf manifest layer ids gates slot] }
    else routeFor manifest layer ids gates done rank := by
  rw [routeFor, filter_append]
  by_cases h : rankOf manifest layer ids slot = rank
  · rw [filter_cons_of_pos (by rwa [decide_eq_true_eq]), if_pos h.symm, filter_nil, map_append]
    rfl
  · rw [filter_cons_of_neg (by rwa [decide_eq_true_eq]), if_neg (Ne.symm h), filter_nil, append_nil]
    rfl

theorem selectExpert_grouped (hroom : (firstSeen ((done ++ [slot]).map (rankOf manifest layer ids))).length ≤ groupSize)
    (hslots : done.length < topK) (hexpert : ids slot < expertCount) :
    selectExpert (rankOf manifest layer ids slot) (entryOf manifest layer ids gates slot)
      (grouped manifest layer ids gates done) = .ok (grouped manifest layer ids gates (done ++ [slot])) := by
  have hnew : rankOf manifest layer ids slot ∉ firstSeen (done.map (rankOf manifest layer ids)) →
      routeFor manifest layer ids gates done (rankOf manifest layer ids slot) = ⟨rankOf manifest layer ids slot, []⟩ := by
    intro h
    have hnone : (done.filter fun s => rankOf manifest layer ids s = rankOf manifest layer ids slot) = [] := by
      refine filter_eq_nil_iff.mpr fun s hs heq => h ?_
      exact mem_firstSeen.mpr (mem_map.mpr ⟨s, hs, of_decide_eq_true heq⟩)
    rw [routeFor, hnone, map_nil]
  obtain ⟨hroutes, hidx, hmem⟩ := note_routes (routeFor manifest layer ids gates done) hnew
  rw [map_append, map_singleton, firstSeen_append_singleton] at hroom
  have hplace := idxOf_lt_length_of_mem hmem
  rw [hidx] at hplace
  rw [selectExpert, grouped, findIdx_routes _ (fun _ => rfl), hroutes, if_neg, if_neg, if_neg]
  · rw [← hidx, modify_map_idxOf _ _ (nodup_note nodup_firstSeen), grouped, map_append, map_singleton,
      firstSeen_append_singleton]
    exact congrArg Except.ok (map_congr_left fun rank _ => (routeFor_append rank).symm)
  · exact Nat.not_le.mpr ((countP_le_length.trans (length_range).le).trans_lt hexpert)
  · have hentries : ((routeFor manifest layer ids gates done (rankOf manifest layer ids slot)).selected).length < topK := by
      rw [routeFor, length_map]
      exact (length_filter_le _ _).trans_lt hslots
    have hroute := List.getElem?_eq_getElem hplace
    simp only [← hidx, getElem_idxOf] at hroute
    rw [getD_eq_getElem?_getD, List.getElem?_map, ← hidx, hroute]
    exact Nat.not_le.mpr hentries
  · rintro ⟨hend, hfull⟩
    omega

theorem few_ranks {slots : List Nat} (h : ∀ s ∈ slots, rankInLayer manifest layer (rankOf manifest layer ids s) = true) :
    (firstSeen (slots.map (rankOf manifest layer ids))).length ≤ groupSize := by
  have hsub : firstSeen (slots.map (rankOf manifest layer ids)) ⊆ (List.finRange 4).map (manifest.layerGroups layer) := by
    intro rank hrank
    obtain ⟨s, hs, rfl⟩ := mem_map.mp (mem_firstSeen.mp hrank)
    exact mem_groups_of_rankInLayer (h s hs)
  have hlen := (nodup_firstSeen.subperm hsub).length_le
  rwa [length_map, length_finRange] at hlen

theorem partitionSlots_ok (rest done : List Nat) (hslots : (done ++ rest).length ≤ topK)
    (hexpert : ∀ s ∈ rest, ids s < expertCount ∧ (gates s).isFinite = true)
    (hgroup : ∀ s ∈ done ++ rest, rankInLayer manifest layer (rankOf manifest layer ids s) = true)
    (hdiffer : ((done ++ rest).map ids).Nodup) :
    partitionSlots manifest layer ids gates rest (done.map ids) (grouped manifest layer ids gates done) =
      .ok (grouped manifest layer ids gates (done ++ rest)) := by
  induction rest generalizing done with
  | nil => rw [append_nil]; rfl
  | cons slot rest ih =>
    obtain ⟨hid, hgate⟩ := hexpert slot mem_cons_self
    have hnew : ids slot ∉ done.map ids := fun h => by
      rw [map_append, map_cons] at hdiffer
      exact disjoint_of_nodup_append hdiffer h mem_cons_self
    rw [append_cons] at hslots hgroup hdiffer ⊢
    have hroom : (firstSeen ((done ++ [slot]).map (rankOf manifest layer ids))).length ≤ groupSize :=
      few_ranks fun s hs => hgroup s (mem_append_left rest hs)
    have hlength : done.length < topK := by
      simp only [length_append, length_singleton] at hslots
      omega
    rw [partitionSlots, if_neg, if_neg, selectExpert_grouped hroom hlength hid, ok_bind]
    · have hseen : done.map ids ++ [ids slot] = (done ++ [slot]).map ids := by
        rw [map_append, map_singleton]
      rw [hseen]
      exact ih (done ++ [slot]) hslots (forall_mem_cons.mp hexpert).2 hgroup hdiffer
    · rw [hgroup slot (by simp)]
      exact Bool.noConfusion
    · rintro (hout | hseen | hinfinite)
      · exact hout.not_gt hid
      · exact hnew hseen
      · rw [hgate] at hinfinite
        nomatch hinfinite

theorem localExpert_injective {e e' : Nat} (hrank : manifest.expertRank layer e = manifest.expertRank layer e')
    (h : localExpert manifest layer e = localExpert manifest layer e') : e = e' := by
  have hstep {a b : Nat} (hrank : manifest.expertRank layer a = manifest.expertRank layer b) (hlt : a < b) :
      localExpert manifest layer a < localExpert manifest layer b := by
    rw [localExpert, localExpert, hrank]
    have hone : (List.range (a + 1)).countP (fun e => manifest.expertRank layer e = manifest.expertRank layer b) ≤
        (List.range b).countP fun e => manifest.expertRank layer e = manifest.expertRank layer b :=
      (range_sublist.mpr hlt).countP_le
    rw [range_succ, countP_append, countP_singleton, if_pos (decide_eq_true hrank)] at hone
    exact hone
  rcases Nat.lt_trichotomy e e' with hlt | heq | hgt
  · exact absurd h (hstep hrank hlt).ne
  · exact heq
  · exact absurd h (hstep hrank.symm hgt).ne'

end Grouped

def ExpertRoute.triples (route : ExpertRoute) : List (Nat × Nat × Binary32) :=
  route.selected.map fun entry => (entry.globalExpert, entry.routingSlot, entry.gate)

def decodeTriples (routes : List ExpertRoute) (rank : Nat) : List (Nat × Nat × Binary32) :=
  (routes.filter fun route => route.destinationRank = rank).flatMap ExpertRoute.triples

def prefillTriples (slices : List RouteSlice) (storage : Nat → PrefillPair) (token rank : Nat) :
    List (Nat × Nat × Binary32) :=
  (slices.filter fun slice => slice.destinationRank = rank).flatMap fun slice =>
    ((slice.read storage).filter fun pair => pair.tokenSlot = token).map fun pair =>
      (pair.expertId, pair.routingSlot, pair.gate)

structure PartitionAgrees (manifest : Manifest) (layer : Nat) (routing : Routing) (capacity : Nat)
    (slices : List RouteSlice) (storage : Nat → PrefillPair) : Prop where
  /-- Every (token, slot) pair is listed once. -/
  once : (slices.flatMap fun slice => slice.read storage).Perm routing.pairs
  /-- A route lists pairs of its rank, token by token. -/
  ordered : ∀ slice ∈ slices, (slice.read storage).Sublist routing.pairs ∧
    ∀ pair ∈ slice.read storage, manifest.pairRank layer pair = slice.destinationRank
  ranks : (slices.map RouteSlice.destinationRank).Nodup
  /-- The slices lie one behind another in the storage. -/
  apart : slices.Pairwise fun slice next => slice.first + slice.pairCount ≤ next.first
  inside : ∀ slice ∈ slices, slice.first + slice.pairCount ≤ capacity
  /-- The partition of a token lists the same for every rank, and the place of an expert in its shard. -/
  decode : ∀ token < routing.tokenCount, ∃ routes,
    partitionRoute manifest layer (routing.expertIds token) (routing.gates token) = .ok routes ∧
    (∀ rank, prefillTriples slices storage token rank = decodeTriples routes rank) ∧
    ∀ route ∈ routes, ∀ entry ∈ route.selected,
      manifest.expertRank layer entry.globalExpert = route.destinationRank ∧
      entry.localExpert = (List.range entry.globalExpert).countP
        (fun e => manifest.expertRank layer e = route.destinationRank) ∧
      ∀ other ∈ route.selected, other.localExpert = entry.localExpert → other.globalExpert = entry.globalExpert

section Agree

variable {manifest : Manifest} {layer capacity : Nat} {routing : Routing} {slices : List RouteSlice}
  {storage storage' : Nat → PrefillPair}

def Routing.row (routing : Routing) (token : Nat) : List PrefillPair :=
  (List.range topK).map fun slot => ⟨token, routing.expertIds token slot, slot, routing.gates token slot⟩

theorem Routing.tokenSlot_of_mem_row {token : Nat} {pair : PrefillPair} (h : pair ∈ routing.row token) :
    pair.tokenSlot = token := by
  obtain ⟨slot, -, rfl⟩ := mem_map.mp h
  rfl

theorem pairs_of_token {token : Nat} (h : token < routing.tokenCount) :
    (routing.pairs.filter fun pair => pair.tokenSlot = token) = routing.row token := by
  have hall (count : Nat) : (((List.range count).flatMap routing.row).filter fun pair => pair.tokenSlot = token) =
      if token < count then routing.row token else [] := by
    induction count with
    | zero => rfl
    | succ count ih =>
      rw [range_succ, flatMap_append, filter_append, ih, flatMap_singleton]
      by_cases heq : count = token
      · subst heq
        rw [if_neg (Nat.lt_irrefl _), if_pos (Nat.lt_succ_self _), nil_append]
        exact filter_eq_self.mpr fun pair hpair => decide_eq_true (Routing.tokenSlot_of_mem_row hpair)
      · have hnone : ((routing.row count).filter fun pair => pair.tokenSlot = token) = [] :=
          filter_eq_nil_iff.mpr fun pair hpair hdec =>
            heq ((Routing.tokenSlot_of_mem_row hpair).symm.trans (of_decide_eq_true hdec))
        rw [hnone, append_nil]
        congr 1
        exact propext ⟨fun hlt => by omega, fun hlt => by omega⟩
  exact (hall routing.tokenCount).trans (if_pos h)

theorem flatMap_filter_key {α β : Type} {items : List α} {key : α → Nat} (hnodup : (items.map key).Nodup)
    (g : α → List β) (f : Nat → List β) (k : Nat) (hg : ∀ item ∈ items, g item = f (key item))
    (hnone : k ∉ items.map key → f k = []) : (items.filter fun item => key item = k).flatMap g = f k := by
  induction items with
  | nil => exact (hnone not_mem_nil).symm
  | cons item items ih =>
    rw [map_cons, nodup_cons] at hnodup
    by_cases h : key item = k
    · have hrest : (items.filter fun item => key item = k) = [] :=
        filter_eq_nil_iff.mpr fun other hother hdec =>
          hnodup.1 (h.trans (of_decide_eq_true hdec).symm ▸ mem_map_of_mem hother)
      rw [filter_cons_of_pos (by rwa [decide_eq_true_eq]), hrest, flatMap_singleton, hg item mem_cons_self, h]
    · rw [filter_cons_of_neg (by rwa [decide_eq_true_eq])]
      refine ih hnodup.2 (forall_mem_cons.mp hg).2 fun hnot => hnone fun hmem => ?_
      rw [map_cons, mem_cons] at hmem
      exact hmem.elim (fun heq => h heq.symm) hnot

def rankTriples (manifest : Manifest) (layer : Nat) (routing : Routing) (token rank : Nat) : List (Nat × Nat × Binary32) :=
  ((List.range topK).filter fun slot => rankOf manifest layer (routing.expertIds token) slot = rank).map fun slot =>
    (routing.expertIds token slot, slot, routing.gates token slot)

theorem decodeTriples_grouped (token rank : Nat) :
    decodeTriples (grouped manifest layer (routing.expertIds token) (routing.gates token) (List.range topK)) rank =
      rankTriples manifest layer routing token rank := by
  have htriples (r) : (routeFor manifest layer (routing.expertIds token) (routing.gates token) (List.range topK) r).triples =
      rankTriples manifest layer routing token r := by
    rw [ExpertRoute.triples, routeFor, map_map, rankTriples]
    rfl
  have hkeys : (grouped manifest layer (routing.expertIds token) (routing.gates token) (List.range topK)).map
      ExpertRoute.destinationRank = firstSeen ((List.range topK).map (rankOf manifest layer (routing.expertIds token))) := by
    rw [grouped, map_map]
    exact map_id _
  refine flatMap_filter_key (hkeys ▸ nodup_firstSeen) _ (rankTriples manifest layer routing token) rank
    (fun route hroute => ?_) fun hnot => ?_
  · obtain ⟨r, -, rfl⟩ := mem_map.mp hroute
    exact htriples r
  · rw [hkeys, mem_firstSeen] at hnot
    rw [rankTriples, filter_eq_nil_iff.mpr fun slot hslot hdec =>
      hnot (mem_map.mpr ⟨slot, hslot, of_decide_eq_true hdec⟩), map_nil]

theorem map_destinationRank {groups : List Nat} (h : Partitioned manifest layer routing.pairs groups slices storage storage') :
    slices.map RouteSlice.destinationRank = liveRanks (rankPairs manifest layer routing.pairs) groups := by
  rw [h.slices_eq]
  exact (map_slicesOf _ _ id).trans (map_id _)

theorem prefillTriples_partitioned {groups : List Nat}
    (h : Partitioned manifest layer routing.pairs groups slices storage storage')
    (hgroup : ∀ pair ∈ routing.pairs, manifest.pairRank layer pair ∈ groups) {token : Nat}
    (htoken : token < routing.tokenCount) (rank : Nat) :
    prefillTriples slices storage' token rank = rankTriples manifest layer routing token rank := by
  have htriples (r) : ((routing.pairs.filter fun pair => manifest.pairRank layer pair = r).filter
      fun pair => pair.tokenSlot = token).map (fun pair => (pair.expertId, pair.routingSlot, pair.gate)) =
      rankTriples manifest layer routing token r := by
    rw [filter_comm, pairs_of_token htoken, Routing.row, filter_map, map_map, rankTriples]
    rfl
  have hkeys := map_destinationRank h
  refine flatMap_filter_key (hkeys ▸ nodup_liveRanks) _ (rankTriples manifest layer routing token) rank
    (fun slice hslice => ?_) fun hnot => ?_
  · rw [h.read slice hslice, htriples]
  · have hnone : (routing.pairs.filter fun pair => manifest.pairRank layer pair = rank) = [] :=
      filter_eq_nil_iff.mpr fun pair hpair hdec =>
        hnot (hkeys ▸ of_decide_eq_true hdec ▸ live_of_mem hgroup hpair)
    rw [← htriples, hnone]
    rfl

theorem partitionRoute_ok (hlayer : layer < layerCount) (hcheck : checkRoutes manifest layer [] routing.pairs = .ok ())
    {token : Nat} (htoken : token < routing.tokenCount) :
    partitionRoute manifest layer (routing.expertIds token) (routing.gates token) =
      .ok (grouped manifest layer (routing.expertIds token) (routing.gates token) (List.range topK)) := by
  obtain ⟨hpairs, hdiffer⟩ := checkRoutes_inv hcheck List.Pairwise.nil
  have hslot : ∀ slot ∈ List.range topK, (⟨token, routing.expertIds token slot, slot, routing.gates token slot⟩ : PrefillPair) ∈
      routing.pairs := fun slot hslot => Routing.mem_pairs.mpr ⟨htoken, mem_range.mp hslot, rfl, rfl⟩
  have hnodup : ((List.range topK).map (routing.expertIds token)).Nodup := by
    have hrow : (routing.row token).Pairwise PrefillPair.Differ := by
      rw [← pairs_of_token htoken]
      exact hdiffer.filter _
    rw [Routing.row, pairwise_map] at hrow
    exact pairwise_map.mpr (hrow.imp fun hdiff heq => hdiff ⟨rfl, heq⟩)
  rw [partitionRoute, if_neg (Nat.not_le.mpr hlayer)]
  refine partitionSlots_ok (List.range topK) [] (length_range).le (fun slot hs => ?_) (fun slot hs => ?_) hnodup
  · obtain ⟨hexpert, hgate, -⟩ := hpairs _ (hslot slot hs)
    exact ⟨hexpert, hgate⟩
  · exact (hpairs _ (hslot slot hs)).2.2

/-- Every partition that is accepted lists the pairs once, by rank and token by token, in slices of their
own, and agrees with the partition of every single token. -/
theorem partitionSlices_agrees (h : partitionSlices manifest layer routing capacity storage = .ok (slices, storage')) :
    PartitionAgrees manifest layer routing capacity slices storage' := by
  obtain ⟨hlayer, -, hcap, hcheck, -, hparts⟩ := partitionSlices_inv h
  obtain ⟨hpairs, -⟩ := checkRoutes_inv hcheck List.Pairwise.nil
  have hgroup : ∀ pair ∈ routing.pairs, manifest.pairRank layer pair ∈ (List.finRange 4).map (manifest.layerGroups layer) :=
    fun pair hpair => mem_groups_of_rankInLayer (hpairs pair hpair).2.2
  have hkeys := map_destinationRank hparts
  constructor
  case once =>
    have hperm := flatMap_filter_key_perm (manifest.pairRank layer)
      (hkeys ▸ nodup_liveRanks : (slices.map RouteSlice.destinationRank).Nodup) routing.pairs
    rw [filter_eq_self.mpr fun pair hpair => decide_eq_true (hkeys ▸ live_of_mem hgroup hpair), flatMap_map] at hperm
    refine (List.Perm.of_eq ?_).trans hperm
    exact flatMap_congr fun slice hslice => hparts.read slice hslice
  case ordered =>
    intro slice hslice
    rw [hparts.read slice hslice]
    exact ⟨filter_sublist, fun pair hpair => of_decide_eq_true (mem_filter.mp hpair).2⟩
  case ranks => exact hkeys ▸ nodup_liveRanks
  case apart =>
    rw [hparts.slices_eq, pairwise_iff_getElem]
    intro i j hi hj hij
    rw [length_slicesOf] at hi hj
    simp only [slicesOf, getElem_mapIdx]
    rw [← offset_succ hi]
    exact offset_mono hij
  case inside =>
    intro slice hslice
    rw [hparts.slices_eq] at hslice
    obtain ⟨k, hk, rfl⟩ := mem_slicesOf.mp hslice
    rw [← offset_succ hk]
    refine (offset_le_sum _).trans ((sum_rankPairs hgroup).le.trans ?_)
    rwa [Routing.length_pairs]
  case decode =>
    intro token htoken
    refine ⟨_, partitionRoute_ok hlayer hcheck htoken, fun rank => ?_, fun route hroute entry hentry => ?_⟩
    · rw [prefillTriples_partitioned hparts hgroup htoken, decodeTriples_grouped]
    · obtain ⟨rank, -, rfl⟩ := mem_map.mp hroute
      obtain ⟨slot, hslot, rfl⟩ := mem_map.mp hentry
      have hrank : manifest.expertRank layer (routing.expertIds token slot) = rank :=
        of_decide_eq_true (mem_filter.mp hslot).2
      refine ⟨hrank, ?_, fun other hother hlocal => ?_⟩
      · subst hrank
        rfl
      · obtain ⟨slot', hslot', rfl⟩ := mem_map.mp hother
        have hrank' : manifest.expertRank layer (routing.expertIds token slot') = rank :=
          of_decide_eq_true (mem_filter.mp hslot').2
        exact localExpert_injective (hrank'.trans hrank.symm) hlocal

theorem partitionSlices_agrees_alone : ∃ slices storage',
    partitionSlices aloneManifest 0 aloneRouting 10 (fun _ => ⟨0, 0, 0, ⟨0⟩⟩) = .ok (slices, storage') ∧
      PartitionAgrees aloneManifest 0 aloneRouting 10 slices storage' := by
  obtain ⟨slices, storage', hrun, -⟩ := (@partitionSlices_refines aloneManifest 0 10 aloneRouting
    (fun _ => ⟨0, 0, 0, ⟨0⟩⟩) (by decide) (by decide)).2 _ rfl
  exact ⟨slices, storage', hrun, partitionSlices_agrees hrun⟩

end Agree

/-! ## Entries of a partition -/

section Entries

variable {manifest : Manifest} {layer : Nat} {ids : Nat → Nat} {gates : Nat → Binary32}

def RouteEntry.Points (manifest : Manifest) (layer rank : Nat) (entry : RouteEntry) : Prop :=
  entry.globalExpert < expertCount ∧ manifest.expertRank layer entry.globalExpert = rank ∧
    entry.localExpert = Prefill.localExpert manifest layer entry.globalExpert

theorem forall_modify {α : Type} {p : α → Prop} {l : List α} {i : Nat} {f : α → α} (hl : ∀ x ∈ l, p x)
    (hf : ∀ h : i < l.length, p (f l[i])) : ∀ x ∈ l.modify i f, p x := by
  intro x hx
  obtain ⟨j, hj, rfl⟩ := getElem_of_mem hx
  rw [getElem_modify]
  rw [length_modify] at hj
  split
  next hij =>
    subst hij
    exact hf hj
  · exact hl _ (getElem_mem hj)

theorem selectExpert_entries {rank : Nat} {entry : RouteEntry} {routes routes' : List ExpertRoute}
    (h : selectExpert rank entry routes = .ok routes') (hentry : entry.Points manifest layer rank)
    (hroutes : ∀ route ∈ routes, ∀ e ∈ route.selected, e.Points manifest layer route.destinationRank) :
    ∀ route ∈ routes', ∀ e ∈ route.selected, e.Points manifest layer route.destinationRank := by
  rw [selectExpert] at h
  split at h
  · cases h
  · revert h
    generalize hextended : (if routes.findIdx (fun route => route.destinationRank = rank) = routes.length then
      routes ++ [⟨rank, []⟩] else routes) = extended
    have hroom : ∀ route ∈ extended, ∀ e ∈ route.selected, e.Points manifest layer route.destinationRank := by
      rw [← hextended]
      split
      · intro route hroute
        rcases mem_append.mp hroute with hold | hnew
        · exact hroutes route hold
        · rw [mem_singleton.mp hnew]
          exact fun e he => absurd he not_mem_nil
      · exact hroutes
    have hrank (hlt : routes.findIdx (fun route => route.destinationRank = rank) < extended.length) :
        extended[routes.findIdx fun route => route.destinationRank = rank].destinationRank = rank := by
      subst hextended
      by_cases hend : routes.findIdx (fun route => route.destinationRank = rank) = routes.length
      · simp [hend]
      · have hfound : routes.findIdx (fun route => route.destinationRank = rank) < routes.length :=
          Nat.lt_of_le_of_ne findIdx_le_length hend
        simp only [if_neg hend]
        exact of_decide_eq_true (@findIdx_getElem _ (fun route : ExpertRoute => decide (route.destinationRank = rank)) _ hfound)
    intro h
    simp only at h
    split at h
    · cases h
    · split at h
      · cases h
      · obtain rfl := Except.ok.inj h
        refine forall_modify hroom fun hlt e he => ?_
        rcases mem_append.mp he with hold | hnew
        · exact hroom _ (getElem_mem hlt) e hold
        · rw [mem_singleton.mp hnew, hrank hlt]
          exact hentry

theorem partitionSlots_entries {slots seen : List Nat} {routes routes' : List ExpertRoute}
    (h : partitionSlots manifest layer ids gates slots seen routes = .ok routes')
    (hroutes : ∀ route ∈ routes, ∀ e ∈ route.selected, e.Points manifest layer route.destinationRank) :
    ∀ route ∈ routes', ∀ e ∈ route.selected, e.Points manifest layer route.destinationRank := by
  induction slots generalizing seen routes with
  | nil => exact Except.ok.inj h ▸ hroutes
  | cons slot rest ih =>
    rw [partitionSlots] at h
    split at h
    · cases h
    next hexpert =>
      split at h
      · cases h
      · obtain ⟨next, hselect, h⟩ := bind_eq_ok.mp h
        have hpoints : (entryOf manifest layer ids gates slot).Points manifest layer (rankOf manifest layer ids slot) :=
          ⟨Nat.not_le.mp (not_or.mp hexpert).1, rfl, rfl⟩
        exact ih h (selectExpert_entries hselect hpoints hroutes)

theorem partitionRoute_entries {routes : List ExpertRoute} (h : partitionRoute manifest layer ids gates = .ok routes) :
    ∀ route ∈ routes, ∀ e ∈ route.selected, e.Points manifest layer route.destinationRank := by
  rw [partitionRoute] at h
  split at h
  · cases h
  · exact partitionSlots_entries h fun route hroute => absurd hroute not_mem_nil

end Entries

end FlashGordon.Prefill
