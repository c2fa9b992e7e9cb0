import FlashGordon.PrefillReduction

/-! The source's end of the prefill reduction: the tiles of the root are drained into one result, that
result and the source's own are accepted against the routing, and together they sum every routed expert
output once. -/

namespace FlashGordon.Prefill

open Transport Shares

namespace Batch

variable {Row : Type} [ZeroSum Row] (batch : Batch Row)

section Assembly

def tilePlaces (node first : Nat) : List ResultPair :=
  (batch.tile node first).pairs.map fun pair => ⟨pair.tokenSlot + first, pair.routingSlot⟩

theorem tilePlaces_eq {node first : Nat} (hfirst : first ∈ tileStarts batch.routing.tokenCount) :
    batch.tilePlaces node first =
      ((batch.work.pairs.filter fun pair =>
        batch.fleet.manifest.pairRank batch.layer pair ∈ batch.mask node).filter fun pair =>
          reduceTileTokens * (pair.tokenSlot / reduceTileTokens) = first).map place := by
  obtain ⟨hlt, i, rfl⟩ := mem_tileStarts.mp hfirst
  simp only [tilePlaces, tile, windowPairs, List.map_map, List.filter_filter]
  have hfilter : ∀ pair ∈ batch.work.pairs,
      decide (batch.fleet.manifest.pairRank batch.work.layer pair ∈ batch.mask node ∧
        reduceTileTokens * i ≤ pair.tokenSlot ∧
        pair.tokenSlot < reduceTileTokens * i + tileTokens batch.routing.tokenCount (reduceTileTokens * i)) =
      (decide (reduceTileTokens * (pair.tokenSlot / reduceTileTokens) = reduceTileTokens * i) &&
        decide (batch.fleet.manifest.pairRank batch.layer pair ∈ batch.mask node)) := by
    intro pair hpair
    have htoken : pair.tokenSlot < batch.routing.tokenCount := batch.work_wellFormed.routed.token_lt pair hpair
    have hwindow : reduceTileTokens * i ≤ pair.tokenSlot ∧ pair.tokenSlot <
        reduceTileTokens * i + tileTokens batch.routing.tokenCount (reduceTileTokens * i) ↔
        reduceTileTokens * (pair.tokenSlot / reduceTileTokens) = reduceTileTokens * i := by
      unfold tileTokens reduceTileTokens
      omega
    rw [Bool.decide_and, decide_eq_decide.mpr hwindow, Bool.and_comm]
    rfl
  rw [List.filter_congr hfilter]
  refine List.map_congr_left fun pair hpair => ?_
  have hmem := (List.mem_filter.mp hpair).2
  simp only [Bool.and_eq_true, decide_eq_true_eq] at hmem
  have hstart : reduceTileTokens * i ≤ pair.tokenSlot := by
    rw [← hmem.1]
    exact Nat.mul_div_le _ _
  simp only [Function.comp_apply, place, Nat.sub_add_cancel hstart]

theorem nodup_tileStarts (tokenCount : Nat) : (tileStarts tokenCount).Nodup :=
  List.nodup_range.map fun i j h => Nat.eq_of_mul_eq_mul_left (by decide) h

theorem tilePlaces_perm (node : Nat) :
    ((tileStarts batch.routing.tokenCount).flatMap (batch.tilePlaces node)).Perm
      (windowPairs batch.fleet.manifest batch.work (batch.mask node) 0 batch.routing.tokenCount) := by
  rw [batch.windowPairs_batch, List.flatMap_congr fun first hfirst => batch.tilePlaces_eq hfirst, ← List.map_flatMap]
  refine List.Perm.map place ((flatMap_filter_key_perm _ (nodup_tileStarts _) _).trans (List.Perm.of_eq ?_))
  refine List.filter_eq_self.mpr fun pair hpair => ?_
  have htoken : pair.tokenSlot < batch.routing.tokenCount :=
    batch.work_wellFormed.routed.token_lt pair (List.mem_of_mem_filter hpair)
  rw [decide_eq_true_eq, mem_tileStarts]
  exact ⟨(Nat.mul_div_le _ _).trans_lt htoken, Dvd.intro _ rfl⟩

variable [DecidableEq Row] {finite : Row → Bool} {batch}

theorem drainTiles_ok (hfinite : batch.FiniteRows finite) (hroot : 0 < batch.ranks.length) (count index : Nat)
    (hcount : ∀ i < count, (index + i) * reduceTileTokens < batch.routing.tokenCount)
    (draining : Draining Row (Message Row)) (hreceived : draining.received = .ok ())
    (hconsumed : draining.consumed.length = index) :
    ∃ drained, drainTiles
        (checkTile finite (prefillResultDecode finite) "root" batch.fleet.manifest
          (batch.workFor (batch.rankAt 0)) (batch.mask 0) (batch.rankAt 0) batch.fleet.sessionId batch.sequence)
        (receiveFrom (batch.rankAt 0) (channel ((tileStarts batch.routing.tokenCount).map (batch.tileFrame 0))))
        ((List.range' index count).map (reduceTileTokens * ·)) draining = drained ∧
      drained.received = .ok () ∧
      drained.pairs = draining.pairs ++
        ((List.range' index count).map (reduceTileTokens * ·)).flatMap (batch.tilePlaces 0) ∧
      (∀ token < index * reduceTileTokens, drained.outputs token = draining.outputs token) ∧
      ∀ token, index * reduceTileTokens ≤ token → token < (index + count) * reduceTileTokens →
        token < batch.routing.tokenCount → drained.outputs token = batch.nodeRow 0 token := by
  induction count generalizing index draining with
  | zero =>
    refine ⟨draining, rfl, hreceived, (List.append_nil _).symm, fun _ _ => rfl, fun token hle hlt => ?_⟩
    exact absurd hlt (not_lt.mpr hle)
  | succ count ih =>
    have hfirst : index * reduceTileTokens < batch.routing.tokenCount := hcount 0 (Nat.succ_pos count)
    have harrive : receiveFrom (batch.rankAt 0)
        (channel ((tileStarts batch.routing.tokenCount).map (batch.tileFrame 0))) draining.consumed.length =
        .ok (batch.tileFrame 0 (reduceTileTokens * index)) := by
      rw [receiveFrom, hconsumed, channel_tiles hfirst, Nat.mul_comm]
      rfl
    rw [Nat.mul_comm] at hfirst
    have hcheck := checkTile_ok "root" hfinite hroot hfirst (batch.rankAt_lt hroot)
    obtain ⟨drained, hdrained, hok, hpairs, hbefore, hinside⟩ := ih (index + 1)
      (fun i hi => by
        rw [Nat.add_assoc, Nat.add_comm 1]
        exact hcount (i + 1) (by omega))
      ({ draining with consumed := draining.consumed ++
        [batch.tileFrame 0 (reduceTileTokens * index)] }.place (reduceTileTokens * index)
          (batch.tile 0 (reduceTileTokens * index))) hreceived (by simp [Draining.place, hconsumed])
    have houtside : ∀ token < index * reduceTileTokens, drained.outputs token = draining.outputs token := by
      intro token htoken
      rw [hbefore token (by unfold reduceTileTokens at *; omega), Draining.place]
      refine if_neg fun h => ?_
      rw [Nat.mul_comm] at h
      omega
    refine ⟨drained, ?_, hok, ?_, houtside, fun token hle hlt htoken => ?_⟩
    · rw [List.range'_succ, List.map_cons, drainTiles, harrive]
      rw [hreceived]
      dsimp only
      rw [hcheck]
      rw [hreceived] at hdrained
      exact hdrained
    · rw [hpairs, List.range'_succ, List.map_cons, List.flatMap_cons, ← List.append_assoc]
      rfl
    · by_cases hnext : (index + 1) * reduceTileTokens ≤ token
      · exact hinside token hnext (by unfold reduceTileTokens at *; omega) htoken
      · have hwindow : reduceTileTokens * index ≤ token ∧ token < reduceTileTokens * index +
            tileTokens batch.routing.tokenCount (reduceTileTokens * index) := by
          unfold tileTokens reduceTileTokens at *
          omega
        have hrow : (batch.tile 0 (reduceTileTokens * index)).outputs (token - reduceTileTokens * index) =
            batch.nodeRow 0 (reduceTileTokens * index + (token - reduceTileTokens * index)) := if_pos (by omega)
        rw [Nat.add_sub_cancel' hwindow.1] at hrow
        rw [hbefore token (not_le.mp hnext)]
        exact (if_pos hwindow).trans hrow

end Assembly

section Parts

variable [DecidableEq Row] {finite : Row → Bool} {batch}

structure Part (batch : Batch Row) (finite : Row → Bool) (result : PrefillResult Row) : Prop where
  covers : ∀ rank, Covers finite batch.fleet.manifest (batch.workFor rank) result.contributorMask 0 result
  position_eq : result.firstPosition = batch.firstPosition
  count_eq : result.tokenCount = batch.routing.tokenCount
  contributing : Contributing batch.fleet.manifest batch.work result.contributorMask
  sums : ∀ token < batch.routing.tokenCount,
    SumOf batch.expertOutput (batch.pairsOf result.contributorMask token : List PrefillPair) (result.outputs token)

/-- Results that share no contributor and leave no routed rank out. -/
structure Parts (batch : Batch Row) (finite : Row → Bool) (results : List (PrefillResult Row)) : Prop where
  part : ∀ result ∈ results, Part batch finite result
  disjoint : results.Pairwise fun result other => Disjoint result.contributorMask other.contributorMask
  covering : ∀ pair ∈ batch.work.pairs, ∃ result ∈ results,
    batch.fleet.manifest.pairRank batch.layer pair ∈ result.contributorMask

variable {results : List (PrefillResult Row)}

omit [DecidableEq Row] in
theorem Parts.shares_perm (h : Parts batch finite results) (selected : PrefillPair → Bool) :
    (results.flatMap fun result => batch.work.pairs.filter fun pair =>
        batch.fleet.manifest.pairRank batch.layer pair ∈ result.contributorMask ∧ selected pair = true).Perm
      (batch.work.pairs.filter selected) := by
  refine (flatMap_filter_perm (fun (result : PrefillResult Row) pair =>
    decide (batch.fleet.manifest.pairRank batch.layer pair ∈ result.contributorMask ∧ selected pair = true))
    batch.work.pairs ?_).trans (List.Perm.of_eq (List.filter_congr fun pair hpair => ?_))
  · refine h.disjoint.imp fun hdisjoint pair _ hmem => decide_eq_false fun hother => ?_
    exact Finset.disjoint_left.mp hdisjoint (of_decide_eq_true hmem).1 hother.1
  · obtain ⟨result, hresult, hrank⟩ := h.covering pair hpair
    rw [Bool.eq_iff_iff, List.any_eq_true]
    constructor
    · rintro ⟨other, -, hother⟩
      exact (of_decide_eq_true hother).2
    · exact fun hselected => ⟨result, hresult, decide_eq_true ⟨hrank, hselected⟩⟩

omit [DecidableEq Row] in
theorem Parts.sumOf (h : Parts batch finite results) {token : Nat} (htoken : token < batch.routing.tokenCount) :
    SumOf batch.expertOutput
      (batch.routing.pairs.filter fun pair => pair.tokenSlot = token : List PrefillPair)
      (results.foldl (fun sum result => sum + result.outputs token) 0) := by
  have hsum := foldl_sumOf (fun result hresult => (h.part result hresult).sums token htoken)
    (SumOf.zero : SumOf batch.expertOutput (([] : List PrefillPair) : Multiset PrefillPair) 0)
  refine hsum.congr (Multiset.coe_eq_coe.mpr ?_)
  refine List.Perm.trans ?_ (batch.pairs_perm.filter _)
  refine List.Perm.trans (List.Perm.of_eq ?_) (h.shares_perm fun pair => decide (pair.tokenSlot = token))
  simp only [List.nil_append, pairsOf, decide_eq_true_eq]

omit [DecidableEq Row] in
theorem Parts.length_eq (h : Parts batch finite results) :
    (results.map fun result => result.pairs.length).sum = batch.routing.tokenCount * topK := by
  have hlength : ∀ result ∈ results, result.pairs.length = (batch.work.pairs.filter fun pair =>
      batch.fleet.manifest.pairRank batch.layer pair ∈ result.contributorMask ∧ true = true).length := by
    intro result hresult
    have hpart := h.part result hresult
    have hwindow := (hpart.covers 0).pairs_perm.length_eq.trans
      (congrArg List.length (show windowPairs _ (batch.workFor 0) _ 0 result.tokenCount = _ from
        hpart.count_eq ▸ batch.windowPairs_batch result.contributorMask))
    simpa using hwindow
  rw [List.map_congr_left hlength, ← List.length_flatMap, (h.shares_perm fun _ => true).length_eq,
    List.filter_true, batch.length_pairs]

omit [DecidableEq Row] in
theorem canonical_pairs : (canonicalWork batch.layer batch.source batch.firstPosition batch.routing).pairs =
    batch.routing.pairs.map fun pair => { pair with gate := ⟨0⟩ } := by
  simp [canonicalWork, Routing.pairs, List.map_flatMap, Function.comp_def]

omit [DecidableEq Row] in
theorem canonical_wellFormed :
    (canonicalWork batch.layer batch.source batch.firstPosition batch.routing).WellFormed where
  layer_lt := batch.layer_lt
  source_lt := batch.source_lt
  destination_lt := batch.source_lt
  tokens_pos := batch.tokens_pos
  tokens_le := batch.tokens_le
  pairs_pos := by
    rw [canonicalWork, Routing.length_pairs]
    exact Nat.mul_pos batch.tokens_pos (by decide)
  pairs_le := Routing.length_pairs.le
  routed := @Routing.wellRouted { batch.routing with gates := fun _ _ => ⟨0⟩ } batch.expert_lt
    (fun _ _ _ _ => (by decide : (⟨0⟩ : Binary32).isFinite = true)) batch.experts_differ

omit [DecidableEq Row] in
theorem exists_canonical {pair : PrefillPair} (hpair : pair ∈ batch.work.pairs) :
    { pair with gate := ⟨0⟩ } ∈ (canonicalWork batch.layer batch.source batch.firstPosition batch.routing).pairs := by
  rw [canonical_pairs]
  exact List.mem_map_of_mem (f := fun pair : PrefillPair => { pair with gate := ⟨0⟩ })
    (batch.pairs_perm.mem_iff.mp hpair)

omit [DecidableEq Row] in
theorem canonical_window (mask : Finset Nat) (first tokens : Nat) :
    (windowPairs batch.fleet.manifest batch.work mask first tokens).Perm
      (windowPairs batch.fleet.manifest
        (canonicalWork batch.layer batch.source batch.firstPosition batch.routing) mask first tokens) := by
  refine ((batch.pairs_perm.filter _).map _).trans (List.Perm.of_eq ?_)
  rw [windowPairs, canonical_pairs, List.filter_map, List.map_map]
  rfl

theorem Part.accepted {result : PrefillResult Row} (h : Part batch finite result) :
    validateSubset finite batch.fleet.manifest
      (canonicalWork batch.layer batch.source batch.firstPosition batch.routing) result.contributorMask result =
      .ok () := by
  have hcovers : Covers finite batch.fleet.manifest
      (canonicalWork batch.layer batch.source batch.firstPosition batch.routing) result.contributorMask 0 result :=
    { h.covers batch.source with
      pairs_perm := (h.covers batch.source).pairs_perm.trans (canonical_window _ _ _) }
  refine hcovers.accepted canonical_wellFormed (fun pair hpair => ?_) fun rank hrank => ?_
  · exact validateLayer_inGroup (validateTopology_layer batch.topology batch.layer_lt) batch.layer_lt
      (canonical_wellFormed.routed.expert_lt pair hpair)
  · obtain ⟨pair, hpair, hrank⟩ := h.contributing rank hrank
    exact ⟨_, exists_canonical hpair, hrank⟩

theorem checkResults_ok {seen : Finset Nat} {received : Nat} (hpart : ∀ result ∈ results, Part batch finite result)
    (hdisjoint : results.Pairwise fun result other => Disjoint result.contributorMask other.contributorMask)
    (hseen : ∀ result ∈ results, Disjoint seen result.contributorMask) :
    checkResults finite batch.fleet.manifest
      (canonicalWork batch.layer batch.source batch.firstPosition batch.routing) results seen received =
      .ok (received + (results.map fun result => result.pairs.length).sum) := by
  induction results generalizing seen received with
  | nil => rfl
  | cons result rest ih =>
    obtain ⟨hresult, hrest⟩ := List.pairwise_cons.mp hdisjoint
    have hfirst := hpart result List.mem_cons_self
    rw [checkResults, if_neg, hfirst.accepted]
    · rw [ih (List.forall_mem_cons.mp hpart).2 hrest fun other hother => ?_,
        List.map_cons, List.sum_cons, Nat.add_assoc]
      exact Finset.disjoint_union_left.mpr ⟨hseen other (List.mem_cons_of_mem _ hother), hresult other hother⟩
    · rintro (hposition | hcount | hoverlap)
      · exact hposition hfirst.position_eq
      · exact hcount hfirst.count_eq
      · exact hoverlap (Finset.disjoint_iff_inter_eq_empty.mp (hseen result List.mem_cons_self))

theorem Parts.accepted (h : Parts batch finite results) (hlength : results.length ≤ groupSize) :
    validateRoute finite batch.fleet.manifest batch.layer batch.source batch.firstPosition batch.routing results =
      .ok () := by
  have hnonempty : results.length ≠ 0 := by
    intro hnone
    have hpairs := h.length_eq
    rw [List.length_eq_zero_iff.mp hnone] at hpairs
    exact absurd hpairs (Nat.mul_pos batch.tokens_pos (by decide : 0 < topK)).ne
  have := batch.layer_lt
  have := batch.source_lt
  have := batch.tokens_pos
  have := batch.tokens_le
  have := batch.source_owner
  have hcanonical : checkCanonical []
      (canonicalWork batch.layer batch.source batch.firstPosition batch.routing).pairs = .ok () :=
    checkCanonical_ok canonical_wellFormed.routed
  rw [validateRoute, if_neg (by omega), hcanonical,
    checkResults_ok h.part h.disjoint fun _ _ => Finset.disjoint_empty_left _]
  dsimp only
  rw [if_neg]
  rw [Nat.zero_add, not_not]
  exact h.length_eq

end Parts

section Source

variable [DecidableEq Row] {finite : Row → Bool} {batch}

def own (batch : Batch Row) : PrefillWork :=
  ownWork batch.fleet.manifest batch.source batch.layer batch.firstPosition batch.routing

omit [DecidableEq Row] in
theorem own_pairs_perm : batch.own.pairs.Perm
    (batch.work.pairs.filter fun pair => batch.fleet.manifest.pairRank batch.layer pair = batch.source) :=
  batch.pairs_perm.symm.filter _

omit [DecidableEq Row] in
theorem mem_routes {route : PrefillRoute} :
    route ∈ batch.routes ↔ route.destinationRank ∈ groupRanks batch.fleet.manifest batch.layer ∧
      route.pairs ≠ [] ∧ route.pairs = batch.routing.pairs.filter fun pair =>
        batch.fleet.manifest.pairRank batch.layer pair = route.destinationRank := by
  simp only [routes, List.mem_filterMap]
  constructor
  · rintro ⟨rank, hrank, hroute⟩
    split at hroute
    · cases hroute
    next pairs hne =>
      cases hroute
      exact ⟨hrank, hne, rfl⟩
  · rintro ⟨hrank, hne, hpairs⟩
    refine ⟨route.destinationRank, hrank, ?_⟩
    rw [← hpairs]
    split
    next hempty =>
      exact absurd hempty hne
    · rfl

omit [DecidableEq Row] in
theorem find_own (work : PrefillWork) (hwork : ∃ rank, work = batch.workFor rank) :
    ((batch.routes.find? fun route => route.destinationRank = batch.source).map fun route =>
      { work with destinationRank := batch.source, pairs := route.pairs }) =
      if batch.own.pairs = [] then none else some batch.own := by
  obtain ⟨rank, rfl⟩ := hwork
  cases hfind : batch.routes.find? fun route => route.destinationRank = batch.source with
  | none =>
    rw [if_pos]
    · rfl
    · by_contra hne
      obtain ⟨pair, hpair⟩ := List.exists_mem_of_ne_nil _ hne
      have hmem := List.mem_filter.mp hpair
      have hgroup := batch.rankInLayer_pair hmem.1
      simp only [rankInLayer, decide_eq_true_eq] at hgroup
      rw [of_decide_eq_true hmem.2] at hgroup
      have hnone := List.find?_eq_none.mp hfind ⟨batch.source, batch.own.pairs⟩
        (mem_routes.mpr ⟨mem_groupRanks.mpr hgroup.2.2, hne, rfl⟩)
      simp at hnone
  | some route =>
    obtain ⟨-, hne, hpairs⟩ := mem_routes.mp (List.mem_of_find?_eq_some hfind)
    have hself : route.destinationRank = batch.source := by simpa using List.find?_some hfind
    rw [hself] at hpairs
    have hown : route.pairs = batch.own.pairs := hpairs
    rw [if_neg (hown ▸ hne), Option.map_some, hown]
    rfl

theorem own_part (hfinite : batch.FiniteRows finite) (hne : batch.own.pairs ≠ []) :
    Part batch finite (expertResult batch.source batch.own (batch.fleet.device batch.source batch.own)) where
  covers rank := batch.share_covers rank batch.source_lt rfl rfl rfl rfl own_pairs_perm hfinite.source
  position_eq := rfl
  count_eq := rfl
  contributing := by
    intro rank hrank
    obtain ⟨pair, hpair⟩ := List.exists_mem_of_ne_nil _ hne
    have hmem := List.mem_filter.mp (own_pairs_perm.mem_iff.mp hpair)
    exact ⟨pair, hmem.1, (of_decide_eq_true hmem.2).trans (Finset.mem_singleton.mp hrank).symm⟩
  sums _ htoken := batch.share_sumOf own_pairs_perm rfl htoken

theorem drainRoot_ok (hfinite : batch.FiniteRows finite) (hroot : 0 < batch.ranks.length) (context : DispatchContext)
    (hmanifest : context.manifest = batch.fleet.manifest) (hrequest : context.requestId = batch.fleet.sessionId)
    (hsequence : context.sequence = batch.sequence) :
    ∃ draining, drainRoot finite (prefillResultDecode finite) context (batch.workFor (batch.rankAt 0)) batch.ranks
        (channel ((tileStarts batch.routing.tokenCount).map (batch.tileFrame 0))) = draining ∧
      draining.received = .ok () ∧
      Part batch finite (rootResult (batch.workFor (batch.rankAt 0)) batch.ranks draining) := by
  have hhead : batch.ranks.headD 0 = batch.rankAt 0 := by
    rw [rankAt]
    cases batch.ranks with
    | nil => rfl
    | cons root rest => rfl
  have hstarts : tileStarts batch.routing.tokenCount = (List.range' 0
      ((batch.routing.tokenCount + reduceTileTokens - 1) / reduceTileTokens)).map (reduceTileTokens * ·) := by
    rw [tileStarts, List.range_eq_range']
  obtain ⟨drained, hdrained, hok, hpairs, -, hrows⟩ := drainTiles_ok hfinite hroot
    ((batch.routing.tokenCount + reduceTileTokens - 1) / reduceTileTokens) 0
    (fun i hi => by unfold reduceTileTokens at *; omega) ⟨.ok (), [], [], fun _ => 0⟩ rfl rfl
  have hnodeRows : ∀ token < batch.routing.tokenCount, drained.outputs token = batch.nodeRow 0 token :=
    fun token htoken => hrows token (by omega) (by unfold reduceTileTokens at *; omega) htoken
  have hpart : Part batch finite (rootResult (batch.workFor (batch.rankAt 0)) batch.ranks drained) := by
    refine ⟨fun rank => ?_, rfl, rfl, batch.contributing_mask 0, fun token htoken => ?_⟩
    · refine batch.covers_of_sums rfl ?_ ?_ rfl rfl rfl batch.tokens_pos (Nat.zero_add _).le ?_ ?_ ?_
      · exact hhead ▸ batch.rankAt_mem_mask hroot
      · exact hhead ▸ batch.rankAt_lt hroot
      · change drained.pairs.Perm _
        rw [hpairs, ← hstarts, List.nil_append]
        exact batch.tilePlaces_perm 0
      · intro token htoken
        change finite (drained.outputs token) = true
        rw [hnodeRows token htoken]
        exact hfinite.reduced 0 hroot token htoken
      · intro token htoken
        change SumOf _ _ (drained.outputs token)
        rw [hnodeRows token htoken, Nat.zero_add]
        exact batch.nodeRow_sumOf hroot htoken
    · change SumOf _ _ (drained.outputs token)
      rw [hnodeRows token htoken]
      exact batch.nodeRow_sumOf hroot htoken
  have hvalid := (hpart.covers (batch.rankAt 0)).accepted (batch.workFor_wellFormed (batch.rankAt_lt hroot))
    batch.inGroup (batch.contributing_mask 0)
  have hdrain : drainTiles
      (checkTile finite (prefillResultDecode finite) "root" context.manifest (batch.workFor (batch.rankAt 0))
        (prefillSubtreeMask batch.ranks 0) (batch.ranks.headD 0) context.requestId context.sequence)
      (receiveFrom (batch.ranks.headD 0)
        (channel ((tileStarts batch.routing.tokenCount).map (batch.tileFrame 0))))
      (tileStarts (batch.workFor (batch.rankAt 0)).tokenCount) ⟨.ok (), [], [], fun _ => 0⟩ = drained := by
    rw [hmanifest, hrequest, hsequence, hhead]
    rw [← hstarts] at hdrained
    exact hdrained
  have hkept : ({ drained with
      received := validateSubset finite batch.fleet.manifest (batch.workFor (batch.rankAt 0))
        (prefillSubtreeMask batch.ranks 0) (rootResult (batch.workFor (batch.rankAt 0)) batch.ranks drained) } :
      Draining Row (Message Row)) = drained := by
    rw [show validateSubset finite batch.fleet.manifest (batch.workFor (batch.rankAt 0))
      (prefillSubtreeMask batch.ranks 0) _ = .ok () from hvalid, ← hok]
  refine ⟨drained, ?_, hok, hpart⟩
  unfold drainRoot
  dsimp only
  rw [hdrain, hok, hmanifest]
  exact hkept

def context (batch : Batch Row) : DispatchContext :=
  ⟨batch.fleet.manifest, batch.source, batch.fleet.sessionId, batch.sequence, .ready⟩

def surroundings (batch : Batch Row) (arrive : Nat → Except Error (Frame (Message Row))) :
    Environment Row (Message Row) :=
  ⟨.ok (), .ok (), .ok (), .ok (), .ok (batch.fleet.device batch.source batch.own), arrive⟩

omit [DecidableEq Row] in
theorem workFor_source : batch.workFor batch.source = batch.work := rfl

theorem runSource_alone (hranks : batch.ranks = []) (arrive : Nat → Except Error (Frame (Message Row))) :
    runSource finite batch.fleet batch.source batch.layer batch.firstPosition batch.routing arrive =
      dispatchSent finite (prefillResultDecode finite) batch.context (batch.surroundings arrive) batch.work []
        batch.routes false .ready := by
  have htree : prefillTreeRanks batch.fleet.manifest (sourceWork batch.source batch.layer batch.firstPosition
      batch.routing.tokenCount batch.routes) = .ok [] := hranks ▸ batch.treeRanks_ok batch.source
  rw [runSource, dispatchPrefillExperts]
  rw [batch.partition_ok]
  dsimp only
  rw [htree]
  rfl

theorem runSource_sent {root : Nat} {rest : List Nat} (hranks : batch.ranks = root :: rest)
    (arrive : Nat → Except Error (Frame (Message Row))) :
    runSource finite batch.fleet batch.source batch.layer batch.firstPosition batch.routing arrive =
      dispatchSent finite (prefillResultDecode finite) batch.context (batch.surroundings arrive)
        (batch.workFor root) (root :: rest) batch.routes true .pending := by
  have htree : prefillTreeRanks batch.fleet.manifest (sourceWork batch.source batch.layer batch.firstPosition
      batch.routing.tokenCount batch.routes) = .ok (root :: rest) := hranks ▸ batch.treeRanks_ok batch.source
  have hroot : root < rankCount := batch.lt_of_mem_ranks (hranks ▸ List.mem_cons_self)
  have hvalid : validatePrefillWork { sourceWork batch.source batch.layer batch.firstPosition
      batch.routing.tokenCount batch.routes with destinationRank := root } = .ok () :=
    (batch.workFor_wellFormed hroot).accepted
  rw [runSource, dispatchPrefillExperts]
  rw [batch.partition_ok]
  dsimp only
  rw [htree]
  dsimp only
  rw [hvalid]
  rfl

def ownResults (batch : Batch Row) : List (PrefillResult Row) :=
  if batch.own.pairs = [] then []
  else [expertResult batch.source batch.own (batch.fleet.device batch.source batch.own)]

omit [DecidableEq Row] in
theorem length_ownResults_le : batch.ownResults.length ≤ 1 := by
  unfold ownResults
  split_ifs
  · exact Nat.zero_le 1
  · exact Nat.le_refl 1

theorem dispatchSent_ok (finite : Row → Bool) {work : PrefillWork} (hwork : ∃ rank, work = batch.workFor rank) (ranks : List Nat)
    (arrive : Nat → Except Error (Frame (Message Row))) (sent : Bool) (transport : State)
    (hreceived : sent = true →
      (drainRoot finite (prefillResultDecode finite) batch.context work ranks arrive).received = .ok ()) :
    (dispatchSent finite (prefillResultDecode finite) batch.context (batch.surroundings arrive) work ranks
        batch.routes sent transport).status = .ok () ∧
      (dispatchSent finite (prefillResultDecode finite) batch.context (batch.surroundings arrive) work ranks
        batch.routes sent transport).results = batch.ownResults ++
          if sent then [rootResult work ranks
            (drainRoot finite (prefillResultDecode finite) batch.context work ranks arrive)] else [] := by
  have hown : ((batch.routes.find? fun route => route.destinationRank = batch.context.self).map fun route =>
      { work with destinationRank := batch.context.self, pairs := route.pairs }) =
      if batch.own.pairs = [] then none else some batch.own := find_own work hwork
  unfold dispatchSent ownResults
  dsimp only
  rw [hown]
  cases sent with
  | false =>
    by_cases hnone : batch.own.pairs = []
    · simp only [hnone, if_true]
      exact ⟨rfl, rfl⟩
    · simp only [hnone, if_false]
      exact ⟨rfl, rfl⟩
  | true =>
    rw [show (drainRoot finite (prefillResultDecode finite) batch.context work ranks
      (batch.surroundings arrive).arrive).received = .ok () from hreceived rfl]
    by_cases hnone : batch.own.pairs = []
    · simp only [hnone, if_true]
      exact ⟨rfl, rfl⟩
    · simp only [hnone, if_false]
      exact ⟨rfl, rfl⟩

end Source

section Whole

variable [DecidableEq Row] {finite : Row → Bool} {batch}

theorem parts_ok (hfinite : batch.FiniteRows finite) (roots : List (PrefillResult Row))
    (hroots : ∀ result ∈ roots, Part batch finite result ∧ result.contributorMask = batch.mask 0)
    (hlength : roots.length ≤ 1) (hcovered : batch.ranks ≠ [] → roots ≠ []) :
    Parts batch finite (batch.ownResults ++ roots) := by
  have hsource : batch.source ∉ batch.mask 0 := fun hmem =>
    (batch.mem_ranks.mp (batch.mem_mask_zero.mp hmem)).1 rfl
  have hown : ∀ result ∈ batch.ownResults, Part batch finite result ∧ result.contributorMask = {batch.source} := by
    intro result hresult
    unfold ownResults at hresult
    split_ifs at hresult with hnone
    · exact absurd hresult List.not_mem_nil
    · rw [List.mem_singleton.mp hresult]
      exact ⟨own_part hfinite hnone, rfl⟩
  have hsingle : ∀ results : List (PrefillResult Row), results.length ≤ 1 →
      results.Pairwise fun result other => Disjoint result.contributorMask other.contributorMask := by
    intro results hshort
    match results, hshort with
    | [], _ => exact List.Pairwise.nil
    | [result], _ => exact List.pairwise_singleton _ result
  refine ⟨fun result hresult => ?_, ?_, fun pair hpair => ?_⟩
  · rcases List.mem_append.mp hresult with hmem | hmem
    · exact (hown result hmem).1
    · exact (hroots result hmem).1
  · refine List.pairwise_append.mpr ⟨hsingle _ length_ownResults_le, hsingle _ hlength, fun result hresult other hother => ?_⟩
    rw [(hown result hresult).2, (hroots other hother).2]
    exact Finset.disjoint_singleton_left.mpr hsource
  · by_cases hlocal : batch.fleet.manifest.pairRank batch.layer pair = batch.source
    · have hne : batch.own.pairs ≠ [] := List.ne_nil_of_mem
        (own_pairs_perm.mem_iff.mpr (List.mem_filter.mpr ⟨hpair, decide_eq_true hlocal⟩))
      refine ⟨expertResult batch.source batch.own (batch.fleet.device batch.source batch.own),
        List.mem_append_left _ ?_, Finset.mem_singleton.mpr hlocal⟩
      rw [ownResults, if_neg hne]
      exact List.mem_singleton_self _
    · have hactive := batch.mem_ranks.mpr ⟨hlocal, pair, hpair, rfl⟩
      obtain ⟨result, hresult⟩ := List.exists_mem_of_ne_nil _ (hcovered (List.ne_nil_of_mem hactive))
      refine ⟨result, List.mem_append_right _ hresult, ?_⟩
      rw [(hroots result hresult).2]
      exact batch.mem_mask_zero.mpr hactive

def frameTokens (firstPosition : UInt32) (frame : Frame (Message Row)) : List Nat :=
  match frame.payload with
  | .result tile => List.range' (tile.firstPosition - firstPosition).toNat tile.tokenCount
  | .work _ => []

omit [DecidableEq Row] in
theorem frameTokens_tiles (node : Nat) :
    ((tileStarts batch.routing.tokenCount).map (batch.tileFrame node)).flatMap (frameTokens batch.firstPosition) =
      List.range batch.routing.tokenCount := by
  have htokens : ∀ first ∈ tileStarts batch.routing.tokenCount,
      frameTokens batch.firstPosition (batch.tileFrame node first) =
        List.range' first (tileTokens batch.routing.tokenCount first) := by
    intro first hfirst
    have hle := batch.tokens_le
    have hlt := (mem_tileStarts.mp hfirst).1
    have hoffset : ((batch.firstPosition + UInt32.ofNat first) - batch.firstPosition).toNat = first := by
      rw [UInt32.add_comm, UInt32.add_sub_cancel, UInt32.toNat_ofNat', Nat.mod_eq_of_lt]
      unfold prefillMaxTokens at hle
      omega
    change List.range' ((batch.firstPosition + UInt32.ofNat first) - batch.firstPosition).toNat _ = _
    rw [hoffset]
    rfl
  have hcut : ∀ count index, batch.routing.tokenCount ≤ (index + count) * reduceTileTokens →
      (∀ i < count, (index + i) * reduceTileTokens < batch.routing.tokenCount) →
      ((List.range' index count).map (reduceTileTokens * ·)).flatMap
        (fun first => List.range' first (tileTokens batch.routing.tokenCount first)) =
      List.range' (reduceTileTokens * index) (batch.routing.tokenCount - reduceTileTokens * index) := by
    intro count
    induction count with
    | zero =>
      intro index hend _
      rw [Nat.add_zero, Nat.mul_comm] at hend
      rw [Nat.sub_eq_zero_of_le hend]
      rfl
    | succ count ih =>
      intro index hend hinside
      have hrest := ih (index + 1) (by unfold reduceTileTokens at *; omega) fun i hi => by
        rw [Nat.add_assoc, Nat.add_comm 1]
        exact hinside (i + 1) (by omega)
      rw [List.range'_succ, List.map_cons, List.flatMap_cons, hrest]
      by_cases hlast : batch.routing.tokenCount ≤ reduceTileTokens * (index + 1)
      · have hnothing : batch.routing.tokenCount - reduceTileTokens * (index + 1) = 0 := by omega
        have hall : tileTokens batch.routing.tokenCount (reduceTileTokens * index) =
            batch.routing.tokenCount - reduceTileTokens * index := by
          unfold tileTokens reduceTileTokens at *
          omega
        rw [hnothing, hall]
        exact List.append_nil _
      · have hfull : tileTokens batch.routing.tokenCount (reduceTileTokens * index) = reduceTileTokens := by
          unfold tileTokens reduceTileTokens at *
          omega
        have hsum : batch.routing.tokenCount - reduceTileTokens * index =
            reduceTileTokens + (batch.routing.tokenCount - reduceTileTokens * (index + 1)) := by
          unfold reduceTileTokens at *
          omega
        rw [hfull, hsum, ← List.range'_append_1, Nat.mul_succ]
  rw [List.flatMap_map, List.flatMap_congr htokens, tileStarts, List.range_eq_range', hcut]
  · rw [Nat.mul_zero, Nat.sub_zero, List.range_eq_range']
  · unfold reduceTileTokens
    omega
  · intro i hi
    unfold reduceTileTokens at *
    omega

/-- Every active remote rank receives the broadcast once, from the parent it expects, and takes it up. -/
structure Broadcast (batch : Batch Row) (reduction : Reduction Row) : Prop where
  once : (reduction.delivered.map Prod.fst).Perm batch.ranks
  expected : ∀ delivery ∈ reduction.delivered,
    delivery.2.peer = batch.parentRank (batch.ranks.idxOf delivery.1) ∧
      ∃ admitted, admitWork (batch.fleet.worker delivery.1) delivery.2 = .ok admitted

/-- Every worker ends well; its tiles carry every token once and pass the check of whoever reads them;
the source ends well, its results are accepted against the routing and their rows, added up, sum every
routed expert output of a token once. -/
structure Reduced (batch : Batch Row) (finite : Row → Bool) (reduction : Reduction Row) : Prop where
  workers_ok : ∀ delivery ∈ reduction.delivered,
    (runWorker finite batch.fleet groupSize delivery.1 delivery.2).status = .ok ()
  tiles_cover : ∀ delivery ∈ reduction.delivered,
    (runWorker finite batch.fleet groupSize delivery.1 delivery.2).tiles.flatMap
      (frameTokens batch.firstPosition) = List.range batch.routing.tokenCount
  tiles_accepted : ∀ delivery ∈ reduction.delivered,
    ∀ frame ∈ (runWorker finite batch.fleet groupSize delivery.1 delivery.2).tiles, ∀ reader < rankCount,
      ∃ tile, frame.payload = .result tile ∧ validateSubset finite batch.fleet.manifest (batch.workFor reader)
        (batch.mask (batch.ranks.idxOf delivery.1)) tile = .ok ()
  source_ok : reduction.dispatched.status = .ok ()
  route_accepted : validateRoute finite batch.fleet.manifest batch.layer batch.source batch.firstPosition
    batch.routing reduction.dispatched.results = .ok ()
  sums : ∀ token < batch.routing.tokenCount, SumOf batch.expertOutput
    (batch.routing.pairs.filter fun pair => pair.tokenSlot = token : List PrefillPair)
    (reduction.dispatched.results.foldl (fun sum result => sum + result.outputs token) 0)

def reduction (batch : Batch Row) (finite : Row → Bool) : Reduction Row :=
  runReduction finite batch.fleet batch.source batch.layer batch.firstPosition batch.routing

theorem reduction_eq (batch : Batch Row) (finite : Row → Bool) :
    (batch.ranks = [] ∧ batch.reduction finite =
      ⟨[], dispatchSent finite (prefillResultDecode finite) batch.context (batch.surroundings (channel []))
        batch.work [] batch.routes false .ready⟩) ∨
    (0 < batch.ranks.length ∧ batch.reduction finite =
      ⟨(HeapTree.below batch.ranks.length 0).map fun k => (batch.rankAt k, batch.nodeFrame k),
        dispatchSent finite (prefillResultDecode finite) batch.context
          (batch.surroundings (channel (runWorker finite batch.fleet groupSize (batch.rankAt 0)
            (batch.nodeFrame 0)).tiles))
          (batch.workFor (batch.rankAt 0)) batch.ranks batch.routes true .pending⟩) := by
  unfold reduction runReduction
  cases hranks : batch.ranks with
  | nil =>
    left
    rw [runSource_alone hranks]
    exact ⟨rfl, rfl⟩
  | cons root rest =>
    right
    have hroot : batch.rankAt 0 = root := by
      rw [rankAt, hranks]
      rfl
    have hlength : 0 < batch.ranks.length := by
      rw [hranks]
      exact Nat.succ_pos _
    have hdelivered : deliveries finite batch.fleet groupSize (batch.rankAt 0) (batch.nodeFrame 0) = _ :=
      deliveries_eq hlength (batch.length_ranks_le.trans_eq (Nat.zero_add _).symm)
    have hframe : batch.nodeFrame 0 = broadcastFrame batch.fleet batch.source batch.sequence (batch.workFor root) := by
      rw [nodeFrame, hroot]
      rfl
    rw [← hranks]
    refine ⟨hlength, ?_⟩
    rw [← hdelivered, hroot, hframe, hranks]
    simp only [runSource_sent hranks]
    rfl

omit [DecidableEq Row] in
theorem exists_node {delivery : Nat × Frame (Message Row)}
    (h : delivery ∈ (HeapTree.below batch.ranks.length 0).map fun k => (batch.rankAt k, batch.nodeFrame k)) :
    ∃ node < batch.ranks.length, delivery = (batch.rankAt node, batch.nodeFrame node) ∧
      batch.ranks.idxOf (batch.rankAt node) = node := by
  obtain ⟨node, hnode, rfl⟩ := List.mem_map.mp h
  have hlt := HeapTree.lt_of_mem_below hnode
  refine ⟨node, hlt, rfl, ?_⟩
  rw [batch.rankAt_eq hlt]
  exact batch.nodup_ranks.idxOf_getElem node hlt

theorem broadcast_ok : Broadcast batch (batch.reduction finite) := by
  rcases reduction_eq batch finite with ⟨hranks, heq⟩ | ⟨hroot, heq⟩
  · rw [heq]
    refine ⟨by rw [hranks]; exact List.Perm.nil, fun delivery hdelivery => absurd hdelivery List.not_mem_nil⟩
  · rw [heq]
    refine ⟨?_, fun delivery hdelivery => ?_⟩
    · have hnodes := (HeapTree.below_zero_perm batch.ranks.length).map batch.rankAt
      rw [List.map_map]
      refine hnodes.trans (List.Perm.of_eq (List.ext_getElem (by simp) fun k hk hk' => ?_))
      rw [List.getElem_map, List.getElem_range, batch.rankAt_eq hk']
    · obtain ⟨node, hnode, rfl, hindex⟩ := exists_node hdelivery
      refine ⟨?_, _, admitWork_ok hnode⟩
      rw [hindex]
      rfl

theorem results_ok (hfinite : batch.FiniteRows finite) (roots : List (PrefillResult Row))
    (hroots : ∀ result ∈ roots, Part batch finite result ∧ result.contributorMask = batch.mask 0)
    (hlength : roots.length ≤ 1) (hcovered : batch.ranks ≠ [] → roots ≠ []) :
    validateRoute finite batch.fleet.manifest batch.layer batch.source batch.firstPosition batch.routing
        (batch.ownResults ++ roots) = .ok () ∧
      ∀ token < batch.routing.tokenCount, SumOf batch.expertOutput
        (batch.routing.pairs.filter fun pair => pair.tokenSlot = token : List PrefillPair)
        ((batch.ownResults ++ roots).foldl (fun sum result => sum + result.outputs token) 0) := by
  have hparts := parts_ok hfinite roots hroots hlength hcovered
  refine ⟨hparts.accepted ?_, fun token htoken => hparts.sumOf htoken⟩
  rw [List.length_append]
  have hown : batch.ownResults.length ≤ 1 := length_ownResults_le
  unfold groupSize
  omega

theorem reduced_ok (hfinite : batch.FiniteRows finite) : Reduced batch finite (batch.reduction finite) := by
  rcases reduction_eq batch finite with ⟨hranks, heq⟩ | ⟨hroot, heq⟩
  · obtain ⟨hstatus, hresults⟩ := dispatchSent_ok finite ⟨batch.source, workFor_source.symm⟩ []
      (channel []) false .ready (fun h => absurd h Bool.false_ne_true)
    obtain ⟨hroute, hsums⟩ := results_ok hfinite [] (fun _ h => absurd h List.not_mem_nil) (Nat.zero_le 1)
      fun hne => absurd hranks hne
    rw [heq]
    refine ⟨fun _ h => absurd h List.not_mem_nil, fun _ h => absurd h List.not_mem_nil,
      fun _ h => absurd h List.not_mem_nil, hstatus, ?_, ?_⟩
    · rw [hresults]
      exact hroute
    · rw [hresults]
      exact hsums
  · have hrun : ∀ node < batch.ranks.length,
        runWorker finite batch.fleet groupSize (batch.rankAt node) (batch.nodeFrame node) =
          ⟨(HeapTree.children batch.ranks.length node).map fun child =>
              (batch.rankAt child, batch.nodeFrame child),
            (tileStarts batch.routing.tokenCount).map (batch.tileFrame node), .ok ()⟩ := fun node hnode =>
      runWorker_ok hfinite hnode (batch.length_ranks_le.trans (Nat.le_add_left _ _))
    rw [hrun 0 hroot] at heq
    obtain ⟨draining, hdraining, hreceived, hpart⟩ :=
      drainRoot_ok hfinite hroot batch.context rfl rfl rfl
    obtain ⟨hstatus, hresults⟩ := dispatchSent_ok finite ⟨batch.rankAt 0, rfl⟩ batch.ranks
      (channel ((tileStarts batch.routing.tokenCount).map (batch.tileFrame 0))) true .pending
      (fun _ => hdraining.symm ▸ hreceived)
    obtain ⟨hroute, hsums⟩ := results_ok hfinite [rootResult (batch.workFor (batch.rankAt 0)) batch.ranks draining]
      (fun result hresult => List.mem_singleton.mp hresult ▸ ⟨hpart, rfl⟩) (Nat.le_refl 1)
      fun _ => List.cons_ne_nil _ _
    rw [hdraining] at hresults
    rw [heq]
    refine ⟨fun delivery hdelivery => ?_, fun delivery hdelivery => ?_, fun delivery hdelivery => ?_, hstatus, ?_, ?_⟩
    · obtain ⟨node, hnode, rfl, -⟩ := exists_node hdelivery
      rw [hrun node hnode]
    · obtain ⟨node, hnode, rfl, -⟩ := exists_node hdelivery
      rw [hrun node hnode]
      exact frameTokens_tiles node
    · obtain ⟨node, hnode, rfl, hindex⟩ := exists_node hdelivery
      intro frame hframe reader hreader
      rw [hrun node hnode] at hframe
      obtain ⟨first, hfirst, rfl⟩ := List.mem_map.mp hframe
      refine ⟨batch.tile node first, rfl, ?_⟩
      rw [hindex]
      exact tile_accepted hfinite hnode (mem_tileStarts.mp hfirst).1 hreader
    · rw [hresults]
      exact hroute
    · rw [hresults]
      exact hsums

/-- The prefill reduction tree: every active remote rank gets the broadcast once and from the parent it
expects, whatever the devices compute; and unless a row overflows, the tiles cover the batch and are
accepted, and what the source ends with sums every routed expert output once. -/
theorem reduction_correct (batch : Batch Row) (finite : Row → Bool) :
    Broadcast batch (batch.reduction finite) ∧
      (batch.FiniteRows finite → Reduced batch finite (batch.reduction finite)) :=
  ⟨broadcast_ok, reduced_ok⟩

end Whole

end Batch

section Sample

/-- The topology of `fg_topology_build` with the experts dealt out in turn. -/
def dealtManifest : Manifest where
  layerOwner layer := layer % rankCount
  layerGroups layer group := (layer + epDelta group) % rankCount
  expertRank layer expert := (layer + epDelta (Fin.ofNat 4 expert)) % rankCount

theorem dealt_inj {layer : Nat} {group other : Fin 4}
    (h : (layer + epDelta group) % rankCount = (layer + epDelta other) % rankCount) : group = other := by
  have hapart : ∀ group other : Fin 4, epDelta group = epDelta other → group = other := by decide
  have hlt : ∀ group : Fin 4, epDelta group < 8 := by decide
  have hgroup := hlt group
  have hother := hlt other
  unfold rankCount at h
  exact hapart group other (by omega)

theorem dealtManifest_layer (layer : Nat) : validateLayer dealtManifest layer = .ok () := by
  have hcount : ∀ group : Fin 4, (List.range expertCount).countP (fun expert => Fin.ofNat 4 expert = group) =
      expertsPerRank := by decide +kernel
  have howner : dealtManifest.layerOwner layer < rankCount := Nat.mod_lt layer (by decide)
  rw [validateLayer, if_neg (not_le.mpr howner)]
  split
  next rank hgroup =>
    have hmem : ∀ group, dealtManifest.layerGroups layer group = rank := fun group =>
      List.mem_singleton.mp (hgroup ▸ mem_groupRanks.mpr ⟨group, rfl⟩)
    exact absurd (dealt_inj ((hmem 0).trans (hmem 1).symm)) (by decide)
  · rw [if_neg fun hwrong => hwrong.elim fun group hne => hne rfl, List.find?_eq_none.mpr fun expert _ => ?_]
    · dsimp only
      rw [List.find?_eq_none.mpr fun group _ => ?_]
      rw [decide_eq_true_eq, not_not, ← hcount group]
      refine List.countP_congr fun expert _ => ?_
      rw [decide_eq_true_eq, decide_eq_true_eq]
      exact ⟨dealt_inj, fun heq => heq ▸ rfl⟩
    · rw [decide_eq_true_eq, not_not]
      exact ⟨Fin.ofNat 4 expert, rfl⟩

theorem dealtManifest_valid : validateTopology dealtManifest = .ok () :=
  validateTopology_of_layers dealtManifest_layer

local instance : ZeroSum Nat where
  zero_add_zero := rfl

/-- A device that adds up the ids of the experts it runs. -/
def idDevice (_ : Nat) (work : PrefillWork) (token : Nat) : Nat :=
  ((work.pairs.filter fun pair => pair.tokenSlot = token).map PrefillPair.expertId).foldr (· + ·) 0

theorem idDevice_sums (pairs : List PrefillPair) :
    SumOf PrefillPair.expertId (pairs : Multiset PrefillPair)
      ((pairs.map PrefillPair.expertId).foldr (· + ·) 0) := by
  induction pairs with
  | nil => exact .zero
  | cons pair rest ih => exact ((SumOf.single pair).add ih).congr (Multiset.singleton_add _ _)

def dealtBatch : Batch Nat where
  fleet := ⟨dealtManifest, 1, 512, idDevice⟩
  source := 0
  layer := 2
  firstPosition := 0
  routing := ⟨17, fun _ slot => slot, fun _ _ => ⟨0x3f800000⟩⟩
  expertOutput := PrefillPair.expertId
  topology := dealtManifest_valid
  layer_lt := by decide
  source_owner := .inl rfl
  session := by decide
  tokens_pos := by decide
  tokens_le := by decide
  tokens_fit := by decide
  positions_fit := by decide
  expert_lt _ _ slot hslot := hslot.trans (by decide)
  gate_finite _ _ _ _ := (by decide : (⟨0x3f800000⟩ : Binary32).isFinite = true)
  experts_differ _ _ _ _ _ _ heq := heq
  device_sums _ work token _ := idDevice_sums _

theorem dealtBatch_reduced :
    dealtBatch.ranks = [2, 3, 5, 7] ∧
      Batch.Reduced dealtBatch (fun _ => true) (dealtBatch.reduction fun _ => true) :=
  ⟨by decide +kernel, (Batch.reduction_correct dealtBatch fun _ => true).2
    ⟨fun _ _ _ _ => rfl, fun _ _ _ _ => rfl, fun _ _ => rfl⟩⟩

end Sample

end FlashGordon.Prefill
