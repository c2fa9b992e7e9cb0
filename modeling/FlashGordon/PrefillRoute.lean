import FlashGordon.PrefillBatch

/-! What the check of a complete prefill reduction (`fg_prefill_results_validate_route`) proves about the
results it accepts, whoever sent them: every place of the routing list is in exactly one result, whose ranks
include the owner of the expert routed there, the ranks of different results are apart, and a token without a
place in a result has a zero row in it. -/

namespace FlashGordon.Prefill

variable {Row : Type} [Zero Row] [DecidableEq Row] {finite : Row → Bool} {manifest : Manifest}
  {work : PrefillWork} {mask : Finset Nat} {result : PrefillResult Row}

theorem matchPairs_mem {expected pairs : List ResultPair} (h : matchPairs expected pairs = .ok ()) :
    ∀ pair ∈ pairs, pair ∈ expected := by
  induction pairs generalizing expected with
  | nil => exact fun pair hpair => absurd hpair List.not_mem_nil
  | cons head rest ih =>
    rw [matchPairs] at h
    split at h
    next hhead =>
      refine List.forall_mem_cons.mpr ⟨hhead, fun pair hpair => ?_⟩
      exact (List.mem_filter.mp (ih h pair hpair)).1
    · cases h

theorem checkResultPairs_inv {tokenCount : Nat} {before pairs : List ResultPair}
    (h : checkResultPairs tokenCount before pairs = .ok ()) :
    (∀ pair ∈ pairs, pair.tokenSlot < tokenCount ∧ pair.routingSlot < topK ∧ pair ∉ before) ∧ pairs.Nodup := by
  induction pairs generalizing before with
  | nil => exact ⟨fun pair hpair => absurd hpair List.not_mem_nil, List.nodup_nil⟩
  | cons head rest ih =>
    rw [checkResultPairs] at h
    split at h
    · cases h
    next hhead =>
      rw [not_or, not_or, not_le, not_le] at hhead
      obtain ⟨hrest, hnodup⟩ := ih h
      constructor
      · refine List.forall_mem_cons.mpr ⟨hhead, fun pair hpair => ?_⟩
        obtain ⟨htoken, hslot, hbefore⟩ := hrest pair hpair
        exact ⟨htoken, hslot, fun hmem => hbefore (List.mem_append_left _ hmem)⟩
      · refine List.nodup_cons.mpr ⟨fun hmem => ?_, hnodup⟩
        exact (hrest head hmem).2.2 (List.mem_append_right _ (List.mem_singleton_self head))

theorem checkRows_zero {tokens : List Nat} (h : checkRows finite result tokens = .ok ()) :
    ∀ token ∈ tokens, (∀ pair ∈ result.pairs, pair.tokenSlot ≠ token) → result.outputs token = 0 := by
  induction tokens with
  | nil => exact fun token htoken => absurd htoken List.not_mem_nil
  | cons head rest ih =>
    rw [checkRows] at h
    split at h
    · cases h
    next hhead =>
      refine List.forall_mem_cons.mpr ⟨fun hidle => ?_, ih h⟩
      by_contra hne
      refine hhead (.inr ⟨?_, hne⟩)
      rw [List.any_eq_false]
      intro pair hpair
      rw [decide_eq_true_eq]
      exact hidle pair hpair

/-- What a result that passes the check of its subtree has, when its window starts at the first token. -/
structure Listed (manifest : Manifest) (work : PrefillWork) (result : PrefillResult Row) : Prop where
  nodup : result.pairs.Nodup
  in_range : ∀ pair ∈ result.pairs, pair.tokenSlot < result.tokenCount ∧ pair.routingSlot < topK
  routed : ∀ pair ∈ result.pairs, ∃ routed ∈ work.pairs,
    manifest.pairRank work.layer routed ∈ result.contributorMask ∧ routed.tokenSlot = pair.tokenSlot ∧
      routed.routingSlot = pair.routingSlot
  rows_zero : ∀ token < result.tokenCount,
    (∀ pair ∈ result.pairs, pair.tokenSlot ≠ token) → result.outputs token = 0

theorem validateSubset_listed (hfirst : result.firstPosition = work.firstPosition)
    (h : validateSubset finite manifest work result.contributorMask result = .ok ()) :
    Listed manifest work result := by
  rw [validateSubset] at h
  split at h
  · cases h
  split at h
  · cases h
  split at h
  · cases h
  rename_i hresult
  split at h
  · cases h
  dsimp only at h
  split at h
  · cases h
  split at h
  · cases h
  rw [validatePrefillResult] at hresult
  split at hresult
  · cases hresult
  split at hresult
  · cases hresult
  rename_i hpairs
  obtain ⟨hrange, hnodup⟩ := checkResultPairs_inv hpairs
  refine ⟨hnodup, fun pair hpair => ⟨(hrange pair hpair).1, (hrange pair hpair).2.1⟩, fun pair hpair => ?_, ?_⟩
  · have hexpected := matchPairs_mem h pair hpair
    rw [hfirst, Nat.sub_self] at hexpected
    obtain ⟨-, routed, hmem, hmask, htoken, hslot⟩ := mem_windowPairs.mp hexpected
    exact ⟨routed, hmem, hmask, htoken.trans (Nat.zero_add _), hslot⟩
  · exact fun token htoken => checkRows_zero hresult token (List.mem_range.mpr htoken)

theorem countP_eq_one {α : Type} {items : List α} {p : α → Bool} (hex : ∃ item ∈ items, p item = true)
    (hone : items.Pairwise fun item other => p item = true → p other = false) : items.countP p = 1 := by
  induction items with
  | nil =>
    obtain ⟨item, hitem, -⟩ := hex
    exact absurd hitem List.not_mem_nil
  | cons head rest ih =>
    obtain ⟨hhead, hrest⟩ := List.pairwise_cons.mp hone
    cases hp : p head with
    | true =>
      have hzero : rest.countP p = 0 := by
        rw [List.countP_eq_zero]
        intro item hitem htrue
        rw [hhead item hitem hp] at htrue
        cases htrue
      rw [List.countP_cons_of_pos hp, hzero]
    | false =>
      obtain ⟨item, hitem, hpi⟩ := hex
      have hmem : item ∈ rest := by
        rcases List.mem_cons.mp hitem with rfl | hmem
        · rw [hp] at hpi
          cases hpi
        · exact hmem
      rw [List.countP_cons_of_neg (by rw [hp]; decide)]
      exact ih ⟨item, hmem, hpi⟩ hrest

theorem checkResults_inv {results : List (PrefillResult Row)} {seen : Finset Nat} {received total : Nat}
    (h : checkResults finite manifest work results seen received = .ok total) :
    (∀ result ∈ results, Listed manifest work result ∧ result.tokenCount = work.tokenCount ∧
        Disjoint seen result.contributorMask) ∧
      results.Pairwise (fun result other => Disjoint result.contributorMask other.contributorMask) ∧
      total = received + (results.flatMap PrefillResult.pairs).length := by
  induction results generalizing seen received with
  | nil =>
    cases h
    exact ⟨fun result hresult => absurd hresult List.not_mem_nil, List.Pairwise.nil, rfl⟩
  | cons head rest ih =>
    rw [checkResults] at h
    split at h
    · cases h
    rename_i hhead
    rw [not_or, not_or, not_not, not_not, not_not] at hhead
    obtain ⟨hfirst, htokens, hapart⟩ := hhead
    split at h
    · cases h
    rename_i hsubset
    obtain ⟨hlisted, hpairwise, htotal⟩ := ih h
    refine ⟨List.forall_mem_cons.mpr ⟨?_, fun result hresult => ?_⟩, List.Pairwise.cons ?_ hpairwise, ?_⟩
    · exact ⟨validateSubset_listed hfirst hsubset, htokens, Finset.disjoint_iff_inter_eq_empty.mpr hapart⟩
    · obtain ⟨hone, htwo, hthree⟩ := hlisted result hresult
      exact ⟨hone, htwo, (Finset.disjoint_union_left.mp hthree).1⟩
    · exact fun result hresult => (Finset.disjoint_union_left.mp (hlisted result hresult).2.2).2
    · rw [htotal, List.flatMap_cons, List.length_append, Nat.add_assoc]

theorem mem_canonicalWork {layer owner : Nat} {first : UInt32} {routing : Routing} {pair : PrefillPair}
    (h : pair ∈ (canonicalWork layer owner first routing).pairs) :
    pair.expertId = routing.expertIds pair.tokenSlot pair.routingSlot := by
  obtain ⟨token, -, hpair⟩ := List.mem_flatMap.mp h
  obtain ⟨slot, -, rfl⟩ := List.mem_map.mp hpair
  rfl

section Accepted

variable {layer owner : Nat} {first : UInt32} {routing : Routing} {results : List (PrefillResult Row)}

theorem validateRoute_inv (h : validateRoute finite manifest layer owner first routing results = .ok ()) :
    checkResults finite manifest (canonicalWork layer owner first routing) results ∅ 0 =
      .ok (routing.tokenCount * topK) := by
  rw [validateRoute] at h
  split at h
  · cases h
  split at h
  · cases h
  split at h
  · cases h
  rename_i received hreceived
  split at h
  · cases h
  rename_i htotal
  rw [hreceived, not_not.mp htotal]

omit [DecidableEq Row] in
theorem Listed.owner_mem (h : Listed manifest (canonicalWork layer owner first routing) result) {pair : ResultPair}
    (hpair : pair ∈ result.pairs) :
    manifest.expertRank layer (routing.expertIds pair.tokenSlot pair.routingSlot) ∈ result.contributorMask := by
  obtain ⟨routed, hmem, hmask, htoken, hslot⟩ := h.routed pair hpair
  rw [Manifest.pairRank, mem_canonicalWork hmem, htoken, hslot] at hmask
  exact hmask

omit [DecidableEq Row] in
theorem nodup_listed (hlisted : ∀ result ∈ results, Listed manifest (canonicalWork layer owner first routing) result)
    (hapart : results.Pairwise fun result other => Disjoint result.contributorMask other.contributorMask) :
    (results.flatMap PrefillResult.pairs).Nodup := by
  refine List.nodup_flatMap.mpr ⟨fun result hresult => (hlisted result hresult).nodup, ?_⟩
  refine hapart.imp_of_mem fun hresult hother hdisjoint => ?_
  intro pair hpair hpair'
  exact Finset.disjoint_left.mp hdisjoint ((hlisted _ hresult).owner_mem hpair) ((hlisted _ hother).owner_mem hpair')

structure Complete (manifest : Manifest) (layer : Nat) (routing : Routing) (results : List (PrefillResult Row)) :
    Prop where
  once : ∀ token < routing.tokenCount, ∀ slot < topK,
    (results.countP fun result => ⟨token, slot⟩ ∈ result.pairs) = 1
  owner_mem : ∀ result ∈ results, ∀ pair ∈ result.pairs,
    manifest.expertRank layer (routing.expertIds pair.tokenSlot pair.routingSlot) ∈ result.contributorMask
  apart : results.Pairwise fun result other => Disjoint result.contributorMask other.contributorMask
  zero_row : ∀ result ∈ results, ∀ token < routing.tokenCount,
    (∀ pair ∈ result.pairs, pair.tokenSlot ≠ token) → result.outputs token = 0

theorem mem_of_nodup_of_length {tokenCount : Nat} {pairs : List ResultPair} (hnodup : pairs.Nodup)
    (hrange : ∀ pair ∈ pairs, pair.tokenSlot < tokenCount ∧ pair.routingSlot < topK)
    (hlength : pairs.length = tokenCount * topK) {token slot : Nat} (htoken : token < tokenCount)
    (hslot : slot < topK) : (⟨token, slot⟩ : ResultPair) ∈ pairs := by
  have hinjective : Function.Injective fun pair : ResultPair => (pair.tokenSlot, pair.routingSlot) := by
    rintro ⟨token, slot⟩ ⟨token', slot'⟩ heq
    simpa using heq
  have hplaces : (pairs.map fun pair => (pair.tokenSlot, pair.routingSlot)).Nodup := hnodup.map hinjective
  have hall : (pairs.map fun pair => (pair.tokenSlot, pair.routingSlot)).toFinset =
      Finset.range tokenCount ×ˢ Finset.range topK := by
    apply Finset.eq_of_subset_of_card_le
    · intro place hplace
      obtain ⟨pair, hpair, rfl⟩ := List.mem_map.mp (List.mem_toFinset.mp hplace)
      obtain ⟨htoken, hslot⟩ := hrange pair hpair
      exact Finset.mem_product.mpr ⟨Finset.mem_range.mpr htoken, Finset.mem_range.mpr hslot⟩
    · rw [List.toFinset_card_of_nodup hplaces, List.length_map, hlength, Finset.card_product, Finset.card_range,
        Finset.card_range]
  have hmem : (token, slot) ∈ (pairs.map fun pair => (pair.tokenSlot, pair.routingSlot)).toFinset := by
    rw [hall]
    exact Finset.mem_product.mpr ⟨Finset.mem_range.mpr htoken, Finset.mem_range.mpr hslot⟩
  obtain ⟨pair, hpair, heq⟩ := List.mem_map.mp (List.mem_toFinset.mp hmem)
  cases heq
  exact hpair

/-- An accepted set of results is a complete reduction of the routing list. -/
theorem validateRoute_complete (manifest : Manifest) (layer owner : Nat) (first : UInt32) (routing : Routing)
    (results : List (PrefillResult Row))
    (h : validateRoute finite manifest layer owner first routing results = .ok ()) :
    Complete manifest layer routing results := by
  obtain ⟨hresults, hapart, htotal⟩ := checkResults_inv (validateRoute_inv h)
  have hlisted : ∀ result ∈ results, Listed manifest (canonicalWork layer owner first routing) result :=
    fun result hresult => (hresults result hresult).1
  have htokens : ∀ result ∈ results, result.tokenCount = routing.tokenCount :=
    fun result hresult => (hresults result hresult).2.1
  have hrange : ∀ pair ∈ results.flatMap PrefillResult.pairs,
      pair.tokenSlot < routing.tokenCount ∧ pair.routingSlot < topK := by
    intro pair hpair
    obtain ⟨result, hresult, hmem⟩ := List.mem_flatMap.mp hpair
    rw [← htokens result hresult]
    exact (hlisted result hresult).in_range pair hmem
  constructor
  · intro token htoken slot hslot
    apply countP_eq_one
    · have hlength : (results.flatMap PrefillResult.pairs).length = routing.tokenCount * topK := by
        rw [htotal, Nat.zero_add]
      have hmem := mem_of_nodup_of_length (nodup_listed hlisted hapart) hrange hlength htoken hslot
      obtain ⟨result, hresult, hpair⟩ := List.mem_flatMap.mp hmem
      exact ⟨result, hresult, decide_eq_true hpair⟩
    · refine hapart.imp_of_mem fun hresult hother hdisjoint hfirst => decide_eq_false fun hsecond => ?_
      exact Finset.disjoint_left.mp hdisjoint ((hlisted _ hresult).owner_mem (of_decide_eq_true hfirst))
        ((hlisted _ hother).owner_mem hsecond)
  · exact fun result hresult pair hpair => (hlisted result hresult).owner_mem hpair
  · exact hapart
  · intro result hresult token htoken
    rw [← htokens result hresult] at htoken
    exact (hlisted result hresult).rows_zero token htoken

/-- A layer that rank 1 has alone, one token, and the whole sum of rank 1. -/
def aloneManifest : Manifest := ⟨fun _ => 0, fun _ _ => 1, fun _ _ => 1⟩

def aloneRouting : Routing := ⟨1, fun _ slot => slot, fun _ _ => ⟨0⟩⟩

def aloneResult : PrefillResult Nat := ⟨0, 1, 0, {1}, 0, 1, (List.range topK).map (⟨0, ·⟩), fun _ => 7⟩

theorem validateRoute_complete_alone :
    validateRoute (fun _ => true) aloneManifest 0 0 0 aloneRouting [aloneResult] = .ok () ∧
      Complete aloneManifest 0 aloneRouting [aloneResult] := by
  have haccepted : validateRoute (fun _ => true) aloneManifest 0 0 0 aloneRouting [aloneResult] = .ok () := by
    rfl
  exact ⟨haccepted, validateRoute_complete aloneManifest 0 0 0 aloneRouting [aloneResult] haccepted⟩

end Accepted

end FlashGordon.Prefill
