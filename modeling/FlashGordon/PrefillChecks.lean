import Mathlib.Data.Finset.Prod
import FlashGordon.PrefillTree

/-! What the prefill validators accept. A list of pairs is well routed when every pair is in range and no
two pairs of one token share a slot or an expert; every check loop over pairs accepts such a list. A
result passes the subtree check when its header names the subtree and a window of the batch, its pairs
are those of the window in any order, and its rows are finite and zero where nothing is routed. -/

namespace FlashGordon.Prefill

open Transport Shares List

/-- Two pairs that a token may not both have. -/
def PrefillPair.Clash (pair other : PrefillPair) : Prop :=
  pair.tokenSlot = other.tokenSlot ∧ (pair.routingSlot = other.routingSlot ∨ pair.expertId = other.expertId)

theorem PrefillPair.Clash.symm {pair other : PrefillPair} (h : pair.Clash other) : other.Clash pair :=
  ⟨h.1.symm, h.2.imp Eq.symm Eq.symm⟩

structure WellRouted (tokenCount : Nat) (pairs : List PrefillPair) : Prop where
  token_lt : ∀ pair ∈ pairs, pair.tokenSlot < tokenCount
  expert_lt : ∀ pair ∈ pairs, pair.expertId < expertCount
  slot_lt : ∀ pair ∈ pairs, pair.routingSlot < topK
  gate_finite : ∀ pair ∈ pairs, pair.gate.isFinite = true
  apart : pairs.Pairwise fun pair other => ¬ pair.Clash other

namespace WellRouted

variable {tokenCount : Nat} {pairs : List PrefillPair}

theorem perm {others : List PrefillPair} (h : WellRouted tokenCount pairs) (hperm : pairs.Perm others) :
    WellRouted tokenCount others where
  token_lt pair hpair := h.token_lt pair (hperm.mem_iff.mpr hpair)
  expert_lt pair hpair := h.expert_lt pair (hperm.mem_iff.mpr hpair)
  slot_lt pair hpair := h.slot_lt pair (hperm.mem_iff.mpr hpair)
  gate_finite pair hpair := h.gate_finite pair (hperm.mem_iff.mpr hpair)
  apart := (hperm.pairwise_iff fun hnot hclash => hnot hclash.symm).mp h.apart

theorem sublist {others : List PrefillPair} (h : WellRouted tokenCount pairs) (hsub : others.Sublist pairs) :
    WellRouted tokenCount others where
  token_lt pair hpair := h.token_lt pair (hsub.subset hpair)
  expert_lt pair hpair := h.expert_lt pair (hsub.subset hpair)
  slot_lt pair hpair := h.slot_lt pair (hsub.subset hpair)
  gate_finite pair hpair := h.gate_finite pair (hsub.subset hpair)
  apart := h.apart.sublist hsub

theorem not_clash {before rest : List PrefillPair} {pair : PrefillPair}
    (h : WellRouted tokenCount (before ++ pair :: rest)) : ∀ other ∈ before, ¬ other.Clash pair :=
  fun other hother => (pairwise_append.mp h.apart).2.2 other hother pair mem_cons_self

end WellRouted

section Loops

variable {tokenCount : Nat} {before pairs : List PrefillPair}

section

variable (h : WellRouted tokenCount (before ++ pairs))
include h

theorem checkWorkPairs_ok :
    checkWorkPairs tokenCount before pairs = .ok () := by
  induction pairs generalizing before with
  | nil => rfl
  | cons pair rest ih =>
    have hpair : pair ∈ before ++ pair :: rest := by simp
    unfold checkWorkPairs
    rw [if_neg, if_neg, ih (by simpa using h)]
    · simp only [any_eq_true, decide_eq_true_eq, not_exists, not_and]
      intro other hother htoken hplace
      exact h.not_clash other hother ⟨htoken, hplace⟩
    · have := h.token_lt pair hpair
      have := h.expert_lt pair hpair
      have := h.slot_lt pair hpair
      simp only [h.gate_finite pair hpair, Bool.true_eq_false, or_false, not_or, not_le]
      omega

theorem checkRoutes_ok {manifest : Manifest} {layer : Nat} (hgroup : ∀ pair ∈ pairs, rankInLayer manifest layer (manifest.pairRank layer pair) = true) :
    checkRoutes manifest layer before pairs = .ok () := by
  induction pairs generalizing before with
  | nil => rfl
  | cons pair rest ih =>
    have hpair : pair ∈ before ++ pair :: rest := by simp
    unfold checkRoutes
    rw [if_neg, if_neg, ih (by simpa using h) (forall_mem_cons.mp hgroup).2]
    · rw [hgroup pair mem_cons_self]
      simp
    · have := h.expert_lt pair hpair
      simp only [h.gate_finite pair hpair, Bool.true_eq_false, false_or, not_or, not_le,
        any_eq_true, decide_eq_true_eq, not_exists, not_and]
      exact ⟨this, fun other hother htoken hexpert => h.not_clash other hother ⟨htoken, .inr hexpert⟩⟩

theorem checkCanonical_ok : checkCanonical before pairs = .ok () := by
  induction pairs generalizing before with
  | nil => rfl
  | cons pair rest ih =>
    unfold checkCanonical
    rw [if_neg, ih (by simpa using h)]
    have := h.expert_lt pair (by simp)
    simp only [not_or, not_le, any_eq_true, decide_eq_true_eq, not_exists, not_and]
    exact ⟨this, fun other hother htoken hexpert => h.not_clash other hother ⟨htoken, .inr hexpert⟩⟩

end

theorem checkResultPairs_ok {before pairs : List ResultPair} (htoken : ∀ pair ∈ pairs, pair.tokenSlot < tokenCount)
    (hslot : ∀ pair ∈ pairs, pair.routingSlot < topK) (hnodup : (before ++ pairs).Nodup) :
    checkResultPairs tokenCount before pairs = .ok () := by
  induction pairs generalizing before with
  | nil => rfl
  | cons pair rest ih =>
    unfold checkResultPairs
    rw [if_neg, ih (forall_mem_cons.mp htoken).2 (forall_mem_cons.mp hslot).2 (by simpa using hnodup)]
    have := htoken pair mem_cons_self
    have := hslot pair mem_cons_self
    have hnot : pair ∉ before := fun hmem =>
      (nodup_append.mp hnodup).2.2 pair hmem pair mem_cons_self rfl
    simp only [hnot, or_false, not_or, not_le]
    omega

theorem matchPairs_ok {expected pairs : List ResultPair} (hnodup : pairs.Nodup)
    (hsub : ∀ pair ∈ pairs, pair ∈ expected) : matchPairs expected pairs = .ok () := by
  induction pairs generalizing expected with
  | nil => rfl
  | cons pair rest ih =>
    obtain ⟨hpair, hrest⟩ := nodup_cons.mp hnodup
    rw [matchPairs, if_pos (hsub pair mem_cons_self)]
    refine ih hrest fun other hother => mem_filter.mpr ⟨hsub other (mem_cons_of_mem _ hother), ?_⟩
    rw [decide_eq_true_eq]
    rintro rfl
    exact hpair hother

end Loops

/-- A work that `validate_prefill_work` accepts. -/
structure PrefillWork.WellFormed (work : PrefillWork) : Prop where
  layer_lt : work.layer < layerCount
  source_lt : work.sourceRank < rankCount
  destination_lt : work.destinationRank < rankCount
  tokens_pos : 0 < work.tokenCount
  tokens_le : work.tokenCount ≤ prefillMaxTokens
  pairs_pos : 0 < work.pairs.length
  pairs_le : work.pairs.length ≤ work.tokenCount * topK
  routed : WellRouted work.tokenCount work.pairs

theorem PrefillWork.WellFormed.accepted {work : PrefillWork} (h : work.WellFormed) :
    validatePrefillWork work = .ok () := by
  have := h.layer_lt
  have := h.source_lt
  have := h.destination_lt
  have := h.tokens_pos
  have := h.tokens_le
  have := h.pairs_pos
  have := h.pairs_le
  rw [validatePrefillWork, if_neg (by simp only [not_or, not_le]; omega)]
  exact checkWorkPairs_ok h.routed

theorem PrefillWork.WellFormed.readdress {work : PrefillWork} (h : work.WellFormed) {rank : Nat}
    (hrank : rank < rankCount) : { work with destinationRank := rank : PrefillWork }.WellFormed :=
  { h with destination_lt := hrank }

/-- The ranks of `mask` all have a pair of the work. -/
def Contributing (manifest : Manifest) (work : PrefillWork) (mask : Finset Nat) : Prop :=
  ∀ rank ∈ mask, ∃ pair ∈ work.pairs, manifest.pairRank work.layer pair = rank

/-- All pairs of the work fall to ranks of the layer's group. -/
def InGroup (manifest : Manifest) (work : PrefillWork) : Prop :=
  ∀ pair ∈ work.pairs, rankInLayer manifest work.layer (manifest.pairRank work.layer pair) = true

section Window

variable {manifest : Manifest} {work : PrefillWork} {mask : Finset Nat} {first tokens : Nat} {pair : ResultPair}

theorem mem_windowPairs :
    pair ∈ windowPairs manifest work mask first tokens ↔
      pair.tokenSlot < tokens ∧ ∃ routed ∈ work.pairs, manifest.pairRank work.layer routed ∈ mask ∧
        routed.tokenSlot = first + pair.tokenSlot ∧ routed.routingSlot = pair.routingSlot := by
  simp only [windowPairs, mem_map, mem_filter, decide_eq_true_eq]
  constructor
  · rintro ⟨routed, ⟨hmem, hmask, hfirst, hlast⟩, rfl⟩
    exact ⟨by dsimp only; omega, routed, hmem, hmask, by dsimp only; omega, rfl⟩
  · rintro ⟨htoken, routed, hmem, hmask, hslot, hrouting⟩
    refine ⟨routed, ⟨hmem, hmask, by omega, by omega⟩, ?_⟩
    rw [ResultPair.mk.injEq]
    exact ⟨by omega, hrouting⟩

theorem windowPairs_nodup (h : WellRouted work.tokenCount work.pairs) :
    (windowPairs manifest work mask first tokens).Nodup := by
  have hwindow := (h.sublist (filter_sublist (l := work.pairs)
    (p := fun pair => manifest.pairRank work.layer pair ∈ mask ∧ first ≤ pair.tokenSlot ∧
      pair.tokenSlot < first + tokens)))
  refine pairwise_map.mpr (hwindow.apart.imp_of_mem fun hpair hother hnot heq => hnot ?_)
  rw [ResultPair.mk.injEq] at heq
  simp only [mem_filter, decide_eq_true_eq] at hpair hother
  exact ⟨by omega, .inl heq.2⟩

end Window

section Results

variable {Row : Type} [Zero Row] [DecidableEq Row] {finite : Row → Bool}

theorem checkRows_ok {result : PrefillResult Row} {tokens : List Nat}
    (hfinite : ∀ token ∈ tokens, finite (result.outputs token) = true)
    (hzero : ∀ token ∈ tokens, (∀ pair ∈ result.pairs, pair.tokenSlot ≠ token) → result.outputs token = 0) :
    checkRows finite result tokens = .ok () := by
  induction tokens with
  | nil => rfl
  | cons token rest ih =>
    unfold checkRows
    rw [if_neg, ih (forall_mem_cons.mp hfinite).2 (forall_mem_cons.mp hzero).2]
    rw [hfinite token mem_cons_self, not_or]
    refine ⟨by simp, fun hidle => hidle.2 (hzero token mem_cons_self ?_)⟩
    simpa using hidle.1

structure Covers (finite : Row → Bool) (manifest : Manifest) (work : PrefillWork) (mask : Finset Nat)
    (first : Nat) (result : PrefillResult Row) : Prop where
  layer_eq : result.layer = work.layer
  source_mem : result.sourceRank ∈ mask
  source_lt : result.sourceRank < rankCount
  destination_eq : result.destinationRank = work.sourceRank
  mask_eq : result.contributorMask = mask
  position_eq : result.firstPosition.toNat = work.firstPosition.toNat + first
  tokens_pos : 0 < result.tokenCount
  tokens_le : first + result.tokenCount ≤ work.tokenCount
  pairs_perm : result.pairs.Perm (windowPairs manifest work mask first result.tokenCount)
  rows_finite : ∀ token < result.tokenCount, finite (result.outputs token) = true
  rows_zero : ∀ token < result.tokenCount,
    (∀ pair ∈ result.pairs, pair.tokenSlot ≠ token) → result.outputs token = 0

variable {manifest : Manifest} {work : PrefillWork} {mask : Finset Nat} {first : Nat} {result : PrefillResult Row}

omit [DecidableEq Row] in
theorem Covers.pairs_nodup (h : Covers finite manifest work mask first result)
    (hrouted : WellRouted work.tokenCount work.pairs) : result.pairs.Nodup :=
  h.pairs_perm.nodup_iff.mpr (windowPairs_nodup hrouted)

theorem length_le_of_nodup {tokenCount : Nat} {pairs : List ResultPair} (hnodup : pairs.Nodup)
    (htoken : ∀ pair ∈ pairs, pair.tokenSlot < tokenCount) (hslot : ∀ pair ∈ pairs, pair.routingSlot < topK) :
    pairs.length ≤ tokenCount * topK := by
  have hinjective : Function.Injective fun pair : ResultPair => (pair.tokenSlot, pair.routingSlot) := by
    rintro ⟨token, slot⟩ ⟨token', slot'⟩ heq
    simpa using heq
  have hcard := Finset.card_le_card (s := (pairs.map fun pair => (pair.tokenSlot, pair.routingSlot)).toFinset)
    (t := Finset.range tokenCount ×ˢ Finset.range topK) fun place hplace => by
      obtain ⟨pair, hpair, rfl⟩ := mem_map.mp (mem_toFinset.mp hplace)
      exact Finset.mem_product.mpr
        ⟨Finset.mem_range.mpr (htoken pair hpair), Finset.mem_range.mpr (hslot pair hpair)⟩
  rwa [toFinset_card_of_nodup (hnodup.map hinjective), length_map, Finset.card_product,
    Finset.card_range, Finset.card_range] at hcard

theorem Covers.result_accepted (h : Covers finite manifest work mask first result) (hwork : work.WellFormed) :
    validatePrefillResult finite result = .ok () := by
  have htoken : ∀ pair ∈ result.pairs, pair.tokenSlot < result.tokenCount := fun pair hpair =>
    (mem_windowPairs.mp (h.pairs_perm.mem_iff.mp hpair)).1
  have hslot : ∀ pair ∈ result.pairs, pair.routingSlot < topK := fun pair hpair => by
    obtain ⟨-, routed, hrouted, -, -, heq⟩ := mem_windowPairs.mp (h.pairs_perm.mem_iff.mp hpair)
    exact heq ▸ hwork.routed.slot_lt routed hrouted
  have hnodup := h.pairs_nodup hwork.routed
  have hlength := length_le_of_nodup hnodup htoken hslot
  have hlayer := hwork.layer_lt
  have hdestination := hwork.source_lt
  have hsource := h.source_lt
  have htokens := hwork.tokens_le
  have hpos := h.tokens_pos
  have hle := h.tokens_le
  rw [validatePrefillResult, if_neg, checkResultPairs_ok htoken hslot (by simpa using hnodup)]
  · refine checkRows_ok (fun token hmem => ?_) fun token hmem => ?_
    · exact h.rows_finite token (mem_range.mp hmem)
    · exact h.rows_zero token (mem_range.mp hmem)
  · rw [h.layer_eq, h.destination_eq, h.mask_eq]
    simp only [h.source_mem, not_true_eq_false, false_or, not_or, not_le]
    omega

theorem Covers.accepted (h : Covers finite manifest work mask first result) (hwork : work.WellFormed)
    (hgroup : InGroup manifest work) (hmask : Contributing manifest work mask) :
    validateSubset finite manifest work mask result = .ok () := by
  have hne : mask ≠ ∅ := Finset.ne_empty_of_mem h.source_mem
  have hposition := h.position_eq
  have htokens := h.tokens_le
  have hfirst : result.firstPosition.toNat - work.firstPosition.toNat = first := by omega
  rw [validateSubset, if_neg hne, hwork.accepted, h.result_accepted hwork]
  rw [if_neg, if_neg, if_neg, hfirst]
  · exact matchPairs_ok (h.pairs_nodup hwork.routed) fun pair => h.pairs_perm.mem_iff.mp
  · rw [hfirst, not_or, not_not, not_not]
    refine ⟨?_, h.pairs_perm.length_eq.symm⟩
    ext rank
    simp only [Finset.mem_inter, mem_toFinset, mem_map]
    exact ⟨And.right, fun hrank => ⟨hmask rank hrank, hrank⟩⟩
  · rintro ⟨pair, hpair, hout⟩
    rw [hgroup pair hpair] at hout
    cases hout
  · simp only [h.layer_eq, h.destination_eq, h.mask_eq, ne_eq, not_true_eq_false, false_or, or_false, not_or,
      not_lt, UInt32.lt_iff_toNat_lt]
    omega

end Results

end FlashGordon.Prefill
