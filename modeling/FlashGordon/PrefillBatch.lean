import Mathlib.Data.Fintype.Card
import Mathlib.Data.List.GetD
import FlashGordon.PrefillChecks

/-! A batch as its source hands it to the dispatch, with what the callers and the topology check promise
about it, and what the ranks then agree on without talking to each other: the work, the active ranks and
the tree that they form. -/

namespace FlashGordon.Prefill

open Transport Shares List

section Topology

variable {manifest : Manifest} {layer : Nat}

theorem validateTopology_layer (h : validateTopology manifest = .ok ()) (hlayer : layer < layerCount) :
    validateLayer manifest layer = .ok () := by
  have hall : ∀ layers : List Nat, layers.foldlM (fun _ l => validateLayer manifest l) () = .ok () →
      ∀ l ∈ layers, validateLayer manifest l = .ok () := by
    intro layers
    induction layers with
    | nil => exact fun _ l hl => absurd hl not_mem_nil
    | cons head rest ih =>
      intro hfold l hl
      rw [foldlM_cons] at hfold
      cases hhead : validateLayer manifest head with
      | error err =>
        rw [hhead] at hfold
        cases hfold
      | ok u =>
        rw [hhead] at hfold
        rcases mem_cons.mp hl with rfl | hrest
        · exact hhead
        · exact ih hfold l hrest
  exact hall _ h layer (mem_range.mpr hlayer)

theorem validateTopology_of_layers (h : ∀ layer, validateLayer manifest layer = .ok ()) :
    validateTopology manifest = .ok () := by
  have hall : ∀ layers : List Nat, layers.foldlM (fun _ layer => validateLayer manifest layer) () = .ok () := by
    intro layers
    induction layers with
    | nil => rfl
    | cons layer rest ih =>
      rw [foldlM_cons, h]
      exact ih
  exact hall _

theorem nodup_eraseDups {α : Type} [DecidableEq α] (items : List α) : items.eraseDups.Nodup := by
  induction hlength : items.length using Nat.strong_induction_on generalizing items with
  | _ length ih =>
    cases items with
    | nil => exact nodup_nil
    | cons item rest =>
      rw [eraseDups_cons]
      refine nodup_cons.mpr ⟨by simp, ih _ ?_ _ rfl⟩
      have := length_filter_le (fun other => !other == item) rest
      rw [← hlength, length_cons]
      omega

theorem nodup_groupRanks (manifest : Manifest) (layer : Nat) : (groupRanks manifest layer).Nodup :=
  nodup_eraseDups _

theorem mem_groupRanks {rank : Nat} : rank ∈ groupRanks manifest layer ↔ ∃ i, manifest.layerGroups layer i = rank := by
  simp [groupRanks]

theorem validateLayer_owner (h : validateLayer manifest layer = .ok ()) : manifest.layerOwner layer < rankCount := by
  by_contra howner
  rw [validateLayer, if_pos (not_lt.mp howner)] at h
  cases h

theorem validateLayer_inGroup (h : validateLayer manifest layer = .ok ()) (hlayer : layer < layerCount)
    {expert : Nat} (hexpert : expert < expertCount) :
    rankInLayer manifest layer (manifest.expertRank layer expert) = true := by
  have hrange := mem_range.mpr hexpert
  have howner := validateLayer_owner h
  rw [validateLayer, if_neg (not_le.mpr howner)] at h
  simp only [rankInLayer, hlayer, true_and, decide_eq_true_eq]
  split at h
  next rank hgroup =>
    split at h
    · cases h
    rename_i hrank
    split at h
    · cases h
    next hfind =>
      have hexact := List.find?_eq_none.mp hfind expert hrange
      simp only [ne_eq, decide_not, Bool.not_eq_true, Bool.not_eq_false', decide_eq_true_eq] at hexact
      rw [hexact]
      exact ⟨not_le.mp hrank, mem_groupRanks.mp (hgroup ▸ mem_singleton_self rank)⟩
  · split at h
    · cases h
    rename_i hgroups
    split at h
    · cases h
    next hfind =>
      have hmember := List.find?_eq_none.mp hfind expert hrange
      simp only [decide_not, Bool.not_eq_true, Bool.not_eq_false', decide_eq_true_eq] at hmember
      obtain ⟨group, hgroup⟩ := hmember
      refine ⟨?_, group, hgroup⟩
      rw [← hgroup, not_not.mp fun hne => hgroups ⟨group, hne⟩]
      exact Nat.mod_lt _ (by decide)

end Topology

section Routing

variable {routing : Routing}

theorem Routing.mem_pairs {pair : PrefillPair} :
    pair ∈ routing.pairs ↔ pair.tokenSlot < routing.tokenCount ∧ pair.routingSlot < topK ∧
      pair.expertId = routing.expertIds pair.tokenSlot pair.routingSlot ∧
      pair.gate = routing.gates pair.tokenSlot pair.routingSlot := by
  simp only [Routing.pairs, mem_flatMap, mem_map, mem_range]
  constructor
  · rintro ⟨token, htoken, slot, hslot, rfl⟩
    exact ⟨htoken, hslot, rfl, rfl⟩
  · rintro ⟨htoken, hslot, hexpert, hgate⟩
    exact ⟨_, htoken, _, hslot, by rw [← hexpert, ← hgate]⟩

theorem Routing.length_pairs : routing.pairs.length = routing.tokenCount * topK := by
  simp [Routing.pairs]

theorem Routing.wellRouted
    (hexpert : ∀ token < routing.tokenCount, ∀ slot < topK, routing.expertIds token slot < expertCount)
    (hgate : ∀ token < routing.tokenCount, ∀ slot < topK, (routing.gates token slot).isFinite = true)
    (hdiffer : ∀ token < routing.tokenCount, ∀ slot < topK, ∀ other < topK,
      routing.expertIds token slot = routing.expertIds token other → slot = other) :
    WellRouted routing.tokenCount routing.pairs where
  token_lt pair hpair := (Routing.mem_pairs.mp hpair).1
  expert_lt pair hpair := by
    obtain ⟨htoken, hslot, hid, -⟩ := Routing.mem_pairs.mp hpair
    exact hid ▸ hexpert _ htoken _ hslot
  slot_lt pair hpair := (Routing.mem_pairs.mp hpair).2.1
  gate_finite pair hpair := by
    obtain ⟨htoken, hslot, -, hg⟩ := Routing.mem_pairs.mp hpair
    exact hg ▸ hgate _ htoken _ hslot
  apart := by
    refine pairwise_flatMap.mpr ⟨fun token htoken => ?_, ?_⟩
    · refine pairwise_map.mpr (nodup_range.imp_of_mem fun hslot hother hne hclash => hne ?_)
      rcases hclash.2 with heq | heq
      · exact heq
      · exact hdiffer token (mem_range.mp htoken) _ (mem_range.mp hslot) _ (mem_range.mp hother) heq
    · refine nodup_range.imp fun hne pair hpair other hother hclash => hne ?_
      obtain ⟨slot, -, rfl⟩ := mem_map.mp hpair
      obtain ⟨slot', -, rfl⟩ := mem_map.mp hother
      exact hclash.1

end Routing

/-- A batch with what the code checks and its callers promise: the topology passes its check, the source
is the coordinator or the layer's owner, the routing is complete and its experts exist and differ within
a token, the batch fits the buffers and the positions do not wrap. The device of a rank sums the outputs
of the experts in the work that it is given. -/
structure Batch (Row : Type) [ZeroSum Row] where
  fleet : Fleet Row
  source : Nat
  layer : Nat
  firstPosition : UInt32
  routing : Routing
  /-- The gated output of a pair's expert for the pair's token. -/
  expertOutput : PrefillPair → Row
  topology : validateTopology fleet.manifest = .ok ()
  layer_lt : layer < layerCount
  source_owner : source = 0 ∨ fleet.manifest.layerOwner layer = source
  session : fleet.sessionId ≠ 0
  tokens_pos : 0 < routing.tokenCount
  tokens_le : routing.tokenCount ≤ prefillMaxTokens
  tokens_fit : routing.tokenCount ≤ fleet.tokenCapacity
  positions_fit : firstPosition.toNat + routing.tokenCount ≤ 2 ^ 32
  expert_lt : ∀ token < routing.tokenCount, ∀ slot < topK, routing.expertIds token slot < expertCount
  gate_finite : ∀ token < routing.tokenCount, ∀ slot < topK, (routing.gates token slot).isFinite = true
  experts_differ : ∀ token < routing.tokenCount, ∀ slot < topK, ∀ other < topK,
    routing.expertIds token slot = routing.expertIds token other → slot = other
  device_sums : ∀ rank work, ∀ token < work.tokenCount,
    SumOf expertOutput (work.pairs.filter fun pair => pair.tokenSlot = token : List PrefillPair)
      (fleet.device rank work token)

namespace Batch

variable {Row : Type} [ZeroSum Row] (batch : Batch Row)

theorem wellRouted : WellRouted batch.routing.tokenCount batch.routing.pairs :=
  Routing.wellRouted batch.expert_lt batch.gate_finite batch.experts_differ

theorem source_lt : batch.source < rankCount := by
  rcases batch.source_owner with hzero | howner
  · rw [hzero]
    decide
  · exact howner ▸ validateLayer_owner (validateTopology_layer batch.topology batch.layer_lt)

theorem rankInLayer_pair {pair : PrefillPair} (hpair : pair ∈ batch.routing.pairs) :
    rankInLayer batch.fleet.manifest batch.layer (batch.fleet.manifest.pairRank batch.layer pair) = true :=
  validateLayer_inGroup (validateTopology_layer batch.topology batch.layer_lt) batch.layer_lt
    (batch.wellRouted.expert_lt pair hpair)

/-- The routes that the partition returns. -/
def routes : List PrefillRoute :=
  (groupRanks batch.fleet.manifest batch.layer).filterMap fun rank =>
    match batch.routing.pairs.filter fun pair => batch.fleet.manifest.pairRank batch.layer pair = rank with
    | [] => none
    | pairs => some ⟨rank, pairs⟩

theorem partition_ok : partitionPrefillRoutes batch.fleet.manifest batch.layer batch.routing = .ok batch.routes := by
  have := batch.layer_lt
  have := batch.tokens_pos
  have := batch.tokens_le
  have hcheck : checkRoutes batch.fleet.manifest batch.layer [] batch.routing.pairs = .ok () :=
    checkRoutes_ok batch.wellRouted fun pair hpair => batch.rankInLayer_pair hpair
  rw [partitionPrefillRoutes, if_neg (by omega), hcheck]
  rfl

def work : PrefillWork :=
  sourceWork batch.source batch.layer batch.firstPosition batch.routing.tokenCount batch.routes

def workFor (rank : Nat) : PrefillWork := { batch.work with destinationRank := rank }

theorem routes_flatMap :
    batch.routes.flatMap PrefillRoute.pairs =
      (groupRanks batch.fleet.manifest batch.layer).flatMap fun rank =>
        batch.routing.pairs.filter fun pair => batch.fleet.manifest.pairRank batch.layer pair = rank := by
  unfold routes
  induction groupRanks batch.fleet.manifest batch.layer with
  | nil => rfl
  | cons rank rest ih =>
    rw [filterMap_cons, flatMap_cons]
    split
    next hnone =>
      split at hnone
      next hempty =>
        rw [hempty, ih]
        rfl
      · cases hnone
    next route hsome =>
      split at hsome
      · cases hsome
      · cases hsome
        rw [flatMap_cons, ih]

theorem pairs_perm : batch.work.pairs.Perm batch.routing.pairs := by
  have hperm := flatMap_filter_key_perm (batch.fleet.manifest.pairRank batch.layer)
    (nodup_groupRanks batch.fleet.manifest batch.layer) batch.routing.pairs
  have hall : ∀ pair ∈ batch.routing.pairs,
      decide (batch.fleet.manifest.pairRank batch.layer pair ∈ groupRanks batch.fleet.manifest batch.layer) = true := by
    intro pair hpair
    have hin := batch.rankInLayer_pair hpair
    simp only [rankInLayer, decide_eq_true_eq] at hin ⊢
    exact mem_groupRanks.mpr hin.2.2
  rw [← routes_flatMap] at hperm
  refine hperm.trans ?_
  rw [filter_eq_self.mpr hall]

theorem length_pairs : batch.work.pairs.length = batch.routing.tokenCount * topK :=
  batch.pairs_perm.length_eq.trans Routing.length_pairs

theorem work_wellFormed : batch.work.WellFormed where
  layer_lt := batch.layer_lt
  source_lt := batch.source_lt
  destination_lt := batch.source_lt
  tokens_pos := batch.tokens_pos
  tokens_le := batch.tokens_le
  pairs_pos := by
    rw [length_pairs]
    exact Nat.mul_pos batch.tokens_pos (by decide)
  pairs_le := batch.length_pairs.le
  routed := batch.wellRouted.perm batch.pairs_perm.symm

theorem inGroup : InGroup batch.fleet.manifest batch.work := fun _ hpair =>
  batch.rankInLayer_pair (batch.pairs_perm.mem_iff.mp hpair)

def ranks : List Nat := activeRanks batch.fleet.manifest batch.work

theorem mem_ranks {rank : Nat} :
    rank ∈ batch.ranks ↔ rank ≠ batch.source ∧
      ∃ pair ∈ batch.work.pairs, batch.fleet.manifest.pairRank batch.layer pair = rank := by
  simp only [ranks, activeRanks, mem_filter, mem_range, decide_eq_true_eq]
  refine ⟨And.right, fun h => ⟨?_, h⟩⟩
  obtain ⟨-, pair, hpair, rfl⟩ := h
  have hin := batch.inGroup pair hpair
  simp only [rankInLayer, decide_eq_true_eq] at hin
  exact hin.2.1

theorem lt_of_mem_ranks {rank : Nat} (h : rank ∈ batch.ranks) : rank < rankCount :=
  mem_range.mp (mem_filter.mp h).1

theorem nodup_ranks : batch.ranks.Nodup := nodup_range.filter _

theorem length_ranks_le : batch.ranks.length ≤ groupSize := by
  have hsub : batch.ranks.toFinset ⊆ Finset.univ.image (batch.fleet.manifest.layerGroups batch.layer) := by
    intro rank hrank
    obtain ⟨-, pair, hpair, rfl⟩ := batch.mem_ranks.mp (mem_toFinset.mp hrank)
    have hin := batch.inGroup pair hpair
    simp only [rankInLayer, decide_eq_true_eq] at hin
    obtain ⟨-, -, group, hgroup⟩ := hin
    exact Finset.mem_image.mpr ⟨group, Finset.mem_univ group, hgroup⟩
  calc batch.ranks.length
      = batch.ranks.toFinset.card := (toFinset_card_of_nodup batch.nodup_ranks).symm
    _ ≤ (Finset.univ.image (batch.fleet.manifest.layerGroups batch.layer)).card := Finset.card_le_card hsub
    _ ≤ groupSize := Finset.card_image_le

theorem treeRanks_ok (rank : Nat) : prefillTreeRanks batch.fleet.manifest (batch.workFor rank) = .ok batch.ranks := by
  rw [prefillTreeRanks, if_neg, if_neg, if_neg]
  · rfl
  · exact not_lt.mpr batch.length_ranks_le
  · rintro ⟨pair, hpair, hout⟩
    exact Bool.false_ne_true (hout.symm.trans (batch.inGroup pair hpair))
  · exact not_not.mpr batch.length_pairs

def rankAt (node : Nat) : Nat := batch.ranks.getD node 0

theorem rankAt_eq {node : Nat} (h : node < batch.ranks.length) : batch.rankAt node = batch.ranks[node] := by
  rw [rankAt, getD_eq_getElem _ _ h]

theorem rankAt_mem {node : Nat} (h : node < batch.ranks.length) : batch.rankAt node ∈ batch.ranks := by
  rw [batch.rankAt_eq h]
  exact getElem_mem h

theorem rankAt_inj {node other : Nat} (hnode : node < batch.ranks.length) (hother : other < batch.ranks.length)
    (h : batch.rankAt node = batch.rankAt other) : node = other := by
  rw [batch.rankAt_eq hnode, batch.rankAt_eq hother] at h
  exact (batch.nodup_ranks.getElem_inj_iff).mp h

def mask (node : Nat) : Finset Nat := prefillSubtreeMask batch.ranks node

theorem mask_eq (node : Nat) :
    batch.mask node = ((HeapTree.below batch.ranks.length node).map batch.rankAt).toFinset := by
  unfold mask
  fun_induction HeapTree.below batch.ranks.length node with
  | case1 node hlt ihleft ihright =>
    rw [prefillSubtreeMask, dif_pos hlt, ihleft, ihright, map_cons, toFinset_cons, map_append,
      toFinset_append, batch.rankAt_eq hlt]
    rfl
  | case2 node hle =>
    rw [prefillSubtreeMask, dif_neg hle]
    rfl

theorem mem_mask {node rank : Nat} :
    rank ∈ batch.mask node ↔ ∃ k ∈ HeapTree.below batch.ranks.length node, batch.rankAt k = rank := by
  rw [mask_eq, mem_toFinset, mem_map]

theorem mem_mask_zero {rank : Nat} : rank ∈ batch.mask 0 ↔ rank ∈ batch.ranks := by
  rw [mem_mask, mem_iff_getElem]
  constructor
  · rintro ⟨k, hk, rfl⟩
    exact ⟨k, HeapTree.lt_of_mem_below hk, (batch.rankAt_eq _).symm⟩
  · rintro ⟨k, hk, rfl⟩
    exact ⟨k, HeapTree.mem_below_zero.mpr hk, batch.rankAt_eq hk⟩

theorem rankAt_mem_mask {node : Nat} (h : node < batch.ranks.length) : batch.rankAt node ∈ batch.mask node :=
  batch.mem_mask.mpr ⟨node, by rw [HeapTree.below_of_lt h]; exact mem_cons_self, rfl⟩

theorem mem_ranks_of_mem_mask {node rank : Nat} (h : rank ∈ batch.mask node) : rank ∈ batch.ranks := by
  obtain ⟨k, hk, rfl⟩ := batch.mem_mask.mp h
  exact batch.rankAt_mem (HeapTree.lt_of_mem_below hk)

theorem contributing_mask (node : Nat) : Contributing batch.fleet.manifest batch.work (batch.mask node) :=
  fun _ hrank => (batch.mem_ranks.mp (batch.mem_ranks_of_mem_mask hrank)).2

end Batch

end FlashGordon.Prefill
