import FlashGordon.TopologyAssign
import FlashGordon.ManifestUpgrade

/-!
What an assignment leaves behind. The layers are accepted one by one, and the group of a layer that
one rank owns is rewritten before the next layer is looked at: an assignment that fails late has
rewritten the groups of the layers before.
-/

namespace FlashGordon.SealedManifest

open Checks FirstSeen List

section Run

variable {m : Manifest} {map : ExpertMap}

variable {layer : Fin layerCount}

theorem regroup_step {done : List (Fin layerCount)} (hnew : layer ∉ done) : { regroup m map done with
      layerGroups := Function.update (regroup m map done).layerGroups layer (groupFor (regroup m map done) map layer) } =
      regroup m map (done ++ [layer]) := by
  have hgroups : Function.update (regroup m map done).layerGroups layer (groupFor (regroup m map done) map layer) =
      (regroup m map (done ++ [layer])).layerGroups := by
    funext l
    rw [groupFor_congr (regroup_of_not_mem hnew)]
    by_cases h : l = layer
    · subst h
      rw [Function.update_self]
      exact (if_pos (mem_append_right _ mem_cons_self)).symm
    · rw [Function.update_of_ne h]
      simp only [regroup, mem_append, mem_singleton, h, or_false]
  rw [hgroups]
  rfl

theorem assignLayers_fit {rest done : List (Fin layerCount)} (hnodup : (done ++ rest).Nodup)
    (hfits : ∀ layer ∈ rest, LayerFits m map layer) (more : List (Fin layerCount)) :
    assignLayers map (rest ++ more) (regroup m map done) = assignLayers map more (regroup m map (done ++ rest)) := by
  induction rest generalizing done with
  | nil => rw [nil_append, append_nil]
  | cons layer rest ih =>
    have hnew : layer ∉ done := fun h =>
      disjoint_of_nodup_append hnodup h mem_cons_self
    have hfit : LayerFits (regroup m map done) map layer :=
      (layerFits_congr (regroup_of_not_mem hnew)).mpr (hfits layer mem_cons_self)
    have hlayer := assignLayer_spec.2.1 hfit
    rw [append_cons] at hnodup ⊢
    rw [cons_append, assignLayers_ok hlayer, regroup_step hnew]
    exact ih hnodup (forall_mem_cons.mp hfits).2

def before (layer : Fin layerCount) : List (Fin layerCount) := (List.finRange layerCount).filter (· < layer)

theorem mem_before {layer l : Fin layerCount} : l ∈ before layer ↔ l < layer := by
  rw [before, mem_filter, decide_eq_true_eq]
  exact and_iff_right (mem_finRange l)

theorem finRange_split (layer : Fin layerCount) : ∃ more, List.finRange layerCount = before layer ++ layer :: more := by
  obtain ⟨pre, more, hsplit⟩ := append_of_mem (mem_finRange layer)
  have hsorted := pairwise_lt_finRange layerCount
  rw [hsplit, pairwise_append] at hsorted
  obtain ⟨-, hmore, hpre⟩ := hsorted
  have hfilter : before layer = pre := by
    rw [before, hsplit, filter_append, filter_cons_of_neg (by simp),
      filter_eq_self.mpr fun l hl => decide_eq_true (hpre l hl layer mem_cons_self),
      filter_eq_nil_iff.mpr fun l hl => by
        rw [decide_eq_true_eq]
        exact (pairwise_cons.mp hmore |>.1 l hl).le.not_gt,
      append_nil]
  exact ⟨more, by rw [hfilter, hsplit]⟩

theorem assignLayers_reached (h : Reached m map layer) : ∃ more, assignLayers map (List.finRange layerCount) m =
      assignLayers map (layer :: more) (regroup m map (before layer)) := by
  obtain ⟨more, hsplit⟩ := finRange_split layer
  have hnodup : ([] ++ before layer).Nodup := (nodup_finRange _).filter _
  have hrun := assignLayers_fit hnodup (fun l hl => h l (mem_before.mp hl)) (layer :: more)
  rw [regroup_nil, nil_append] at hrun
  exact ⟨more, by rw [hsplit, hrun]⟩

theorem fits_before : LayerFits (regroup m map (before layer)) map layer ↔ LayerFits m map layer :=
  layerFits_congr (regroup_of_not_mem fun h => lt_irrefl _ (mem_before.mp h))

variable (sha : List UInt8 → Digest)

theorem assignMap_none {m' : Manifest} (h : assignLayers map (List.finRange layerCount) m = (m', none)) :
    assignMap sha m map = (({ m' with expertRank := map }).sealTopology sha, none) := by
  unfold assignMap
  rw [h]

theorem assignMap_some {m' : Manifest} {halt : Halt}
    (h : assignLayers map (List.finRange layerCount) m = (m', some halt)) :
    assignMap sha m map = (m', some halt) := by
  unfold assignMap
  rw [h]

theorem assignMap_fit (h : ∀ layer, LayerFits m map layer) : assignMap sha m map =
    ((({ regroup m map (List.finRange layerCount) with expertRank := map } : Manifest).sealTopology sha), none) := by
  have hrun := @assignLayers_fit m map (List.finRange layerCount) [] (nodup_finRange _) (fun l _ => h l) []
  exact assignMap_none sha hrun

theorem assignMap_error (h : Reached m map layer) (hfew : (namedRanks map layer).length ≤ groupSize)
    (hunfit : ¬ LayerFits m map layer) :
    ∃ err, assignMap sha m map = (regroup m map (before layer), some (.error err)) := by
  obtain ⟨more, hrun⟩ := assignLayers_reached h
  obtain ⟨err, herr⟩ := assignLayer_spec.2.2 hfew (fits_before.not.mpr hunfit)
  exact ⟨err, assignMap_some sha (hrun.trans (assignLayers_error herr))⟩

theorem assignMap_overrun (h : Reached m map layer) (hmany : groupSize < (namedRanks map layer).length) :
    assignMap sha m map = (regroup m map (before layer), some .overrun) := by
  obtain ⟨more, hrun⟩ := assignLayers_reached h
  exact assignMap_some sha (hrun.trans (assignLayers_error (assignLayer_spec.1 hmany)))

theorem exists_stop (h : ¬ ∀ layer, LayerFits m map layer) :
    ∃ layer, Reached m map layer ∧ ¬ LayerFits m map layer := by
  obtain ⟨layer, hlayer⟩ := not_forall.mp h
  induction layer using WellFoundedLT.induction with
  | ind layer ih =>
    by_cases hreached : Reached m map layer
    · exact ⟨layer, hreached, hlayer⟩
    · rw [Reached] at hreached
      push Not at hreached
      obtain ⟨earlier, hlt, hunfit⟩ := hreached
      exact ih earlier hlt hunfit

/-- The scan stays within the array when no layer it gets to names more than four ranks. -/
theorem assignMap_in_bounds_iff (m : Manifest) (map : ExpertMap) : (assignMap sha m map).2 ≠ some .overrun ↔
    ∀ layer, Reached m map layer → (namedRanks map layer).length ≤ groupSize := by
  constructor
  · intro h layer hreached
    by_contra hmany
    rw [assignMap_overrun sha hreached (Nat.not_le.mp hmany)] at h
    exact h rfl
  · intro h
    by_cases hfits : ∀ layer, LayerFits m map layer
    · rw [assignMap_fit sha hfits]
      nofun
    · obtain ⟨layer, hreached, hunfit⟩ := exists_stop hfits
      obtain ⟨err, herr⟩ := assignMap_error sha hreached (h layer hreached) hunfit
      rw [herr]
      nofun

end Run

/-- Every layer names five ranks, all of them in the fleet. -/
def fiveRanks : ExpertMap := fun _ expert => .ofNat (expert.val % 5)

theorem fiveRanks_overrun : (∀ layer expert, (fiveRanks layer expert).toNat < rankCount) ∧
    ∀ sha m, (assignMap sha m fiveRanks).2 = some .overrun := by
  have hvalid : ∀ layer expert, (fiveRanks layer expert).toNat < rankCount := by
    intro layer expert
    rw [fiveRanks, UInt16.toNat_ofNat']
    exact Nat.lt_of_le_of_lt (Nat.mod_le _ _) (Nat.lt_trans (Nat.mod_lt _ (by decide)) (by decide))
  refine ⟨hvalid, fun sha m => ?_⟩
  have hnamed : ∀ rank < 5, rank ∈ namedRanks fiveRanks ⟨0, by decide⟩ := by
    intro rank hrank
    rw [namedRanks_of_valid (hvalid _), mem_firstSeen]
    have hlt : rank < expertCount := Nat.lt_trans hrank (by decide)
    have hmem : (fiveRanks ⟨0, by decide⟩ ⟨rank, hlt⟩).toNat ∈ ranksOf fiveRanks ⟨0, by decide⟩ :=
      mem_ranksOf ⟨rank, hlt⟩
    have hvalue : (fiveRanks ⟨0, by decide⟩ ⟨rank, hlt⟩).toNat = rank := by
      rw [fiveRanks, UInt16.toNat_ofNat', Nat.mod_eq_of_lt hrank]
      exact Nat.mod_eq_of_lt (Nat.lt_trans hrank (by decide))
    rwa [hvalue] at hmem
  have hmany : groupSize < (namedRanks fiveRanks ⟨0, by decide⟩).length := by
    have hsub : List.range 5 ⊆ namedRanks fiveRanks ⟨0, by decide⟩ := fun rank hrank =>
      hnamed rank (mem_range.mp hrank)
    have hlen := (nodup_range.subperm hsub).length_le
    exact hlen
  rw [assignMap_overrun sha (fun l hl => absurd hl (Nat.not_lt_zero l.val)) hmany]

/-- An assignment that is done or not done: the topology is as valid as before, or there is an error and
the topology is the one before. -/
structure Atomic (sha : List UInt8 → Digest) (m : Manifest) (map : ExpertMap) : Prop where
  ends : (assignMap sha m map).2 ≠ some .overrun
  valid : (assignMap sha m map).2 = none → topologyValidate sha m = .ok () →
    topologyValidate sha (assignMap sha m map).1 = .ok ()
  kept : ∀ err, (assignMap sha m map).2 = some (.error err) →
    (assignMap sha m map).1.layerGroups = m.layerGroups ∧ (assignMap sha m map).1.expertRank = m.expertRank ∧
      (assignMap sha m map).1.topologySha256 = m.topologySha256

section Atomicity

variable {sha : List UInt8 → Digest} {m : Manifest} {map : ExpertMap}

variable {layer : Fin layerCount}

theorem groupFor_single {rank : Nat} (h : SingleOwner map layer rank) :
    groupFor m map layer = fun _ => .ofNat rank := by
  have hone := (layerFits_of_single h).1
  rw [groupFor, hone, if_pos length_singleton, headD_cons]

theorem groupFor_split (h : Split m map layer) : groupFor m map layer = m.layerGroups layer := by
  rw [groupFor, if_neg]
  rw [h.2.1]
  decide

theorem distinctRanks_of_split (h : Split m map layer) : (distinctRanks (m.layerGroups layer)).length ≠ 1 := by
  intro hone
  obtain ⟨hvalid, hnamed, hmember, -⟩ := h
  have hall : ∀ rank ∈ ranksOf map layer, rank = (m.layerGroups layer ⟨0, by decide⟩).toNat :=
    forall_ranksOf.mpr fun expert => by
      obtain ⟨group, hgroup⟩ := hmember expert
      rw [← hgroup, groups_eq_of_distinctRanks hone group]
  rw [namedRanks_of_valid hvalid, firstSeen_of_forall_eq ranksOf_ne_nil hall, length_singleton] at hnamed
  exact absurd hnamed (by decide)

theorem owner_of_checkLayer {owner : Fin layerCount → UInt8} {groups : Fin layerCount → Fin groupSize → UInt8}
    {experts : Fin layerCount → Fin expertCount → UInt16}
    (h : checkLayer owner groups experts layer = .ok ()) : (owner layer).toNat < rankCount := by
  rw [checkLayer, bind_eq_ok, exists_unit, refuse_eq_ok] at h
  exact Nat.not_le.mp h.1

theorem checkLayer_assigned
    (h : checkLayer m.layerOwner m.layerGroups m.expertRank layer = .ok ()) (hfits : LayerFits m map layer)
    {groups : Fin layerCount → Fin groupSize → UInt8} (hgroups : groups layer = groupFor m map layer) :
    checkLayer m.layerOwner groups map layer = .ok () := by
  have howner := owner_of_checkLayer h
  rcases hfits with ⟨rank, hsingle⟩ | hsplit
  · have hvalue : (UInt8.ofNat rank).toNat = rank := by
      rw [UInt8.toNat_ofNat']
      exact Nat.mod_eq_of_lt (Nat.lt_trans hsingle.1 (by decide))
    rw [groupFor_single hsingle] at hgroups
    refine checkLayer_single howner ?_ hgroups fun expert => ?_
    · rw [hvalue]
      exact hsingle.1
    · rw [hvalue]
      exact hsingle.2 expert
  · rw [groupFor_split hsplit] at hgroups
    have hmany := distinctRanks_of_split hsplit
    obtain ⟨-, hgroup, -, -⟩ := (checkLayer_split hmany).mp h
    rw [← hgroups] at hmany
    refine (checkLayer_split hmany).mpr ⟨howner, ?_, fun expert => ⟨hsplit.1 expert, ?_⟩, fun group => ?_⟩
    · rw [hgroups]
      exact hgroup
    · rw [hgroups]
      exact hsplit.2.2.1 expert
    · rw [hgroups]
      exact hsplit.2.2.2 group

theorem topologyValidate_assigned (h : topologyValidate sha m = .ok ()) (hfits : ∀ layer, LayerFits m map layer) :
    topologyValidate sha
      (({ regroup m map (List.finRange layerCount) with expertRank := map } : Manifest).sealTopology sha) = .ok () := by
  simp only [topologyValidate, bind_eq_ok, exists_unit, refuse_eq_ok, whenever_eq_ok, forM_eq_ok] at h ⊢
  obtain ⟨hmode, hgeometry, hlayers, hseal⟩ := h
  refine ⟨hmode, hgeometry, fun layer hlayer => ?_, fun hversion => ⟨(hseal hversion).1, fun hne => hne rfl⟩⟩
  exact checkLayer_assigned (hlayers layer hlayer) (hfits layer) (if_pos hlayer)

theorem regroup_groups_iff (hreached : Reached m map layer) :
    (regroup m map (before layer)).layerGroups = m.layerGroups ↔
      ∀ earlier < layer, ∀ rank, SingleOwner map earlier rank →
        ∀ group, (m.layerGroups earlier group).toNat = rank := by
  constructor
  · intro h earlier hlt rank hsingle group
    have hgroup := congrFun h earlier
    rw [show (regroup m map (before layer)).layerGroups earlier = groupFor m map earlier from
      if_pos (mem_before.mpr hlt), groupFor_single hsingle] at hgroup
    rw [← hgroup, UInt8.toNat_ofNat']
    exact Nat.mod_eq_of_lt (Nat.lt_trans hsingle.1 (by decide))
  · intro h
    funext earlier
    by_cases hlt : earlier < layer
    · rw [show (regroup m map (before layer)).layerGroups earlier = groupFor m map earlier from
        if_pos (mem_before.mpr hlt)]
      rcases hreached earlier hlt with ⟨rank, hsingle⟩ | hsplit
      · rw [groupFor_single hsingle]
        funext group
        rw [← h earlier hlt rank hsingle group, UInt8.ofNat_toNat]
      · exact groupFor_split hsplit
    · exact regroup_of_not_mem fun hmem => hlt (mem_before.mp hmem)

theorem atomic_of_none {m' : Manifest} (h : assignMap sha m map = (m', none))
    (hvalid : topologyValidate sha m = .ok () → topologyValidate sha m' = .ok ()) : Atomic sha m map where
  ends := by
    rw [h]
    nofun
  valid := by
    intro _
    rw [h]
    exact hvalid
  kept := by
    intro err herr
    rw [h] at herr
    nomatch herr

theorem atomic_of_error {m' : Manifest} {err : Error} (h : assignMap sha m map = (m', some (.error err))) :
    Atomic sha m map ↔ m'.layerGroups = m.layerGroups ∧ m'.expertRank = m.expertRank ∧
      m'.topologySha256 = m.topologySha256 := by
  constructor
  · intro hatomic
    have hkept := hatomic.kept err
    rw [h] at hkept
    exact hkept rfl
  · intro hkept
    refine ⟨?_, ?_, fun err' _ => ?_⟩
    · rw [h]
      nofun
    · rw [h]
      nofun
    · rw [h]
      exact hkept

theorem atomic_of_stop (hreached : Reached m map layer)
    (hfew : (namedRanks map layer).length ≤ groupSize) (hunfit : ¬ LayerFits m map layer) :
    Atomic sha m map ↔ ∀ earlier < layer, ∀ rank, SingleOwner map earlier rank →
      ∀ group, (m.layerGroups earlier group).toNat = rank := by
  obtain ⟨err, herr⟩ := assignMap_error sha hreached hfew hunfit
  rw [atomic_of_error herr, regroup_groups_iff hreached]
  exact and_iff_left ⟨rfl, rfl⟩

end Atomicity

/-- When an assignment is done or not done: no layer that the scan gets to names more than four ranks,
and where it stops at a layer, every earlier layer with a single owner had that rank for its group. -/
theorem assignMap_atomic_iff (sha : List UInt8 → Digest) (m : Manifest) (map : ExpertMap) : Atomic sha m map ↔
    ∀ layer, Reached m map layer → (namedRanks map layer).length ≤ groupSize ∧
      (¬ LayerFits m map layer → ∀ earlier < layer, ∀ rank, SingleOwner map earlier rank →
        ∀ group, (m.layerGroups earlier group).toNat = rank) := by
  constructor
  · intro h layer hreached
    have hfew : (namedRanks map layer).length ≤ groupSize := by
      by_contra hmany
      have hends := h.ends
      rw [assignMap_overrun sha hreached (Nat.not_le.mp hmany)] at hends
      exact hends rfl
    refine ⟨hfew, fun hunfit => ?_⟩
    rwa [atomic_of_stop hreached hfew hunfit] at h
  · intro h
    by_cases hfits : ∀ layer, LayerFits m map layer
    · exact atomic_of_none (assignMap_fit sha hfits) fun hvalid => topologyValidate_assigned hvalid hfits
    · obtain ⟨layer, hreached, hunfit⟩ := exists_stop hfits
      obtain ⟨hfew, hsame⟩ := h layer hreached
      rw [atomic_of_stop hreached hfew hunfit]
      exact hsame hunfit

/-- The first layer goes to rank 1, the others are spread over two ranks. -/
def lateFailure : ExpertMap := fun layer expert => if layer.val = 0 then 1 else .ofNat (expert.val % 2)

theorem lateFailure_not_atomic : topologyValidate onesSha fullManifest = .ok () ∧
    (∀ layer expert, (lateFailure layer expert).toNat < rankCount) ∧
    ¬ Atomic onesSha fullManifest lateFailure := by
  have hvalid : ∀ layer expert, (lateFailure layer expert).toNat < rankCount := by
    intro layer expert
    rw [lateFailure]
    split
    · decide
    · rw [UInt16.toNat_ofNat']
      exact Nat.lt_of_le_of_lt (Nat.mod_le _ _) (Nat.lt_trans (Nat.mod_lt _ (by decide)) (by decide))
  have hfirst : SingleOwner lateFailure ⟨0, by decide⟩ 1 := ⟨by decide, fun _ => rfl⟩
  have hreached : Reached fullManifest lateFailure ⟨1, by decide⟩ := fun earlier hlt => by
    obtain rfl : earlier = ⟨0, by decide⟩ := Fin.ext (Nat.lt_one_iff.mp hlt)
    exact .inl ⟨1, hfirst⟩
  have hparity (expert : Fin expertCount) : (lateFailure ⟨1, by decide⟩ expert).toNat = expert.val % 2 := by
    rw [lateFailure, if_neg Nat.one_ne_zero, UInt16.toNat_ofNat']
    exact Nat.mod_eq_of_lt (Nat.lt_trans (Nat.mod_lt _ (by decide)) (by decide))
  have hsub : namedRanks lateFailure ⟨1, by decide⟩ ⊆ [0, 1] := by
    intro rank hrank
    rw [namedRanks_of_valid (hvalid _), mem_firstSeen] at hrank
    obtain ⟨expert, -, rfl⟩ := mem_map.mp hrank
    rw [hparity]
    rcases Nat.mod_two_eq_zero_or_one expert.val with h | h <;> rw [h] <;> decide
  have htwo : (namedRanks lateFailure ⟨1, by decide⟩).length ≤ 2 := (nodup_firstSeen.subperm hsub).length_le
  have hunfit : ¬ LayerFits fullManifest lateFailure ⟨1, by decide⟩ := by
    rintro (⟨rank, -, hsingle⟩ | hsplit)
    · have hzero := (hparity ⟨0, by decide⟩).symm.trans (hsingle ⟨0, by decide⟩)
      have hone := (hparity ⟨1, by decide⟩).symm.trans (hsingle ⟨1, by decide⟩)
      exact absurd (hzero.trans hone.symm) (by decide)
    · rw [hsplit.2.1] at htwo
      exact absurd htwo (by decide)
  have htopology : topologyValidate onesSha fullManifest = .ok () :=
    fullTopology_valid rfl rfl rfl rfl ⟨rfl, rfl⟩ (fun _ => rfl) (fun _ => rfl) rfl rfl
  refine ⟨htopology, hvalid, fun hatomic => ?_⟩
  rw [atomic_of_stop hreached (htwo.trans (by decide)) hunfit] at hatomic
  exact absurd (hatomic ⟨0, by decide⟩ (by decide) 1 hfirst ⟨0, by decide⟩) (by decide)

end FlashGordon.SealedManifest
