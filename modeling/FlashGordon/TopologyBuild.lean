import FlashGordon.TopologyAssign
import FlashGordon.LeastLoaded
import Mathlib.Data.Int.CardIntervalMod

/-!
The topologies that are built: `fg_topology_build`, and the two ways to place the experts of a layer on
its group. A profile places the most frequent experts first, each on the member of the group with the
least load. Frequencies are values of any linear order; loads are what adding them up gives, and need
not be comparable.
-/

namespace FlashGordon.SealedManifest

open Checks FirstSeen LeastLoaded

variable (sha : List UInt8 → Digest)

/-- `fg_topology_build`. -/
def build (m : Manifest) : Manifest :=
  ({ m with
    layerOwner := fun layer => .ofNat (layer.val % rankCount)
    layerGroups := fun layer group => .ofNat ((layer.val + epDelta.getD group.val 0) % rankCount)
    }).setExpertParallelMetadata sha

def roundRobinRank (m : Manifest) : ExpertMap := fun layer expert =>
  (m.layerGroups layer ⟨expert.val % groupSize, Nat.mod_lt _ (by decide)⟩).toUInt16

/-- `fg_topology_assign_round_robin`. -/
def assignRoundRobin (m : Manifest) : Manifest := ({ m with expertRank := roundRobinRank m }).sealTopology sha

structure ExpertScore (F : Type*) where
  frequency : F
  expert : Fin expertCount

section Profile

variable {F L : Type*} [LinearOrder F] [Preorder L] [DecidableLT L] [BEq L]

def scoreCmp (x y : ExpertScore F) : Int :=
  if x.frequency < y.frequency then 1
  else if y.frequency < x.frequency then -1
  else x.expert.val - y.expert.val

/-- The experts of a layer in the order of `qsort`. -/
def taken (frequency : Fin expertCount → F) : List (Fin expertCount) :=
  (((List.finRange expertCount).map fun expert => ExpertScore.mk (frequency expert) expert).mergeSort
    fun x y => scoreCmp x y ≤ 0).map (·.expert)

def groupRank (m : Manifest) (layer : Fin layerCount) (group : Fin groupSize) : UInt16 :=
  (m.layerGroups layer group).toUInt16

def assignProfileLayer (add : L → F → L) (zero : L) (frequency : Fin layerCount → Fin expertCount → F) (m : Manifest)
    (layer : Fin layerCount) : Except Error Manifest :=
  match Fill.run expertsPerRank (groupRank m layer) (frequency layer) add (taken (frequency layer))
      ⟨fun _ => zero, fun _ => 0, m.expertRank layer⟩ with
  | none => .error ⟨.format, s!"layer {layer} profile violated equal residency"⟩
  | some s => .ok { m with expertRank := Function.update m.expertRank layer s.place }

def assignProfileLayers (add : L → F → L) (zero : L) (frequency : Fin layerCount → Fin expertCount → F) :
    List (Fin layerCount) → Manifest → Except Error Manifest
  | [], m => .ok m
  | layer :: rest, m => do assignProfileLayers add zero frequency rest (← assignProfileLayer add zero frequency m layer)

/-- `fg_topology_assign_profile`. -/
def assignProfile (add : L → F → L) (zero : L) (frequency : Fin layerCount → Fin expertCount → F) (m : Manifest) :
    Except Error Manifest := do
  pure ((← assignProfileLayers add zero frequency (List.finRange layerCount) m).sealTopology sha)

theorem scoreCmp_total (x y : ExpertScore F) : (decide (scoreCmp x y ≤ 0) || decide (scoreCmp y x ≤ 0)) = true := by
  rw [Bool.or_eq_true, decide_eq_true_eq, decide_eq_true_eq, scoreCmp, scoreCmp]
  rcases lt_trichotomy x.frequency y.frequency with h | h | h
  · exact .inr (by rw [if_neg h.not_gt, if_pos h]; decide)
  · rw [if_neg h.not_lt, if_neg h.not_gt, if_neg h.not_gt, if_neg h.not_lt]
    omega
  · exact .inl (by rw [if_neg h.not_gt, if_pos h]; decide)

theorem scoreCmp_le {x y : ExpertScore F} : scoreCmp x y ≤ 0 ↔
    y.frequency < x.frequency ∨ x.frequency = y.frequency ∧ x.expert ≤ y.expert := by
  rw [scoreCmp]
  rcases lt_trichotomy x.frequency y.frequency with h | h | h
  · rw [if_pos h]
    constructor
    · intro hle
      exact absurd hle (by decide)
    · rintro (hgt | ⟨heq, -⟩)
      · exact absurd hgt h.not_gt
      · exact absurd heq h.ne
  · rw [if_neg h.not_lt, if_neg h.not_gt, Fin.le_def]
    simp only [h, lt_irrefl, false_or, true_and]
    omega
  · rw [if_neg h.not_gt, if_pos h]
    exact iff_of_true (by decide) (.inl h)

theorem scoreCmp_trans (x y z : ExpertScore F) (hxy : decide (scoreCmp x y ≤ 0) = true)
    (hyz : decide (scoreCmp y z ≤ 0) = true) : decide (scoreCmp x z ≤ 0) = true := by
  rw [decide_eq_true_eq, scoreCmp_le] at hxy hyz ⊢
  rcases hxy with hxy | ⟨hxy, hexpert⟩
  · rcases hyz with hyz | ⟨hyz, -⟩
    · exact .inl (hyz.trans hxy)
    · exact .inl (hyz ▸ hxy)
  · rcases hyz with hyz | ⟨hyz, hexpert'⟩
    · exact .inl (hxy ▸ hyz)
    · exact .inr ⟨hxy.trans hyz, hexpert.trans hexpert'⟩

theorem taken_perm (frequency : Fin expertCount → F) : (taken frequency).Perm (List.finRange expertCount) := by
  have hsort := (List.mergeSort_perm ((List.finRange expertCount).map fun expert =>
    ExpertScore.mk (frequency expert) expert) fun x y => scoreCmp x y ≤ 0).map (·.expert)
  rw [List.map_map] at hsort
  rwa [show ((·.expert) ∘ fun expert => ExpertScore.mk (frequency expert) expert) = id from rfl, List.map_id] at hsort

theorem taken_sorted (frequency : Fin expertCount → F) :
    (taken frequency).Pairwise fun a b => frequency b < frequency a ∨ frequency a = frequency b ∧ a ≤ b := by
  have hsort := List.pairwise_mergeSort scoreCmp_trans scoreCmp_total
    ((List.finRange expertCount).map fun expert => ExpertScore.mk (frequency expert) expert)
  rw [taken, List.pairwise_map]
  refine hsort.imp_of_mem fun hx hy hle => ?_
  rw [List.mem_mergeSort] at hx hy
  obtain ⟨a, -, rfl⟩ := List.mem_map.mp hx
  obtain ⟨b, -, rfl⟩ := List.mem_map.mp hy
  exact scoreCmp_le.mp (of_decide_eq_true hle)

end Profile

/-- A placement that splits every layer evenly over four ranks. -/
def EvenSplit (m : Manifest) : Prop :=
  ∀ layer, Function.Injective (m.layerGroups layer) ∧
    (∀ expert, rankInLayer m layer (m.expertRank layer expert).toNat) ∧
    ∀ group, (List.finRange expertCount).countP
      (fun expert => (m.expertRank layer expert).toNat = (m.layerGroups layer group).toNat) = expertsPerRank

structure Built (m : Manifest) : Prop where
  owner : ∀ layer, (m.layerOwner layer).toNat < rankCount
  group : ∀ layer group, (m.layerGroups layer group).toNat = (layer.val + epDelta.getD group.val 0) % rankCount
  mode : m.executionMode = expertParallel
  geometry : m.stageCount = 0 ∧ m.slotCount = 0
  stages : ∀ rank, m.stageRanks rank = 0
  offsets : ∀ i, m.layerOffsets i = 0
  reserved : m.topologyReserved = Vector.replicate 32 0

section Valid

variable {sha : List UInt8 → Digest} {m : Manifest}

theorem toNat_ofNat_mod (k : Nat) : (UInt8.ofNat (k % rankCount)).toNat = k % rankCount := by
  rw [UInt8.toNat_ofNat']
  exact Nat.mod_eq_of_lt (Nat.lt_trans (Nat.mod_lt _ (by decide)) (by decide))

theorem build_built (m : Manifest) : Built (build sha m) where
  owner layer := by
    rw [show (build sha m).layerOwner layer = .ofNat (layer.val % rankCount) from rfl, toNat_ofNat_mod]
    exact Nat.mod_lt _ (by decide)
  group _ _ := toNat_ofNat_mod _
  mode := rfl
  geometry := ⟨rfl, rfl⟩
  stages _ := rfl
  offsets _ := rfl
  reserved := rfl

theorem Built.lt (h : Built m) (layer : Fin layerCount) (group : Fin groupSize) :
    (m.layerGroups layer group).toNat < rankCount := by
  rw [h.group]
  exact Nat.mod_lt _ (by decide)

theorem Built.injective (h : Built m) (layer : Fin layerCount) : Function.Injective (m.layerGroups layer) := by
  intro a b hab
  have hsame := congrArg UInt8.toNat hab
  rw [h.group, h.group] at hsame
  have hdelta : ∀ a b : Fin groupSize, epDelta.getD a.val 0 % rankCount = epDelta.getD b.val 0 % rankCount → a = b := by
    decide
  exact hdelta a b (Nat.ModEq.add_left_cancel' layer.val hsame)

theorem Built.valid (h : Built m) (heven : EvenSplit m) : topologyValidate sha (m.sealTopology sha) = .ok () := by
  simp only [topologyValidate, bind_eq_ok, exists_unit, refuse_eq_ok, whenever_eq_ok, forM_eq_ok]
  refine ⟨fun hne => hne h.mode, fun _ => ⟨?_, ?_, ?_⟩, fun layer _ => ?_,
    fun _ => ⟨fun hne => hne h.reserved, fun hne => hne rfl⟩⟩
  · rintro (hne | hne)
    · exact hne h.geometry.1
    · exact hne h.geometry.2
  · rintro ⟨rank, hne⟩
    exact hne (h.stages rank)
  · rintro ⟨i, hne⟩
    exact hne (h.offsets i)
  · obtain ⟨hinjective, hmember, hcount⟩ := heven layer
    have hmany : (distinctRanks (m.layerGroups layer)).length ≠ 1 := fun hone =>
      absurd (hinjective (groups_eq_of_distinctRanks hone ⟨0, by decide⟩ ⟨1, by decide⟩)) (by decide)
    refine (checkLayer_split hmany).mpr ⟨h.owner layer, fun group => ?_, fun expert => ⟨?_, hmember expert⟩, hcount⟩
    · rintro (hout | hwrong | ⟨earlier, hlt, hsame⟩)
      · exact hout.not_gt (h.lt layer group)
      · exact hwrong (h.group layer group)
      · exact hlt.ne (hinjective hsame)
    · obtain ⟨group, hgroup⟩ := hmember expert
      exact hgroup ▸ h.lt layer group

theorem count_mod (group : Fin groupSize) : (List.finRange expertCount).countP
    (fun expert => expert.val ≡ group.val [MOD groupSize]) = expertsPerRank := by
  have hrange := List.countP_map (p := fun e => decide (e ≡ group.val [MOD groupSize])) (f := fun e : Fin expertCount => e.val)
    (l := List.finRange expertCount)
  rw [List.map_coe_finRange_eq_range] at hrange
  refine hrange.symm.trans ((Nat.count_modEq_card expertCount (by decide) group.val).trans ?_)
  rw [if_neg (by rw [show expertCount % groupSize = 0 from rfl]; exact Nat.not_lt_zero _)]
  rfl

theorem EvenSplit.seal (h : EvenSplit m) : EvenSplit (m.sealTopology sha) := h

theorem roundRobin_even (h : Built m) : EvenSplit { m with expertRank := roundRobinRank m } := by
  intro layer
  refine ⟨h.injective layer, fun expert => ⟨⟨expert.val % groupSize, Nat.mod_lt _ (by decide)⟩, ?_⟩, fun group => ?_⟩
  · exact (UInt8.toNat_toUInt16 _).symm
  · rw [← count_mod group]
    refine List.countP_congr fun expert _ => ?_
    rw [decide_eq_true_eq, decide_eq_true_eq]
    change (m.layerGroups layer ⟨expert.val % groupSize, _⟩).toUInt16.toNat = (m.layerGroups layer group).toNat ↔ _
    rw [UInt8.toNat_toUInt16, UInt8.toNat_inj, (h.injective layer).eq_iff, Fin.ext_iff, Nat.ModEq,
      Nat.mod_eq_of_lt group.isLt]

variable {F L : Type*} [LinearOrder F] [Preorder L] {add : L → F → L} {zero : L}
  {frequency : Fin layerCount → Fin expertCount → F}

structure ProfileLayer (add : L → F → L) (zero : L) (frequency : Fin layerCount → Fin expertCount → F) (m : Manifest)
    (layer : Fin layerCount) (place : Fin expertCount → UInt16) : Prop where
  count : ∀ group, (inBin (groupRank m layer) place (taken (frequency layer)) group).length = expertsPerRank
  member : ∀ expert, ∃ group, place expert = groupRank m layer group
  greedy : ∀ before expert after, taken (frequency layer) = before ++ expert :: after →
    Greedy expertsPerRank (groupRank m layer) (frequency layer) add zero place before expert

theorem ProfileLayer.congr {m' : Manifest} {layer : Fin layerCount} {place : Fin expertCount → UInt16}
    (hgroups : m'.layerGroups = m.layerGroups) (h : ProfileLayer add zero frequency m layer place) :
    ProfileLayer add zero frequency m' layer place := by
  have hrank : groupRank m' layer = groupRank m layer := by
    funext group
    rw [groupRank, hgroups, groupRank]
  exact ⟨hrank ▸ h.count, hrank ▸ h.member, hrank ▸ h.greedy⟩

theorem groupRank_injective {layer : Fin layerCount} (h : Function.Injective (m.layerGroups layer)) :
    Function.Injective (groupRank m layer) := fun a b hab => by
  have htoNat := congrArg UInt16.toNat hab
  rw [groupRank, groupRank, UInt8.toNat_toUInt16, UInt8.toNat_toUInt16, UInt8.toNat_inj] at htoNat
  exact h htoNat

theorem assignProfileLayer_spec [DecidableLT L] [BEq L] {layer : Fin layerCount} (h : Function.Injective (m.layerGroups layer)) :
    ∃ place, assignProfileLayer add zero frequency m layer =
      .ok { m with expertRank := Function.update m.expertRank layer place } ∧
      ProfileLayer add zero frequency m layer place := by
  have hperm := taken_perm (frequency layer)
  have hlength : (taken (frequency layer)).length = groupSize * expertsPerRank := by
    rw [hperm.length_eq, List.length_finRange]
    rfl
  have hstart : Holds expertsPerRank (groupRank m layer) (frequency layer) add zero []
      ⟨fun _ => zero, fun _ => 0, m.expertRank layer⟩ :=
    ⟨fun _ => rfl, fun _ => rfl, fun _ => Nat.zero_le _, Finset.sum_const_zero, fun _ hkey => nomatch hkey⟩
  have hnodup : ([] ++ taken (frequency layer)).Nodup := hperm.nodup_iff.mpr (List.nodup_finRange _)
  obtain ⟨s, hrun, hholds, -, hgreedy⟩ := run_spec (groupRank_injective h) hstart hnodup hlength.le
  refine ⟨s.place, ?_, ?_, ?_, hgreedy⟩
  · rw [assignProfileLayer, hrun]
  · exact hholds.exact_of_full hlength
  · exact fun expert => hholds.placed expert (hperm.mem_iff.mpr (List.mem_finRange expert))

theorem assignProfileLayers_spec [DecidableLT L] [BEq L] {rest : List (Fin layerCount)} (hnodup : rest.Nodup)
    (h : ∀ layer, Function.Injective (m.layerGroups layer)) :
    ∃ experts, assignProfileLayers add zero frequency rest m = .ok { m with expertRank := experts } ∧
      (∀ layer ∈ rest, ProfileLayer add zero frequency m layer (experts layer)) ∧
      ∀ layer ∉ rest, experts layer = m.expertRank layer := by
  induction rest generalizing m with
  | nil => exact ⟨m.expertRank, rfl, fun _ hlayer => (nomatch hlayer), fun _ _ => rfl⟩
  | cons layer rest ih =>
    obtain ⟨hnew, hrest⟩ := List.nodup_cons.mp hnodup
    obtain ⟨place, hone, hplace⟩ := @assignProfileLayer_spec m F L _ _ add zero frequency _ _ layer (h layer)
    obtain ⟨experts, hrun, hdone, hframe⟩ :=
      @ih { m with expertRank := Function.update m.expertRank layer place } hrest h
    have hlayer : experts layer = place := (hframe layer hnew).trans (Function.update_self _ _ _)
    refine ⟨experts, ?_, fun l hl => ?_, fun l hl => ?_⟩
    · rw [assignProfileLayers, hone, ok_bind]
      exact hrun
    · by_cases hsame : l = layer
      · subst hsame
        rw [hlayer]
        exact hplace
      · refine ProfileLayer.congr ?_ (hdone l ((List.mem_cons.mp hl).resolve_left hsame))
        rfl
    · obtain ⟨hne, hmem⟩ := not_or.mp (List.mem_cons.not.mp hl)
      exact (hframe l hmem).trans (Function.update_of_ne hne _ _)

theorem evenSplit_of_profile (h : ∀ layer, Function.Injective (m.layerGroups layer))
    (hprofile : ∀ layer, ProfileLayer add zero frequency m layer (m.expertRank layer)) : EvenSplit m := by
  intro layer
  obtain ⟨hcount, hmember, -⟩ := hprofile layer
  refine ⟨h layer, fun expert => ?_, fun group => ?_⟩
  · obtain ⟨group, hgroup⟩ := hmember expert
    exact ⟨group, by rw [hgroup, groupRank, UInt8.toNat_toUInt16]⟩
  · rw [← hcount group, inBin, ← List.countP_eq_length_filter, (taken_perm (frequency layer)).countP_eq]
    refine List.countP_congr fun expert _ => ?_
    rw [decide_eq_true_eq, decide_eq_true_eq, groupRank, ← UInt16.toNat_inj, UInt8.toNat_toUInt16]

end Valid

/-- Both ways to place the experts of a topology that was built are valid and even, and the profile takes
the most frequent expert first and puts every one on the least loaded member with room. -/
theorem built_placements_valid {F L : Type*} [LinearOrder F] [Preorder L] [DecidableLT L] [BEq L] (add : L → F → L)
    (zero : L) (frequency : Fin layerCount → Fin expertCount → F) (m : Manifest) :
    (topologyValidate sha (assignRoundRobin sha (build sha m)) = .ok () ∧
      EvenSplit (assignRoundRobin sha (build sha m))) ∧
    ∃ m', assignProfile sha add zero frequency (build sha m) = .ok m' ∧ topologyValidate sha m' = .ok () ∧
      EvenSplit m' ∧ ∀ layer, (taken (frequency layer)).Perm (List.finRange expertCount) ∧
        ((taken (frequency layer)).Pairwise fun a b =>
          frequency layer b < frequency layer a ∨ frequency layer a = frequency layer b ∧ a ≤ b) ∧
        ∀ before expert after, taken (frequency layer) = before ++ expert :: after →
          Greedy expertsPerRank (groupRank m' layer) (frequency layer) add zero (m'.expertRank layer) before expert := by
  have hbuilt : Built (build sha m) := build_built m
  have hrobin : EvenSplit { build sha m with expertRank := roundRobinRank (build sha m) } := roundRobin_even hbuilt
  obtain ⟨experts, hrun, hdone, -⟩ := @assignProfileLayers_spec (build sha m) F L _ _ add zero frequency _ _
    (List.finRange layerCount) (List.nodup_finRange _) hbuilt.injective
  have hprofile (layer) : ProfileLayer add zero frequency (build sha m) layer (experts layer) :=
    hdone layer (List.mem_finRange layer)
  have hprofile' (layer) : ProfileLayer add zero frequency { build sha m with expertRank := experts } layer (experts layer) := by
    refine ProfileLayer.congr ?_ (hprofile layer)
    rfl
  have heven : EvenSplit { build sha m with expertRank := experts } :=
    evenSplit_of_profile hbuilt.injective hprofile'
  have hplaced : Built { build sha m with expertRank := experts } :=
    ⟨hbuilt.owner, hbuilt.group, hbuilt.mode, hbuilt.geometry, hbuilt.stages, hbuilt.offsets, hbuilt.reserved⟩
  have hspread : Built { build sha m with expertRank := roundRobinRank (build sha m) } :=
    ⟨hbuilt.owner, hbuilt.group, hbuilt.mode, hbuilt.geometry, hbuilt.stages, hbuilt.offsets, hbuilt.reserved⟩
  have hassign : assignProfile sha add zero frequency (build sha m) =
      .ok (({ build sha m with expertRank := experts } : Manifest).sealTopology sha) := by
    rw [assignProfile, hrun, ok_bind]
    rfl
  rw [assignRoundRobin]
  have hsealed (layer) : ProfileLayer add zero frequency
      (({ build sha m with expertRank := experts } : Manifest).sealTopology sha) layer (experts layer) := by
    refine ProfileLayer.congr ?_ (hprofile layer)
    rfl
  have hexperts : (({ build sha m with expertRank := experts } : Manifest).sealTopology sha).expertRank = experts := rfl
  refine ⟨⟨hspread.valid hrobin, hrobin.seal⟩, ({ build sha m with expertRank := experts } : Manifest).sealTopology sha,
    hassign, hplaced.valid heven, heven.seal, fun layer => ?_⟩
  rw [hexperts]
  exact ⟨taken_perm (frequency layer), taken_sorted (frequency layer), (hsealed layer).greedy⟩

end FlashGordon.SealedManifest
