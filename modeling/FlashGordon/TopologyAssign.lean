import FlashGordon.ManifestValidate
import FlashGordon.FirstSeen
import Mathlib.Data.List.TakeWhile

/-!
`fg_topology_assign_map`: an expert map is checked layer by layer against the groups of the manifest,
and a layer that one rank owns alone has its group rewritten on the way. The scan of a layer collects
the different ranks it names in an array of `FG_GROUP_SIZE` slots; a write past its end is an outcome
of its own, since nothing is known of what the function does afterwards.
-/

namespace FlashGordon.SealedManifest

open Checks FirstSeen List

abbrev ExpertMap := Fin layerCount → Fin expertCount → UInt16

/-- `count[rank]++`, after the rank is put into `distinct` if it is a new one. -/
def noteRank (t : Tally Nat) (rank : Nat) : Except Halt (Tally Nat) :=
  if t.count rank = 0 then
    if t.distinct.length < groupSize then
      .ok ⟨Function.update t.count rank (t.count rank + 1), t.distinct ++ [rank]⟩
    else .error .overrun
  else .ok ⟨Function.update t.count rank (t.count rank + 1), t.distinct⟩

def scanLayer (map : ExpertMap) (layer : Fin layerCount) :
    List (Fin expertCount) → Tally Nat → Except Halt (Tally Nat)
  | [], t => .ok t
  | expert :: rest, t =>
    let rank := (map layer expert).toNat
    if rankCount ≤ rank then
      .error (.error ⟨.format, s!"layer {layer} expert {expert} assigned to rank {rank} outside the fleet"⟩)
    else match noteRank t rank with
      | .error halt => .error halt
      | .ok t => scanLayer map layer rest t

/-- `fg_topology_rank_in_layer`. -/
def rankInLayer (m : Manifest) (layer : Fin layerCount) (rank : Nat) : Prop :=
  ∃ i, (m.layerGroups layer i).toNat = rank

instance (m : Manifest) (layer : Fin layerCount) (rank : Nat) : Decidable (rankInLayer m layer rank) :=
  inferInstanceAs (Decidable (∃ _, _))

def checkGroup (m : Manifest) (layer : Fin layerCount) (t : Tally Nat) : Except Error Unit := do
  refuse (t.distinct.length ≠ groupSize)
    ⟨.format, s!"layer {layer} spans {t.distinct.length} ranks, expected {groupSize} or a single owner"⟩
  t.distinct.forM fun rank => refuse (¬ rankInLayer m layer rank)
    ⟨.format, s!"layer {layer} expert assigned to rank {rank} outside its group"⟩
  (List.finRange groupSize).forM fun group =>
    refuse (t.count (m.layerGroups layer group).toNat ≠ expertsPerRank)
      ⟨.format, s!"layer {layer} rank {m.layerGroups layer group} owns {t.count (m.layerGroups layer group).toNat} experts, expected {expertsPerRank}"⟩

def assignScanned (m : Manifest) (layer : Fin layerCount) (t : Tally Nat) : Except Halt Manifest :=
  if t.distinct.length = 1 then
    let rank := t.distinct.headD 0
    if t.count rank ≠ expertCount then
      .error (.error ⟨.format, s!"layer {layer} rank {rank} owns {t.count rank} experts, expected {expertCount}"⟩)
    else .ok { m with layerGroups := Function.update m.layerGroups layer fun _ => .ofNat rank }
  else match checkGroup m layer t with
    | .error err => .error (.error err)
    | .ok () => .ok m

def assignLayer (map : ExpertMap) (m : Manifest) (layer : Fin layerCount) : Except Halt Manifest := do
  let t ← scanLayer map layer (List.finRange expertCount) (tally [])
  assignScanned m layer t

def resume (m : Manifest) (next : Manifest → Manifest × Option Halt) :
    Except Halt Manifest → Manifest × Option Halt
  | .error halt => (m, some halt)
  | .ok m => next m

/-- The loop over the layers: the manifest it leaves, and how it ended if it did not go through. -/
def assignLayers (map : ExpertMap) : List (Fin layerCount) → Manifest → Manifest × Option Halt
  | [], m => (m, none)
  | layer :: rest, m => resume m (assignLayers map rest) (assignLayer map m layer)

theorem assignLayers_ok {map : ExpertMap} {layer : Fin layerCount} {rest : List (Fin layerCount)} {m m' : Manifest}
    (h : assignLayer map m layer = .ok m') : assignLayers map (layer :: rest) m = assignLayers map rest m' := by
  rw [assignLayers, h]
  rfl

theorem assignLayers_error {map : ExpertMap} {layer : Fin layerCount} {rest : List (Fin layerCount)} {m : Manifest}
    {halt : Halt} (h : assignLayer map m layer = .error halt) :
    assignLayers map (layer :: rest) m = (m, some halt) := by
  rw [assignLayers, h]
  rfl

/-- `fg_topology_assign_map`. -/
def assignMap (sha : List UInt8 → Digest) (m : Manifest) (map : ExpertMap) : Manifest × Option Halt :=
  match assignLayers map (List.finRange layerCount) m with
  | (m, some halt) => (m, some halt)
  | (m, none) => (({ m with expertRank := map }).sealTopology sha, none)

/-! What a layer of a map names. -/

def scannedRanks (map : ExpertMap) (layer : Fin layerCount) : List Nat :=
  ((List.finRange expertCount).map fun expert => (map layer expert).toNat).takeWhile (· < rankCount)

def namedRanks (map : ExpertMap) (layer : Fin layerCount) : List Nat := firstSeen (scannedRanks map layer)

def SingleOwner (map : ExpertMap) (layer : Fin layerCount) (rank : Nat) : Prop :=
  rank < rankCount ∧ ∀ expert, (map layer expert).toNat = rank

def Split (m : Manifest) (map : ExpertMap) (layer : Fin layerCount) : Prop :=
  (∀ expert, (map layer expert).toNat < rankCount) ∧ (namedRanks map layer).length = groupSize ∧
    (∀ expert, rankInLayer m layer (map layer expert).toNat) ∧
    ∀ group, (List.finRange expertCount).countP
      (fun expert => (map layer expert).toNat = (m.layerGroups layer group).toNat) = expertsPerRank

def LayerFits (m : Manifest) (map : ExpertMap) (layer : Fin layerCount) : Prop :=
  (∃ rank, SingleOwner map layer rank) ∨ Split m map layer

/-- Every layer before this one is accepted, so that the assignment gets to it. -/
def Reached (m : Manifest) (map : ExpertMap) (layer : Fin layerCount) : Prop :=
  ∀ earlier < layer, LayerFits m map earlier

theorem groups_eq_of_distinctRanks {groups : Fin groupSize → UInt8} (h : (distinctRanks groups).length = 1)
    (group other : Fin groupSize) : groups group = groups other :=
  eq_of_length_firstSeen_eq_one h ((mem_ofFn' _ _).mpr ⟨other, rfl⟩) ((mem_ofFn' _ _).mpr ⟨group, rfl⟩)

section Scan

variable {m : Manifest} {map : ExpertMap} {layer : Fin layerCount}

theorem noteRank_tally {seen : List Nat} {rank : Nat} (hroom : (firstSeen seen).length ≤ groupSize) :
    noteRank (tally seen) rank =
      if (firstSeen (seen ++ [rank])).length ≤ groupSize then .ok (tally (seen ++ [rank]))
      else .error .overrun := by
  rw [noteRank, tally_append_singleton, firstSeen_append_singleton]
  by_cases hseen : rank ∈ firstSeen seen
  · have hnote : note (firstSeen seen) rank = firstSeen seen := if_pos hseen
    rw [if_neg (fun h => tally_count_eq_zero.mp h hseen), hnote, if_pos hroom]
    rfl
  · have hnote : note (firstSeen seen) rank = firstSeen seen ++ [rank] := if_neg hseen
    rw [if_pos (tally_count_eq_zero.mpr hseen), hnote, length_append, length_singleton]
    rfl

theorem scanLayer_spec (rest : List (Fin expertCount)) {seen : List Nat}
    (hroom : (firstSeen seen).length ≤ groupSize) :
    let ranks := rest.map fun expert => (map layer expert).toNat
    let named := firstSeen (seen ++ ranks.takeWhile (· < rankCount))
    (named.length ≤ groupSize → (∀ rank ∈ ranks, rank < rankCount) →
      scanLayer map layer rest (tally seen) = .ok (tally (seen ++ ranks))) ∧
    (named.length ≤ groupSize → ¬ (∀ rank ∈ ranks, rank < rankCount) →
      ∃ err, scanLayer map layer rest (tally seen) = .error (.error err)) ∧
    (groupSize < named.length → scanLayer map layer rest (tally seen) = .error .overrun) := by
  induction rest generalizing seen with
  | nil =>
    simp only [map_nil, takeWhile_nil, append_nil, scanLayer]
    refine ⟨fun _ _ => trivial, fun _ h => absurd (fun rank hrank => nomatch hrank) h, fun h => ?_⟩
    exact absurd hroom (Nat.not_le.mpr h)
  | cons expert rest ih =>
    rw [scanLayer]
    by_cases hrank : (map layer expert).toNat < rankCount
    · rw [if_neg (Nat.not_le.mpr hrank), noteRank_tally hroom]
      simp only [map_cons]
      rw [takeWhile_cons_of_pos (by simpa using hrank), append_cons seen]
      by_cases hmore : (firstSeen (seen ++ [(map layer expert).toNat])).length ≤ groupSize
      · simp only [if_pos hmore]
        obtain ⟨hok, herror, hover⟩ := ih hmore
        refine ⟨fun hnamed hall => ?_, fun hnamed hall => ?_, hover⟩
        · rw [append_cons seen _ (rest.map fun expert => (map layer expert).toNat)]
          exact hok hnamed (forall_mem_cons.mp hall).2
        · exact herror hnamed fun htail => hall (forall_mem_cons.mpr ⟨hrank, htail⟩)
      · simp only [if_neg hmore]
        have hmany := Nat.lt_of_lt_of_le (Nat.not_le.mp hmore) (length_firstSeen_append
          ((rest.map fun expert => (map layer expert).toNat).takeWhile (· < rankCount)))
        exact ⟨fun h => absurd h (Nat.not_le.mpr hmany), fun h => absurd h (Nat.not_le.mpr hmany), fun _ => trivial⟩
    · rw [if_pos (Nat.not_lt.mp hrank)]
      simp only [map_cons]
      rw [takeWhile_cons_of_neg (by simpa using hrank), append_nil]
      refine ⟨fun _ hall => absurd (hall _ mem_cons_self) hrank, fun _ _ => ⟨_, rfl⟩, fun h => ?_⟩
      exact absurd hroom (Nat.not_le.mpr h)

def ranksOf (map : ExpertMap) (layer : Fin layerCount) : List Nat :=
  (List.finRange expertCount).map fun expert => (map layer expert).toNat

theorem mem_ranksOf (expert : Fin expertCount) : (map layer expert).toNat ∈ ranksOf map layer :=
  mem_map_of_mem (mem_finRange expert)

theorem forall_ranksOf {p : Nat → Prop} :
    (∀ rank ∈ ranksOf map layer, p rank) ↔ ∀ expert, p (map layer expert).toNat := by
  constructor
  · exact fun h expert => h _ (mem_ranksOf expert)
  · intro h rank hrank
    obtain ⟨expert, -, rfl⟩ := mem_map.mp hrank
    exact h expert

theorem namedRanks_of_valid (h : ∀ expert, (map layer expert).toNat < rankCount) :
    namedRanks map layer = firstSeen (ranksOf map layer) := by
  have hall : (ranksOf map layer).takeWhile (· < rankCount) = ranksOf map layer :=
    takeWhile_eq_self_iff.mpr fun rank hrank => decide_eq_true ((@forall_ranksOf map layer (· < rankCount)).mpr h rank hrank)
  exact congrArg firstSeen hall

theorem tally_count_ranksOf (rank : Nat) : (tally (ranksOf map layer)).count rank =
    (List.finRange expertCount).countP fun expert => (map layer expert).toNat = rank := by
  rw [tally_count, count_eq_countP, ranksOf, countP_map]
  rfl

theorem ranksOf_ne_nil : ranksOf map layer ≠ [] := ne_nil_of_mem (mem_ranksOf ⟨0, by decide⟩)

theorem ranksOf_length : (ranksOf map layer).length = expertCount := by
  rw [ranksOf, length_map, length_finRange]

def groupFor (m : Manifest) (map : ExpertMap) (layer : Fin layerCount) : Fin groupSize → UInt8 :=
  if (namedRanks map layer).length = 1 then fun _ => .ofNat ((namedRanks map layer).headD 0)
  else m.layerGroups layer

def regroup (m : Manifest) (map : ExpertMap) (layers : List (Fin layerCount)) : Manifest :=
  { m with layerGroups := fun layer => if layer ∈ layers then groupFor m map layer else m.layerGroups layer }

theorem groupFor_congr {m' : Manifest} (h : m'.layerGroups layer = m.layerGroups layer) :
    groupFor m' map layer = groupFor m map layer := by
  rw [groupFor, groupFor, h]

theorem layerFits_congr {m' : Manifest} (h : m'.layerGroups layer = m.layerGroups layer) :
    LayerFits m' map layer ↔ LayerFits m map layer := by
  simp only [LayerFits, Split, rankInLayer, h]

theorem regroup_nil : regroup m map [] = m := by
  have h : (fun layer => if layer ∈ ([] : List (Fin layerCount)) then groupFor m map layer else m.layerGroups layer) =
      m.layerGroups := by
    funext layer
    exact if_neg not_mem_nil
  rw [regroup, h]

theorem regroup_of_not_mem {layers : List (Fin layerCount)} (h : layer ∉ layers) :
    (regroup m map layers).layerGroups layer = m.layerGroups layer := if_neg h

theorem checkGroup_ok {t : Tally Nat} : checkGroup m layer t = .ok () ↔
    t.distinct.length = groupSize ∧ (∀ rank ∈ t.distinct, rankInLayer m layer rank) ∧
      ∀ group, t.count (m.layerGroups layer group).toNat = expertsPerRank := by
  simp only [checkGroup, bind_eq_ok, exists_unit, refuse_eq_ok, forM_eq_ok, not_not, ne_eq, mem_finRange, forall_const]

theorem layerFits_of_single {rank : Nat} (h : SingleOwner map layer rank) :
    namedRanks map layer = [rank] ∧ (tally (ranksOf map layer)).count rank = expertCount := by
  have hvalid (expert) : (map layer expert).toNat < rankCount := by
    rw [h.2 expert]
    exact h.1
  have hall : ∀ key ∈ ranksOf map layer, key = rank :=
    (@forall_ranksOf map layer (· = rank)).mpr h.2
  constructor
  · rw [namedRanks_of_valid hvalid]
    exact firstSeen_of_forall_eq ranksOf_ne_nil hall
  · rw [tally_count, ← @ranksOf_length map layer]
    exact count_eq_length.mpr fun key hkey => (hall key hkey).symm

theorem single_of_length (hvalid : ∀ expert, (map layer expert).toNat < rankCount)
    (hone : (namedRanks map layer).length = 1) :
    ∃ rank, SingleOwner map layer rank := by
  rw [namedRanks_of_valid hvalid] at hone
  let first : Fin expertCount := ⟨0, by decide⟩
  exact ⟨(map layer first).toNat, hvalid first, fun expert =>
    eq_of_length_firstSeen_eq_one hone (mem_ranksOf first) (mem_ranksOf expert)⟩

theorem scanLayer_all :
    ((namedRanks map layer).length ≤ groupSize → (∀ expert, (map layer expert).toNat < rankCount) →
      scanLayer map layer (List.finRange expertCount) (tally []) = .ok (tally (ranksOf map layer))) ∧
    ((namedRanks map layer).length ≤ groupSize → ¬ (∀ expert, (map layer expert).toNat < rankCount) →
      ∃ err, scanLayer map layer (List.finRange expertCount) (tally []) = .error (.error err)) ∧
    (groupSize < (namedRanks map layer).length →
      scanLayer map layer (List.finRange expertCount) (tally []) = .error .overrun) := by
  have hspec := @scanLayer_spec map layer (List.finRange expertCount) [] (Nat.zero_le _)
  simp only [nil_append] at hspec
  rw [← @forall_ranksOf map layer (· < rankCount)]
  exact hspec

theorem few_of_fits (h : LayerFits m map layer) : (namedRanks map layer).length ≤ groupSize := by
  rcases h with ⟨rank, hsingle⟩ | hsplit
  · rw [(layerFits_of_single hsingle).1, length_singleton]
    decide
  · exact hsplit.2.1.le

theorem assignLayer_spec :
    (groupSize < (namedRanks map layer).length → assignLayer map m layer = .error .overrun) ∧
    (LayerFits m map layer → assignLayer map m layer =
      .ok { m with layerGroups := Function.update m.layerGroups layer (groupFor m map layer) }) ∧
    ((namedRanks map layer).length ≤ groupSize → ¬ LayerFits m map layer →
      ∃ err, assignLayer map m layer = .error (.error err)) := by
  obtain ⟨hok, herror, hover⟩ := @scanLayer_all map layer
  refine ⟨fun hmany => ?_, fun hfits => ?_, fun hfew hunfit => ?_⟩
  · rw [assignLayer, hover hmany, error_bind]
  · have hfew := few_of_fits hfits
    have hvalid (expert) : (map layer expert).toNat < rankCount := by
      rcases hfits with ⟨rank, hrank, hsingle⟩ | hsplit
      · rw [hsingle expert]
        exact hrank
      · exact hsplit.1 expert
    rw [assignLayer, hok hfew hvalid, ok_bind, assignScanned, tally_distinct, ← namedRanks_of_valid hvalid, groupFor]
    rcases hfits with ⟨rank, hsingle⟩ | hsplit
    · obtain ⟨hone, hcount⟩ := layerFits_of_single hsingle
      have hlength : (namedRanks map layer).length = 1 := by rw [hone, length_singleton]
      have hhead : (namedRanks map layer).headD 0 = rank := by rw [hone, headD_cons]
      rw [if_pos hlength, if_pos hlength, hhead, if_neg (not_not.mpr hcount)]
    · have hlength : (namedRanks map layer).length ≠ 1 := by
        rw [hsplit.2.1]
        decide
      have hgroup : checkGroup m layer (tally (ranksOf map layer)) = .ok () := by
        rw [checkGroup_ok, tally_distinct, ← namedRanks_of_valid hvalid]
        refine ⟨hsplit.2.1, fun rank hrank => ?_, fun group => ?_⟩
        · rw [namedRanks_of_valid hvalid, mem_firstSeen] at hrank
          exact (@forall_ranksOf map layer (rankInLayer m layer ·)).mpr hsplit.2.2.1 rank hrank
        · rw [tally_count_ranksOf]
          exact hsplit.2.2.2 group
      rw [if_neg hlength, if_neg hlength, hgroup, Function.update_eq_self]
  · by_cases hvalid : ∀ expert, (map layer expert).toNat < rankCount
    · have hlength : (namedRanks map layer).length ≠ 1 := fun hone =>
        hunfit (.inl (single_of_length hvalid hone))
      rw [assignLayer, hok hfew hvalid, ok_bind, assignScanned, tally_distinct, ← namedRanks_of_valid hvalid, if_neg hlength]
      cases hgroup : checkGroup m layer (tally (ranksOf map layer)) with
      | error err => exact ⟨err, rfl⟩
      | ok u =>
        rw [checkGroup_ok, tally_distinct, ← namedRanks_of_valid hvalid] at hgroup
        obtain ⟨hfour, hranks, hcounts⟩ := hgroup
        refine absurd (.inr ⟨hvalid, hfour, fun expert => ?_, fun group => ?_⟩) hunfit
        · refine hranks _ ?_
          rw [namedRanks_of_valid hvalid, mem_firstSeen]
          exact mem_ranksOf expert
        · rw [← tally_count_ranksOf]
          exact hcounts group
    · obtain ⟨err, herr⟩ := herror hfew hvalid
      refine ⟨err, ?_⟩
      rw [assignLayer, herr, error_bind]

end Scan

end FlashGordon.SealedManifest
