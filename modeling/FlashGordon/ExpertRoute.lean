import FlashGordon.PrefillSource

/-! Decode expert results against their route (`fg_expert_results_validate_route` in `protocol.c`). A rank of
the layer's group answers with one entry for each routing slot that falls to it, or with a pre-reduced entry
(slot `0xFF`) that stands for all of them. The check counts the entries only when no rank sent a pre-reduced
one, so a single pre-reduced result also lets the slots of every other rank go missing. -/

namespace FlashGordon.ExpertRoute

open Prefill

def hiddenSize : Nat := 2560

def prereducedSlot : UInt8 := 0xFF

/-- `fg_expert_result`. -/
structure ExpertResult where
  layer : UInt8
  sourceRank : UInt8
  destinationRank : UInt8
  selectedCount : UInt8
  position : UInt32
  routingSlots : Vector UInt8 topK
  outputs : Vector (Vector Binary32 hiddenSize) topK

def ExpertResult.selected (result : ExpertResult) : List UInt8 :=
  result.routingSlots.toList.take result.selectedCount.toNat

def expertAt (expertIds : Vector UInt16 topK) (slot : Nat) : Nat := (expertIds.toList.getD slot 0).toNat

/-- The loop over the canonical experts, with those already passed. -/
def checkExperts : List UInt16 → List UInt16 → Except Error Unit
  | _, [] => .ok ()
  | before, expert :: rest =>
    let slot := before.length
    if expertCount ≤ expert.toNat ∨ expert ∈ before then
      .error ⟨.format, s!"invalid canonical expert at slot {slot}"⟩
    else checkExperts (before ++ [expert]) rest

/-- What the result loop has seen. -/
structure Seen where
  ranks : List UInt8
  slots : List Nat
  prereduced : Bool

variable (manifest : Manifest) (layer : Nat) (expertIds : Vector UInt16 topK)

def checkEntries (source : UInt8) : List UInt8 → Seen → Except Error Seen
  | [], seen => .ok seen
  | entry :: rest, seen =>
    let slot := entry.toNat
    if entry = prereducedSlot then checkEntries source rest { seen with prereduced := true }
    else if topK ≤ slot ∨ slot ∈ seen.slots ∨
        manifest.expertRank layer (expertAt expertIds slot) ≠ source.toNat then
      .error ⟨.mismatch, s!"expert result rank does not match route slot {slot}"⟩
    else checkEntries source rest { seen with slots := seen.slots ++ [slot] }

def checkExpertResults (position : UInt32) (ownerRank : Nat) :
    Nat → List ExpertResult → Seen → Except Error Seen
  | _, [], seen => .ok seen
  | r, result :: rest, seen =>
    if result.layer.toNat ≠ layer ∨ result.position ≠ position ∨ result.destinationRank.toNat ≠ ownerRank ∨
        rankCount ≤ result.sourceRank.toNat ∨ result.sourceRank ∈ seen.ranks ∨
        rankInLayer manifest layer result.sourceRank.toNat = false then
      .error ⟨.mismatch, s!"stale or misrouted expert result {r}"⟩
    else if result.selectedCount = 0 ∨ topK < result.selectedCount.toNat then
      .error ⟨.format, "invalid expert result count"⟩
    else match checkEntries manifest layer expertIds result.sourceRank result.selected
        { seen with ranks := seen.ranks ++ [result.sourceRank] } with
      | .error err => .error err
      | .ok seen => checkExpertResults position ownerRank (r + 1) rest seen

/-- `fg_expert_results_validate_route`. -/
def validateExpertRoute (position : UInt32) (ownerRank : Nat) (results : List ExpertResult) : Except Error Unit :=
  if layerCount ≤ layer ∨ rankCount ≤ ownerRank ∨ results.length = 0 ∨ groupSize < results.length then
    .error ⟨.argument, "invalid expert result route validation arguments"⟩
  else if ownerRank ≠ 0 ∧ manifest.layerOwner layer ≠ ownerRank then
    .error ⟨.mismatch, "expert result destination is not layer owner"⟩
  else match checkExperts [] expertIds.toList with
    | .error err => .error err
    | .ok () =>
      match checkExpertResults manifest layer expertIds position ownerRank 0 results ⟨[], [], false⟩ with
      | .error err => .error err
      | .ok seen =>
        let received := seen.slots.length
        if seen.prereduced = false ∧ received ≠ topK then
          .error ⟨.mismatch, s!"received {received} of {topK} routed expert slots"⟩
        else .ok ()

def ExpertResult.listed (result : ExpertResult) : List Nat :=
  (result.selected.filter (· ≠ prereducedSlot)).map UInt8.toNat

def ExpertResult.prereduced (result : ExpertResult) : Prop := prereducedSlot ∈ result.selected

instance (result : ExpertResult) : Decidable result.prereduced :=
  inferInstanceAs (Decidable (prereducedSlot ∈ result.selected))

def slotRank (slot : Nat) : Nat := manifest.expertRank layer (expertAt expertIds slot)

/-- The slot is accounted for once: one entry lists it and comes from the rank that owns it, or that rank sent
a pre-reduced entry and no entry lists the slot. -/
def Accounted (results : List ExpertResult) (slot : Nat) : Prop :=
  ((results.flatMap ExpertResult.listed).count slot = 1 ∧
      ∀ result ∈ results, slot ∈ result.listed → result.sourceRank.toNat = slotRank manifest layer expertIds slot) ∨
    ((∃ result ∈ results, result.sourceRank.toNat = slotRank manifest layer expertIds slot ∧ result.prereduced) ∧
      ∀ result ∈ results, slot ∉ result.listed)

def rankSlots (rank : Nat) : List Nat := (List.range topK).filter fun slot => slotRank manifest layer expertIds slot = rank

/-- Every rank that owns a routed slot sent a result, pre-reduced or with as many entries as it owns slots. -/
def Answered (results : List ExpertResult) : Prop :=
  ∀ slot < topK, ∃ result ∈ results, result.sourceRank.toNat = slotRank manifest layer expertIds slot ∧
    (result.prereduced ∨
      result.selectedCount.toNat = (rankSlots manifest layer expertIds result.sourceRank.toNat).length)

section Accepted

variable {manifest : Manifest} {layer : Nat} {expertIds : Vector UInt16 topK}

theorem checkEntries_ok {source : UInt8} {entries : List UInt8} {seen next : Seen} (hseen : seen.slots.Nodup)
    (h : checkEntries manifest layer expertIds source entries seen = .ok next) :
    next.ranks = seen.ranks ∧
      next.slots = seen.slots ++ (entries.filter (· ≠ prereducedSlot)).map UInt8.toNat ∧ next.slots.Nodup ∧
      (∀ entry ∈ entries, entry ≠ prereducedSlot →
        entry.toNat < topK ∧ slotRank manifest layer expertIds entry.toNat = source.toNat) := by
  induction entries generalizing seen with
  | nil =>
    cases h
    exact ⟨rfl, (List.append_nil _).symm, hseen, fun entry hentry => absurd hentry List.not_mem_nil⟩
  | cons entry rest ih =>
    rw [checkEntries] at h
    split at h
    next hpre =>
      obtain ⟨hranks, hslots, hnodup, hrange⟩ := ih (by exact hseen) h
      refine ⟨hranks, ?_, hnodup, List.forall_mem_cons.mpr ⟨fun hne => absurd hpre hne, hrange⟩⟩
      rw [hslots, List.filter_cons_of_neg (by simpa using hpre)]
    next hpre =>
      split at h
      · cases h
      next hentry =>
        rw [not_or, not_or, not_le, not_not] at hentry
        obtain ⟨hlt, hnew, howner⟩ := hentry
        have hnodupNew : (seen.slots ++ [entry.toNat]).Nodup := by
          rw [← List.concat_eq_append]
          exact hseen.concat hnew
        obtain ⟨hranks, hslots, hnodup, hrange⟩ := ih hnodupNew h
        refine ⟨hranks, ?_, hnodup, List.forall_mem_cons.mpr ⟨fun _ => ⟨hlt, howner⟩, hrange⟩⟩
        rw [hslots, List.filter_cons_of_pos (by simpa using hpre), List.map_cons, List.append_assoc]
        rfl

/-- What acceptance says of the results, however the counting went. -/
structure Sound (manifest : Manifest) (layer : Nat) (expertIds : Vector UInt16 topK) (results : List ExpertResult) :
    Prop where
  nodup : (results.flatMap ExpertResult.listed).Nodup
  owned : ∀ result ∈ results, ∀ slot ∈ result.listed,
    slot < topK ∧ slotRank manifest layer expertIds slot = result.sourceRank.toNat
  ranks : (results.map ExpertResult.sourceRank).Nodup
  counts : ∀ result ∈ results, result.selectedCount.toNat ≤ topK

theorem checkExpertResults_ok {position : UInt32} {ownerRank r : Nat} {results : List ExpertResult} {seen next : Seen}
    (hslots : seen.slots.Nodup) (hranks : seen.ranks.Nodup)
    (h : checkExpertResults manifest layer expertIds position ownerRank r results seen = .ok next) :
    next.slots = seen.slots ++ results.flatMap ExpertResult.listed ∧ next.slots.Nodup ∧
      (seen.ranks ++ results.map ExpertResult.sourceRank).Nodup ∧
      (∀ result ∈ results, result.selectedCount.toNat ≤ topK ∧ ∀ slot ∈ result.listed,
        slot < topK ∧ slotRank manifest layer expertIds slot = result.sourceRank.toNat) := by
  induction results generalizing seen r with
  | nil =>
    cases h
    refine ⟨(List.append_nil _).symm, hslots, ?_, fun result hresult => absurd hresult List.not_mem_nil⟩
    rw [List.map_nil, List.append_nil]
    exact hranks
  | cons result rest ih =>
    rw [checkExpertResults] at h
    split at h
    · cases h
    rename_i hroute
    split at h
    · cases h
    rename_i hcount
    split at h
    · cases h
    rename_i mid hentries
    have hfresh : result.sourceRank ∉ seen.ranks := fun hmem =>
      hroute (.inr (.inr (.inr (.inr (.inl hmem)))))
    have hranksNew : (seen.ranks ++ [result.sourceRank]).Nodup := by
      rw [← List.concat_eq_append]
      exact hranks.concat hfresh
    obtain ⟨hmidRanks, hmidSlots, hmidNodup, hentry⟩ := checkEntries_ok (by exact hslots) hentries
    dsimp only at hmidRanks hmidSlots
    rw [← hmidRanks] at hranksNew
    obtain ⟨hnext, hnextNodup, hall, hrest⟩ := ih hmidNodup hranksNew h
    refine ⟨?_, hnextNodup, ?_, List.forall_mem_cons.mpr ⟨⟨?_, ?_⟩, hrest⟩⟩
    · rw [hnext, hmidSlots, List.flatMap_cons, List.append_assoc]
      rfl
    · rw [hmidRanks, List.append_assoc] at hall
      exact hall
    · exact not_lt.mp fun hlt => hcount (.inr hlt)
    · intro slot hslot
      obtain ⟨entry, hmem, rfl⟩ := List.mem_map.mp hslot
      obtain ⟨hselected, hne⟩ := List.mem_filter.mp hmem
      exact hentry entry hselected (of_decide_eq_true hne)

theorem validateExpertRoute_sound {position : UInt32} {ownerRank : Nat} {results : List ExpertResult}
    (h : validateExpertRoute manifest layer expertIds position ownerRank results = .ok ()) :
    Sound manifest layer expertIds results := by
  rw [validateExpertRoute] at h
  split at h
  · cases h
  split at h
  · cases h
  split at h
  · cases h
  split at h
  · cases h
  rename_i seen hseen
  obtain ⟨hslots, hnodup, hranks, hresults⟩ := checkExpertResults_ok List.nodup_nil List.nodup_nil hseen
  rw [hslots] at hnodup
  exact ⟨hnodup, fun result hresult => (hresults result hresult).2, hranks,
    fun result hresult => (hresults result hresult).1⟩

section Sound

variable {results : List ExpertResult} {result other : ExpertResult} {slot : Nat}

section

variable (h : Sound manifest layer expertIds results)
include h

theorem Sound.eq_of_rank (hresult : result ∈ results)
    (hother : other ∈ results) (hrank : result.sourceRank.toNat = other.sourceRank.toNat) : result = other :=
  List.inj_on_of_nodup_map h.ranks hresult hother (UInt8.toNat_inj.mp hrank)

theorem Sound.listed_nodup (hresult : result ∈ results) :
    result.listed.Nodup := (List.nodup_flatMap.mp h.nodup).1 result hresult

theorem Sound.mem_rankSlots (hresult : result ∈ results)
    (hslot : slot ∈ result.listed) : slot ∈ rankSlots manifest layer expertIds result.sourceRank.toNat := by
  obtain ⟨hlt, howner⟩ := h.owned result hresult slot hslot
  exact List.mem_filter.mpr ⟨List.mem_range.mpr hlt, decide_eq_true howner⟩

theorem Sound.listed_length (hresult : result ∈ results)
    (hpre : ¬ result.prereduced) : result.listed.length = result.selectedCount.toNat := by
  have hall : result.selected.filter (· ≠ prereducedSlot) = result.selected := by
    rw [List.filter_eq_self]
    intro entry hentry
    exact decide_eq_true fun heq => hpre (show prereducedSlot ∈ result.selected from heq ▸ hentry)
  rw [ExpertResult.listed, hall, List.length_map, ExpertResult.selected, List.length_take, Vector.length_toList]
  exact Nat.min_eq_left (h.counts result hresult)

theorem Sound.mem_listed_iff (hresult : result ∈ results) (hpre : ¬ result.prereduced) :
    (∀ slot ∈ rankSlots manifest layer expertIds result.sourceRank.toNat, slot ∈ result.listed) ↔
      result.selectedCount.toNat = (rankSlots manifest layer expertIds result.sourceRank.toNat).length := by
  have hslots : (rankSlots manifest layer expertIds result.sourceRank.toNat).Nodup :=
    List.nodup_range.filter _
  have hsub : result.listed ⊆ rankSlots manifest layer expertIds result.sourceRank.toNat :=
    fun slot hslot => h.mem_rankSlots hresult hslot
  have hsubperm := (h.listed_nodup hresult).subperm hsub
  rw [← h.listed_length hresult hpre]
  constructor
  · intro hall
    exact Nat.le_antisymm hsubperm.length_le (hslots.subperm hall).length_le
  · intro hlength slot hslot
    exact (hsubperm.perm_of_length_le hlength.ge).mem_iff.mpr hslot

end

/-- An accepted set of results accounts for every slot once exactly when every owning rank answered. -/
theorem validateExpertRoute_accounts (manifest : Manifest) (layer : Nat) (expertIds : Vector UInt16 topK)
    (position : UInt32) (ownerRank : Nat) (results : List ExpertResult)
    (h : validateExpertRoute manifest layer expertIds position ownerRank results = .ok ()) :
    (∀ slot < topK, Accounted manifest layer expertIds results slot) ↔
      Answered manifest layer expertIds results := by
  have hsound := validateExpertRoute_sound h
  constructor
  · intro haccounted slot hslot
    rcases haccounted slot hslot with ⟨hcount, howner⟩ | ⟨⟨result, hresult, hrank, hpre⟩, -⟩
    · have hmem : slot ∈ results.flatMap ExpertResult.listed := List.count_pos_iff.mp (by omega)
      obtain ⟨result, hresult, hlisted⟩ := List.mem_flatMap.mp hmem
      refine ⟨result, hresult, howner result hresult hlisted, ?_⟩
      by_cases hpre : result.prereduced
      · exact .inl hpre
      refine .inr ((hsound.mem_listed_iff hresult hpre).mp fun other hother => ?_)
      obtain ⟨hlt, hrank⟩ := List.mem_filter.mp hother
      have hrankOther : slotRank manifest layer expertIds other = result.sourceRank.toNat := of_decide_eq_true hrank
      rcases haccounted other (List.mem_range.mp hlt) with ⟨hone, hsource⟩ | ⟨⟨second, hsecond, hsame, hpre'⟩, -⟩
      · have hmem : other ∈ results.flatMap ExpertResult.listed := List.count_pos_iff.mp (by omega)
        obtain ⟨second, hsecond, hlisted⟩ := List.mem_flatMap.mp hmem
        have heq := hsound.eq_of_rank hsecond hresult ((hsource second hsecond hlisted).trans hrankOther)
        exact heq ▸ hlisted
      · have heq := hsound.eq_of_rank hsecond hresult (hsame.trans hrankOther)
        exact absurd (heq ▸ hpre') hpre
    · exact ⟨result, hresult, hrank, .inl hpre⟩
  · intro hanswered slot hslot
    by_cases hmem : slot ∈ results.flatMap ExpertResult.listed
    · refine .inl ⟨List.count_eq_one_of_mem hsound.nodup hmem, fun result hresult hlisted => ?_⟩
      exact (hsound.owned result hresult slot hlisted).2.symm
    · have hnone : ∀ result ∈ results, slot ∉ result.listed := fun result hresult hlisted =>
        hmem (List.mem_flatMap.mpr ⟨result, hresult, hlisted⟩)
      obtain ⟨result, hresult, hrank, hanswer⟩ := hanswered slot hslot
      refine .inr ⟨⟨result, hresult, hrank, ?_⟩, hnone⟩
      rcases hanswer with hpre | hcount
      · exact hpre
      · by_contra hpre
        have hall := (hsound.mem_listed_iff hresult hpre).mpr hcount
        exact hnone result hresult (hall slot (List.mem_filter.mpr
          ⟨List.mem_range.mpr hslot, decide_eq_true hrank.symm⟩))

def sampleExperts : Vector UInt16 topK := #v[0, 1, 2, 3, 4, 5, 6, 7, 8, 9]

def prereducedBy (rank : UInt8) : ExpertResult where
  layer := 0
  sourceRank := rank
  destinationRank := 0
  selectedCount := 1
  position := 7
  routingSlots := #v[0xFF, 0, 0, 0, 0, 0, 0, 0, 0, 0]
  outputs := Vector.replicate topK (Vector.replicate hiddenSize ⟨0⟩)

theorem validateExpertRoute_accounts_group :
    Answered dealtManifest 0 sampleExperts (List.map prereducedBy [0, 1, 3, 5]) ∧
      ∀ slot < topK, Accounted dealtManifest 0 sampleExperts (List.map prereducedBy [0, 1, 3, 5]) slot := by
  have haccepted : validateExpertRoute dealtManifest 0 sampleExperts 7 0 (List.map prereducedBy [0, 1, 3, 5]) =
      .ok () := by rfl
  have hanswered : Answered dealtManifest 0 sampleExperts (List.map prereducedBy [0, 1, 3, 5]) := by
    unfold Answered
    decide
  exact ⟨hanswered, (validateExpertRoute_accounts _ _ _ _ _ _ haccepted).mpr hanswered⟩

/-- The pre-reduced result of rank 1 alone is accepted, and the slots of the other three ranks are missing. -/
theorem lone_prereduced_accepted :
    validateTopology dealtManifest = .ok () ∧
      validateExpertRoute dealtManifest 0 sampleExperts 7 0 [prereducedBy 1] = .ok () ∧
      ¬ ∀ slot < topK, Accounted dealtManifest 0 sampleExperts [prereducedBy 1] slot := by
  refine ⟨dealtManifest_valid, rfl, fun haccounted => ?_⟩
  rcases haccounted 2 (by decide) with ⟨hcount, -⟩ | ⟨⟨result, hresult, hrank, -⟩, -⟩
  · exact absurd hcount (by decide)
  · rw [List.mem_singleton.mp hresult] at hrank
    exact absurd hrank (by decide)

end Sound

end Accepted

end FlashGordon.ExpertRoute
