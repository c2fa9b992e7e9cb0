import FlashGordon.Align
import FlashGordon.SortedRanges
import FlashGordon.ManifestUpgrade
import Mathlib.Data.List.Sort

/-!
The storage check of `q38_schema.c`: the bytes a tensor record has to hold, the ranges of the records in the
output of each rank, and the ledger of the ranks. The ranges are sorted and only neighbours are compared; the
last section says why that is enough, and what exactly a manifest has to keep to be accepted.
-/

namespace FlashGordon.SealedManifest

open Checks

/-- `fg_gguf_type_layout`: the elements and the bytes of a block. -/
def ggufTypeLayout (type : UInt32) : Option (UInt64 × UInt64) :=
  match type.toNat with
  | 0 => some (1, 4) | 1 => some (1, 2) | 2 => some (32, 18) | 3 => some (32, 20) | 6 => some (32, 22)
  | 7 => some (32, 24) | 8 => some (32, 34) | 9 => some (32, 40) | 10 => some (256, 84) | 11 => some (256, 110)
  | 12 => some (256, 144) | 13 => some (256, 176) | 14 => some (256, 210) | 15 => some (256, 292)
  | 16 => some (256, 66) | 17 => some (256, 74) | 18 => some (256, 98) | 19 => some (256, 50) | 20 => some (32, 18)
  | 21 => some (256, 110) | 22 => some (256, 82) | 23 => some (256, 136) | 24 => some (1, 1) | 25 => some (1, 2)
  | 26 => some (1, 4) | 27 => some (1, 8) | 28 => some (1, 8) | 29 => some (256, 56) | 30 => some (1, 2)
  | 34 => some (256, 54) | 35 => some (256, 66) | 36 => some (256, 108)
  | _ => none

/-- The product of the dimensions, `none` where one is empty or it wraps. -/
def countElements (elements : UInt64) : List UInt64 → Option UInt64
  | [] => some elements
  | width :: rest =>
    if width = 0 ∨ elements > u64Max / width then none else countElements (elements * width) rest

/-- `fg_gguf_tensor_bytes`. -/
def ggufTensorBytes (type dims : UInt32) (shape : Fin 4 → UInt64) : Option UInt64 :=
  if dims = 0 ∨ dims > 4 then none
  else do
    let elements ← countElements 1 ((List.ofFn shape).take dims.toNat)
    let (block, blockBytes) ← ggufTypeLayout type
    if elements % block ≠ 0 then none
    else
      let blocks := elements / block
      if blocks > u64Max / blockBytes then none else some (blocks * blockBytes)

/-- The first bytes of a name, as `%.80s` prints them. -/
def nameText (limit : Nat) (name : Vector UInt8 96) : String :=
  String.ofList (((cString name).take limit).map fun c => Char.ofNat c.toNat)

/-- The bytes of one matrix of a cooked layout; zero where the layout does not take the record. -/
def TensorRecord.cookedMatrix (t : TensorRecord) : UInt64 :=
  if t.layout = layoutDenseSoa ∨ t.layout = layoutDenseCompact then
    if t.kind = tensorCommon ∧ t.dims = 2 ∧ t.Narrow then
      if t.layout = layoutDenseCompact then denseCompactBytes (t.shape 0) (t.shape 1) t.ggmlType
      else denseSoaBytes (t.shape 0) (t.shape 1) t.ggmlType
    else 0
  else if t.layout = layoutQ8Cooked then
    if t.dims = 2 ∧ t.Narrow then q8CookedMatrixBytes (t.shape 0) (t.shape 1) else 0
  else if t.layout = layoutKQuantExpertCooked then
    if t.dims = 3 ∧ t.Narrow then kQuantCookedMatrixBytes (t.shape 0) (t.shape 1) t.ggmlType else 0
  else if t.layout = layoutQ51ExpertCooked then
    if t.dims = 3 ∧ t.Narrow then q51CookedMatrixBytes (t.shape 0) (t.shape 1) else 0
  else if t.layout = layoutQ8ExpertCooked then
    if t.dims = 3 ∧ t.ggmlType = 8 ∧ t.Narrow then q8CookedMatrixBytes (t.shape 0) (t.shape 1) else 0
  else 0

def layoutGgml : UInt8 := 0

/-- `fg_tensor_record_expected_bytes`. -/
def expectedBytes (t : TensorRecord) : Except Error UInt64 :=
  if t.kind = tensorTokenizer ∨ t.kind = tensorVision ∨ t.kind = tensorMtp then
    if t.bytes = 0 then .error ⟨.format, s!"opaque tensor {nameText 80 t.name} is empty"⟩ else .ok t.bytes
  else if t.layout = layoutGgml ∨ t.layout = layoutHostQ8 then
    match ggufTensorBytes t.ggmlType t.dims t.shape with
    | some bytes => .ok bytes
    | none => .error ⟨.format, s!"tensor {nameText 80 t.name} has invalid GGML type/block geometry"⟩
  else if t.cookedMatrix = 0 then .error ⟨.format, s!"tensor {nameText 80 t.name} has invalid cooked geometry"⟩
  else if t.dims = 3 then
    if t.shape 2 = 0 ∨ t.cookedMatrix > u64Max / t.shape 2 then
      .error ⟨.limit, s!"tensor {nameText 80 t.name} cooked byte count overflows"⟩
    else .ok (t.cookedMatrix * t.shape 2)
  else .ok t.cookedMatrix

/-- `UINT16_MAX`, the rank of what is in no rank's output. -/
def noRank : UInt16 := 0xffff

def storageOf (t : TensorRecord) : Except Error (Option (Fin rankCount)) := do
  let expected ← expectedBytes t
  if t.bytes ≠ expected then
    .error ⟨.mismatch, s!"tensor {nameText 80 t.name} stores {t.bytes} bytes, expected {expected}"⟩
  else if t.offset > u64Max - t.bytes then
    .error ⟨.limit, s!"tensor {nameText 80 t.name} range overflows"⟩
  else if t.kind = tensorHostCache then
    if t.rank.toNat ≥ rankCount ∨ t.offset ≠ 0 then
      .error ⟨.format, s!"host tensor {nameText 80 t.name} has an invalid owner or offset"⟩
    else .ok none
  else if h : t.rank.toNat < rankCount then
    if t.kind = tensorNgram ∨ t.kind = tensorTokenizer then
      .error ⟨.format, s!"external tensor {nameText 80 t.name} has rank {t.rank}"⟩
    else if t.offset &&& (alignment - 1) ≠ 0 then
      .error ⟨.format, s!"rank tensor {nameText 80 t.name} is not 4 KiB aligned"⟩
    else .ok (some ⟨t.rank.toNat, h⟩)
  else if t.rank ≠ noRank ∨ ¬(t.kind = tensorNgram ∨ t.kind = tensorTokenizer) then
    .error ⟨.format, s!"tensor {nameText 80 t.name} has invalid rank {t.rank}"⟩
  else .ok none

/-! ## The check of a manifest -/

structure TensorRange where
  begin : UInt64
  stop : UInt64
  index : Fin maxTensors
  rank : Fin rankCount

/-- What the first loop has collected: `ranges`, `rank_counts` and `high_water`. -/
structure Inventory where
  ranges : List TensorRange
  counts : Fin rankCount → UInt32
  highWater : Fin rankCount → UInt64

def Inventory.empty : Inventory := ⟨[], fun _ => 0, fun _ => 0⟩

def Inventory.place (inventory : Inventory) (t : TensorRecord) (index : Fin maxTensors) (rank : Fin rankCount) :
    Except Error Inventory :=
  let stop := t.offset + t.bytes
  let aligned := alignUp stop alignment
  if aligned < stop then .error ⟨.limit, s!"tensor {nameText 80 t.name} aligned range overflows"⟩
  else .ok
    { ranges := inventory.ranges ++ [⟨t.offset, stop, index, rank⟩]
      counts := Function.update inventory.counts rank (inventory.counts rank + 1)
      highWater :=
        if aligned > inventory.highWater rank then Function.update inventory.highWater rank aligned
        else inventory.highWater }

/-- One turn of the first loop. -/
def Inventory.visit (m : Manifest) (inventory : Inventory) (index : Fin maxTensors) : Except Error Inventory := do
  match ← storageOf (m.tensors index) with
  | none => .ok inventory
  | some rank => inventory.place (m.tensors index) index rank

/-- The first loop, `n` turns from `i` on; the array has `FG_MAX_TENSORS` entries. -/
def takeInventory (m : Manifest) : Nat → Nat → Inventory → Except Halt Inventory
  | 0, _, inventory => .ok inventory
  | n + 1, i, inventory =>
    if h : i < maxTensors then
      match inventory.visit m ⟨i, h⟩ with
      | .error err => .error (.error err)
      | .ok next => takeInventory m n (i + 1) next
    else .error .overrun

/-- `tensor_range_compare`, as at most. -/
def TensorRange.le (a b : TensorRange) : Bool :=
  if a.rank ≠ b.rank then decide (a.rank < b.rank)
  else if a.begin ≠ b.begin then decide (a.begin < b.begin)
  else decide (a.index ≤ b.index)

def firstOverlap : List TensorRange → Option (TensorRange × TensorRange)
  | a :: b :: rest => if a.rank = b.rank ∧ b.begin < a.stop then some (a, b) else firstOverlap (b :: rest)
  | _ => none

def checkLedger (m : Manifest) (inventory : Inventory) (rank : Fin rankCount) : Except Error Unit :=
  let ledger := m.ranks rank
  refuse (ledger.tensorCount ≠ inventory.counts rank ∨ ledger.persistentBytes ≠ inventory.highWater rank)
    ⟨.mismatch, s!"rank {rank} inventory ledger is count={ledger.tensorCount} bytes={ledger.persistentBytes}, expected count={inventory.counts rank} bytes={inventory.highWater rank}"⟩

/-- What follows the first loop. -/
def Inventory.check (m : Manifest) (inventory : Inventory) : Except Error Unit :=
  match firstOverlap (inventory.ranges.mergeSort TensorRange.le) with
  | some (left, right) =>
    .error ⟨.mismatch, s!"rank tensor ranges overlap: {nameText 60 (m.tensors left.index).name} and {nameText 60 (m.tensors right.index).name}"⟩
  | none => (List.finRange rankCount).forM (checkLedger m inventory)

/-- `fg_manifest_validate_tensor_storage`. -/
def validateTensorStorage (m : Manifest) : Except Halt Unit :=
  match takeInventory m m.tensorCount.toNat 0 .empty with
  | .error halt => .error halt
  | .ok inventory =>
    match inventory.check m with
    | .error err => .error (.error err)
    | .ok () => .ok ()

theorem countElements_pos {elements total : UInt64} {widths : List UInt64} (hpos : elements ≠ 0)
    (h : countElements elements widths = some total) : total ≠ 0 := by
  induction widths generalizing elements with
  | nil => exact Option.some.inj h ▸ hpos
  | cons width rest ih =>
    rw [countElements] at h
    split at h
    · exact absurd h nofun
    next hfit =>
      obtain ⟨hwidth, hbound⟩ := not_or.mp hfit
      refine ih (mul_ne_zero_of_le hpos hwidth ?_) h
      exact UInt64.not_lt.mp hbound

theorem ggufTypeLayout_pos {type : UInt32} {block blockBytes : UInt64}
    (h : ggufTypeLayout type = some (block, blockBytes)) : block ≠ 0 ∧ blockBytes ≠ 0 := by
  unfold ggufTypeLayout at h
  split at h <;> simp only [Option.some.injEq, Prod.mk.injEq, reduceCtorEq] at h
  all_goals
    obtain ⟨rfl, rfl⟩ := h
    exact ⟨by decide, by decide⟩

theorem ggufTensorBytes_pos {type dims : UInt32} {shape : Fin 4 → UInt64} {bytes : UInt64}
    (h : ggufTensorBytes type dims shape = some bytes) : bytes ≠ 0 := by
  rw [ggufTensorBytes] at h
  split at h
  · exact absurd h nofun
  · obtain ⟨elements, helements, h⟩ := Option.bind_eq_some_iff.mp h
    obtain ⟨⟨block, blockBytes⟩, hlayout, h⟩ := Option.bind_eq_some_iff.mp h
    obtain ⟨hblock, hbytes⟩ := ggufTypeLayout_pos hlayout
    simp only at h
    split at h
    · exact absurd h nofun
    next hmod =>
      split at h
      · exact absurd h nofun
      next hfit =>
        rw [← Option.some.inj h]
        refine mul_ne_zero_of_le (fun hzero => ?_) hbytes (UInt64.not_lt.mp hfit)
        have hsplit := Nat.div_add_mod elements.toNat block.toNat
        rw [← UInt64.toNat_div, ← UInt64.toNat_mod, hzero, not_not.mp hmod] at hsplit
        exact countElements_pos (by decide) helements (UInt64.toNat_inj.mp (by simpa using hsplit.symm))

variable {t : TensorRecord}

theorem expectedBytes_pos {bytes : UInt64} (h : expectedBytes t = .ok bytes) : bytes ≠ 0 := by
  rw [expectedBytes] at h
  split at h
  · split at h
    · exact absurd h nofun
    · exact Except.ok.inj h ▸ ‹_›
  · split at h
    · split at h
      next hsome =>
        exact Except.ok.inj h ▸ ggufTensorBytes_pos hsome
      · exact absurd h nofun
    · split at h
      · exact absurd h nofun
      next hmatrix =>
        split at h
        · split at h
          · exact absurd h nofun
          next hfit =>
            obtain ⟨hcount, hbound⟩ := not_or.mp hfit
            exact Except.ok.inj h ▸ mul_ne_zero_of_le hmatrix hcount (UInt64.not_lt.mp hbound)
        · exact Except.ok.inj h ▸ hmatrix

/-! ## What the first loop collects -/

/-- The rank in whose output a record lies, as the loop sees it; `none` also where the record is refused. -/
def TensorRecord.placeOf (t : TensorRecord) : Option (Fin rankCount) :=
  match storageOf t with
  | .ok place => place
  | .error _ => none

def rangeOf (m : Manifest) (i : Fin maxTensors) : Option TensorRange :=
  (m.tensors i).placeOf.map fun rank =>
    ⟨(m.tensors i).offset, (m.tensors i).offset + (m.tensors i).bytes, i, rank⟩

def TensorRecord.Good (t : TensorRecord) : Prop :=
  ∃ place, storageOf t = .ok place ∧ (place ≠ none → t.offset + t.bytes ≤ alignUp (t.offset + t.bytes) alignment)

def Inventory.add (m : Manifest) (inventory : Inventory) (i : Fin maxTensors) : Inventory :=
  match (m.tensors i).placeOf with
  | none => inventory
  | some rank =>
    { ranges := inventory.ranges ++ (rangeOf m i).toList
      counts := Function.update inventory.counts rank (inventory.counts rank + 1)
      highWater :=
        let aligned := alignUp ((m.tensors i).offset + (m.tensors i).bytes) alignment
        if aligned > inventory.highWater rank then Function.update inventory.highWater rank aligned
        else inventory.highWater }

variable {m : Manifest}

theorem visit_eq_ok {inventory next : Inventory} {i : Fin maxTensors} :
    inventory.visit m i = .ok next ↔ (m.tensors i).Good ∧ next = inventory.add m i := by
  rw [Inventory.visit, TensorRecord.Good, Inventory.add]
  cases hplace : storageOf (m.tensors i) with
  | error err =>
    simp only [error_bind, reduceCtorEq, false_and, exists_false]
  | ok place =>
    have hof : (m.tensors i).placeOf = place := by rw [TensorRecord.placeOf, hplace]
    rw [ok_bind, rangeOf, hof]
    cases place with
    | none =>
      simp [eq_comm]
    | some rank =>
      simp only [Inventory.place, Option.map_some, Option.toList_some, Except.ok.injEq, exists_eq_left', ne_eq,
        reduceCtorEq, not_false_eq_true, forall_const]
      split
      next hlt =>
        exact ⟨nofun, fun h => absurd h.1 (UInt64.not_le.mpr hlt)⟩
      next hle =>
        rw [Except.ok.injEq]
        exact ⟨fun h => ⟨UInt64.not_lt.mp hle, h.symm⟩, fun h => h.2.symm⟩

theorem takeInventory_eq_ok {n i : Nat} {inventory final : Inventory} :
    takeInventory m n i inventory = .ok final ↔ (n = 0 ∨ i + n ≤ maxTensors) ∧
      (∀ index ∈ ((List.finRange maxTensors).drop i).take n, (m.tensors index).Good) ∧
        final = (((List.finRange maxTensors).drop i).take n).foldl (Inventory.add m) inventory := by
  induction n generalizing i inventory with
  | zero => simp [takeInventory, eq_comm]
  | succ n ih =>
    rw [takeInventory]
    by_cases hi : i < maxTensors
    · have hdrop : ((List.finRange maxTensors).drop i).take (n + 1) =
          ⟨i, hi⟩ :: ((List.finRange maxTensors).drop (i + 1)).take n := by
        rw [List.drop_eq_getElem_cons (by rwa [List.length_finRange]), List.take_succ_cons, List.getElem_finRange]
        rfl
      rw [dif_pos hi, hdrop, List.forall_mem_cons, List.foldl_cons]
      cases hvisit : inventory.visit m ⟨i, hi⟩ with
      | error err =>
        refine ⟨nofun, fun h => ?_⟩
        have hok : inventory.visit m ⟨i, hi⟩ = .ok (inventory.add m ⟨i, hi⟩) := visit_eq_ok.mpr ⟨h.2.1.1, rfl⟩
        rw [hvisit] at hok
        exact absurd hok nofun
      | ok next =>
        obtain ⟨hgood, hnext⟩ := visit_eq_ok.mp hvisit
        simp only
        rw [ih, ← hnext]
        constructor
        · rintro ⟨hfit, hrest, hfinal⟩
          exact ⟨.inr (by omega), ⟨hgood, hrest⟩, hfinal⟩
        · rintro ⟨hfit, ⟨-, hrest⟩, hfinal⟩
          exact ⟨by omega, hrest, hfinal⟩
    · rw [dif_neg hi]
      exact ⟨nofun, fun h => by omega⟩

section Collected

variable {m : Manifest} {indexes : List (Fin maxTensors)} {inventory : Inventory} {rank : Fin rankCount}

theorem foldl_ranges :
    (indexes.foldl (Inventory.add m) inventory).ranges = inventory.ranges ++ indexes.filterMap (rangeOf m) := by
  induction indexes generalizing inventory with
  | nil => simp
  | cons i rest ih =>
    rw [List.foldl_cons, ih, Inventory.add, List.filterMap_cons]
    cases hplace : (m.tensors i).placeOf with
    | none => simp [rangeOf, hplace]
    | some rank => simp [rangeOf, hplace]

def placedIn (m : Manifest) (rank : Fin rankCount) (i : Fin maxTensors) : Bool := (m.tensors i).placeOf = some rank

theorem foldl_counts :
    (indexes.foldl (Inventory.add m) inventory).counts rank =
      inventory.counts rank + UInt32.ofNat (indexes.filter (placedIn m rank)).length := by
  induction indexes generalizing inventory with
  | nil => simp
  | cons i rest ih =>
    rw [List.foldl_cons, ih, Inventory.add, List.filter_cons, placedIn]
    cases hplace : (m.tensors i).placeOf with
    | none => simp
    | some owner =>
      by_cases howner : owner = rank
      · subst howner
        simp only [Function.update_self, decide_true, if_true, List.length_cons]
        rw [UInt32.ofNat_add, UInt32.add_assoc, UInt32.add_comm 1]
        rfl
      · have hne : ¬(some owner = some rank) := fun h => howner (Option.some.inj h)
        simp only [Function.update_of_ne (Ne.symm howner), decide_eq_false hne, Bool.false_eq_true, if_false]

def alignedEnd (m : Manifest) (i : Fin maxTensors) : Nat :=
  (alignUp ((m.tensors i).offset + (m.tensors i).bytes) alignment).toNat

theorem foldl_highWater :
    ((indexes.foldl (Inventory.add m) inventory).highWater rank).toNat =
      ((indexes.filter (placedIn m rank)).map (alignedEnd m)).foldl max (inventory.highWater rank).toNat := by
  induction indexes generalizing inventory with
  | nil => rfl
  | cons i rest ih =>
    rw [List.foldl_cons, ih, Inventory.add, List.filter_cons, placedIn]
    cases hplace : (m.tensors i).placeOf with
    | none => simp
    | some owner =>
      by_cases howner : owner = rank
      · subst howner
        simp only [decide_true, if_true, List.map_cons, List.foldl_cons, alignedEnd]
        congr 1
        split
        next hgt =>
          rw [Function.update_self, max_eq_right (UInt64.lt_iff_toNat_lt.mp hgt).le]
        next hngt =>
          rw [max_eq_left (Nat.le_of_not_lt fun h => hngt (UInt64.lt_iff_toNat_lt.mpr h))]
      · have hne : ¬(some owner = some rank) := fun h => howner (Option.some.inj h)
        simp only [decide_eq_false hne, Bool.false_eq_true, if_false]
        congr 1
        split
        · rw [Function.update_of_ne (Ne.symm howner)]
        · rfl

end Collected

/-! ## The test of neighbours -/

open SortedRanges in
def rankExtent : Extent TensorRange (Fin rankCount) Nat :=
  ⟨TensorRange.rank, fun r => r.begin.toNat, fun r => r.stop.toNat⟩

theorem firstOverlap_eq_none {ranges : List TensorRange} :
    firstOverlap ranges = none ↔ ranges.IsChain (SortedRanges.Clear rankExtent) := by
  fun_induction firstOverlap ranges with
  | case1 a b rest hover =>
    rw [List.isChain_cons_cons]
    exact ⟨nofun, fun h => absurd (h.1 hover.1) (Nat.not_le.mpr (UInt64.lt_iff_toNat_lt.mp hover.2))⟩
  | case2 a b rest hclear ih =>
    rw [List.isChain_cons_cons, ih]
    refine ⟨fun h => ⟨fun howner => ?_, h⟩, fun h => h.2⟩
    exact Nat.le_of_not_lt fun hlt => hclear ⟨howner, UInt64.lt_iff_toNat_lt.mpr hlt⟩
  | case3 ranges hshort =>
    match ranges with
    | [] => simp
    | [a] => simp
    | a :: b :: rest => exact absurd rfl (hshort a b rest)

theorem TensorRange.le_iff {a b : TensorRange} :
    a.le b = true ↔ a.rank < b.rank ∨ (a.rank = b.rank ∧
      (a.begin.toNat < b.begin.toNat ∨ (a.begin.toNat = b.begin.toNat ∧ a.index ≤ b.index))) := by
  rw [TensorRange.le]
  by_cases hrank : a.rank = b.rank
  · by_cases hbegin : a.begin = b.begin
    · simp [hrank, hbegin]
    · have hne : a.begin.toNat ≠ b.begin.toNat := fun h => hbegin (UInt64.toNat_inj.mp h)
      simp [hrank, hbegin, hne, UInt64.lt_iff_toNat_lt]
  · simp [hrank]

theorem sorted_ranges (ranges : List TensorRange) :
    (ranges.mergeSort TensorRange.le).Pairwise (SortedRanges.InOrder rankExtent) := by
  have htrans (a b c : TensorRange) (hab : a.le b = true) (hbc : b.le c = true) : a.le c = true := by
    rw [TensorRange.le_iff] at hab hbc ⊢
    omega
  have htotal (a b : TensorRange) : (a.le b || b.le a) = true := by
    rw [Bool.or_eq_true, TensorRange.le_iff, TensorRange.le_iff]
    omega
  refine (List.pairwise_mergeSort htrans htotal ranges).imp fun {a b} h => ?_
  rcases TensorRange.le_iff.mp h with hlt | ⟨heq, hbegin⟩
  · exact .inl hlt
  · exact .inr ⟨heq, hbegin.elim Nat.le_of_lt fun h => h.1.le⟩

theorem check_eq_ok {inventory : Inventory}
    (hfull : ∀ range ∈ inventory.ranges, range.begin.toNat < range.stop.toNat) :
    inventory.check m = .ok () ↔ inventory.ranges.Pairwise (SortedRanges.Apart rankExtent) ∧
      ∀ rank, (m.ranks rank).tensorCount = inventory.counts rank ∧
        (m.ranks rank).persistentBytes = inventory.highWater rank := by
  rw [← SortedRanges.neighbours_iff (List.mergeSort_perm _ TensorRange.le) hfull (sorted_ranges _),
    ← firstOverlap_eq_none, Inventory.check]
  cases firstOverlap (inventory.ranges.mergeSort TensorRange.le) with
  | some pair => exact ⟨nofun, fun h => nomatch h.1⟩
  | none =>
    simp only [forM_eq_ok, List.mem_finRange, forall_const, true_and, checkLedger, refuse_eq_ok, not_or, not_not, ne_eq]

/-! ## What a record that is accepted keeps -/

def TensorRecord.InRank (t : TensorRecord) (rank : Fin rankCount) : Prop :=
  t.rank.toNat = rank ∧ t.kind ≠ tensorHostCache ∧ t.kind ≠ tensorNgram ∧ t.kind ≠ tensorTokenizer

instance (t : TensorRecord) (rank : Fin rankCount) : Decidable (t.InRank rank) :=
  inferInstanceAs (Decidable (_ ∧ _))

/-- Where the bytes of a record begin and end. -/
def TensorRecord.first (t : TensorRecord) : Nat := t.offset.toNat

def TensorRecord.stop (t : TensorRecord) : Nat := t.offset.toNat + t.bytes.toNat

theorem aligned_iff {x : UInt64} : x &&& (alignment - 1) = 0 ↔ x.toNat % 4096 = 0 := by
  rw [← UInt64.toNat_inj, UInt64.toNat_and]
  have hmask : (alignment - 1).toNat = 2 ^ 12 - 1 := by decide
  rw [hmask, Nat.and_two_pow_sub_one_eq_mod]
  exact Iff.rfl

variable {rank : Fin rankCount}

theorem storageOf_eq_some :
    storageOf t = .ok (some rank) ↔
      expectedBytes t = .ok t.bytes ∧ t.offset ≤ u64Max - t.bytes ∧ t.InRank rank ∧ t.first % 4096 = 0 := by
  rw [storageOf]
  cases hexpected : expectedBytes t with
  | error err => exact ⟨nofun, fun h => nomatch h.1⟩
  | ok expected =>
    rw [ok_bind, Except.ok.injEq, TensorRecord.InRank, TensorRecord.first, ← aligned_iff]
    split
    case isTrue hbytes => exact ⟨nofun, fun h => absurd h.1.symm hbytes⟩
    case isFalse hbytes =>
      have hbytes' : expected = t.bytes := (not_not.mp hbytes).symm
      split
      case isTrue hwrap => exact ⟨nofun, fun h => absurd hwrap (UInt64.not_lt.mpr h.2.1)⟩
      case isFalse hwrap =>
        split
        case isTrue hhost =>
          refine ⟨fun h => ?_, fun h => absurd hhost h.2.2.1.2.1⟩
          split at h <;> cases h
        case isFalse hhost =>
          split
          case isTrue hrank =>
            split
            case isTrue hexternal =>
              exact ⟨nofun, fun h => (hexternal.elim h.2.2.1.2.2.1 h.2.2.1.2.2.2).elim⟩
            case isFalse hexternal =>
              split
              case isTrue haligned => exact ⟨nofun, fun h => absurd h.2.2.2 haligned⟩
              case isFalse haligned =>
                rw [Except.ok.injEq, Option.some.injEq, Fin.ext_iff]
                exact ⟨fun h => ⟨hbytes', UInt64.not_lt.mp hwrap, ⟨h, hhost, not_or.mp hexternal⟩,
                  not_not.mp haligned⟩, fun h => h.2.2.1.1⟩
          case isFalse hrank =>
            refine ⟨fun h => ?_, fun h => absurd (h.2.2.1.1 ▸ rank.isLt) hrank⟩
            split at h <;> cases h

theorem storageOf_eq_none (h : storageOf t = .ok none) (rank : Fin rankCount) : ¬ t.InRank rank := by
  intro hin
  rw [storageOf] at h
  cases hexpected : expectedBytes t with
  | error err => rw [hexpected] at h; cases h
  | ok expected =>
    have hrank : t.rank.toNat < rankCount := hin.1 ▸ rank.isLt
    rw [hexpected, ok_bind] at h
    split at h
    · cases h
    · split at h
      · cases h
      · split at h
        · exact hin.2.1 ‹_›
        · split at h
          · cases h
          · split at h <;> cases h

/-- Up to the next multiple of `FG_ALIGNMENT`. -/
def roundUp (n : Nat) : Nat := (n + 4095) / 4096 * 4096

theorem roundUp_mono {a b : Nat} (h : a ≤ b) : roundUp a ≤ roundUp b :=
  Nat.mul_le_mul_right _ (Nat.div_le_div_right (Nat.add_le_add_right h 4095))

theorem le_roundUp (n : Nat) : n ≤ roundUp n := by
  rw [roundUp]
  omega

theorem toNat_alignUp_of_le {x : UInt64} (h : x ≤ alignUp x alignment) :
    (alignUp x alignment).toNat = roundUp x.toNat := by
  by_cases hfit : x.toNat + 2 ^ 12 ≤ 2 ^ 64
  · exact toNat_alignUp (k := 12) (by decide) hfit
  · have hlt := x.toNat_lt
    have hsum : (x + alignment - 1).toNat = x.toNat + 4095 - 2 ^ 64 := by
      have hbig : x + alignment - 1 = x + (alignment - 1) := by
        rw [UInt64.sub_eq_add_neg, UInt64.sub_eq_add_neg, UInt64.add_assoc]
      have hmask : (alignment - 1).toNat = 4095 := by decide
      rw [hbig, UInt64.toNat_add, hmask]
      omega
    have hvalue : (alignUp x alignment).toNat = (x.toNat + 4095 - 2 ^ 64) / 2 ^ 12 * 2 ^ 12 := by
      rw [alignUp, toNat_mask (k := 12) (by decide), hsum]
    have hle := UInt64.le_iff_toNat_le.mp h
    omega

structure TensorRecord.Sound (t : TensorRecord) (rank : Fin rankCount) : Prop where
  bytes : expectedBytes t = .ok t.bytes
  fits : roundUp t.stop < 2 ^ 64
  inRank : t.InRank rank
  aligned : t.first % 4096 = 0

namespace TensorRecord.Sound

variable {t : TensorRecord} {rank : Fin rankCount}

theorem stop_eq (h : t.Sound rank) : (t.offset + t.bytes).toNat = t.stop := by
  have hle := le_roundUp t.stop
  have hfit := h.fits
  rw [UInt64.toNat_add, TensorRecord.stop] at *
  exact Nat.mod_eq_of_lt (by omega)

theorem full (h : t.Sound rank) : t.first < t.stop := by
  have hpos : t.bytes.toNat ≠ 0 := fun hzero => expectedBytes_pos h.bytes (UInt64.toNat_inj.mp hzero)
  rw [TensorRecord.first, TensorRecord.stop]
  omega

theorem alignUp_eq (h : t.Sound rank) : (alignUp (t.offset + t.bytes) alignment).toNat = roundUp t.stop := by
  rw [← h.stop_eq]
  have hfit := h.fits
  rw [← h.stop_eq, roundUp] at hfit
  exact toNat_alignUp (k := 12) (by decide) (by omega)

end TensorRecord.Sound

theorem sound_iff : t.Sound rank ↔ t.Good ∧ t.placeOf = some rank := by
  constructor
  · intro h
    have hle := le_roundUp t.stop
    have hfit := h.fits
    have hstop : t.offset.toNat + t.bytes.toNat = t.stop := rfl
    have hmax : u64Max.toNat = 2 ^ 64 - 1 := by decide
    have hoffset : t.offset ≤ u64Max - t.bytes := by
      rw [UInt64.le_iff_toNat_le, UInt64.toNat_sub_of_le _ _ (UInt64.le_iff_toNat_le.mpr (by omega)), hmax]
      omega
    have hplace : storageOf t = .ok (some rank) := storageOf_eq_some.mpr ⟨h.bytes, hoffset, h.inRank, h.aligned⟩
    refine ⟨⟨some rank, hplace, fun _ => ?_⟩, by rw [TensorRecord.placeOf, hplace]⟩
    rw [UInt64.le_iff_toNat_le, h.alignUp_eq, h.stop_eq]
    exact hle
  · rintro ⟨⟨place, hplace, hfit⟩, hof⟩
    rw [TensorRecord.placeOf, hplace] at hof
    subst hof
    obtain ⟨hbytes, hoffset, hin, haligned⟩ := storageOf_eq_some.mp hplace
    have hle := hfit nofun
    have hmax : u64Max.toNat = 2 ^ 64 - 1 := by decide
    have hsum : t.offset.toNat + t.bytes.toNat < 2 ^ 64 := by
      have hbytes := t.bytes.toNat_lt
      rw [UInt64.le_iff_toNat_le, UInt64.toNat_sub_of_le _ _ (UInt64.le_iff_toNat_le.mpr (by omega)), hmax] at hoffset
      omega
    have hstop : (t.offset + t.bytes).toNat = t.stop := by
      rw [UInt64.toNat_add]
      exact Nat.mod_eq_of_lt hsum
    refine ⟨hbytes, ?_, hin, haligned⟩
    rw [← hstop, ← toNat_alignUp_of_le hle]
    exact UInt64.toNat_lt _

theorem rangeOf_sound {i : Fin maxTensors} (h : (m.tensors i).Sound rank) :
    rangeOf m i = some ⟨(m.tensors i).offset, (m.tensors i).offset + (m.tensors i).bytes, i, rank⟩ := by
  rw [rangeOf, (sound_iff.mp h).2, Option.map_some]

theorem placeOf_iff (h : t.Good) : t.placeOf = some rank ↔ t.InRank rank := by
  refine ⟨fun hof => (sound_iff.mpr ⟨h, hof⟩).inRank, fun hin => ?_⟩
  obtain ⟨place, hplace, -⟩ := h
  rw [TensorRecord.placeOf, hplace]
  cases place with
  | none => exact absurd hin (storageOf_eq_none hplace rank)
  | some owner =>
    obtain ⟨-, -, howner, -⟩ := storageOf_eq_some.mp hplace
    exact congrArg some (Fin.ext (howner.1.symm.trans hin.1))

/-! ## What a manifest that is accepted keeps -/

def Manifest.inRank (m : Manifest) (rank : Fin FlashGordon.rankCount) : List (Fin maxTensors) :=
  m.tensorIndexes.filter fun i => (m.tensors i).InRank rank

def Manifest.lastEnd (m : Manifest) (rank : Fin FlashGordon.rankCount) : Nat :=
  ((m.inRank rank).map fun i => (m.tensors i).stop).foldl max 0

/-- The two tensors share no byte. -/
def Manifest.Apart (m : Manifest) (i j : Fin maxTensors) : Prop :=
  (m.tensors i).stop ≤ (m.tensors j).first ∨ (m.tensors j).stop ≤ (m.tensors i).first

structure Manifest.Stored (m : Manifest) (rank : Fin FlashGordon.rankCount) : Prop where
  apart : ∀ i ∈ m.inRank rank, ∀ j ∈ m.inRank rank, i ≠ j → m.Apart i j
  aligned : ∀ i ∈ m.inRank rank, (m.tensors i).first % 4096 = 0
  within : ∀ i ∈ m.inRank rank, (m.tensors i).stop ≤ (m.ranks rank).persistentBytes.toNat
  count : (m.ranks rank).tensorCount.toNat = (m.inRank rank).length
  top : (m.ranks rank).persistentBytes.toNat = roundUp (m.lastEnd rank)

theorem foldl_max_roundUp (ends : List Nat) (start : Nat) :
    (ends.map roundUp).foldl max (roundUp start) = roundUp (ends.foldl max start) := by
  induction ends generalizing start with
  | nil => rfl
  | cons e rest ih =>
    have hmax : max (roundUp start) (roundUp e) = roundUp (max start e) := by
      rcases Nat.le_total start e with h | h
      · rw [max_eq_right h, max_eq_right (roundUp_mono h)]
      · rw [max_eq_left h, max_eq_left (roundUp_mono h)]
    rw [List.map_cons, List.foldl_cons, List.foldl_cons, hmax, ih]

theorem le_foldl_max {ends : List Nat} {start : Nat} : start ≤ ends.foldl max start ∧
    ∀ e ∈ ends, e ≤ ends.foldl max start := by
  induction ends generalizing start with
  | nil => exact ⟨le_rfl, fun e he => absurd he List.not_mem_nil⟩
  | cons e rest ih =>
    obtain ⟨hstart, hrest⟩ := @ih (max start e)
    refine ⟨(le_max_left _ _).trans hstart, List.forall_mem_cons.mpr ⟨(le_max_right _ _).trans hstart, hrest⟩⟩

theorem nodup_tensorIndexes (m : Manifest) : m.tensorIndexes.Nodup :=
  (List.nodup_finRange _).sublist (List.take_sublist _ _)

theorem length_tensorIndexes (m : Manifest) : m.tensorIndexes.length ≤ maxTensors := by
  rw [Manifest.tensorIndexes, List.length_take, List.length_finRange]
  exact Nat.min_le_right _ _

section Accepted

variable {m : Manifest}

def Manifest.inventory (m : Manifest) : Inventory := m.tensorIndexes.foldl (Inventory.add m) .empty

theorem validate_eq_ok : validateTensorStorage m = .ok () ↔ m.tensorCount.toNat ≤ maxTensors ∧
    (∀ i ∈ m.tensorIndexes, (m.tensors i).Good) ∧ m.inventory.check m = .ok () := by
  have htake (inventory : Inventory) : takeInventory m m.tensorCount.toNat 0 .empty = .ok inventory ↔
      m.tensorCount.toNat ≤ maxTensors ∧ (∀ i ∈ m.tensorIndexes, (m.tensors i).Good) ∧ inventory = m.inventory := by
    rw [takeInventory_eq_ok, List.drop_zero, Nat.zero_add]
    refine and_congr_left fun _ => ⟨fun h => h.elim (fun h0 => h0 ▸ Nat.zero_le _) id, .inr⟩
  rw [validateTensorStorage]
  cases hinventory : takeInventory m m.tensorCount.toNat 0 .empty with
  | error halt =>
    refine ⟨nofun, fun h => ?_⟩
    have hok := (htake m.inventory).mpr ⟨h.1, h.2.1, rfl⟩
    rw [hinventory] at hok
    cases hok
  | ok inventory =>
    obtain ⟨hcount, hgood, heq⟩ := (htake inventory).mp hinventory
    subst heq
    simp only
    cases m.inventory.check m with
    | error err => exact ⟨nofun, fun h => nomatch h.2.2⟩
    | ok _ => exact ⟨fun _ => ⟨hcount, hgood, rfl⟩, fun _ => rfl⟩

variable (hgood : ∀ i ∈ m.tensorIndexes, (m.tensors i).Good)
include hgood

theorem mem_inRank {i : Fin maxTensors} : i ∈ m.inRank rank ↔ i ∈ m.tensorIndexes ∧ (m.tensors i).Sound rank := by
  rw [Manifest.inRank, List.mem_filter, decide_eq_true_eq]
  refine and_congr_right fun hi => ?_
  rw [← placeOf_iff (hgood i hi), sound_iff]
  exact ⟨fun h => ⟨hgood i hi, h⟩, fun h => h.2⟩

theorem filter_placedIn (rank : Fin rankCount) : m.tensorIndexes.filter (placedIn m rank) = m.inRank rank := by
  refine List.filter_congr fun i hi => ?_
  rw [placedIn, decide_eq_decide]
  exact placeOf_iff (hgood i hi)

theorem mem_ranges {range : TensorRange} : range ∈ m.inventory.ranges ↔
    ∃ i ∈ m.tensorIndexes, (m.tensors i).Sound range.rank ∧ range.index = i ∧ range.begin = (m.tensors i).offset ∧
      range.stop = (m.tensors i).offset + (m.tensors i).bytes := by
  rw [Manifest.inventory, foldl_ranges]
  simp only [Inventory.empty, List.nil_append, List.mem_filterMap]
  refine exists_congr fun i => and_congr_right fun hi => ?_
  rw [rangeOf, Option.map_eq_some_iff]
  constructor
  · rintro ⟨rank, hplace, rfl⟩
    exact ⟨sound_iff.mpr ⟨hgood i hi, hplace⟩, rfl, rfl, rfl⟩
  · rintro ⟨hsound, rfl, hbegin, hstop⟩
    refine ⟨range.rank, (sound_iff.mp hsound).2, ?_⟩
    cases range
    simp_all

theorem ranges_apart_iff : m.inventory.ranges.Pairwise (SortedRanges.Apart rankExtent) ↔
    ∀ rank, ∀ i ∈ m.inRank rank, ∀ j ∈ m.inRank rank, i ≠ j → m.Apart i j := by
  rw [Manifest.inventory, foldl_ranges]
  simp only [Inventory.empty, List.nil_append]
  rw [List.pairwise_filterMap]
  have hpair (i j : Fin maxTensors) (hi : i ∈ m.tensorIndexes) (hj : j ∈ m.tensorIndexes) :
      (∀ a, rangeOf m i = some a → ∀ b, rangeOf m j = some b → SortedRanges.Apart rankExtent a b) ↔
        ∀ rank, (m.tensors i).Sound rank → (m.tensors j).Sound rank → m.Apart i j := by
    constructor
    · intro h rank hsi hsj
      have hapart := h _ (rangeOf_sound hsi) _ (rangeOf_sound hsj) rfl
      simp only [rankExtent, hsi.stop_eq, hsj.stop_eq] at hapart
      exact hapart
    · intro h a ha b hb howner
      obtain ⟨rank, hplace, rfl⟩ := Option.map_eq_some_iff.mp ha
      obtain ⟨rank', hplace', rfl⟩ := Option.map_eq_some_iff.mp hb
      have hrank : rank = rank' := howner
      subst hrank
      have hsi := sound_iff.mpr ⟨hgood i hi, hplace⟩
      have hsj := sound_iff.mpr ⟨hgood j hj, hplace'⟩
      have hapart := h rank hsi hsj
      simp only [rankExtent, hsi.stop_eq, hsj.stop_eq]
      exact hapart
  constructor
  · intro h rank i hi j hj hne
    obtain ⟨hi, hsi⟩ := (mem_inRank hgood).mp hi
    obtain ⟨hj, hsj⟩ := (mem_inRank hgood).mp hj
    have hsymm : Std.Symm fun i j =>
        ∀ a, rangeOf m i = some a → ∀ b, rangeOf m j = some b → SortedRanges.Apart rankExtent a b :=
      ⟨fun i j h a ha b hb => (h b hb a ha).symm⟩
    exact (hpair i j hi hj).mp (h.forall hi hj hne) rank hsi hsj
  · intro h
    refine (nodup_tensorIndexes m).pairwise_of_forall_ne fun i hi j hj hne => (hpair i j hi hj).mpr ?_
    exact fun rank hsi hsj => h rank i ((mem_inRank hgood).mpr ⟨hi, hsi⟩) j ((mem_inRank hgood).mpr ⟨hj, hsj⟩) hne

theorem inventory_counts (rank : Fin rankCount) : (m.inventory.counts rank).toNat = (m.inRank rank).length := by
  have hle : (m.inRank rank).length ≤ maxTensors := (List.length_filter_le ..).trans (length_tensorIndexes m)
  rw [Manifest.inventory, foldl_counts, filter_placedIn hgood]
  simp only [Inventory.empty, UInt32.zero_add, UInt32.toNat_ofNat']
  exact Nat.mod_eq_of_lt (Nat.lt_of_le_of_lt hle (by decide))

theorem inventory_highWater (rank : Fin rankCount) : (m.inventory.highWater rank).toNat = roundUp (m.lastEnd rank) := by
  have hmap : (m.inRank rank).map (alignedEnd m) = ((m.inRank rank).map fun i => (m.tensors i).stop).map roundUp := by
    rw [List.map_map]
    exact List.map_congr_left fun i hi => ((mem_inRank hgood).mp hi).2.alignUp_eq
  rw [Manifest.inventory, foldl_highWater, filter_placedIn hgood, hmap, Manifest.lastEnd, ← foldl_max_roundUp]
  rfl

end Accepted

theorem validateTensorStorage_iff : validateTensorStorage m = .ok () ↔
    m.tensorCount.toNat ≤ maxTensors ∧ (∀ i ∈ m.tensorIndexes, (m.tensors i).Good) ∧ ∀ rank, m.Stored rank := by
  rw [validate_eq_ok]
  refine and_congr_right fun _ => and_congr_right fun hgood => ?_
  have hfull : ∀ range ∈ m.inventory.ranges, range.begin.toNat < range.stop.toNat := by
    intro range hrange
    obtain ⟨i, -, hsound, -, hbegin, hstop⟩ := (mem_ranges hgood).mp hrange
    rw [hbegin, hstop, hsound.stop_eq]
    exact hsound.full
  rw [check_eq_ok hfull, ranges_apart_iff hgood]
  constructor
  · rintro ⟨hapart, hledger⟩ rank
    obtain ⟨hcount, hbytes⟩ := hledger rank
    have htop : (m.ranks rank).persistentBytes.toNat = roundUp (m.lastEnd rank) := by
      rw [hbytes, inventory_highWater hgood]
    refine ⟨hapart rank, fun i hi => ((mem_inRank hgood).mp hi).2.aligned, fun i hi => ?_, ?_, htop⟩
    · rw [htop]
      have hend : (m.tensors i).stop ∈ (m.inRank rank).map fun i => (m.tensors i).stop := List.mem_map_of_mem hi
      exact (le_foldl_max.2 _ hend).trans (le_roundUp _)
    · rw [hcount, inventory_counts hgood]
  · intro hstored
    refine ⟨fun rank => (hstored rank).apart, fun rank => ⟨?_, ?_⟩⟩
    · rw [← UInt32.toNat_inj, inventory_counts hgood, (hstored rank).count]
    · rw [← UInt64.toNat_inj, inventory_highWater hgood, (hstored rank).top]

theorem takeInventory_ne_overrun {n i : Nat} {inventory : Inventory} (hfit : i + n ≤ maxTensors) :
    takeInventory m n i inventory ≠ .error .overrun := by
  induction n generalizing i inventory with
  | zero => exact nofun
  | succ n ih =>
    rw [takeInventory, dif_pos (by omega)]
    split
    · exact nofun
    · exact ih (by omega)

theorem validate_ne_overrun (hfit : m.tensorCount.toNat ≤ maxTensors) : validateTensorStorage m ≠ .error .overrun := by
  have htake := @takeInventory_ne_overrun m m.tensorCount.toNat 0 .empty (by omega)
  rw [validateTensorStorage]
  split
  next halt heq =>
    exact fun h => htake (heq.trans (congrArg _ (Except.error.inj h)))
  · split <;> exact nofun

/-- Storage validation is sound: what is accepted is stored in every rank, and a manifest in which two tensors in
the output of a rank share a byte is rejected. -/
theorem validateTensorStorage_sound (m : Manifest) :
    (validateTensorStorage m = .ok () → ∀ rank, m.Stored rank) ∧
      ∀ rank, ∀ i ∈ m.inRank rank, ∀ j ∈ m.inRank rank, i ≠ j → ¬ m.Apart i j → m.tensorCount.toNat ≤ maxTensors →
        ∃ err, validateTensorStorage m = .error (.error err) := by
  refine ⟨fun h => (validateTensorStorage_iff.mp h).2.2, fun rank i hi j hj hne hover hfit => ?_⟩
  cases hresult : validateTensorStorage m with
  | ok _ => exact absurd (((validateTensorStorage_iff.mp hresult).2.2 rank).apart i hi j hj hne) hover
  | error halt =>
    cases halt with
    | error err => exact ⟨err, rfl⟩
    | overrun => exact absurd hresult (validate_ne_overrun hfit)

def hostRecord : TensorRecord where
  name := Vector.replicate 96 0
  offset := 0
  bytes := 64
  ggmlType := 24
  dims := 1
  shape := fun _ => 64
  rank := 0
  layer := 0
  expert := 0
  kind := tensorHostCache
  layout := layoutGgml
  reserved := Vector.replicate 4 0
  sha256 := zeroDigest
  padding := Vector.replicate 4 0

def hostManifest : Manifest :=
  { fullManifest with
    tensorCount := 2
    tensors := fun _ => hostRecord
    ranks := fun rank => { fullRank rank with persistentBytes := 0 } }

/-- Host caches are outside of the output of their rank: they all begin at zero, and none is counted. -/
theorem hostManifest_overlaps : validateTensorStorage hostManifest = .ok () ∧
    ∃ i j : Fin maxTensors, i ≠ j ∧ i.val < hostManifest.tensorCount.toNat ∧ j.val < hostManifest.tensorCount.toNat ∧
      (∀ k ∈ [i, j], (hostManifest.tensors k).rank = 0 ∧ (hostManifest.tensors k).kind ≠ tensorNgram ∧
        (hostManifest.tensors k).kind ≠ tensorTokenizer) ∧ ¬ hostManifest.Apart i j := by
  have hrecord (i : Fin maxTensors) : hostManifest.tensors i = hostRecord := rfl
  have hgood : hostRecord.Good := ⟨none, by rfl, fun h => absurd rfl h⟩
  have hnone (rank : Fin rankCount) : hostManifest.inRank rank = [] := by
    rw [Manifest.inRank, List.filter_eq_nil_iff]
    intro i _
    rw [hrecord, decide_eq_true_eq]
    exact fun h => h.2.1 rfl
  refine ⟨validateTensorStorage_iff.mpr ⟨by decide, fun i _ => hrecord i ▸ hgood, fun rank => ?_⟩, ?_⟩
  · have hend : hostManifest.lastEnd rank = 0 := by
      rw [Manifest.lastEnd, hnone]
      rfl
    refine ⟨?_, ?_, ?_, ?_, ?_⟩
    · simp [hnone]
    · simp [hnone]
    · simp [hnone]
    · rw [hnone]
      rfl
    · rw [hend]
      rfl
  · refine ⟨⟨0, by decide⟩, ⟨1, by decide⟩, by decide, by decide, by decide, ?_, ?_⟩
    · simp only [hrecord, List.forall_mem_cons]
      refine ⟨by decide, by decide, fun k hk => absurd hk List.not_mem_nil⟩
    · rw [Manifest.Apart, hrecord, hrecord]
      decide

end FlashGordon.SealedManifest
