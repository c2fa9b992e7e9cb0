import FlashGordon.Align
import FlashGordon.TileCopies
import Mathlib.Tactic.Ring

/-!
The cooked weight layouts of `quant.c`. Every cook function walks over the rows of a matrix and the blocks of a
row, and copies the fields of a block into the tile of its row; the offsets are 64-bit words. For the sizes the
byte-size functions accept no offset wraps, so the copies are those of a tiling.
-/

namespace FlashGordon.Cooked

open SealedManifest TileCopies

/-- `memcpy` at 64-bit offsets. -/
def copyAt (dst src : UInt64) (len : Nat) : Copy := ⟨dst.toNat, src.toNat, len⟩

def q8QuantOffset (width : UInt32) : UInt64 := alignUp (16 * (width / 32).toUInt64 * 2) 64

/-- The copies of `fg_cook_q8_0_rows` for one block. -/
def q8Block (width : UInt32) (row block : Nat) : List Copy :=
  let blocks := (width / 32).toUInt64
  let src := (.ofNat row * blocks + .ofNat block) * 34
  let dst := .ofNat (row / 16) * q8CookedTileBytes width.toUInt64
  let tileRow := .ofNat (row % 16)
  [copyAt (dst + (.ofNat block * 16 + tileRow) * 2) src 2,
    copyAt (dst + q8QuantOffset width + (tileRow * blocks + .ofNat block) * 32) (src + 2) 32]

def overBlocks (rows blocks : UInt32) (body : Nat → Nat → List Copy) : List Copy :=
  (List.range rows.toNat).flatMap fun row => (List.range blocks.toNat).flatMap (body row)

/-- `fg_cook_q8_0_rows`; nothing is written where it refuses. -/
def cookQ8Rows (source out : Nat → UInt8) (outputBytes : UInt64) (width rows : UInt32) : Option (Nat → UInt8) :=
  let required := q8CookedMatrixBytes width.toUInt64 rows.toUInt64
  if q8CookedTileBytes width.toUInt64 = 0 ∨ required = 0 ∨ outputBytes < required then none
  else
    let cleared := fun p => if p < required.toNat then 0 else out p
    some (run (overBlocks rows (width / 32) (q8Block width)) source cleared)

/-- The copies of `fg_uncook_q8_0_rows` for one block. -/
def q8Unblock (width : UInt32) (row block : Nat) : List Copy :=
  let blocks := (width / 32).toUInt64
  let src := .ofNat (row / 16) * q8CookedTileBytes width.toUInt64
  let tileRow := .ofNat (row % 16)
  let dst := (.ofNat row * blocks + .ofNat block) * 34
  [copyAt dst (src + (.ofNat block * 16 + tileRow) * 2) 2,
    copyAt (dst + 2) (src + q8QuantOffset width + (tileRow * blocks + .ofNat block) * 32) 32]

/-- `fg_uncook_q8_0_rows`. -/
def uncookQ8Rows (source out : Nat → UInt8) (outputBytes : UInt64) (width rows : UInt32) : Option (Nat → UInt8) :=
  let required := (width / 32).toUInt64 * 34 * rows.toUInt64
  if q8CookedTileBytes width.toUInt64 = 0 ∨ q8CookedMatrixBytes width.toUInt64 rows.toUInt64 = 0 ∨
      outputBytes < required then none
  else some (run (overBlocks rows (width / 32) (q8Unblock width)) source out)

def q51Block (width : UInt32) (row block : Nat) : List Copy :=
  let src := (.ofNat row * (width / 32).toUInt64 + .ofNat block) * 24
  let blockBase := .ofNat (row / 16) * q51CookedTileBytes width.toUInt64 + .ofNat block * 16 * 24
  let tileRow := .ofNat (row % 16)
  [copyAt (blockBase + tileRow * 4) src 4, copyAt (blockBase + 16 * 4 + tileRow * 4) (src + 4) 4,
    copyAt (blockBase + 16 * 8 + tileRow * 16) (src + 8) 16]

/-- `fg_cook_q5_1_rows`. -/
def cookQ51Rows (source out : Nat → UInt8) (outputBytes : UInt64) (width rows : UInt32) : Option (Nat → UInt8) :=
  let required := q51CookedMatrixBytes width.toUInt64 rows.toUInt64
  if q51CookedTileBytes width.toUInt64 = 0 ∨ required = 0 ∨ outputBytes < required then none
  else some (run (overBlocks rows (width / 32) (q51Block width)) source out)

def kQuantBlock (width : UInt32) (ggmlType : UInt32) (row block : Nat) : List Copy :=
  let blockBytes := kQuantBlockBytes ggmlType
  let src := (.ofNat row * (width / 256).toUInt64 + .ofNat block) * blockBytes
  let blockBase := .ofNat (row / 8) * kQuantCookedTileBytes width.toUInt64 ggmlType + .ofNat block * 8 * blockBytes
  let tileRow := .ofNat (row % 8)
  copyAt (blockBase + tileRow * 4) src 4 :: copyAt (blockBase + 8 * 4 + tileRow * 12) (src + 4) 12 ::
    if ggmlType = 13 then
      [copyAt (blockBase + 8 * 16 + tileRow * 32) (src + 16) 32, copyAt (blockBase + 8 * 48 + tileRow * 128) (src + 48) 128]
    else [copyAt (blockBase + 8 * 16 + tileRow * 128) (src + 16) 128]

/-- `fg_cook_k_quant_rows`. -/
def cookKQuantRows (source out : Nat → UInt8) (outputBytes : UInt64) (width rows ggmlType : UInt32) :
    Option (Nat → UInt8) :=
  let required := kQuantCookedMatrixBytes width.toUInt64 rows.toUInt64 ggmlType
  if kQuantBlockBytes ggmlType = 0 ∨ kQuantCookedTileBytes width.toUInt64 ggmlType = 0 ∨ required = 0 ∨
      outputBytes < required then none
  else some (run (overBlocks rows (width / 256) (kQuantBlock width ggmlType)) source out)

/-! ## Words that do not wrap -/

theorem copyAt_ofNat {dst src len : Nat} (hdst : dst < 2 ^ 64) (hsrc : src < 2 ^ 64) :
    copyAt (.ofNat dst) (.ofNat src) len = ⟨dst, src, len⟩ := by
  rw [copyAt, UInt64.toNat_ofNat_of_lt' hdst, UInt64.toNat_ofNat_of_lt' hsrc]

theorem overBlocks_eq {rows blocks : UInt32} {body : Nat → Nat → List Copy} {t : Tiling}
    (hblocks : t.blocks = blocks.toNat)
    (hbody : ∀ row < rows.toNat, ∀ block < t.blocks, body row block = t.fields.map (t.copyOf row block)) :
    overBlocks rows blocks body = t.copies rows.toNat := by
  rw [overBlocks, Tiling.copies, ← hblocks]
  refine List.flatMap_congr fun row hrow => List.flatMap_congr fun block hblock => ?_
  exact hbody row (List.mem_range.mp hrow) block (List.mem_range.mp hblock)

/-- A tiling of so many rows whose bytes, cooked and plain, are counted by 64-bit words. -/
structure Sized (t : Tiling) (rows : Nat) (required : UInt64) : Prop extends t.Exact where
  bytes : (rows + t.tileRows - 1) / t.tileRows * t.tileBytes = required.toNat
  plain : rows * t.blocks * t.blockBytes ≤ required.toNat

theorem Sized.copyAt_eq {t : Tiling} {rows : Nat} {required : UInt64} (h : Sized t rows required) {row block : Nat}
    (hrow : row < rows) (hblock : block < t.blocks) {f : Field} (hf : f ∈ t.fields) (hlen : 0 < f.len) {dst src : Nat}
    (hdst : dst = (t.copyOf row block f).dst) (hsrc : src = (t.copyOf row block f).src) :
    copyAt (.ofNat dst) (.ofNat src) f.len = t.copyOf row block f := by
  obtain ⟨hdst', hsrc'⟩ := h.copyOf_lt hrow hblock hf hlen
  have hlt := required.toNat_lt
  have hbytes := h.bytes
  have hplain := h.plain
  rw [hdst, hsrc]
  exact copyAt_ofNat (by omega) (by omega)

/-! ## What the byte-size functions accept -/

theorem toNat_width {width : UInt32} : width.toUInt64.toNat = width.toNat := UInt32.toNat_toUInt64 width

theorem tiles_toNat {tile tiles : UInt64} (h : ¬ u64Max / tile < tiles) :
    (tiles * tile).toNat = tiles.toNat * tile.toNat :=
  toNat_mul_of_le (UInt64.not_lt.mp h)

def q8Quant (blocks : Nat) : Nat := (32 * blocks + 63) / 64 * 64

def q8Tiling (width : UInt32) : Tiling :=
  let blocks := width.toNat / 32
  ⟨16, (q8Quant blocks + 512 * blocks + 63) / 64 * 64, blocks, 34,
    [⟨2, 0, 0, 32, 2⟩, ⟨32, 2, q8Quant blocks, 32, 32 * blocks⟩]⟩

theorem q8Tiling_exact (width : UInt32) : (q8Tiling width).Exact := by
  have hquant : 32 * (width.toNat / 32) ≤ q8Quant (width.toNat / 32) := by
    rw [q8Quant]
    omega
  have htile : q8Quant (width.toNat / 32) + 512 * (width.toNat / 32) ≤ (q8Tiling width).tileBytes := by
    simp only [q8Tiling]
    omega
  refine ⟨Nat.zero_lt_succ 15, ?cover, ?inside, ?apart, ?slot_inside, ?slot_apart⟩
  case cover =>
    intro k hk
    by_cases hscale : k < 2
    · exact ⟨_, List.mem_cons_self, k, hscale, (Nat.zero_add k).symm⟩
    · refine ⟨_, List.mem_cons_of_mem _ List.mem_cons_self, k - 2, ?_, ?_⟩
      · simp only [q8Tiling] at hk
        simp only
        omega
      · simp only
        omega
  case inside => simp [q8Tiling]
  case apart =>
    simp only [q8Tiling, List.mem_cons, List.not_mem_nil, or_false]
    rintro f (rfl | rfl) g (rfl | rfl) i hi j hj heq <;> simp only at hi hj heq <;> first | rfl | omega
  case slot_inside =>
    intro f hf row hrow block hblock
    simp only [q8Tiling, List.mem_cons, List.not_mem_nil, or_false] at hf hblock hrow
    have hstride : row * (32 * (width.toNat / 32)) ≤ 15 * (32 * (width.toNat / 32)) :=
      Nat.mul_le_mul_right _ (Nat.le_of_lt_succ hrow)
    rcases hf with rfl | rfl <;> simp only [Field.slot] <;> omega
  case slot_apart =>
    intro f hf g hg row hrow row' hrow' block hblock block' hblock' i hi j hj heq
    simp only [q8Tiling, List.mem_cons, List.not_mem_nil, or_false] at hf hg hblock hblock' hrow hrow'
    rcases hf with rfl | rfl <;> rcases hg with rfl | rfl <;> simp only [Field.slot] at hi hj heq
    · exact ⟨rfl, by omega, by omega⟩
    · omega
    · omega
    · have hpair : row * (32 * (width.toNat / 32)) + (block * 32 + i) =
          row' * (32 * (width.toNat / 32)) + (block' * 32 + j) := by omega
      obtain ⟨hrows, hblocks⟩ := Tiling.digits_unique (by omega) (by omega) hpair
      exact ⟨rfl, hrows, by omega⟩

theorem q8TileBytes_toNat {width : UInt32} (h : q8CookedTileBytes width.toUInt64 ≠ 0) :
    (q8CookedTileBytes width.toUInt64).toNat = (q8Tiling width).tileBytes ∧
      q8QuantOffset width = .ofNat (q8Quant (width.toNat / 32)) := by
  have hlt := width.toNat_lt
  have hblocks : (width.toUInt64 / 32).toNat = width.toNat / 32 := by
    rw [UInt64.toNat_div, toNat_width]
    rfl
  have hscales : (16 * (width.toUInt64 / 32) * 2).toNat = 32 * (width.toNat / 32) := by
    rw [UInt64.toNat_mul, UInt64.toNat_mul, hblocks]
    simp only [UInt64.reduceToNat]
    omega
  have hquant : (alignUp (16 * (width.toUInt64 / 32) * 2) 64).toNat = q8Quant (width.toNat / 32) := by
    rw [toNat_alignUp (k := 6) (by decide) (by rw [hscales]; omega), hscales, q8Quant]
    rfl
  have hquants : (16 * (width.toUInt64 / 32) * 32).toNat = 512 * (width.toNat / 32) := by
    rw [UInt64.toNat_mul, UInt64.toNat_mul, hblocks]
    simp only [UInt64.reduceToNat]
    omega
  have hsmall : q8Quant (width.toNat / 32) + 512 * (width.toNat / 32) + 64 ≤ 2 ^ 64 := by
    rw [q8Quant]
    omega
  constructor
  · rw [q8CookedTileBytes] at h ⊢
    split
    next hbad =>
      rw [if_pos hbad] at h
      exact absurd rfl h
    · have hsum : (alignUp (16 * (width.toUInt64 / 32) * 2) 64 + 16 * (width.toUInt64 / 32) * 32).toNat =
          q8Quant (width.toNat / 32) + 512 * (width.toNat / 32) := by
        rw [UInt64.toNat_add, hquant, hquants]
        exact Nat.mod_eq_of_lt (by omega)
      rw [toNat_alignUp (k := 6) (by decide) (by rw [hsum]; omega), hsum]
      rfl
  · have hword : (width / 32).toUInt64 = width.toUInt64 / 32 := UInt32.toUInt64_div width 32
    rw [q8QuantOffset, hword, ← hquant, UInt64.ofNat_toNat]

theorem q8_sized {width rows : UInt32} (h : q8CookedMatrixBytes width.toUInt64 rows.toUInt64 ≠ 0) :
    Sized (q8Tiling width) rows.toNat (q8CookedMatrixBytes width.toUInt64 rows.toUInt64) ∧
      q8CookedTileBytes width.toUInt64 ≠ 0 := by
  rw [q8CookedMatrixBytes] at h ⊢
  split at h
  · exact absurd rfl h
  next hgood =>
    rw [if_neg hgood]
    obtain ⟨htile, hrows, hfit⟩ : _ ∧ _ ∧ _ := by simpa only [not_or] using hgood
    have hlt := rows.toNat_lt
    have htiles : ((rows.toUInt64 + 16 - 1) / 16).toNat = (rows.toNat + 16 - 1) / 16 := by
      have hsum : (rows.toUInt64 + 16 - 1).toNat = rows.toNat + 16 - 1 := by
        have hadd : (rows.toUInt64 + 16).toNat = rows.toNat + 16 := by
          rw [UInt64.toNat_add, toNat_width]
          exact Nat.mod_eq_of_lt (Nat.lt_trans (Nat.add_lt_add_right hlt 16) (by decide))
        have hone : (1 : UInt64) ≤ rows.toUInt64 + 16 := by
          rw [UInt64.le_iff_toNat_le, hadd]
          exact Nat.le_add_left 1 (rows.toNat + 15)
        rw [UInt64.toNat_sub_of_le _ _ hone, hadd]
        rfl
      rw [UInt64.toNat_div, hsum]
      rfl
    refine ⟨{ q8Tiling_exact width with bytes := ?_, plain := ?_ }, htile⟩
    · rw [tiles_toNat hfit, htiles, (q8TileBytes_toNat htile).1]
      rfl
    · rw [tiles_toNat hfit, htiles, (q8TileBytes_toNat htile).1]
      have hrow : rows.toNat ≤ (rows.toNat + 16 - 1) / 16 * 16 := by omega
      have hbytes : 16 * (width.toNat / 32 * 34) ≤ (q8Tiling width).tileBytes := by
        simp only [q8Tiling, q8Quant]
        omega
      calc rows.toNat * (width.toNat / 32) * 34
          = rows.toNat * (width.toNat / 32 * 34) := Nat.mul_assoc ..
        _ ≤ (rows.toNat + 16 - 1) / 16 * 16 * (width.toNat / 32 * 34) := Nat.mul_le_mul_right _ hrow
        _ = (rows.toNat + 16 - 1) / 16 * (16 * (width.toNat / 32 * 34)) := Nat.mul_assoc ..
        _ ≤ (rows.toNat + 16 - 1) / 16 * (q8Tiling width).tileBytes := Nat.mul_le_mul_left _ hbytes

theorem blocks_word (width : UInt32) (n : UInt32) : (width / n).toUInt64 = .ofNat (width.toNat / n.toNat) := by
  rw [← UInt64.toNat_inj, toNat_width, UInt32.toNat_div, UInt64.toNat_ofNat_of_lt']
  exact Nat.lt_of_le_of_lt (Nat.div_le_self _ _) (Nat.lt_trans width.toNat_lt (by decide))

section Q8

variable {width rows : UInt32}

section

variable (hsized : Sized (q8Tiling width) rows.toNat (q8CookedMatrixBytes width.toUInt64 rows.toUInt64))
include hsized

theorem q8Block_eq (htile : q8CookedTileBytes width.toUInt64 ≠ 0) {row block : Nat} (hrow : row < rows.toNat)
    (hblock : block < (q8Tiling width).blocks) :
    q8Block width row block = (q8Tiling width).fields.map ((q8Tiling width).copyOf row block) := by
  obtain ⟨htile', hquant⟩ := q8TileBytes_toNat htile
  have hword : q8CookedTileBytes width.toUInt64 = .ofNat (q8Tiling width).tileBytes := by
    rw [← htile', UInt64.ofNat_toNat]
  have hblocks : (width / 32).toUInt64 = .ofNat (q8Tiling width).blocks := blocks_word width 32
  have h2 : (2 : UInt64) = .ofNat 2 := rfl
  have h16 : (16 : UInt64) = .ofNat 16 := rfl
  have h32 : (32 : UInt64) = .ofNat 32 := rfl
  have h34 : (34 : UInt64) = .ofNat 34 := rfl
  simp only [q8Block, hword, hquant, hblocks, h2, h16, h32, h34, ← UInt64.ofNat_mul, ← UInt64.ofNat_add]
  refine congrArg₂ List.cons (hsized.copyAt_eq hrow hblock (f := ⟨2, 0, 0, 32, 2⟩) (by simp [q8Tiling]) (by decide) ?_ ?_)
    (congrArg₂ List.cons (hsized.copyAt_eq hrow hblock
      (f := ⟨32, 2, q8Quant (width.toNat / 32), 32, 32 * (width.toNat / 32)⟩) (by simp [q8Tiling]) (Nat.zero_lt_succ 31) ?_ ?_) rfl)
  all_goals simp only [Tiling.copyOf, Field.slot, q8Tiling]
  all_goals ring

theorem q8Copies_eq (htile : q8CookedTileBytes width.toUInt64 ≠ 0) :
    overBlocks rows (width / 32) (q8Block width) = (q8Tiling width).copies rows.toNat :=
  overBlocks_eq (UInt32.toNat_div width 32).symm fun _ hrow _ hblock => q8Block_eq hsized htile hrow hblock

end

theorem q8Uncopies_eq (width rows : UInt32) : overBlocks rows (width / 32) (q8Unblock width) =
    (overBlocks rows (width / 32) (q8Block width)).map Copy.swap := by
  simp only [overBlocks, List.map_flatMap]
  rfl

/-- What cooking and then uncooking gives: the blocks as they were, and nothing written past either size. -/
def RoundTrip (width rows : UInt32) (source out back : Nat → UInt8) (outputBytes backBytes : UInt64) : Prop :=
  ∃ cooked plain, cookQ8Rows source out outputBytes width rows = some cooked ∧
    uncookQ8Rows cooked back backBytes width rows = some plain ∧
    (∀ i < rows.toNat * (width.toNat / 32) * 34, plain i = source i) ∧
    (∀ i, (q8CookedMatrixBytes width.toUInt64 rows.toUInt64).toNat ≤ i → cooked i = out i) ∧
    ∀ i, rows.toNat * (width.toNat / 32) * 34 ≤ i → plain i = back i

theorem uncook_cook_q8 (haccept : q8CookedMatrixBytes width.toUInt64 rows.toUInt64 ≠ 0)
    {source out back : Nat → UInt8} {outputBytes backBytes : UInt64}
    (hout : q8CookedMatrixBytes width.toUInt64 rows.toUInt64 ≤ outputBytes)
    (hback : rows.toNat * (width.toNat / 32) * 34 ≤ backBytes.toNat) :
    RoundTrip width rows source out back outputBytes backBytes := by
  obtain ⟨hsized, htile⟩ := q8_sized haccept
  have hcopies := q8Copies_eq hsized htile
  have hplain : ((width / 32).toUInt64 * 34 * rows.toUInt64).toNat = rows.toNat * (width.toNat / 32) * 34 := by
    have hlt : rows.toNat * (width.toNat / 32) * 34 < 2 ^ 64 := hsized.plain.trans_lt (UInt64.toNat_lt _)
    have hword : (width / 32).toUInt64 * 34 * rows.toUInt64 = .ofNat (width.toNat / 32 * 34 * rows.toNat) := by
      rw [UInt64.ofNat_mul, UInt64.ofNat_mul, blocks_word, ← @toNat_width rows, UInt64.ofNat_toNat]
      rfl
    have hcomm : width.toNat / 32 * 34 * rows.toNat = rows.toNat * (width.toNat / 32) * 34 := by ring
    rw [hword, hcomm, UInt64.toNat_ofNat_of_lt' hlt]
  have hcook : ¬(q8CookedTileBytes width.toUInt64 = 0 ∨ q8CookedMatrixBytes width.toUInt64 rows.toUInt64 = 0 ∨
      outputBytes < q8CookedMatrixBytes width.toUInt64 rows.toUInt64) :=
    fun h => h.elim htile fun h => h.elim haccept fun h => UInt64.not_lt.mpr hout h
  have huncook : ¬(q8CookedTileBytes width.toUInt64 = 0 ∨ q8CookedMatrixBytes width.toUInt64 rows.toUInt64 = 0 ∨
      backBytes < (width / 32).toUInt64 * 34 * rows.toUInt64) :=
    fun h => h.elim htile fun h => h.elim haccept fun h => by
      rw [UInt64.lt_iff_toNat_lt, hplain] at h
      omega
  refine ⟨_, _, by rw [cookQ8Rows]; exact if_neg hcook, by rw [uncookQ8Rows]; exact if_neg huncook, ?_, ?_, ?_⟩
  · intro i hi
    obtain ⟨d, hd⟩ := hsized.moved_iff.mpr hi
    rw [q8Uncopies_eq, hcopies]
    exact run_swap hsized.oneSource hsized.onePlace hd
  · intro i hi
    rw [hcopies, run_frame fun s hs => absurd (hsized.moved_lt hs) (by rw [hsized.bytes]; omega)]
    exact if_neg (by omega)
  · intro i hi
    rw [q8Uncopies_eq, hcopies, run_frame fun s hs => ?_]
    exact absurd (hsized.moved_iff.mp ⟨s, moves_swap.mp hs⟩) (Nat.not_lt.mpr hi)

end Q8

/-! ## Layouts that only move bytes -/

/-- A cook function takes every byte of the source to one place of its own in the bytes required, fills all of them,
and writes nothing else. -/
def MovesAll (cook : (Nat → UInt8) → (Nat → UInt8) → UInt64 → Option (Nat → UInt8)) (sourceBytes : Nat)
    (required : UInt64) : Prop :=
  ∃ place : Fin sourceBytes ≃ Fin required.toNat, ∀ source out outputBytes, required ≤ outputBytes →
    ∃ cooked, cook source out outputBytes = some cooked ∧ (∀ s, cooked (place s) = source s) ∧
      ∀ i, required.toNat ≤ i → cooked i = out i

theorem movesAll_of_tiling {t : Tiling} {rows : Nat} {required : UInt64} (hsized : Sized t rows required)
    (hfull : rows * t.blocks * t.blockBytes = required.toNat)
    {cook : (Nat → UInt8) → (Nat → UInt8) → UInt64 → Option (Nat → UInt8)}
    (hcook : ∀ source out outputBytes, required ≤ outputBytes →
      cook source out outputBytes = some (run (t.copies rows) source out)) :
    MovesAll cook (rows * t.blocks * t.blockBytes) required := by
  obtain ⟨place, hplace⟩ := hsized.exists_place (hsized.bytes.trans hfull.symm)
  refine ⟨place.trans (finCongr hfull), fun source out outputBytes hfit => ⟨_, hcook source out outputBytes hfit, ?_, ?_⟩⟩
  · exact fun s => run_moves hsized.oneSource (hplace s)
  · intro i hi
    refine run_frame fun s hs => absurd (hsized.moved_lt hs) ?_
    rw [hsized.bytes]
    omega

theorem blocked_sized {tileRows blocks blockBytes rows : Nat} {parts : List (Nat × Nat)} {required : UInt64}
    (hexact : (Tiling.blocked tileRows blocks blockBytes parts).Exact) (hrows : tileRows ∣ rows)
    (hbytes : rows / tileRows * (blocks * (tileRows * blockBytes)) = required.toNat) :
    Sized (Tiling.blocked tileRows blocks blockBytes parts) rows required ∧
      rows * blocks * blockBytes = required.toNat := by
  have hpos : 0 < tileRows := hexact.rows_pos
  obtain ⟨tiles, rfl⟩ := hrows
  have htiles : (tileRows * tiles + tileRows - 1) / tileRows = tiles := by
    rw [Nat.add_sub_assoc hpos, Nat.mul_add_div hpos, Nat.div_eq_of_lt (by omega), Nat.add_zero]
  rw [Nat.mul_div_cancel_left _ hpos] at hbytes
  have hplain : tileRows * tiles * blocks * blockBytes = required.toNat := by
    rw [← hbytes]
    ring
  refine ⟨{ hexact with bytes := ?_, plain := hplain.le }, hplain⟩
  simp only [Tiling.blocked]
  rw [htiles, hbytes]

section Q51

variable {width rows : UInt32}

def q51Tiling (width : UInt32) : Tiling := .blocked 16 (width.toNat / 32) 24 [(4, 0), (4, 4), (16, 8)]

theorem q51Tiling_exact (width : UInt32) : (q51Tiling width).Exact :=
  Tiling.exact_blocked (by decide) ⟨rfl, rfl, rfl, rfl⟩

theorem q51TileBytes_toNat (h : q51CookedTileBytes width.toUInt64 ≠ 0) :
    (q51CookedTileBytes width.toUInt64).toNat = (q51Tiling width).tileBytes := by
  rw [q51CookedTileBytes] at h ⊢
  split
  next hbad =>
    rw [if_pos hbad] at h
    exact absurd rfl h
  · have hlt := width.toNat_lt
    rw [UInt64.toNat_mul, UInt64.toNat_mul, UInt64.toNat_div, toNat_width]
    simp only [UInt64.reduceToNat, q51Tiling, Tiling.blocked]
    omega

theorem q51_sized (h : q51CookedMatrixBytes width.toUInt64 rows.toUInt64 ≠ 0) :
    Sized (q51Tiling width) rows.toNat (q51CookedMatrixBytes width.toUInt64 rows.toUInt64) ∧
      rows.toNat * (width.toNat / 32) * 24 = (q51CookedMatrixBytes width.toUInt64 rows.toUInt64).toNat ∧
      q51CookedTileBytes width.toUInt64 ≠ 0 := by
  rw [q51CookedMatrixBytes] at h ⊢
  split at h
  · exact absurd rfl h
  next hgood =>
    split at h
    · exact absurd rfl h
    next hfit =>
      rw [if_neg hgood, if_neg hfit]
      obtain ⟨htile, -, hmod⟩ : _ ∧ _ ∧ _ := by simpa only [not_or] using hgood
      have hdvd : 16 ∣ rows.toNat := by
        have hzero := congrArg UInt64.toNat (not_not.mp hmod)
        exact Nat.dvd_of_mod_eq_zero hzero
      have hbytes : rows.toNat / 16 * (q51Tiling width).tileBytes =
          (rows.toUInt64 / 16 * q51CookedTileBytes width.toUInt64).toNat := by
        rw [tiles_toNat hfit, q51TileBytes_toNat htile, UInt64.toNat_div, toNat_width]
        rfl
      obtain ⟨hsized, hfull⟩ := blocked_sized (q51Tiling_exact width) hdvd hbytes
      exact ⟨hsized, hfull, htile⟩

theorem q51Block_eq (hsized : Sized (q51Tiling width) rows.toNat (q51CookedMatrixBytes width.toUInt64 rows.toUInt64))
    (htile : q51CookedTileBytes width.toUInt64 ≠ 0) {row block : Nat} (hrow : row < rows.toNat)
    (hblock : block < (q51Tiling width).blocks) :
    q51Block width row block = (q51Tiling width).fields.map ((q51Tiling width).copyOf row block) := by
  have hword : q51CookedTileBytes width.toUInt64 = .ofNat (q51Tiling width).tileBytes := by
    rw [← q51TileBytes_toNat htile, UInt64.ofNat_toNat]
  have hblocks : (width / 32).toUInt64 = .ofNat (q51Tiling width).blocks := blocks_word width 32
  have h4 : (4 : UInt64) = .ofNat 4 := rfl
  have h8 : (8 : UInt64) = .ofNat 8 := rfl
  have h16 : (16 : UInt64) = .ofNat 16 := rfl
  have h24 : (24 : UInt64) = .ofNat 24 := rfl
  simp only [q51Block, hword, hblocks, h4, h8, h16, h24, ← UInt64.ofNat_mul, ← UInt64.ofNat_add]
  have hcopy (len src : Nat) {dst source : Nat} (hpart : (len, src) ∈ [(4, 0), (4, 4), (16, 8)]) (hlen : 0 < len)
      (hdst : dst = ((q51Tiling width).copyOf row block (Tiling.blockedField 16 24 len src)).dst)
      (hsrc : source = ((q51Tiling width).copyOf row block (Tiling.blockedField 16 24 len src)).src) :
      copyAt (.ofNat dst) (.ofNat source) len =
        (q51Tiling width).copyOf row block (Tiling.blockedField 16 24 len src) :=
    hsized.copyAt_eq hrow hblock (List.mem_map.mpr ⟨(len, src), hpart, rfl⟩) hlen hdst hsrc
  refine congrArg₂ List.cons (hcopy 4 0 (by decide) (by decide) ?_ ?_)
    (congrArg₂ List.cons (hcopy 4 4 (by decide) (by decide) ?_ ?_)
      (congrArg₂ List.cons (hcopy 16 8 (by decide) (by decide) ?_ ?_) rfl))
  all_goals simp only [Tiling.copyOf, Field.slot, q51Tiling, Tiling.blocked, Tiling.blockedField]
  all_goals ring

theorem cookQ51_movesAll (haccept : q51CookedMatrixBytes width.toUInt64 rows.toUInt64 ≠ 0) :
    MovesAll (cookQ51Rows · · · width rows) (rows.toNat * (width.toNat / 32) * 24)
      (q51CookedMatrixBytes width.toUInt64 rows.toUInt64) := by
  obtain ⟨hsized, hfull, htile⟩ := q51_sized haccept
  refine movesAll_of_tiling hsized hfull fun source out outputBytes hfit => ?_
  have hgood : ¬(q51CookedTileBytes width.toUInt64 = 0 ∨ q51CookedMatrixBytes width.toUInt64 rows.toUInt64 = 0 ∨
      outputBytes < q51CookedMatrixBytes width.toUInt64 rows.toUInt64) :=
    fun h => h.elim htile fun h => h.elim haccept (UInt64.not_lt.mpr hfit)
  rw [cookQ51Rows, ← overBlocks_eq (UInt32.toNat_div width 32).symm
    fun _ hrow _ hblock => q51Block_eq hsized htile hrow hblock]
  exact if_neg hgood

end Q51

section KQuant

variable {width rows ggmlType : UInt32}

theorem kQuant_type (h : kQuantBlockBytes ggmlType ≠ 0) : ggmlType = 12 ∨ ggmlType = 13 := by
  rw [kQuantBlockBytes] at h
  split at h
  · exact .inl ‹_›
  · split at h
    · exact .inr ‹_›
    · exact absurd rfl h

def kQuantParts (ggmlType : UInt32) : List (Nat × Nat) :=
  if ggmlType = 13 then [(4, 0), (12, 4), (32, 16), (128, 48)] else [(4, 0), (12, 4), (128, 16)]

def kQuantTiling (width ggmlType : UInt32) : Tiling :=
  .blocked 8 (width.toNat / 256) (kQuantBlockBytes ggmlType).toNat (kQuantParts ggmlType)

theorem kQuantTiling_exact (width : UInt32) (h : kQuantBlockBytes ggmlType ≠ 0) :
    (kQuantTiling width ggmlType).Exact := by
  rcases kQuant_type h with rfl | rfl
  · exact Tiling.exact_blocked (by decide) ⟨rfl, rfl, rfl, rfl⟩
  · exact Tiling.exact_blocked (by decide) ⟨rfl, rfl, rfl, rfl, rfl⟩

theorem kQuantTile_ne (h : kQuantCookedTileBytes width.toUInt64 ggmlType ≠ 0) : kQuantBlockBytes ggmlType ≠ 0 := by
  intro hzero
  rw [kQuantCookedTileBytes, hzero] at h
  exact h (if_pos (.inl rfl))

theorem kQuantTileBytes_toNat (h : kQuantCookedTileBytes width.toUInt64 ggmlType ≠ 0) :
    (kQuantCookedTileBytes width.toUInt64 ggmlType).toNat = (kQuantTiling width ggmlType).tileBytes := by
  have hblock := kQuantTile_ne h
  rw [kQuantCookedTileBytes] at h ⊢
  split
  next hbad =>
    rw [if_pos hbad] at h
    exact absurd rfl h
  · have hlt := width.toNat_lt
    rw [UInt64.toNat_mul, UInt64.toNat_mul, UInt64.toNat_div, toNat_width]
    rcases kQuant_type hblock with rfl | rfl
    · have hbytes : (kQuantBlockBytes 12).toNat = 144 := rfl
      simp only [UInt64.reduceToNat, kQuantTiling, Tiling.blocked, hbytes]
      omega
    · have hbytes : (kQuantBlockBytes 13).toNat = 176 := rfl
      simp only [UInt64.reduceToNat, kQuantTiling, Tiling.blocked, hbytes]
      omega

theorem kQuant_sized (h : kQuantCookedMatrixBytes width.toUInt64 rows.toUInt64 ggmlType ≠ 0) :
    Sized (kQuantTiling width ggmlType) rows.toNat (kQuantCookedMatrixBytes width.toUInt64 rows.toUInt64 ggmlType) ∧
      rows.toNat * (width.toNat / 256) * (kQuantBlockBytes ggmlType).toNat =
        (kQuantCookedMatrixBytes width.toUInt64 rows.toUInt64 ggmlType).toNat ∧
      kQuantCookedTileBytes width.toUInt64 ggmlType ≠ 0 := by
  rw [kQuantCookedMatrixBytes] at h ⊢
  split at h
  · exact absurd rfl h
  next hgood =>
    split at h
    · exact absurd rfl h
    next hfit =>
      rw [if_neg hgood, if_neg hfit]
      obtain ⟨htile, -, hmod⟩ : _ ∧ _ ∧ _ := by simpa only [not_or] using hgood
      have hdvd : 8 ∣ rows.toNat := by
        have hzero := congrArg UInt64.toNat (not_not.mp hmod)
        exact Nat.dvd_of_mod_eq_zero hzero
      have hbytes : rows.toNat / 8 * (kQuantTiling width ggmlType).tileBytes =
          (rows.toUInt64 / 8 * kQuantCookedTileBytes width.toUInt64 ggmlType).toNat := by
        rw [tiles_toNat hfit, kQuantTileBytes_toNat htile, UInt64.toNat_div, toNat_width]
        rfl
      obtain ⟨hsized, hfull⟩ := blocked_sized (kQuantTiling_exact width (kQuantTile_ne htile)) hdvd hbytes
      exact ⟨hsized, hfull, htile⟩

theorem kQuantBlock_eq
    (hsized : Sized (kQuantTiling width ggmlType) rows.toNat
      (kQuantCookedMatrixBytes width.toUInt64 rows.toUInt64 ggmlType))
    (htile : kQuantCookedTileBytes width.toUInt64 ggmlType ≠ 0) {row block : Nat} (hrow : row < rows.toNat)
    (hblock : block < (kQuantTiling width ggmlType).blocks) :
    kQuantBlock width ggmlType row block =
      (kQuantTiling width ggmlType).fields.map ((kQuantTiling width ggmlType).copyOf row block) := by
  have hword : kQuantCookedTileBytes width.toUInt64 ggmlType = .ofNat (kQuantTiling width ggmlType).tileBytes := by
    rw [← kQuantTileBytes_toNat htile, UInt64.ofNat_toNat]
  have hblocks : (width / 256).toUInt64 = .ofNat (kQuantTiling width ggmlType).blocks := blocks_word width 256
  have hbytes : kQuantBlockBytes ggmlType = .ofNat (kQuantBlockBytes ggmlType).toNat := UInt64.ofNat_toNat.symm
  have h4 : (4 : UInt64) = .ofNat 4 := rfl
  have h8 : (8 : UInt64) = .ofNat 8 := rfl
  have h12 : (12 : UInt64) = .ofNat 12 := rfl
  have h16 : (16 : UInt64) = .ofNat 16 := rfl
  have h32 : (32 : UInt64) = .ofNat 32 := rfl
  have h48 : (48 : UInt64) = .ofNat 48 := rfl
  have h128 : (128 : UInt64) = .ofNat 128 := rfl
  have hcopy (len src : Nat) {dst source : Nat} (hpart : (len, src) ∈ kQuantParts ggmlType) (hlen : 0 < len)
      (hdst : dst = ((kQuantTiling width ggmlType).copyOf row block
        (Tiling.blockedField 8 (kQuantBlockBytes ggmlType).toNat len src)).dst)
      (hsrc : source = ((kQuantTiling width ggmlType).copyOf row block
        (Tiling.blockedField 8 (kQuantBlockBytes ggmlType).toNat len src)).src) :
      copyAt (.ofNat dst) (.ofNat source) len = (kQuantTiling width ggmlType).copyOf row block
        (Tiling.blockedField 8 (kQuantBlockBytes ggmlType).toNat len src) :=
    hsized.copyAt_eq hrow hblock (List.mem_map.mpr ⟨(len, src), hpart, rfl⟩) hlen hdst hsrc
  rw [kQuantBlock, hword, hblocks, hbytes]
  rcases kQuant_type (kQuantTile_ne htile) with rfl | rfl
  · rw [if_neg (by decide)]
    simp only [h4, h8, h12, h16, h128, ← UInt64.ofNat_mul, ← UInt64.ofNat_add]
    refine congrArg₂ List.cons (hcopy 4 0 (by decide) (by decide) ?_ ?_)
      (congrArg₂ List.cons (hcopy 12 4 (by decide) (by decide) ?_ ?_)
        (congrArg₂ List.cons (hcopy 128 16 (by decide) (by decide) ?_ ?_) rfl))
    all_goals simp only [Tiling.copyOf, Field.slot, kQuantTiling, Tiling.blocked, Tiling.blockedField]
    all_goals ring
  · rw [if_pos rfl]
    simp only [h4, h8, h12, h16, h32, h48, h128, ← UInt64.ofNat_mul, ← UInt64.ofNat_add]
    refine congrArg₂ List.cons (hcopy 4 0 (by decide) (by decide) ?_ ?_)
      (congrArg₂ List.cons (hcopy 12 4 (by decide) (by decide) ?_ ?_)
        (congrArg₂ List.cons (hcopy 32 16 (by decide) (by decide) ?_ ?_)
          (congrArg₂ List.cons (hcopy 128 48 (by decide) (by decide) ?_ ?_) rfl)))
    all_goals simp only [Tiling.copyOf, Field.slot, kQuantTiling, Tiling.blocked, Tiling.blockedField]
    all_goals ring

theorem cookKQuant_movesAll (haccept : kQuantCookedMatrixBytes width.toUInt64 rows.toUInt64 ggmlType ≠ 0) :
    MovesAll (cookKQuantRows · · · width rows ggmlType)
      (rows.toNat * (width.toNat / 256) * (kQuantBlockBytes ggmlType).toNat)
      (kQuantCookedMatrixBytes width.toUInt64 rows.toUInt64 ggmlType) := by
  obtain ⟨hsized, hfull, htile⟩ := kQuant_sized haccept
  refine movesAll_of_tiling hsized hfull fun source out outputBytes hfit => ?_
  have hgood : ¬(kQuantBlockBytes ggmlType = 0 ∨ kQuantCookedTileBytes width.toUInt64 ggmlType = 0 ∨
      kQuantCookedMatrixBytes width.toUInt64 rows.toUInt64 ggmlType = 0 ∨
      outputBytes < kQuantCookedMatrixBytes width.toUInt64 rows.toUInt64 ggmlType) :=
    fun h => h.elim (kQuantTile_ne htile) fun h => h.elim htile fun h => h.elim haccept (UInt64.not_lt.mpr hfit)
  rw [cookKQuantRows, ← overBlocks_eq (UInt32.toNat_div width 256).symm
    fun _ hrow _ hblock => kQuantBlock_eq hsized htile hrow hblock]
  exact if_neg hgood

end KQuant

/-! ## The layouts are lossless -/

/-- For every width and row count the byte-size functions accept: uncooking gives back what was cooked, and the
other layouts take every byte to one place of its own and fill their size; nothing is written past it. -/
theorem cooked_lossless (width rows ggmlType : UInt32) :
    (q8CookedMatrixBytes width.toUInt64 rows.toUInt64 ≠ 0 → ∀ source out back outputBytes backBytes,
      q8CookedMatrixBytes width.toUInt64 rows.toUInt64 ≤ outputBytes →
        rows.toNat * (width.toNat / 32) * 34 ≤ backBytes.toNat →
          RoundTrip width rows source out back outputBytes backBytes) ∧
    (q51CookedMatrixBytes width.toUInt64 rows.toUInt64 ≠ 0 →
      MovesAll (cookQ51Rows · · · width rows) (rows.toNat * (width.toNat / 32) * 24)
        (q51CookedMatrixBytes width.toUInt64 rows.toUInt64)) ∧
    (kQuantCookedMatrixBytes width.toUInt64 rows.toUInt64 ggmlType ≠ 0 →
      MovesAll (cookKQuantRows · · · width rows ggmlType)
        (rows.toNat * (width.toNat / 256) * (kQuantBlockBytes ggmlType).toNat)
        (kQuantCookedMatrixBytes width.toUInt64 rows.toUInt64 ggmlType)) :=
  ⟨fun h _ _ _ _ _ hout hback => uncook_cook_q8 h hout hback, cookQ51_movesAll, cookKQuant_movesAll⟩

end FlashGordon.Cooked
