import FlashGordon.Prompt
import FlashGordon.TowerPatch

/-! The positions of what an image shows. The tower merges the patches of a frame by fours into embedding rows, and the
runtime gives every row a place on the axes of the transcript; neither looks at the order of the other. -/

namespace FlashGordon.TowerPatch

abbrev towerHidden : Nat := 1152

abbrev towerMergedWidth : Nat := mergeFactor * towerHidden

/-- An embedding row of a frame takes in a pixel of a channel: `fg_tower_merger_cpu` reads rows of
`towerMergedWidth` values, and every token has `towerHidden` of them. -/
def RowShows (g : Geometry) (row c y x : Nat) : Prop :=
  ∀ half < 2, ∃ token < g.tokens.toNat, token * towerHidden / towerMergedWidth = row ∧ ∃ e < patchValues,
    origin g (token * tokenValues + half * patchValues + e) =
      some ((c * g.imageHeight.toNat + y) * g.imageWidth.toNat + x)

/-- What the tower tells of a medium of so many pairs of frames: `fg_tower_vision_forward` gives the grid of an image in
patches, and a clip has its grid in rows. -/
structure Medium.Of (medium : Medium) (g : Geometry) (pairs : Nat) : Prop where
  grid : (medium.gridWidth, medium.gridHeight) =
    if medium.kind = .image then (g.gridWidth.toNat, g.gridHeight.toNat)
    else (g.gridWidth.toNat / merge, g.gridHeight.toNat / merge)
  merged : medium.merged = pairs * g.mergedTokens.toNat
  image : medium.kind = .image → pairs = 1

variable {g : Geometry} {a b : Nat}

theorem mergedRow_eq (token : Nat) : token * towerHidden / towerMergedWidth = token / 4 :=
  Nat.mul_div_mul_right token 4 (by decide)

theorem rowShows_iff (h : PatchOrder g) (s : Shape g a b) {row c y x : Nat} (hc : c < 3) (hy : y < g.imageHeight.toNat)
    (hx : x < g.imageWidth.toNat) : RowShows g row c y x ↔ row / a = y / 32 ∧ row % a = x / 32 := by
  have hhalf : 2 * a / 2 = a := by omega
  simp only [RowShows, mergedRow_eq]
  constructor
  · intro hshows
    obtain ⟨token, htoken, rfl, e, he, horigin⟩ := hshows 0 (by decide)
    obtain ⟨other, -, hcoords, e', -, hunique⟩ := h.placed 0 (by decide) c hc y hy x hx
    obtain ⟨rfl, -⟩ := (hunique token htoken e he).mp horigin
    simp only [towerTokenCoords, s.gridWidth, mergeFactor_eq, merge, patchSize, hhalf, Prod.mk.injEq] at hcoords ⊢
    omega
  · rintro ⟨hrow, hcol⟩ half hlt
    obtain ⟨token, htoken, hcoords, e, he, hunique⟩ := h.placed half hlt c hc y hy x hx
    refine ⟨token, htoken, ?_, e, he, (hunique token htoken e he).mpr ⟨rfl, rfl⟩⟩
    simp only [towerTokenCoords, s.gridWidth, mergeFactor_eq, merge, patchSize, hhalf, Prod.mk.injEq] at hcoords ⊢
    have hleft : token / 4 / a = row / a := by omega
    have hright : token / 4 % a = row % a := by omega
    rw [← Nat.div_add_mod' (token / 4) a, hleft, hright, Nat.div_add_mod']

/-- A row of a medium stands where the pixels are that it shows, thirty-two to a step and in the time of its pair of
frames, just where the medium is no image or the row is in the first line of the image. -/
theorem row_position (g : Geometry) (hvalid : towerGeometryValid g = true)
    (hwrap : g.gridWidth.toNat * g.gridHeight.toNat < 2 ^ 32) (medium : Medium) {pairs : Nat}
    (hmedium : Medium.Of medium g pairs) (position : Nat) {row : Nat} (hrow : row < medium.merged) :
    (∀ c < 3, ∀ y < g.imageHeight.toNat, ∀ x < g.imageWidth.toNat, RowShows g (row % g.mergedTokens.toNat) c y x →
      (medium.entry position row).position =
        let base := position + row / g.mergedTokens.toNat * medium.step
        ⟨base, base + y / 32, base + x / 32⟩) ↔
    (medium.kind = .image → row < g.gridWidth.toNat / merge) := by
  obtain ⟨a, b, s⟩ := shape_of_valid hvalid
  have hgrid : g.gridWidth.toNat * g.gridHeight.toNat = 4 * (a * b) := by
    rw [s.gridWidth, s.gridHeight, Nat.mul_mul_mul_comm]
  rw [hgrid] at hwrap
  have hmerged : g.mergedTokens.toNat = a * b := by
    simp only [towerGeometryValid, Bool.and_eq_true, beq_iff_eq] at hvalid
    rw [hvalid.2, UInt32.toNat_div, s.tokens, Nat.mod_eq_of_lt hwrap]
    exact Nat.mul_div_cancel_left (a * b) four_pos
  have hshows := @rowShows_iff g a b (patchOrder s hwrap hvalid) s
  have hgrid := hmedium.grid
  rw [hmerged, Medium.entry]
  split
  next himage =>
    have hlt : row < a * b := by
      rw [hmedium.merged, hmedium.image himage, Nat.one_mul, hmerged] at hrow
      exact hrow
    rw [if_pos himage, s.gridWidth, s.gridHeight, Prod.mk.injEq] at hgrid
    simp only [himage, true_implies, imagePosition, hgrid.1, Nat.div_eq_of_lt hlt, Nat.mod_eq_of_lt hlt, Nat.zero_mul,
      Nat.add_zero, Axes.mk.injEq, true_and, Nat.add_left_cancel_iff, s.gridWidth, merge,
      Nat.mul_div_cancel_left a two_pos]
    constructor
    · intro h
      have hline : row / a < b := Nat.div_lt_of_lt_mul hlt
      have hcolumn : row % a < a := Nat.mod_lt row s.across
      have hy : 32 * (row / a) < g.imageHeight.toNat := by rw [s.imageHeight]; omega
      have hx : 32 * (row % a) < g.imageWidth.toNat := by rw [s.imageWidth]; omega
      have hplace := (h 0 (by decide) _ hy _ hx ((hshows (by decide) hy hx).mpr (by omega))).1
      rw [Nat.mul_comm 2 a, ← Nat.div_div_eq_div_mul, Nat.mul_div_cancel_left _ (by decide)] at hplace
      have hzero : row / a = 0 := by omega
      exact (Nat.div_eq_zero_iff_lt s.across).mp hzero
    · intro hfirst c hc y hy x hx hpixel
      obtain ⟨hline, hcolumn⟩ := (hshows hc hy hx).mp hpixel
      have hwide : row < 2 * a := by omega
      rw [← hline, ← hcolumn, Nat.div_eq_of_lt hwide, Nat.mod_eq_of_lt hwide, Nat.div_eq_of_lt hfirst,
        Nat.mod_eq_of_lt hfirst]
      exact ⟨rfl, rfl⟩
  next hvideo =>
    rw [if_neg hvideo, s.gridWidth, s.gridHeight, Prod.mk.injEq, merge, Nat.mul_div_cancel_left a two_pos,
      Nat.mul_div_cancel_left b two_pos] at hgrid
    refine iff_of_true (fun c hc y hy x hx hpixel => ?_) fun himage => absurd himage hvideo
    obtain ⟨hline, hcolumn⟩ := (hshows hc hy hx).mp hpixel
    rw [videoPosition, hgrid.1, hgrid.2, ← hline, ← hcolumn]

def square : Geometry := ⟨128, 128, 8, 8, 64, 16⟩

theorem square_side : 0 < 8 := by decide

theorem square_rows : 0 < 16 := by decide

def squareImage : Medium := ⟨.image, 16, 8, 8, 1, 0, square_rows, square_side, square_side, Nat.one_pos⟩

/-- Of the sixteen rows of a square image the fifth does not stand where its pixels are. -/
theorem row_position_square :
    ¬ ∀ c < 3, ∀ y < 128, ∀ x < 128, RowShows square 4 c y x →
      (squareImage.entry 7 4).position = ⟨7, 7 + y / 32, 7 + x / 32⟩ := fun h =>
  absurd ((@row_position square (by decide) (by decide) squareImage 1 ⟨rfl, rfl, fun _ => rfl⟩ 7 4 (by decide)).mp h rfl)
    (by decide)

end FlashGordon.TowerPatch
