import Mathlib.Tactic.Ring
import FlashGordon.TileCopies
import FlashGordon.Status

/-!
The patches of the vision tower. An image is cut into patches of sixteen pixels a side, a token holds one patch twice,
once for each frame of a pair, and the tokens go by blocks of two by two patches. The geometry of an image and the
coordinates of a token are computed in thirty-two bits. A video puts two frames into the two halves of its tokens.
-/

namespace FlashGordon.TowerPatch

open TileCopies
open TileCopies.Tiling (digits_unique)

abbrev patchSize : Nat := 16
abbrev merge : Nat := 2
abbrev mergeFactor : Nat := merge * merge
abbrev patchValues : Nat := 3 * patchSize * patchSize
abbrev tokenValues : Nat := 2 * patchValues
abbrev alignPixels : UInt32 := 32
abbrev sizeMax : Nat := 2 ^ 64 - 1

@[simp] theorem mergeFactor_eq : mergeFactor = 4 := rfl

@[simp] theorem patchValues_eq : patchValues = 768 := rfl

@[simp] theorem tokenValues_eq : tokenValues = 1536 := rfl

/-- `fg_tower_geometry`. -/
structure Geometry where
  imageWidth : UInt32
  imageHeight : UInt32
  gridWidth : UInt32
  gridHeight : UInt32
  tokens : UInt32
  mergedTokens : UInt32
  deriving DecidableEq

def towerGeometryValid (g : Geometry) : Bool :=
  g.imageWidth != 0 && g.imageHeight != 0 && g.imageWidth % 16 == 0 && g.imageHeight % 16 == 0 &&
    g.gridWidth == g.imageWidth / 16 && g.gridHeight == g.imageHeight / 16 && g.gridWidth != 0 && g.gridHeight != 0 &&
    g.gridWidth % 2 == 0 && g.gridHeight % 2 == 0 && g.tokens == g.gridWidth * g.gridHeight &&
    g.mergedTokens == g.tokens / 4

def towerImageGeometry (width height : UInt32) : Except Error Geometry :=
  if width == 0 || height == 0 then .error ⟨.argument, "invalid tower image geometry request"⟩
  else if width % alignPixels != 0 || height % alignPixels != 0 then
    .error ⟨.format, s!"tower image {width}x{height} is not aligned to {alignPixels} pixels"⟩
  else
    let gridWidth := width / 16
    let gridHeight := height / 16
    let tokens := gridWidth * gridHeight
    let g : Geometry := ⟨width, height, gridWidth, gridHeight, tokens, tokens / 4⟩
    if towerGeometryValid g then .ok g else .error ⟨.format, "tower image geometry is invalid"⟩

section Writes

variable {α : Type*}

def copyToken (image : Nat → α) (width height bx by_ dx dy dst : Nat) (mem : Nat → α) : Nat → α :=
  let mem := loop 3 (fun c => loop patchSize fun py mem =>
    let y := (by_ * merge + dy) * patchSize + py
    Copy.exec image mem ⟨dst + c * patchSize * patchSize + py * patchSize,
      (c * height + y) * width + (bx * merge + dx) * patchSize, patchSize⟩) mem
  Copy.exec mem mem ⟨dst + patchValues, dst, patchValues⟩

/-- `fg_tower_patchify` to the array at `tokens`; the number of a token wraps at thirty-two bits. -/
def towerPatchify (image : Nat → α) (width height : UInt32) (tokens : Nat) (g : Geometry) (mem : Nat → α) :
    Except Error (Nat → α) :=
  if !towerGeometryValid g || g.imageWidth != width || g.imageHeight != height then
    .error ⟨.argument, "invalid tower patchify request"⟩
  else
    let halfWidth := g.gridWidth.toNat / merge
    .ok (loop (g.gridHeight.toNat / merge) (fun by_ => loop halfWidth fun bx => loop merge fun dy => loop merge fun dx =>
      let token := ((by_ * halfWidth + bx) * mergeFactor + dy * merge + dx) % 2 ^ 32
      copyToken image width.toNat height.toNat bx by_ dx dy (tokens + token * tokenValues)) mem)

end Writes

def towerTokenCoords (g : Geometry) (token : Nat) : Nat × Nat :=
  let half := g.gridWidth.toNat / merge
  let group := token / mergeFactor
  let inner := token % mergeFactor
  (group % half * merge + inner % merge, group / half * merge + inner / merge)

/-- The tokens of a video, a block for each pair of frames. -/
structure Superframes (α : Type*) where
  tokens : Nat → α
  pairs : Nat
  geometry : Geometry

/-- The second halves of so many tokens, from the scratch to those at `destination`. -/
def copySecondHalves {α : Type*} (scratch : Nat → α) (destination tokens : Nat) : (Nat → α) → Nat → α :=
  loop tokens fun token mem => Copy.exec scratch mem
    ⟨destination + token * tokenValues + patchValues, token * tokenValues + patchValues, patchValues⟩

def superframeStep {α : Type*} (frames : Nat → α) (frameCount width height : UInt32) (g : Geometry)
    (state : (Nat → α) × (Nat → α)) (pair : Nat) : Except Error ((Nat → α) × (Nat → α)) := do
  let frameValues := width.toNat * height.toNat * 3 % 2 ^ 64
  let first := 2 * pair
  let second := if first + 1 ≥ frameCount.toNat then first else first + 1
  let destination := pair * (g.tokens.toNat * tokenValues)
  let output ← towerPatchify (fun i => frames (first * frameValues % 2 ^ 64 + i)) width height destination g state.1
  let scratch ← towerPatchify (fun i => frames (second * frameValues % 2 ^ 64 + i)) width height 0 g state.2
  pure (copySecondHalves scratch destination g.tokens.toNat output, scratch)

/-- `fg_video_superframes` with the memory it gets for its tokens and its scratch; undefined where it divides by no
pair. -/
def videoSuperframes {α : Type*} (frames : Nat → α) (frameCount width height : UInt32) (output scratch : Nat → α) :
    Option (Except Error (Superframes α)) :=
  if frameCount == 0 then some (.error ⟨.argument, "invalid video super-frame request"⟩)
  else match towerImageGeometry width height with
    | .error e => some (.error e)
    | .ok g =>
      let pairs := ((frameCount + 1) / 2).toNat
      let pairValues := g.tokens.toNat * tokenValues
      if pairs = 0 then none
      else if pairValues > sizeMax / 4 / pairs then
        some (.error ⟨.limit, "video super-frame token budget overflows"⟩)
      else
        some (((List.range pairs).foldlM (superframeStep frames frameCount width height g) (output, scratch)).map
          fun state => ⟨state.1, pairs, g⟩)

/-- What the image has at a place of the token array, for a memory that nothing else wrote. -/
def origin (g : Geometry) (place : Nat) : Option Nat :=
  (towerPatchify some g.imageWidth g.imageHeight 0 g fun _ => none).toOption.bind fun mem => mem place

/-- Each half of the tokens has every pixel at one place, in the token of its patch; every place of the array is
written, and every image goes the same way. -/
structure PatchOrder (g : Geometry) : Prop where
  placed : ∀ half < 2, ∀ c < 3, ∀ y < g.imageHeight.toNat, ∀ x < g.imageWidth.toNat,
    ∃ token < g.tokens.toNat, towerTokenCoords g token = (x / patchSize, y / patchSize) ∧ ∃ e < patchValues,
      ∀ token' < g.tokens.toNat, ∀ e' < patchValues,
        origin g (token' * tokenValues + half * patchValues + e') =
          some ((c * g.imageHeight.toNat + y) * g.imageWidth.toNat + x) ↔ token' = token ∧ e' = e
  written : ∀ place < g.tokens.toNat * tokenValues, (origin g place).isSome
  moves : ∀ (α : Type) (image : Nat → α) (tokens : Nat) (mem : Nat → α), ∃ mem',
    towerPatchify image g.imageWidth g.imageHeight tokens g mem = .ok mem' ∧
      ∀ place, mem' (tokens + place) = ((origin g place).map image).getD (mem (tokens + place))

/-- The pairs hold frame `2p` in the first halves of their tokens and frame `2p + 1`, or the last one, in the
second. -/
def SuperframeOrder (g : Geometry) : Prop :=
  ∀ (α : Type) (frames output scratch : Nat → α) (frameCount : UInt32) (r : Superframes α),
    videoSuperframes frames frameCount g.imageWidth g.imageHeight output scratch = some (.ok r) →
      r.geometry = g ∧ r.pairs = (frameCount.toNat + 1) / 2 ∧
        ∀ pair < r.pairs, ∀ token < g.tokens.toNat, ∀ half < 2, ∀ e < patchValues,
          ∃ a, origin g (token * tokenValues + half * patchValues + e) = some a ∧
            r.tokens ((pair * g.tokens.toNat + token) * tokenValues + half * patchValues + e) =
              frames ((if half = 0 then 2 * pair else min (2 * pair + 1) (frameCount.toNat - 1)) *
                (g.imageWidth.toNat * g.imageHeight.toNat * 3) + a)

/-- A valid geometry in blocks of two by two patches: `a` across and `b` down. -/
structure Shape (g : Geometry) (a b : Nat) : Prop where
  across : 0 < a
  gridWidth : g.gridWidth.toNat = 2 * a
  gridHeight : g.gridHeight.toNat = 2 * b
  imageWidth : g.imageWidth.toNat = 32 * a
  imageHeight : g.imageHeight.toNat = 32 * b
  tokens : g.tokens.toNat = 4 * (a * b) % 2 ^ 32

variable {g : Geometry} {a b : Nat}

theorem shape_of_valid (h : towerGeometryValid g = true) : ∃ a b, Shape g a b := by
  simp only [towerGeometryValid, Bool.and_eq_true, bne_iff_ne, beq_iff_eq, ne_eq, ← UInt32.toNat_inj, UInt32.toNat_mod,
    UInt32.toNat_div, UInt32.toNat_mul, UInt32.reduceToNat] at h
  obtain ⟨⟨⟨⟨⟨⟨⟨⟨⟨⟨⟨-, -⟩, hw⟩, hh⟩, hgw⟩, hgh⟩, hgw0⟩, -⟩, hgw2⟩, hgh2⟩, htokens⟩, -⟩ := h
  refine ⟨g.gridWidth.toNat / 2, g.gridHeight.toNat / 2, ?_, ?_, ?_, ?_, ?_, ?_⟩
  all_goals try omega
  have hgrid : 4 * (g.gridWidth.toNat / 2 * (g.gridHeight.toNat / 2)) =
      2 * (g.gridWidth.toNat / 2) * (2 * (g.gridHeight.toNat / 2)) := (Nat.mul_mul_mul_comm 2 _ 2 _).symm
  rw [hgrid, htokens]
  congr 2 <;> omega

def tokenAt (a X Y : Nat) : Nat := (Y / 2 * a + X / 2) * 4 + Y % 2 * 2 + X % 2

theorem coords_tokenAt (s : Shape g a b) {X : Nat} (hX : X < 2 * a) (Y : Nat) :
    towerTokenCoords g (tokenAt a X Y) = (X, Y) := by
  have hgroup : tokenAt a X Y / 4 = Y / 2 * a + X / 2 := by rw [tokenAt]; omega
  have hinner : tokenAt a X Y % 4 = Y % 2 * 2 + X % 2 := by rw [tokenAt]; omega
  have hhalf : 2 * a / 2 = a := by omega
  have hcol : X / 2 < a := by omega
  have hmod : (Y / 2 * a + X / 2) % a = X / 2 := by rw [Nat.mul_add_mod_self_right, Nat.mod_eq_of_lt hcol]
  have hdiv : (Y / 2 * a + X / 2) / a = Y / 2 := by
    rw [Nat.add_comm, Nat.add_mul_div_right _ _ s.across, Nat.div_eq_of_lt hcol, Nat.zero_add]
  simp only [towerTokenCoords, s.gridWidth, mergeFactor, merge, hhalf, hgroup, hinner, hmod, hdiv, Prod.mk.injEq]
  omega

theorem tokenAt_coords (s : Shape g a b) (t : Nat) :
    tokenAt a (towerTokenCoords g t).1 (towerTokenCoords g t).2 = t := by
  have hhalf : 2 * a / 2 = a := by omega
  have hrow : (t / 4 / a * 2 + t % 4 / 2) / 2 = t / 4 / a := by omega
  have hcol : (t / 4 % a * 2 + t % 4 % 2) / 2 = t / 4 % a := by omega
  have hgroup : t / 4 / a * a + t / 4 % a = t / 4 := Nat.div_add_mod' _ _
  simp only [towerTokenCoords, tokenAt, s.gridWidth, mergeFactor, merge, hhalf, hrow, hcol, hgroup]
  omega

theorem tokenAt_lt {X Y : Nat} (hX : X < 2 * a) (hY : Y < 2 * b) : tokenAt a X Y < 4 * (a * b) := by
  have hrow : (Y / 2 + 1) * a ≤ b * a := Nat.mul_le_mul_right a (by omega)
  rw [Nat.add_one_mul, Nat.mul_comm b] at hrow
  rw [tokenAt]
  omega

/-! ## The copies of an image -/

section Copies

variable {α : Type*} {image mem : Nat → α} {tokens : Nat}

def sourceOf (g : Geometry) (place : Nat) : Nat :=
  let (X, Y) := towerTokenCoords g (place / 1536)
  let e := place % 768
  (e / 256 * g.imageHeight.toNat + (Y * 16 + e / 16 % 16)) * g.imageWidth.toNat + (X * 16 + e % 16)

theorem sourceOf_place (token half : Nat) {e : Nat} (hhalf : half < 2) (he : e < 768) :
    sourceOf g (token * 1536 + half * 768 + e) =
      (e / 256 * g.imageHeight.toNat + ((towerTokenCoords g token).2 * 16 + e / 16 % 16)) * g.imageWidth.toNat +
        ((towerTokenCoords g token).1 * 16 + e % 16) := by
  have htoken : (token * 1536 + half * 768 + e) / 1536 = token := by omega
  have hrest : (token * 1536 + half * 768 + e) % 768 = e := by omega
  simp only [sourceOf, htoken, hrest]

theorem rows_iff {dst p : Nat} : (∃ c < 3, ∃ py < 16, dst + c * 256 + py * 16 ≤ p ∧ p < dst + c * 256 + py * 16 + 16) ↔
    dst ≤ p ∧ p < dst + 768 := by
  constructor
  · rintro ⟨c, hc, py, hpy, hp⟩
    omega
  · intro hp
    exact ⟨(p - dst) / 256, by omega, (p - dst) / 16 % 16, by omega, by omega⟩

theorem copyToken_fills {goal : Nat → α} {dst bx by_ dx dy width height : Nat}
    (hgoal : ∀ half < 2, ∀ e < 768, goal (dst + half * 768 + e) =
      image ((e / 256 * height + ((by_ * 2 + dy) * 16 + e / 16 % 16)) * width + ((bx * 2 + dx) * 16 + e % 16))) :
    Fills goal (fun p => dst ≤ p ∧ p < dst + 1536) (copyToken image width height bx by_ dx dy dst) := by
  have hrows : Fills goal (fun p => ∃ c < 3, ∃ py < 16, dst + c * 256 + py * 16 ≤ p ∧
      p < dst + c * 256 + py * 16 + 16) _ :=
    Fills.loop (n := 3) fun c hc => Fills.loop (n := 16) fun py hpy => @Copy.fills _ image _
      ⟨dst + c * 256 + py * 16, (c * height + ((by_ * 2 + dy) * 16 + py)) * width + (bx * 2 + dx) * 16, 16⟩
      fun i (hi : i < 16) => by
        have hplace : dst + c * 256 + py * 16 + i = dst + 0 * 768 + (c * 256 + py * 16 + i) := by omega
        have hc' : (c * 256 + py * 16 + i) / 256 = c := by omega
        have hpy' : (c * 256 + py * 16 + i) / 16 % 16 = py := by omega
        have hi' : (c * 256 + py * 16 + i) % 16 = i := by omega
        rw [hplace, hgoal 0 (by decide) _ (by omega), hc', hpy', hi', Nat.add_assoc]
  simp only [rows_iff] at hrows
  intro mem p
  obtain ⟨hin, hout⟩ := hrows mem p
  refine ⟨fun hp => ?_, fun hp => ?_⟩
  · by_cases hhalf : p < dst + 768
    · have hframe : ¬ (dst + 768 ≤ p ∧ p < dst + 768 + 768) := by omega
      exact (if_neg hframe).trans (hin ⟨hp.1, hhalf⟩)
    · have hsecond : dst + 768 ≤ p ∧ p < dst + 768 + 768 := by omega
      have hplace : p = dst + 1 * 768 + (p - (dst + 768)) := by omega
      have hfirst : dst + (p - (dst + 768)) = dst + 0 * 768 + (p - (dst + 768)) := by omega
      calc copyToken image width height bx by_ dx dy dst mem p = _ := if_pos hsecond
        _ = goal (dst + (p - (dst + 768))) := (hrows mem _).1 (by simp only [patchValues_eq]; omega)
        _ = goal (dst + 1 * 768 + (p - (dst + 768))) := by
          rw [hfirst, hgoal 0 (by decide) _ (by omega), hgoal 1 (by decide) _ (by omega)]
        _ = goal p := by rw [← hplace]
  · have hframe : ¬ (dst + 768 ≤ p ∧ p < dst + 768 + 768) := by omega
    exact (if_neg hframe).trans (hout fun h => hp ⟨h.1, by omega⟩)

theorem tokenAt_block {bx by_ dx dy : Nat} (hdx : dx < 2) (hdy : dy < 2) :
    tokenAt a (bx * 2 + dx) (by_ * 2 + dy) = (by_ * a + bx) * 4 + dy * 2 + dx := by
  have hrow : (by_ * 2 + dy) / 2 = by_ := by omega
  have hcol : (bx * 2 + dx) / 2 = bx := by omega
  rw [tokenAt, hrow, hcol]
  omega

/-- Where no token number wraps, the blocks are the array. -/
theorem blocks_iff (ha : 0 < a) (hwrap : 4 * (a * b) < 2 ^ 32) {p : Nat} :
    (∃ by_ < b, ∃ bx < a, ∃ dy < 2, ∃ dx < 2, tokens + ((by_ * a + bx) * 4 + dy * 2 + dx) % 2 ^ 32 * 1536 ≤ p ∧
      p < tokens + ((by_ * a + bx) * 4 + dy * 2 + dx) % 2 ^ 32 * 1536 + 1536) ↔
        tokens ≤ p ∧ p < tokens + 4 * (a * b) * 1536 := by
  constructor
  · rintro ⟨by_, hby, bx, hbx, dy, hdy, dx, hdx, hp⟩
    have hlt : tokenAt a (bx * 2 + dx) (by_ * 2 + dy) < 4 * (a * b) := tokenAt_lt (by omega) (by omega)
    rw [tokenAt_block hdx hdy] at hlt
    omega
  · intro hp
    have hgroup : (p - tokens) / 1536 / 4 / a * a + (p - tokens) / 1536 / 4 % a = (p - tokens) / 1536 / 4 :=
      Nat.div_add_mod' _ _
    refine ⟨(p - tokens) / 1536 / 4 / a, Nat.div_lt_of_lt_mul (by omega), (p - tokens) / 1536 / 4 % a,
      Nat.mod_lt _ ha, (p - tokens) / 1536 % 4 / 2, by omega, (p - tokens) / 1536 % 2, by omega, ?_⟩
    rw [hgroup, Nat.mod_eq_of_lt (by omega)]
    omega

/-- The array at `tokens` has the image in the order of its patches, and the rest of memory is as it was. -/
def Patched (g : Geometry) (image : Nat → α) (tokens : Nat) (mem mem' : Nat → α) : Prop :=
  ∀ p, (tokens ≤ p ∧ p < tokens + g.tokens.toNat * 1536 → mem' p = image (sourceOf g (p - tokens))) ∧
    (¬ (tokens ≤ p ∧ p < tokens + g.tokens.toNat * 1536) → mem' p = mem p)

theorem towerPatchify_patched (hvalid : towerGeometryValid g = true) (s : Shape g a b) (hwrap : 4 * (a * b) < 2 ^ 32)
    (image : Nat → α) (tokens : Nat) (mem : Nat → α) : ∃ mem',
      towerPatchify image g.imageWidth g.imageHeight tokens g mem = .ok mem' ∧ Patched g image tokens mem mem' := by
  have hhalf : 2 * a / 2 = a := by omega
  have hheight : 2 * b / 2 = b := by omega
  have htokens : g.tokens.toNat = 4 * (a * b) := s.tokens.trans (Nat.mod_eq_of_lt hwrap)
  have hfills : Fills (fun p => image (sourceOf g (p - tokens))) (fun p => tokens ≤ p ∧ p < tokens + 4 * (a * b) * 1536)
      (loop b fun by_ => loop a fun bx => loop 2 fun dy => loop 2 fun dx => copyToken image g.imageWidth.toNat
        g.imageHeight.toNat bx by_ dx dy (tokens + ((by_ * a + bx) * 4 + dy * 2 + dx) % 2 ^ 32 * 1536)) := by
    simp only [← blocks_iff s.across hwrap]
    refine Fills.loop fun by_ hby => Fills.loop fun bx hbx => Fills.loop fun dy hdy => Fills.loop fun dx hdx =>
      copyToken_fills fun half hhalf e he => ?_
    have hlt : tokenAt a (bx * 2 + dx) (by_ * 2 + dy) < 4 * (a * b) := tokenAt_lt (by omega) (by omega)
    have hcoords := coords_tokenAt s (X := bx * 2 + dx) (by omega) (by_ * 2 + dy)
    rw [tokenAt_block hdx hdy] at hlt hcoords
    rw [Nat.mod_eq_of_lt (by omega), Nat.add_assoc, Nat.add_assoc, Nat.add_sub_cancel_left, ← Nat.add_assoc,
      sourceOf_place _ _ hhalf he, hcoords]
  refine ⟨_, if_neg (by simp [hvalid]), ?_⟩
  rw [Patched, htokens]
  simp only [s.gridWidth, s.gridHeight, merge, hhalf, hheight]
  exact hfills mem

end Copies

theorem copySecondHalves_eq {α : Type*} (output scratch : Nat → α) (dst tokens : Nat) :
    (∀ k < tokens * 1536, copySecondHalves scratch dst tokens output (dst + k) =
      if k % 1536 < 768 then output (dst + k) else scratch k) ∧
      ∀ p < dst, copySecondHalves scratch dst tokens output p = output p := by
  have hfills : Fills (fun p => scratch (p - dst))
      (fun p => ∃ token < tokens, dst + token * 1536 + 768 ≤ p ∧ p < dst + token * 1536 + 768 + 768)
      (copySecondHalves scratch dst tokens) :=
    Fills.loop fun token _ => @Copy.fills _ scratch _ ⟨dst + token * 1536 + 768, token * 1536 + 768, 768⟩
      fun i _ => by
        have hplace : dst + token * 1536 + 768 + i - dst = token * 1536 + 768 + i := by omega
        rw [hplace]
  refine ⟨fun k hk => ?_, fun p hp => (hfills output p).2 fun ⟨token, _, h⟩ => by omega⟩
  split
  · exact (hfills output _).2 fun ⟨token, _, h⟩ => by omega
  · have hin := (hfills output (dst + k)).1 ⟨k / 1536, by omega, by omega⟩
    simpa only [Nat.add_sub_cancel_left] using hin

section Order

variable (s : Shape g a b) (hwrap : 4 * (a * b) < 2 ^ 32)
include s

theorem coords_lt {token : Nat} (htoken : token < g.tokens.toNat) :
    (towerTokenCoords g token).1 < 2 * a ∧ (towerTokenCoords g token).2 < 2 * b := by
  have hhalf : 2 * a / 2 = a := by omega
  have hcol : token / 4 % a < a := Nat.mod_lt _ s.across
  have hrow : token / 4 / a < b := Nat.div_lt_of_lt_mul (by rw [s.tokens] at htoken; omega)
  simp only [towerTokenCoords, s.gridWidth, mergeFactor_eq, merge, hhalf]
  omega

include hwrap

def frameOf (frameCount half pair : Nat) : Nat := if half = 0 then 2 * pair else min (2 * pair + 1) (frameCount - 1)

theorem frame_start (frameCount : UInt32) {pair pairs : Nat} (hpairs : pairs = (frameCount.toNat + 1) / 2)
    (hbudget : g.tokens.toNat * 1536 * pairs < 2 ^ 64) (hpair : pair < pairs) (half : Nat) :
    frameOf frameCount.toNat half pair * (g.imageWidth.toNat * g.imageHeight.toNat * 3 % 2 ^ 64) % 2 ^ 64 =
      frameOf frameCount.toNat half pair * (g.imageWidth.toNat * g.imageHeight.toNat * 3) := by
  have htokens : g.tokens.toNat = 4 * (a * b) := s.tokens.trans (Nat.mod_eq_of_lt hwrap)
  have hvalues : g.imageWidth.toNat * g.imageHeight.toNat * 3 = 3072 * (a * b) := by
    rw [s.imageWidth, s.imageHeight, Nat.mul_mul_mul_comm]
    omega
  have hframe : frameOf frameCount.toNat half pair ≤ 2 * pairs := by
    rw [frameOf]
    split <;> omega
  have hplace : frameOf frameCount.toNat half pair * (3072 * (a * b)) ≤ 2 * pairs * (3072 * (a * b)) :=
    Nat.mul_le_mul_right _ hframe
  have hsum : 2 * pairs * (3072 * (a * b)) = g.tokens.toNat * 1536 * pairs := by
    rw [htokens]
    ring
  rw [hvalues, Nat.mod_eq_of_lt (a := 3072 * (a * b)) (by omega), Nat.mod_eq_of_lt (by omega)]

variable (hvalid : towerGeometryValid g = true)
include hvalid

theorem origin_eq (place : Nat) :
    origin g place = if place < g.tokens.toNat * 1536 then some (sourceOf g place) else none := by
  obtain ⟨mem, heq, hmem⟩ := towerPatchify_patched hvalid s hwrap some 0 fun _ => none
  have horigin : origin g place = mem place := by
    rw [origin, heq]
    rfl
  rw [horigin]
  split
  · have hin := (hmem place).1 (by omega)
    rwa [Nat.sub_zero] at hin
  · exact (hmem place).2 (by omega)

theorem patchOrder : PatchOrder g where
  placed := by
    intro half hhalf c hc y hy x hx
    have htokens : g.tokens.toNat = 4 * (a * b) := s.tokens.trans (Nat.mod_eq_of_lt hwrap)
    have hX : x / 16 < 2 * a := by have := s.imageWidth; omega
    have hY : y / 16 < 2 * b := by have := s.imageHeight; omega
    have hcoords := coords_tokenAt s hX (y / 16)
    refine ⟨tokenAt a (x / 16) (y / 16), htokens ▸ tokenAt_lt hX hY, hcoords, c * 256 + y % 16 * 16 + x % 16,
      by rw [patchValues_eq]; omega, fun token htoken e he => ?_⟩
    obtain ⟨hcol, hrow⟩ := coords_lt s htoken
    rw [tokenValues_eq, patchValues_eq, origin_eq s hwrap hvalid, if_pos (by rw [patchValues_eq] at he; omega),
      sourceOf_place token half hhalf he, Option.some_inj]
    constructor
    · intro heq
      obtain ⟨hline, hx'⟩ := digits_unique (by rw [s.imageWidth]; omega) hx heq
      obtain ⟨hc', hy'⟩ := digits_unique (by rw [s.imageHeight]; omega) hy hline
      refine ⟨?_, by omega⟩
      rw [← tokenAt_coords s token]
      congr 1 <;> omega
    · rintro ⟨rfl, rfl⟩
      have hchannel : (c * 256 + y % 16 * 16 + x % 16) / 256 = c := by omega
      have hy' : y / 16 * 16 + (c * 256 + y % 16 * 16 + x % 16) / 16 % 16 = y := by omega
      have hx' : x / 16 * 16 + (c * 256 + y % 16 * 16 + x % 16) % 16 = x := by omega
      simp only [hcoords, hchannel, hy', hx']
  written place hplace := by
    rw [tokenValues_eq] at hplace
    rw [origin_eq s hwrap hvalid, if_pos hplace]
    rfl
  moves α image tokens mem := by
    obtain ⟨mem', heq, hmem⟩ := towerPatchify_patched hvalid s hwrap image tokens mem
    refine ⟨mem', heq, fun place => ?_⟩
    rw [origin_eq s hwrap hvalid]
    obtain ⟨hin, hout⟩ := hmem (tokens + place)
    split
    · rw [hin (by omega), Nat.add_sub_cancel_left]
      rfl
    · exact hout (by omega)

variable {α : Type*} (frames : Nat → α) (frameCount : UInt32) {pair pairs : Nat}
  (hpairs : pairs = (frameCount.toNat + 1) / 2) (hbudget : g.tokens.toNat * 1536 * pairs < 2 ^ 64)

def Placed (g : Geometry) (frames : Nat → α) (frameCount : UInt32) (pair : Nat) (output : Nat → α) : Prop :=
  ∀ k < g.tokens.toNat * 1536, output (pair * (g.tokens.toNat * 1536) + k) = frames
    (frameOf frameCount.toNat (k % 1536 / 768) pair * (g.imageWidth.toNat * g.imageHeight.toNat * 3) + sourceOf g k)

include hpairs hbudget

theorem superframeStep_places (hpair : pair < pairs) (state : (Nat → α) × (Nat → α)) : ∃ state',
    superframeStep frames frameCount g.imageWidth g.imageHeight g state pair = .ok state' ∧
      Placed g frames frameCount pair state'.1 ∧ ∀ p < pair * (g.tokens.toNat * 1536), state'.1 p = state.1 p := by
  have hstart := frame_start s hwrap frameCount hpairs hbudget hpair
  have hother : (if 2 * pair + 1 ≥ frameCount.toNat then 2 * pair else 2 * pair + 1) =
      frameOf frameCount.toNat 1 pair := by
    rw [frameOf, if_neg Nat.one_ne_zero]
    split <;> omega
  obtain ⟨output, hfirst, hout⟩ := towerPatchify_patched hvalid s hwrap (fun i => frames (2 * pair *
    (g.imageWidth.toNat * g.imageHeight.toNat * 3 % 2 ^ 64) % 2 ^ 64 + i)) (pair * (g.tokens.toNat * 1536)) state.1
  obtain ⟨scratch, hsecond, hscratch⟩ := towerPatchify_patched hvalid s hwrap (fun i => frames (frameOf frameCount.toNat
    1 pair * (g.imageWidth.toNat * g.imageHeight.toNat * 3 % 2 ^ 64) % 2 ^ 64 + i)) 0 state.2
  obtain ⟨hhalves, hbelow⟩ := copySecondHalves_eq output scratch (pair * (g.tokens.toNat * 1536)) g.tokens.toNat
  refine ⟨(copySecondHalves scratch (pair * (g.tokens.toNat * 1536)) g.tokens.toNat output, scratch), ?_,
    fun k hk => ?_, fun p hp => ?_⟩
  · simp only [superframeStep, hother, tokenValues_eq, hfirst, hsecond]
    rfl
  · refine (hhalves k hk).trans ?_
    split
    · have hzero : k % 1536 / 768 = 0 := by omega
      rw [hzero, ← hstart 0, (hout _).1 (by omega), Nat.add_sub_cancel_left]
      rfl
    · have hone : k % 1536 / 768 = 1 := by omega
      rw [hone, ← hstart 1, (hscratch _).1 (by omega), Nat.sub_zero]
  · exact (hbelow p hp).trans ((hout p).2 (by omega))

/-- After so many pairs every earlier pair is in place: a pair writes nothing below its own tokens. -/
theorem superframes_places (output scratch : Nat → α) {n : Nat} (hn : n ≤ pairs) : ∃ state,
    (List.range n).foldlM (superframeStep frames frameCount g.imageWidth g.imageHeight g) (output, scratch) = .ok state ∧
      ∀ pair < n, Placed g frames frameCount pair state.1 := by
  induction n with
  | zero => exact ⟨_, rfl, fun pair hpair => absurd hpair (Nat.not_lt_zero pair)⟩
  | succ n ih =>
    obtain ⟨state, hstate, hplaces⟩ := ih (Nat.le_of_succ_le hn)
    obtain ⟨state', hstep, hplace, hbelow⟩ :=
      superframeStep_places s hwrap hvalid frames frameCount hpairs hbudget (Nat.lt_of_succ_le hn) state
    refine ⟨state', ?_, fun pair hpair k hk => ?_⟩
    · rw [List.range_succ, List.foldlM_append, hstate]
      simp only [List.foldlM_cons, List.foldlM_nil, bind_pure]
      exact hstep
    · rcases Nat.lt_succ_iff_lt_or_eq.mp hpair with hlt | rfl
      · have hend : (pair + 1) * (g.tokens.toNat * 1536) ≤ n * (g.tokens.toNat * 1536) := Nat.mul_le_mul_right _ hlt
        rw [Nat.add_one_mul] at hend
        rw [hbelow _ (by omega), hplaces pair hlt k hk]
      · exact hplace k hk

end Order

theorem towerImageGeometry_eq {g' : Geometry} (hvalid : towerGeometryValid g = true)
    (h : towerImageGeometry g.imageWidth g.imageHeight = .ok g') : g' = g := by
  simp only [towerGeometryValid, Bool.and_eq_true, beq_iff_eq] at hvalid
  obtain ⟨⟨⟨⟨⟨⟨⟨⟨-, hgw⟩, hgh⟩, -⟩, -⟩, -⟩, -⟩, htokens⟩, hmerged⟩ := hvalid
  simp only [towerImageGeometry, ← hgw, ← hgh, ← htokens, ← hmerged] at h
  split at h
  · cases h
  split at h
  · cases h
  split at h
  · exact (Except.ok.inj h).symm
  · cases h

theorem superframeOrder (hvalid : towerGeometryValid g = true) (s : Shape g a b) (hwrap : 4 * (a * b) < 2 ^ 32) :
    SuperframeOrder g := by
  intro α frames output scratch frameCount r h
  simp only [videoSuperframes] at h
  split at h
  · simp at h
  split at h
  · simp at h
  rename_i g' hgeometry
  obtain rfl := towerImageGeometry_eq hvalid hgeometry
  split at h
  · simp at h
  split at h
  · simp at h
  rename_i hcount _ hpos hlimit
  have hpairs : ((frameCount + 1) / 2).toNat = (frameCount.toNat + 1) / 2 := by
    simp only [UInt32.toNat_div, UInt32.toNat_add, UInt32.reduceToNat] at hpos ⊢
    have := frameCount.toNat_lt
    omega
  rw [hpairs] at hpos
  rw [tokenValues_eq, hpairs] at hlimit
  rw [hpairs] at h
  have hbudget : g'.tokens.toNat * 1536 * ((frameCount.toNat + 1) / 2) < 2 ^ 64 := by
    have hle := (Nat.le_div_iff_mul_le (Nat.pos_of_ne_zero hpos)).mp (Nat.le_of_not_lt hlimit)
    exact hle.trans_lt (by decide)
  obtain ⟨state, hrun, hplaces⟩ := superframes_places s hwrap hvalid frames frameCount rfl hbudget output scratch le_rfl
  rw [hrun] at h
  obtain rfl : ⟨state.1, (frameCount.toNat + 1) / 2, g'⟩ = r := Except.ok.inj (Option.some.inj h)
  refine ⟨rfl, rfl, fun pair hpair token htoken half hhalf e he => ?_⟩
  rw [patchValues_eq] at he
  rw [tokenValues_eq, patchValues_eq]
  refine ⟨_, (origin_eq s hwrap hvalid _).trans (if_pos (by omega)), ?_⟩
  have hplace := hplaces pair hpair (token * 1536 + half * 768 + e) (by omega)
  have hhalf' : (token * 1536 + half * 768 + e) % 1536 / 768 = half := by omega
  rw [hhalf'] at hplace
  rw [← frameOf, ← hplace]
  exact congrArg state.1 (by ring)

/-- The order of the patches and of the frames is kept just where the number of patches does not wrap. -/
theorem patchOrder_iff (g : Geometry) (hvalid : towerGeometryValid g = true) :
    PatchOrder g ∧ SuperframeOrder g ↔ g.gridWidth.toNat * g.gridHeight.toNat < 2 ^ 32 := by
  obtain ⟨a, b, s⟩ := shape_of_valid hvalid
  have hgrid : g.gridWidth.toNat * g.gridHeight.toNat = 4 * (a * b) := by
    rw [s.gridWidth, s.gridHeight, Nat.mul_mul_mul_comm]
  rw [hgrid]
  refine ⟨fun h => ?_, fun hwrap => ⟨patchOrder s hwrap hvalid, superframeOrder hvalid s hwrap⟩⟩
  by_contra hwrap
  -- The last pixel is in the patch whose number is one less than the product; the wrapped count is below it.
  obtain ⟨b, rfl⟩ : ∃ c, b = c + 1 := Nat.exists_eq_add_one.mpr (Nat.pos_of_ne_zero fun h0 => hwrap (by simp [h0]))
  have hwidth := s.imageWidth
  have hheight := s.imageHeight
  have hacross := s.across
  obtain ⟨token, htoken, hcoords, -⟩ := h.1.placed 0 (by decide) 0 (by decide) (g.imageHeight.toNat - 1) (by omega)
    (g.imageWidth.toNat - 1) (by omega)
  have hlast := tokenAt_coords s token
  have hcol : (g.imageWidth.toNat - 1) / 16 = 2 * (a - 1) + 1 := by omega
  have hrow : (g.imageHeight.toNat - 1) / 16 = 2 * b + 1 := by omega
  rw [hcoords, hcol, hrow, Nat.mul_comm 2 (a - 1), Nat.mul_comm 2 b, tokenAt_block (by decide) (by decide)] at hlast
  rw [s.tokens] at htoken
  rw [Nat.mul_add_one, Nat.mul_comm a b] at hwrap htoken
  omega

theorem patchOrder_iff_square : PatchOrder ⟨128, 128, 8, 8, 64, 16⟩ ∧ SuperframeOrder ⟨128, 128, 8, 8, 64, 16⟩ :=
  (patchOrder_iff ⟨128, 128, 8, 8, 64, 16⟩ (by decide)).mpr (by decide)

/-- The geometry of a large image has no token, and no place for any pixel. -/
theorem patchOrder_wrap :
    towerGeometryValid ⟨1048576, 1048576, 65536, 65536, 0, 0⟩ = true ∧
      ¬ PatchOrder ⟨1048576, 1048576, 65536, 65536, 0, 0⟩ := by
  refine ⟨by decide, fun h => ?_⟩
  obtain ⟨token, htoken, -⟩ := h.placed 0 (by decide) 0 (by decide) 0 (by decide) 0 (by decide)
  exact absurd htoken (Nat.not_lt_zero token)

end FlashGordon.TowerPatch
