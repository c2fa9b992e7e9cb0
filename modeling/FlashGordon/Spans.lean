import Mathlib

/-! Spans of numbers laid end to end. A list of nonempty spans tiles a line from a start when each begins
where the one before it ended; then every number between the start and the end lies in exactly one of
them. -/

namespace Spans

structure Span where
  first : Nat
  count : Nat
  deriving DecidableEq

def Span.Holds (span : Span) (n : Nat) : Prop := span.first ≤ n ∧ n < span.first + span.count

instance (span : Span) (n : Nat) : Decidable (span.Holds n) := inferInstanceAs (Decidable (_ ∧ _))

/-- How many numbers the spans hold together. -/
def total (spans : List Span) : Nat := (spans.map Span.count).sum

def Tiles : Nat → List Span → Prop
  | _, [] => True
  | start, span :: rest => span.first = start ∧ 0 < span.count ∧ Tiles (start + span.count) rest

variable {start n : Nat} {span other : Span} {spans : List Span}

@[simp] theorem total_nil : total [] = 0 := rfl

@[simp] theorem total_cons (span : Span) (spans : List Span) : total (span :: spans) = span.count + total spans := by
  simp [total]

@[simp] theorem total_append (spans others : List Span) : total (spans ++ others) = total spans + total others := by
  simp [total]

theorem tiles_append {others : List Span} :
    Tiles start (spans ++ others) ↔ Tiles start spans ∧ Tiles (start + total spans) others := by
  induction spans generalizing start with
  | nil => simp [Tiles]
  | cons span rest ih =>
    rw [List.cons_append, Tiles, Tiles, ih, total_cons, Nat.add_assoc]
    exact ⟨fun ⟨hfirst, hpos, hrest, hothers⟩ => ⟨⟨hfirst, hpos, hrest⟩, hothers⟩,
      fun ⟨⟨hfirst, hpos, hrest⟩, hothers⟩ => ⟨hfirst, hpos, hrest, hothers⟩⟩

section

variable (h : Tiles start spans)
include h

theorem Tiles.push (hfirst : span.first = start + total spans) (hpos : 0 < span.count) :
    Tiles start (spans ++ [span]) :=
  tiles_append.mpr ⟨h, hfirst, hpos, trivial⟩

theorem Tiles.within (hmem : span ∈ spans) :
    start ≤ span.first ∧ 0 < span.count ∧ span.first + span.count ≤ start + total spans := by
  induction spans generalizing start with
  | nil => exact absurd hmem List.not_mem_nil
  | cons head rest ih =>
    obtain ⟨hfirst, hpos, hrest⟩ := h
    rw [total_cons]
    rcases List.mem_cons.mp hmem with rfl | htail
    · omega
    · have hbounds := ih hrest htail
      omega

theorem Tiles.eq_nil (htotal : total spans = 0) : spans = [] := by
  cases spans with
  | nil => rfl
  | cons head rest =>
    have hpos := h.2.1
    rw [total_cons] at htotal
    omega

theorem Tiles.countP_holds (hle : start ≤ n) (hlt : n < start + total spans) :
    spans.countP (fun span => span.Holds n) = 1 := by
  induction spans generalizing start with
  | nil => simp at hlt; omega
  | cons head rest ih =>
    obtain ⟨rfl, hpos, hrest⟩ := h
    rw [total_cons] at hlt
    by_cases hhead : n < head.first + head.count
    · have hout : rest.countP (fun span => span.Holds n) = 0 := by
        rw [List.countP_eq_zero]
        intro span hmem
        have hbounds := hrest.within hmem
        rw [decide_eq_true_eq]
        rintro ⟨hge, -⟩
        omega
      have hin : head.Holds n := ⟨hle, hhead⟩
      simp [hin, hout]
    · have hnot : ¬ head.Holds n := fun hin => hhead hin.2
      simp only [List.countP_cons, hnot, decide_false, Bool.false_eq_true, if_false, Nat.add_zero]
      exact ih hrest (by omega) (by omega)

end

/-! ## The spans of a loop with a fixed step -/

variable {width last : Nat}

/-- `for (first = 0; first < last; first += width)`, the last span with what is left. -/
def steps (width last : Nat) : List Span :=
  (List.range ((last + width - 1) / width)).map fun i => ⟨i * width, min width (last - i * width)⟩

theorem tiles_steps (hwidth : 0 < width) : Tiles 0 (steps width last) ∧ total (steps width last) = last := by
  have hpartial : ∀ k, k ≤ (last + width - 1) / width →
      Tiles 0 ((List.range k).map fun i => ⟨i * width, min width (last - i * width)⟩) ∧
        total ((List.range k).map fun i => ⟨i * width, min width (last - i * width)⟩) = min last (k * width) := by
    intro k hk
    induction k with
    | zero => exact ⟨trivial, by simp⟩
    | succ k ih =>
      obtain ⟨htiles, htotal⟩ := ih (by omega)
      have hinside : k * width < last := by
        have hfull := (Nat.le_div_iff_mul_le hwidth).mp hk
        rw [Nat.succ_mul] at hfull
        omega
      rw [List.range_succ, List.map_append, List.map_singleton, total_append, htotal, Nat.succ_mul]
      refine ⟨htiles.push ?_ ?_, ?_⟩
      · rw [htotal]
        dsimp only
        omega
      · dsimp only
        omega
      · rw [total_cons, total_nil]
        dsimp only
        omega
  obtain ⟨htiles, htotal⟩ := hpartial _ (Nat.le_refl _)
  refine ⟨htiles, htotal.trans (Nat.min_eq_left ?_)⟩
  have hlast := Nat.div_add_mod (last + width - 1) width
  have hmod := Nat.mod_lt (last + width - 1) hwidth
  rw [Nat.mul_comm] at hlast
  omega

/-- Spans moved along the line. -/
theorem Tiles.shift (h : Tiles start spans) (distance : Nat) :
    Tiles (start + distance) (spans.map fun span => ⟨span.first + distance, span.count⟩) := by
  induction spans generalizing start with
  | nil => trivial
  | cons span rest ih =>
    obtain ⟨rfl, hpos, hrest⟩ := h
    have hmore := ih hrest
    rw [Nat.add_right_comm] at hmore
    exact ⟨rfl, hpos, hmore⟩

theorem total_shift (distance : Nat) :
    total (spans.map fun span => ⟨span.first + distance, span.count⟩) = total spans := by
  rw [total, List.map_map]
  rfl

end Spans
