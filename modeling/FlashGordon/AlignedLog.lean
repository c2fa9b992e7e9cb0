import Mathlib

/-!
Items written one after another, each from the next multiple of an alignment on. They are aligned, apart and in
order, the log ends where its last item does, and its length is what the items take when each is rounded up.
-/

namespace AlignedLog

/-- The next multiple of `a`. -/
def up (a n : Nat) : Nat := (n + (a - 1)) / a * a

section Up

variable {a : Nat} (ha : 0 < a)
include ha

theorem le_up (n : Nat) : n ≤ up a n := by
  have hmod := Nat.mod_lt (n + (a - 1)) ha
  have hsplit := Nat.div_add_mod' (n + (a - 1)) a
  rw [up]
  omega

theorem up_zero : up a 0 = 0 := by
  rw [up, Nat.div_eq_of_lt (by omega), Nat.zero_mul]

theorem up_add (m n : Nat) : up a (up a m + n) = up a m + up a n := by
  have hsum : up a m + n + (a - 1) = (m + (a - 1)) / a * a + (n + (a - 1)) := by rw [up, Nat.add_assoc]
  have hdiv : (up a m + n + (a - 1)) / a = (m + (a - 1)) / a + (n + (a - 1)) / a := by
    rw [hsum, Nat.add_comm, Nat.add_mul_div_right _ _ ha, Nat.add_comm]
  rw [up, hdiv, Nat.add_mul]
  rfl

end Up

variable {ι : Type} {a : Nat} {first size : ι → Nat} {items : List ι} {top : Nat}

/-- The items of a log, and where it has ended. -/
inductive Laid (a : Nat) (first size : ι → Nat) : List ι → Nat → Prop
  | empty : Laid a first size [] 0
  | snoc {items : List ι} {top : Nat} {item : ι} :
      Laid a first size items top → first item = up a top →
        Laid a first size (items ++ [item]) (up a top + size item)

namespace Laid

theorem aligned (h : Laid a first size items top) : ∀ item ∈ items, first item % a = 0 := by
  induction h with
  | empty => exact fun item hitem => absurd hitem List.not_mem_nil
  | snoc hlaid hfirst ih =>
    intro item hitem
    rcases List.mem_append.mp hitem with hold | hnew
    · exact ih item hold
    · rw [List.mem_singleton.mp hnew, hfirst]
      exact Nat.mul_mod_left _ a

variable (ha : 0 < a)
include ha

section

variable (h : Laid a first size items top)
include h

theorem within : ∀ item ∈ items, first item + size item ≤ top := by
  induction h with
  | empty => exact fun item hitem => absurd hitem List.not_mem_nil
  | @snoc items top item hlaid hfirst ih =>
    intro other hother
    rcases List.mem_append.mp hother with hold | hnew
    · exact ((ih other hold).trans (le_up ha top)).trans (Nat.le_add_right _ _)
    · rw [List.mem_singleton.mp hnew, hfirst]

theorem inOrder : items.Pairwise fun x y => first x + size x ≤ first y := by
  induction h with
  | empty => exact .nil
  | @snoc items top item hlaid hfirst ih =>
    refine List.pairwise_append.mpr ⟨ih, List.pairwise_singleton _ _, fun x hx y hy => ?_⟩
    rw [List.mem_singleton.mp hy, hfirst]
    exact (hlaid.within ha x hx).trans (le_up ha top)

theorem top_eq : (items.map fun x => first x + size x).foldl max 0 = top := by
  induction h with
  | empty => rfl
  | @snoc items top item hlaid hfirst ih =>
    rw [List.map_append, List.foldl_append, ih, List.map_singleton, hfirst]
    exact max_eq_right ((le_up ha top).trans (Nat.le_add_right _ _))

theorem total : (items.map fun x => up a (size x)).sum = up a top := by
  induction h with
  | empty => exact (up_zero ha).symm
  | @snoc items top item hlaid hfirst ih =>
    rw [List.map_append, List.sum_append, ih, up_add ha]
    rfl

end

end Laid

end AlignedLog
