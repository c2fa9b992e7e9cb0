import Mathlib.Data.List.Nodup

/-! Updating the cells of an array one list item after another. Each item addresses one cell and
rewrites it; when the items address pairwise distinct cells, every addressed cell is rewritten once,
from the value it had at the start, and the other cells keep their values. -/

namespace Scatter

variable {ι α β : Type*} [DecidableEq ι]

/-- `for item in items: cells[index item] = f item cells[index item]`. -/
def scatter (index : β → ι) (f : β → α → α) : List β → (ι → α) → ι → α
  | [], cells => cells
  | item :: rest, cells =>
    scatter index f rest (Function.update cells (index item) (f item (cells (index item))))

theorem scatter_nil (index : β → ι) (f : β → α → α) (cells : ι → α) : scatter index f [] cells = cells := rfl

variable {index : β → ι} {f : β → α → α} {items : List β} {cells : ι → α}

theorem scatter_of_not_mem {i : ι} (hi : ∀ item ∈ items, index item ≠ i) : scatter index f items cells i = cells i := by
  induction items generalizing cells with
  | nil => rfl
  | cons item rest ih =>
    rw [scatter, ih (List.forall_mem_cons.mp hi).2]
    exact Function.update_of_ne (hi item List.mem_cons_self).symm _ _

theorem scatter_of_mem {item : β} (hnodup : (items.map index).Nodup) (hitem : item ∈ items) :
    scatter index f items cells (index item) = f item (cells (index item)) := by
  induction items generalizing cells with
  | nil => exact absurd hitem List.not_mem_nil
  | cons head rest ih =>
    rw [List.map_cons, List.nodup_cons] at hnodup
    have hhead : ∀ other ∈ rest, index other ≠ index head := fun other hother heq =>
      hnodup.1 (heq ▸ List.mem_map_of_mem hother)
    rcases List.mem_cons.mp hitem with rfl | hrest
    · rw [scatter, scatter_of_not_mem hhead, Function.update_self]
    · rw [scatter, ih hnodup.2 hrest, Function.update_of_ne (hhead item hrest)]

theorem scatter_forall {P : ι → α → Prop}
    (hcells : ∀ i, P i (cells i)) (hf : ∀ item ∈ items, ∀ a, P (index item) a → P (index item) (f item a)) :
    ∀ i, P i (scatter index f items cells i) := by
  induction items generalizing cells with
  | nil => exact hcells
  | cons head rest ih =>
    refine ih (fun i => ?_) (List.forall_mem_cons.mp hf).2
    by_cases hi : i = index head
    · subst hi
      rw [Function.update_self]
      exact hf head List.mem_cons_self _ (hcells _)
    · rw [Function.update_of_ne hi]
      exact hcells i

theorem scatter_eq_of_undo {cells before : ι → α} (hnodup : (items.map index).Nodup)
    (hundo : ∀ item ∈ items, f item (cells (index item)) = before (index item))
    (hother : ∀ i, (∀ item ∈ items, index item ≠ i) → cells i = before i) :
    scatter index f items cells = before := by
  funext i
  by_cases hi : ∃ item ∈ items, index item = i
  · obtain ⟨item, hitem, rfl⟩ := hi
    rw [scatter_of_mem hnodup hitem, hundo item hitem]
  · have hnone : ∀ item ∈ items, index item ≠ i := fun item hitem heq => hi ⟨item, hitem, heq⟩
    rw [scatter_of_not_mem hnone, hother i hnone]

omit [DecidableEq ι] in
theorem map_modify_eq {g : β → ι} {f : β → β} (hf : ∀ b, g (f b) = g b) (items : List β) (n : Nat) :
    (items.modify n f).map g = items.map g := by
  refine List.ext_getElem? fun k => ?_
  rw [List.getElem?_map, List.getElem?_map, List.getElem?_modify]
  cases items[k]? with
  | none => rfl
  | some b =>
    by_cases hk : n = k
    · simp [hk, hf]
    · simp [hk]

end Scatter
