import Mathlib.Data.Finset.Card

/-! The stack of a reference stream: the distinct references, the last used first. The place of a reference in the
stack is the number of distinct references since its last use, and a cache that forgets the longest unused one holds
the top of the stack, whatever its capacity. -/

namespace StackDistance

open List

variable {α : Type*} [DecidableEq α]

def touch (stack : List α) (x : α) : List α := x :: stack.erase x

/-- The stack after a stream, whose oldest reference stands first. -/
def stack (refs : List α) : List α := refs.foldl touch []

/-- The number of distinct references since the last use of `x`. -/
def distance (refs : List α) (x : α) : Option Nat :=
  if x ∈ refs then some (refs.reverse.takeWhile fun y => decide (y ≠ x)).toFinset.card else none

@[simp] theorem stack_concat (refs : List α) (x : α) : stack (refs ++ [x]) = touch (stack refs) x :=
  foldl_append

theorem stack_nodup (refs : List α) : (stack refs).Nodup := by
  induction refs using List.reverseRecOn with
  | nil => exact nodup_nil
  | append_singleton refs x ih =>
    rw [stack_concat, touch, nodup_cons]
    exact ⟨fun hmem => absurd rfl (ih.mem_erase_iff.mp hmem).1, ih.erase x⟩

theorem mem_touch {stack : List α} {x y : α} : y ∈ touch stack x ↔ y = x ∨ y ∈ stack := by
  rw [touch, mem_cons]
  constructor
  · rintro (rfl | hmem)
    · exact .inl rfl
    · exact .inr (mem_of_mem_erase hmem)
  · rintro (rfl | hmem)
    · exact .inl rfl
    · by_cases heq : y = x
      · exact .inl heq
      · exact .inr ((mem_erase_of_ne heq).mpr hmem)

theorem mem_stack {refs : List α} {x : α} : x ∈ stack refs ↔ x ∈ refs := by
  induction refs using List.reverseRecOn with
  | nil => exact Iff.rfl
  | append_singleton refs y ih =>
    rw [stack_concat, mem_touch, ih, mem_append, mem_singleton]
    exact Or.comm

theorem takeWhile_erase {x y : α} (hne : y ≠ x) (l : List α) :
    (l.erase y).takeWhile (fun z => decide (z ≠ x)) = (l.takeWhile fun z => decide (z ≠ x)).erase y := by
  induction l with
  | nil => rfl
  | cons z rest ih =>
    by_cases hzy : z = y
    · subst hzy
      rw [erase_cons_head, takeWhile_cons_of_pos (by simpa using hne), erase_cons_head]
    · rw [erase_cons_tail (by simpa using hzy)]
      by_cases hzx : z = x
      · rw [takeWhile_cons_of_neg (by simpa using hzx), takeWhile_cons_of_neg (by simpa using hzx), erase_nil]
      · rw [takeWhile_cons_of_pos (by simpa using hzx), takeWhile_cons_of_pos (by simpa using hzx),
          erase_cons_tail (by simpa using hzy), ih]

theorem above_eq (refs : List α) (x : α) :
    ((stack refs).takeWhile fun y => decide (y ≠ x)).toFinset =
      (refs.reverse.takeWhile fun y => decide (y ≠ x)).toFinset := by
  induction refs using List.reverseRecOn with
  | nil => rfl
  | append_singleton refs y ih =>
    rw [stack_concat, touch, reverse_append, reverse_singleton, singleton_append]
    by_cases hyx : y = x
    · rw [takeWhile_cons_of_neg (by simpa using hyx), takeWhile_cons_of_neg (by simpa using hyx)]
    · rw [takeWhile_cons_of_pos (by simpa using hyx), takeWhile_cons_of_pos (by simpa using hyx),
        toFinset_cons, toFinset_cons, takeWhile_erase hyx, ← ih]
      ext z
      have hnodup : ((stack refs).takeWhile fun z => decide (z ≠ x)).Nodup :=
        (stack_nodup refs).sublist (takeWhile_sublist _)
      rw [Finset.mem_insert, Finset.mem_insert, mem_toFinset, mem_toFinset, hnodup.mem_erase_iff]
      constructor
      · rintro (rfl | ⟨_, hmem⟩)
        · exact .inl rfl
        · exact .inr hmem
      · rintro (rfl | hmem)
        · exact .inl rfl
        · by_cases hzy : z = y
          · exact .inl hzy
          · exact .inr ⟨hzy, hmem⟩

theorem idxOf_eq_length_takeWhile (l : List α) (x : α) : l.idxOf x = (l.takeWhile fun y => decide (y ≠ x)).length := by
  induction l with
  | nil => rfl
  | cons y rest ih =>
    by_cases hyx : y = x
    · rw [takeWhile_cons_of_neg (by simpa using hyx), hyx, idxOf_cons_self]
      rfl
    · rw [takeWhile_cons_of_pos (by simpa using hyx), idxOf_cons_ne _ hyx, ih]
      rfl

theorem distance_eq (refs : List α) (x : α) :
    distance refs x = if x ∈ stack refs then some ((stack refs).idxOf x) else none := by
  have hnodup : ((stack refs).takeWhile fun z => decide (z ≠ x)).Nodup :=
    (stack_nodup refs).sublist (takeWhile_sublist _)
  rw [distance, idxOf_eq_length_takeWhile, ← toFinset_card_of_nodup hnodup, above_eq]
  simp only [mem_stack]

def cache (capacity : Nat) (refs : List α) : List α :=
  refs.foldl (fun held x => (touch held x).take capacity) []

/-- The number of references of a stream that the cache holds when they come. -/
def hits (capacity : Nat) (refs : List α) : Nat :=
  (List.range refs.length).countP fun i => (refs[i]?).any fun x => decide (x ∈ cache capacity (refs.take i))

theorem take_erase_take (l : List α) (x : α) (n : Nat) : ((l.take (n + 1)).erase x).take n = (l.erase x).take n := by
  induction l generalizing n with
  | nil => rfl
  | cons y rest ih =>
    rw [take_succ_cons]
    by_cases hyx : y = x
    · subst hyx
      rw [erase_cons_head, erase_cons_head, take_take, Nat.min_self]
    · rw [erase_cons_tail (by simpa using hyx), erase_cons_tail (by simpa using hyx)]
      cases n with
      | zero => rfl
      | succ n => rw [take_succ_cons, take_succ_cons, ih]

theorem cache_eq (capacity : Nat) (refs : List α) : cache capacity refs = (stack refs).take capacity := by
  induction refs using List.reverseRecOn with
  | nil => exact take_nil.symm
  | append_singleton refs x ih =>
    have hstep : cache capacity (refs ++ [x]) = (touch (cache capacity refs) x).take capacity := foldl_append
    rw [hstep, stack_concat, ih]
    cases capacity with
    | zero => rfl
    | succ n => rw [touch, touch, take_succ_cons, take_succ_cons, take_erase_take]

theorem mem_take_iff {l : List α} {x : α} {n : Nat} : x ∈ l.take n ↔ x ∈ l ∧ l.idxOf x < n := by
  induction l generalizing n with
  | nil => simp
  | cons y rest ih =>
    cases n with
    | zero => simp
    | succ n =>
      rw [take_succ_cons, mem_cons, mem_cons, ih]
      by_cases hyx : y = x
      · subst hyx
        simp
      · rw [idxOf_cons_ne _ hyx]
        have hxy : x ≠ y := fun h => hyx h.symm
        simp [hxy]

theorem mem_cache_iff {capacity : Nat} {refs : List α} {x : α} :
    x ∈ cache capacity refs ↔ ∃ d, distance refs x = some d ∧ d < capacity := by
  rw [cache_eq, mem_take_iff, distance_eq]
  by_cases hmem : x ∈ stack refs
  · simp [hmem]
  · simp [hmem]

theorem hits_concat (capacity : Nat) (refs : List α) (x : α) :
    hits capacity (refs ++ [x]) = hits capacity refs + if x ∈ cache capacity refs then 1 else 0 := by
  rw [hits, hits, length_append, length_singleton, range_succ, countP_append]
  congr 1
  · apply countP_congr
    intro i hi
    rw [mem_range] at hi
    rw [List.getElem?_append_left hi, take_append_of_le_length (Nat.le_of_lt hi)]
  · simp [countP_cons]

end StackDistance
