import Mathlib.Data.Finset.Card

/-! Counting what passes by. A scan keeps how often each key came and the different keys in the order of
their first coming; both are functions of the keys alone, and the number of different keys never falls. -/

namespace FirstSeen

open List

variable {K : Type*} [DecidableEq K]

def note (seen : List K) (key : K) : List K := if key ∈ seen then seen else seen ++ [key]

def firstSeen (keys : List K) : List K := keys.foldl note []

/-- The counts and the different keys of a scan. -/
structure Tally (K : Type*) where
  count : K → Nat
  distinct : List K

def tally (keys : List K) : Tally K := ⟨fun key => keys.count key, firstSeen keys⟩

section Rules

variable {seen keys : List K} {key other : K}

theorem mem_note : other ∈ note seen key ↔ other ∈ seen ∨ other = key := by
  rw [note]
  split
  · next h =>
      constructor
      · exact Or.inl
      · rintro (hmem | rfl)
        · exact hmem
        · exact h
  · rw [mem_append, mem_singleton]

theorem nodup_note (h : seen.Nodup) : (note seen key).Nodup := by
  rw [note]
  split
  · exact h
  · next hnew => exact nodup_append_comm.mp (nodup_cons.mpr ⟨hnew, h⟩)

theorem length_le_note : seen.length ≤ (note seen key).length := by
  rw [note]
  split
  · exact Nat.le_refl _
  · rw [length_append]
    exact Nat.le_add_right _ _

theorem firstSeen_append_singleton : firstSeen (keys ++ [key]) = note (firstSeen keys) key := by
  rw [firstSeen, foldl_append]
  rfl

@[simp] theorem mem_firstSeen : key ∈ firstSeen keys ↔ key ∈ keys := by
  induction keys using List.reverseRecOn with
  | nil => exact Iff.rfl
  | append_singleton keys last ih =>
    rw [firstSeen_append_singleton, mem_note, ih, mem_append, mem_singleton]

theorem nodup_firstSeen : (firstSeen keys).Nodup := by
  induction keys using List.reverseRecOn with
  | nil => exact nodup_nil
  | append_singleton keys last ih =>
    rw [firstSeen_append_singleton]
    exact nodup_note ih

theorem length_firstSeen_append (more : List K) : (firstSeen keys).length ≤ (firstSeen (keys ++ more)).length := by
  induction more using List.reverseRecOn with
  | nil => rw [append_nil]
  | append_singleton more last ih =>
    rw [← append_assoc, firstSeen_append_singleton]
    exact ih.trans length_le_note

theorem tally_count : (tally keys).count key = keys.count key := rfl

theorem tally_distinct : (tally keys).distinct = firstSeen keys := rfl

theorem tally_count_eq_zero : (tally keys).count key = 0 ↔ key ∉ firstSeen keys := by
  rw [mem_firstSeen]
  exact count_eq_zero

theorem tally_append_singleton : tally (keys ++ [key]) =
    ⟨Function.update (tally keys).count key ((tally keys).count key + 1), note (firstSeen keys) key⟩ := by
  have hcount : (fun other => (keys ++ [key]).count other) =
      Function.update (fun other => keys.count other) key (keys.count key + 1) := by
    funext other
    by_cases h : other = key
    · subst h
      rw [Function.update_self, count_append, count_singleton_self]
    · rw [Function.update_of_ne h, count_append, count_singleton, if_neg (by simpa using Ne.symm h), Nat.add_zero]
  rw [tally, firstSeen_append_singleton, hcount]
  rfl

theorem eraseDups_eq_firstSeen : keys.eraseDups = firstSeen keys := by
  induction keys using List.reverseRecOn with
  | nil => rfl
  | append_singleton keys last ih =>
    rw [eraseDups_append, ih, firstSeen_append_singleton, note]
    by_cases h : last ∈ keys
    · rw [if_pos (mem_firstSeen.mpr h), List.removeAll, filter_cons_of_neg (by simpa using h), filter_nil,
        eraseDups_nil, append_nil]
    · rw [if_neg (mem_firstSeen.not.mpr h), List.removeAll, filter_cons_of_pos (by simpa using h), filter_nil,
        eraseDups_cons, filter_nil, eraseDups_nil]

theorem firstSeen_of_forall_eq {one : K} (hne : keys ≠ []) (h : ∀ key ∈ keys, key = one) : firstSeen keys = [one] := by
  induction keys using List.reverseRecOn with
  | nil => exact absurd rfl hne
  | append_singleton keys last ih =>
    obtain rfl : last = one := h last (by simp)
    rw [firstSeen_append_singleton]
    by_cases hkeys : keys = []
    · subst hkeys
      rfl
    · rw [ih hkeys fun key hkey => h key (mem_append_left _ hkey), note, if_pos (mem_singleton_self _)]

theorem eq_of_length_firstSeen_eq_one (h : (firstSeen keys).length = 1) {one : K} (hone : one ∈ keys)
    (hkey : key ∈ keys) : key = one := by
  obtain ⟨only, honly⟩ := length_eq_one_iff.mp h
  have hsame {k : K} (hk : k ∈ keys) : k = only := by
    have hmem := mem_firstSeen.mpr hk
    rw [honly] at hmem
    exact mem_singleton.mp hmem
  rw [hsame hkey, hsame hone]

end Rules

end FirstSeen
