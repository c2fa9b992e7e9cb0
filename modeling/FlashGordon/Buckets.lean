import Mathlib.Data.List.Count
import Mathlib.Data.List.Induction

/-! Distributing items over buckets of one storage. Every bucket has a base and a cursor of its own; what
was counted before bounds what is written, and a bucket reads back as its items in their order. -/

namespace Buckets

variable {K α : Type*} [DecidableEq K] (key : α → K) (base : K → Nat)

structure State (K α : Type*) where
  storage : Nat → α
  written : K → Nat

def put (s : State K α) (item : α) : State K α where
  storage := Function.update s.storage (base (key item) + s.written (key item)) item
  written := Function.update s.written (key item) (s.written (key item) + 1)

def run (storage : Nat → α) (items : List α) : State K α := items.foldl (put key base) ⟨storage, fun _ => 0⟩

def ofKey (items : List α) (k : K) : List α := items.filter fun item => key item = k

/-- Buckets with room for so many items each do not meet. -/
def Apart (room : K → Nat) : Prop :=
  ∀ k k', k ≠ k' → ∀ i < room k, ∀ j < room k', base k + i ≠ base k' + j

variable {key base} {storage : Nat → α} {items : List α} {item : α} {room : K → Nat}

theorem run_append_singleton :
    run key base storage (items ++ [item]) = put key base (run key base storage items) item := by
  rw [run, List.foldl_append]
  rfl

theorem ofKey_append_singleton (k : K) :
    ofKey key (items ++ [item]) k = if key item = k then ofKey key items k ++ [item] else ofKey key items k := by
  rw [ofKey, List.filter_append]
  split
  · next h => rw [List.filter_cons_of_pos (by simpa using h), List.filter_nil, ofKey]
  · next h => rw [List.filter_cons_of_neg (by simpa using h), List.filter_nil, List.append_nil, ofKey]

theorem length_ofKey_le (k : K) : (ofKey key items k).length ≤ (ofKey key (items ++ [item]) k).length := by
  rw [ofKey_append_singleton]
  split
  · rw [List.length_append]
    exact Nat.le_add_right _ _
  · exact Nat.le_refl _

theorem run_written (k : K) : (run key base storage items).written k = (ofKey key items k).length := by
  induction items using List.reverseRecOn with
  | nil => rfl
  | append_singleton items item ih =>
    rw [run_append_singleton, ofKey_append_singleton]
    by_cases h : key item = k
    · subst h
      rw [if_pos rfl, List.length_append, ← ih]
      exact Function.update_self _ _ _
    · rw [if_neg h, ← ih]
      exact Function.update_of_ne (Ne.symm h) _ _

theorem put_storage_of_ne {s : State K α} {at_ : Nat} (h : at_ ≠ base (key item) + s.written (key item)) :
    (put key base s item).storage at_ = s.storage at_ := Function.update_of_ne h _ _

theorem run_read (hapart : Apart base room) (hroom : ∀ k, (ofKey key items k).length ≤ room k) (k : K) :
    (List.range (ofKey key items k).length).map (fun i => (run key base storage items).storage (base k + i)) =
      ofKey key items k := by
  induction items using List.reverseRecOn with
  | nil => rfl
  | append_singleton items item ih =>
    have hbefore (k) : (ofKey key items k).length ≤ room k := Nat.le_trans (length_ofKey_le k) (hroom k)
    have hold := ih hbefore
    have hcursor : (run key base storage items).written (key item) = (ofKey key items (key item)).length :=
      run_written _
    rw [run_append_singleton]
    by_cases h : key item = k
    · subst h
      rw [ofKey_append_singleton, if_pos rfl, List.length_append, List.length_singleton, List.range_succ,
        List.map_append, List.map_singleton]
      congr 1
      · refine Eq.trans (List.map_congr_left fun i hi => put_storage_of_ne fun heq => ?_) hold
        rw [hcursor] at heq
        exact Nat.ne_of_lt (List.mem_range.mp hi) (Nat.add_left_cancel heq)
      · rw [← hcursor]
        exact congrArg (· :: []) (Function.update_self _ _ _)
    · have hsame : ofKey key (items ++ [item]) k = ofKey key items k := by rw [ofKey_append_singleton, if_neg h]
      have hlast : (ofKey key items (key item)).length < room (key item) := by
        have hone := hroom (key item)
        rw [ofKey_append_singleton, if_pos rfl, List.length_append, List.length_singleton] at hone
        exact hone
      rw [hsame]
      refine Eq.trans (List.map_congr_left fun i hi => put_storage_of_ne ?_) hold
      rw [hcursor]
      exact hapart k (key item) (Ne.symm h) i (Nat.lt_of_lt_of_le (List.mem_range.mp hi) (hbefore k)) _ hlast

theorem run_frame {at_ : Nat} (h : ∀ k, ∀ i < (ofKey key items k).length, at_ ≠ base k + i) :
    (run key base storage items).storage at_ = storage at_ := by
  induction items using List.reverseRecOn with
  | nil => rfl
  | append_singleton items item ih =>
    rw [run_append_singleton, put_storage_of_ne, ih]
    · exact fun k i hi => h k i (Nat.lt_of_lt_of_le hi (length_ofKey_le k))
    · rw [run_written]
      refine h (key item) _ ?_
      rw [ofKey_append_singleton, if_pos rfl, List.length_append, List.length_singleton]
      exact Nat.lt_succ_self _

theorem run_get (hapart : Apart base room) (hroom : ∀ k, (ofKey key items k).length ≤ room k) {k : K} {i : Nat} {a : α}
    (h : (ofKey key items k)[i]? = some a) : (run key base storage items).storage (base k + i) = a := by
  obtain ⟨hlt, rfl⟩ := List.getElem?_eq_some_iff.mp h
  have hread := congrArg (fun list => list[i]?) (@run_read K α _ key base storage items room hapart hroom k)
  rw [List.getElem?_map, List.getElem?_range hlt, h] at hread
  exact Option.some.inj hread

end Buckets
