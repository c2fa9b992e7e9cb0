import Mathlib
import FlashGordon.Shares

/-! The binary heap on the numbers below a size: node `n` has the children `2 * n + 1` and `2 * n + 2`.
Counted from one, the ancestors of a node are its right shifts, so two siblings have no node below both,
and every node lies below the root. A reduction adds to the value of a node the reduced values of its
children, so it sums what the nodes below it hold, each once. -/

namespace HeapTree

def parent (node : Nat) : Nat := (node - 1) / 2

def children (size node : Nat) : List Nat := [2 * node + 1, 2 * node + 2].filter (· < size)

def below (size node : Nat) : List Nat :=
  if node < size then node :: (below size (2 * node + 1) ++ below size (2 * node + 2)) else []
termination_by size - node

variable {size node k : Nat}

theorem below_of_lt (h : node < size) :
    below size node = node :: (below size (2 * node + 1) ++ below size (2 * node + 2)) := by
  rw [below, if_pos h]

theorem below_of_le (h : size ≤ node) : below size node = [] := by
  rw [below, if_neg (by omega)]

theorem mem_children : k ∈ children size node ↔ k < size ∧ 0 < k ∧ parent k = node := by
  simp only [children, parent, List.mem_filter, List.mem_cons, List.not_mem_nil, or_false, decide_eq_true_eq]
  omega

theorem children_eq :
    children size node =
      (if 2 * node + 1 < size then [2 * node + 1] else []) ++
        if 2 * node + 2 < size then [2 * node + 2] else [] := by
  simp only [children, List.filter_cons, List.filter_nil, decide_eq_true_eq]
  split_ifs <;> rfl

theorem below_eq_flatMap (h : node < size) : below size node = node :: (children size node).flatMap (below size) := by
  rw [below_of_lt h, children_eq]
  split_ifs with hleft hright hright
  · simp
  · simp [below_of_le (not_lt.mp hright)]
  · omega
  · simp [below_of_le (not_lt.mp hleft), below_of_le (not_lt.mp hright)]

theorem mem_below : k ∈ below size node ↔ k < size ∧ ∃ d, (k + 1) / 2 ^ d = node + 1 := by
  fun_induction below size node with
  | case1 node hlt ihleft ihright =>
    simp only [List.mem_cons, List.mem_append, ihleft, ihright]
    constructor
    · rintro (rfl | ⟨hk, d, hd⟩ | ⟨hk, d, hd⟩)
      · exact ⟨hlt, 0, by simp⟩
      · exact ⟨hk, d + 1, by rw [Nat.pow_succ, ← Nat.div_div_eq_div_mul, hd]; omega⟩
      · exact ⟨hk, d + 1, by rw [Nat.pow_succ, ← Nat.div_div_eq_div_mul, hd]; omega⟩
    · rintro ⟨hk, d, hd⟩
      cases d with
      | zero => exact .inl (by simpa using hd)
      | succ d =>
        rw [Nat.pow_succ, ← Nat.div_div_eq_div_mul] at hd
        rcases (by omega : (k + 1) / 2 ^ d = 2 * node + 1 + 1 ∨ (k + 1) / 2 ^ d = 2 * node + 2 + 1) with
          hleft | hright
        · exact .inr (.inl ⟨hk, d, hleft⟩)
        · exact .inr (.inr ⟨hk, d, hright⟩)
  | case2 node hle =>
    simp only [List.not_mem_nil, false_iff, not_and, not_exists]
    intro hk d hd
    have := Nat.div_le_self (k + 1) (2 ^ d)
    omega

theorem lt_of_mem_below (h : k ∈ below size node) : k < size := (mem_below.mp h).1

theorem le_of_mem_below (h : k ∈ below size node) : node ≤ k := by
  obtain ⟨-, d, hd⟩ := mem_below.mp h
  have := Nat.div_le_self (k + 1) (2 ^ d)
  omega

theorem two_mul_shift_le {n d e : Nat} (h : d < e) : 2 * (n / 2 ^ e) ≤ n / 2 ^ d := by
  obtain ⟨f, rfl⟩ := Nat.exists_eq_add_of_lt h
  have hshift : n / 2 ^ (d + f + 1) = n / 2 ^ d / 2 ^ f / 2 := by
    rw [Nat.pow_succ, Nat.pow_add, Nat.div_div_eq_div_mul, Nat.div_div_eq_div_mul, Nat.mul_assoc]
  have := Nat.div_le_self (n / 2 ^ d) (2 ^ f)
  omega

theorem siblings_disjoint : List.Disjoint (below size (2 * node + 1)) (below size (2 * node + 2)) := by
  intro k hleft hright
  obtain ⟨-, d, hd⟩ := mem_below.mp hleft
  obtain ⟨-, e, he⟩ := mem_below.mp hright
  rcases lt_trichotomy d e with hlt | rfl | hlt
  · have := two_mul_shift_le (n := k + 1) hlt
    omega
  · omega
  · have := two_mul_shift_le (n := k + 1) hlt
    omega

theorem nodup_below (size node : Nat) : (below size node).Nodup := by
  fun_induction below size node with
  | case1 node hlt ihleft ihright =>
    refine List.nodup_cons.mpr ⟨fun hmem => ?_, ihleft.append ihright siblings_disjoint⟩
    rcases List.mem_append.mp hmem with hleft | hright
    · have := le_of_mem_below hleft
      omega
    · have := le_of_mem_below hright
      omega
  | case2 => exact List.nodup_nil

theorem mem_below_zero : k ∈ below size 0 ↔ k < size := by
  refine ⟨lt_of_mem_below, fun h => mem_below.mpr ⟨h, Nat.log 2 (k + 1), ?_⟩⟩
  have hle := Nat.pow_log_le_self 2 (Nat.succ_ne_zero k)
  have hlt := Nat.lt_pow_succ_log_self (b := 2) (by decide) (k + 1)
  rw [Nat.div_eq_iff (Nat.two_pow_pos _)]
  simp only [Nat.succ_eq_add_one] at hle
  omega

theorem below_zero_perm (size : Nat) : (below size 0).Perm (List.range size) :=
  (List.perm_ext_iff_of_nodup (nodup_below size 0) List.nodup_range).mpr fun k => by
    rw [mem_below_zero, List.mem_range]

section Reduction

open Shares

variable {ι M : Type*}

def reduce [Add M] (size : Nat) (own : Nat → M) (node : Nat) : M :=
  (children size node).attach.foldl (fun sum child => sum + reduce size own child.1) (own node)
termination_by size - node
decreasing_by
  have := mem_children.mp child.2
  unfold parent at this
  omega

theorem reduce_eq [Add M] (size : Nat) (own : Nat → M) (node : Nat) :
    reduce size own node =
      (children size node).foldl (fun sum child => sum + reduce size own child) (own node) := by
  rw [reduce, List.foldl_subtype (g := fun sum child => sum + reduce size own child) fun _ _ _ => rfl,
    List.unattach_attach]

variable [ZeroSum M] {term : ι → M} {share : Nat → List ι} {own : Nat → M}

theorem reduce_sumOf (hown : ∀ k < size, SumOf term (share k) (own k)) {node : Nat} (hnode : node < size) :
    SumOf term ((below size node).flatMap share : List ι) (reduce size own node) := by
  induction hdistance : size - node using Nat.strong_induction_on generalizing node with
  | _ distance ih =>
    rw [reduce_eq, below_eq_flatMap hnode, List.flatMap_cons, List.flatMap_assoc]
    refine foldl_sumOf (fun child hchild => ?_) (hown node hnode)
    obtain ⟨hlt, hpos, hparent⟩ := mem_children.mp hchild
    unfold parent at hparent
    exact ih (size - child) (by omega) hlt rfl

end Reduction

end HeapTree
