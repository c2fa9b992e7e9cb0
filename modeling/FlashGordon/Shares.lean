import Mathlib.Data.Multiset.Filter

/-! Sums that are taken in shares. A list is cut into classes by a key, and every class is added up on
its own before the shares are added together. `SumOf` says which terms a value adds up, each as often
as it is listed, in some order and with some bracketing; nothing is assumed of the addition but that
nothing added to nothing is nothing, so rounding sums are sums too. -/

namespace Shares

section Classes

variable {α κ : Type*}

theorem flatMap_filter_perm (member : κ → α → Bool) (items : List α) {classes : List κ}
    (hdisjoint : classes.Pairwise fun c d => ∀ item ∈ items, member c item = true → member d item = false) :
    (classes.flatMap fun c => items.filter (member c)).Perm
      (items.filter fun item => classes.any (member · item)) := by
  induction classes with
  | nil => simp
  | cons c rest ih =>
    obtain ⟨hc, hrest⟩ := List.pairwise_cons.mp hdisjoint
    have hsplit := List.filter_append_perm (member c) (items.filter fun item => (c :: rest).any (member · item))
    rw [List.filter_filter, List.filter_filter] at hsplit
    refine List.Perm.trans ?_ hsplit
    rw [List.flatMap_cons]
    refine List.Perm.append ?_ ((ih hrest).trans ?_)
    · rw [List.filter_congr fun item _ => ?_]
      cases hmember : member c item with
      | true => simp [hmember]
      | false => rfl
    · rw [List.filter_congr fun item hitem => ?_]
      cases hmember : member c item with
      | true =>
        have hnone : rest.any (member · item) = false :=
          List.any_eq_false.mpr fun d hd => by simp [hc d hd item hitem hmember]
        simp [hnone]
      | false => simp [hmember]

theorem flatMap_filter_key_perm [DecidableEq κ] (key : α → κ) {classes : List κ} (hnodup : classes.Nodup)
    (items : List α) :
    (classes.flatMap fun c => items.filter fun item => key item = c).Perm
      (items.filter fun item => key item ∈ classes) := by
  refine (flatMap_filter_perm (fun c item => decide (key item = c)) items ?_).trans (List.Perm.of_eq ?_)
  · refine hnodup.imp fun hne item _ hkey => ?_
    rw [decide_eq_true_eq] at hkey
    simp [hkey, hne]
  · refine List.filter_congr fun item _ => ?_
    rw [Bool.eq_iff_iff]
    simp [List.any_eq_true]

end Classes

/-- An addition of which only the sum of two zeros is known. -/
class ZeroSum (M : Type*) extends Zero M, Add M where
  zero_add_zero : (0 : M) + 0 = 0

variable {ι M : Type*} [ZeroSum M] {term : ι → M}

inductive SumOf (term : ι → M) : Multiset ι → M → Prop
  | zero : SumOf term 0 0
  | single (i : ι) : SumOf term {i} (term i)
  | add {s t : Multiset ι} {x y : M} : SumOf term s x → SumOf term t y → SumOf term (s + t) (x + y)

theorem SumOf.congr {s t : Multiset ι} {x : M} (h : SumOf term s x) (hst : s = t) : SumOf term t x := hst ▸ h

theorem SumOf.eq_zero {s : Multiset ι} {x : M} (h : SumOf term s x) (hs : s = 0) : x = 0 := by
  induction h with
  | zero => rfl
  | single i => exact absurd hs (Multiset.singleton_ne_zero i)
  | add _ _ ihleft ihright =>
    have hleft := Multiset.le_zero.mp (hs ▸ Multiset.le_add_right _ _)
    have hright := Multiset.le_zero.mp (hs ▸ Multiset.le_add_left _ _)
    rw [ihleft hleft, ihright hright, ZeroSum.zero_add_zero]

theorem foldl_sumOf {κ : Type*} {part : κ → M} {shares : κ → List ι} {nodes : List κ}
    (hnodes : ∀ k ∈ nodes, SumOf term (shares k) (part k)) {items : List ι} {sum : M}
    (hsum : SumOf term items sum) :
    SumOf term (items ++ nodes.flatMap shares : List ι)
      (nodes.foldl (fun sum k => sum + part k) sum) := by
  induction nodes generalizing items sum with
  | nil => simpa using hsum
  | cons k rest ih =>
    have hadd := hsum.add (hnodes k List.mem_cons_self)
    have := ih (List.forall_mem_cons.mp hnodes).2 hadd
    simpa using this

end Shares
