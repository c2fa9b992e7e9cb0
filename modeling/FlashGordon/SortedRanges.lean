import Mathlib

/-!
Ranges that belong to owners. Sorted by owner and by where they start, nonempty ranges of one owner are
pairwise disjoint exactly when no range starts before its predecessor has ended: a test of neighbours
decides about all pairs.
-/

namespace SortedRanges

/-- Where items lie: each from `first` up to, but not with, `stop`, in what its owner has. -/
structure Extent (ι κ α : Type) where
  owner : ι → κ
  first : ι → α
  stop : ι → α

variable {ι κ α : Type} [LinearOrder κ] [LinearOrder α] {x : Extent ι κ α} {items sorted : List ι}

/-- The two items share no place. -/
def Apart (x : Extent ι κ α) (a b : ι) : Prop :=
  x.owner a = x.owner b → x.stop a ≤ x.first b ∨ x.stop b ≤ x.first a

def InOrder (x : Extent ι κ α) (a b : ι) : Prop :=
  x.owner a < x.owner b ∨ (x.owner a = x.owner b ∧ x.first a ≤ x.first b)

/-- The first item has ended where the second starts. -/
def Clear (x : Extent ι κ α) (a b : ι) : Prop := x.owner a = x.owner b → x.stop a ≤ x.first b

omit [LinearOrder κ] in
theorem Apart.symm {a b : ι} (h : Apart x a b) : Apart x b a := fun howner => (h howner.symm).symm

theorem Clear.trans {a b c : ι} (hab : Clear x a b) (hbc : Clear x b c) (hb : x.first b < x.stop b)
    (horder : InOrder x a b) (horder' : InOrder x b c) : Clear x a c := by
  intro howner
  have hle : x.owner a ≤ x.owner b := horder.elim le_of_lt fun h => h.1.le
  have hle' : x.owner b ≤ x.owner c := horder'.elim le_of_lt fun h => h.1.le
  have heq : x.owner a = x.owner b := le_antisymm hle (howner ▸ hle')
  exact (hab heq).trans (hb.le.trans (hbc (heq.symm.trans howner)))

theorem pairwise_clear (hfull : ∀ a ∈ sorted, x.first a < x.stop a) (horder : sorted.Pairwise (InOrder x))
    (h : sorted.IsChain (Clear x)) : sorted.Pairwise (Clear x) := by
  induction sorted with
  | nil => exact .nil
  | cons a rest ih =>
    have hrest := ih (fun b hb => hfull b (List.mem_cons_of_mem a hb)) horder.of_cons h.tail
    refine List.pairwise_cons.mpr ⟨fun b hb => ?_, hrest⟩
    cases rest with
    | nil => exact absurd hb List.not_mem_nil
    | cons c rest =>
      have hac : Clear x a c := (List.isChain_cons_cons.mp h).1
      rcases List.mem_cons.mp hb with rfl | hb'
      · exact hac
      · exact hac.trans ((List.pairwise_cons.mp hrest).1 b hb') (hfull c (by simp))
          ((List.pairwise_cons.mp horder).1 c List.mem_cons_self)
          ((List.pairwise_cons.mp horder.of_cons).1 b hb')

theorem neighbours_iff (hperm : sorted.Perm items) (hfull : ∀ a ∈ items, x.first a < x.stop a)
    (horder : sorted.Pairwise (InOrder x)) : sorted.IsChain (Clear x) ↔ items.Pairwise (Apart x) := by
  have hfull' : ∀ a ∈ sorted, x.first a < x.stop a := fun a ha => hfull a (hperm.mem_iff.mp ha)
  rw [← hperm.pairwise_iff fun h => h.symm]
  refine ⟨fun h => (pairwise_clear hfull' horder h).imp fun hclear howner => .inl (hclear howner), fun h => ?_⟩
  refine (List.Pairwise.and_mem.mp (h.and horder)).imp (fun {a b} hab howner => ?_) |>.isChain
  obtain ⟨ha, hb, hapart, hin⟩ := hab
  refine (hapart howner).resolve_right fun hstop => ?_
  have hstart : x.first a ≤ x.first b := hin.elim (fun h => absurd howner h.ne) fun h => h.2
  exact absurd ((hfull' b hb).trans_le (hstop.trans hstart)) (lt_irrefl _)

end SortedRanges
