import FlashGordon.QsaLocality

/-! What the walks of the treap do to the nodes in order. The arrays represent a list at a root; each walk on a list
that is sorted by the last access gives the list that its name says, leaves the other nodes alone and has fuel enough. -/

namespace FlashGordon.QsaLocality

open Function List

/-- The subtree at a root, in order, with the right sizes. -/
inductive Represents (t : Nodes) : Nat → List Nat → Prop where
  | nil : Represents t 0 []
  | node {n : Nat} {ls rs : List Nat} (hn : n ≠ 0) (hleft : Represents t (t.left n) ls)
      (hright : Represents t (t.right n) rs) (hsize : t.subtree n = ls.length + rs.length + 1) :
      Represents t n (ls ++ n :: rs)

def Sorted (t : Nodes) (l : List Nat) : Prop := l.Pairwise fun m n => t.lastAccess m < t.lastAccess n

/-- Only the nodes of `l` change, and no access does. -/
structure Changes (t t' : Nodes) (l : List Nat) : Prop where
  left : ∀ m, m ∉ l → t'.left m = t.left m
  right : ∀ m, m ∉ l → t'.right m = t.right m
  subtree : ∀ m, m ∉ l → t'.subtree m = t.subtree m
  lastAccess : t'.lastAccess = t.lastAccess

theorem Changes.refl (t : Nodes) (l : List Nat) : Changes t t l := ⟨fun _ _ => rfl, fun _ _ => rfl, fun _ _ => rfl, rfl⟩

theorem Changes.trans {t t₁ t₂ : Nodes} {l l₁ l₂ : List Nat} (h₁ : Changes t t₁ l₁) (h₂ : Changes t₁ t₂ l₂)
    (hsub₁ : l₁ ⊆ l) (hsub₂ : l₂ ⊆ l) : Changes t t₂ l := by
  refine ⟨fun m hm => ?_, fun m hm => ?_, fun m hm => ?_, h₂.lastAccess.trans h₁.lastAccess⟩
  · exact (h₂.left m fun hin => hm (hsub₂ hin)).trans (h₁.left m fun hin => hm (hsub₁ hin))
  · exact (h₂.right m fun hin => hm (hsub₂ hin)).trans (h₁.right m fun hin => hm (hsub₁ hin))
  · exact (h₂.subtree m fun hin => hm (hsub₂ hin)).trans (h₁.subtree m fun hin => hm (hsub₁ hin))

theorem Changes.sorted {t t' : Nodes} {l m : List Nat} (h : Changes t t' l) : Sorted t' m ↔ Sorted t m := by
  rw [Sorted, Sorted, h.lastAccess]

theorem changes_setLeft (t : Nodes) (n c : Nat) : Changes t ((t.setLeft n c).updateSize n) [n] := by
  refine ⟨fun m hm => ?_, fun _ _ => rfl, fun m hm => ?_, rfl⟩
  · exact update_of_ne (ne_of_not_mem_cons hm) _ _
  · exact update_of_ne (ne_of_not_mem_cons hm) _ _

theorem changes_setRight (t : Nodes) (n c : Nat) : Changes t ((t.setRight n c).updateSize n) [n] := by
  refine ⟨fun _ _ => rfl, fun m hm => ?_, fun m hm => ?_, rfl⟩
  · exact update_of_ne (ne_of_not_mem_cons hm) _ _
  · exact update_of_ne (ne_of_not_mem_cons hm) _ _

theorem Represents.frame {t t' : Nodes} {p : Nat} {l m : List Nat} (h : Represents t p l) (hchanges : Changes t t' m)
    (hdisjoint : ∀ n ∈ l, n ∉ m) : Represents t' p l := by
  induction h with
  | nil => exact .nil
  | @node n ls rs hn _ _ hsize ihleft ihright =>
    have hnot : n ∉ m := hdisjoint n (mem_append_right _ mem_cons_self)
    have hl := ihleft fun k hk => hdisjoint k (mem_append_left _ hk)
    have hr := ihright fun k hk => hdisjoint k (mem_append_right _ (mem_cons_of_mem _ hk))
    rw [← hchanges.left n hnot] at hl
    rw [← hchanges.right n hnot] at hr
    exact .node hn hl hr ((hchanges.subtree n hnot).trans hsize)

variable {t : Nodes} {l : List Nat}

theorem Represents.eq_nil (h : Represents t 0 l) : l = [] := by
  cases h with
  | nil => rfl
  | node hn => exact absurd rfl hn

theorem Represents.root {p : Nat} (h : Represents t p l) (hp : p ≠ 0) :
    ∃ ls rs, l = ls ++ p :: rs ∧ Represents t (t.left p) ls ∧ Represents t (t.right p) rs := by
  cases h with
  | nil => exact absurd rfl hp
  | node _ hleft hright _ => exact ⟨_, _, rfl, hleft, hright⟩

theorem Represents.nodeSize {p : Nat} (h : Represents t p l) : t.nodeSize p = l.length := by
  cases h with
  | nil => rfl
  | @node n ls rs hn _ _ hsize =>
    rw [Nodes.nodeSize, if_neg hn, hsize, length_append, length_cons]
    omega

theorem Represents.setLeft {n c : Nat} {ls rs : List Nat} (hn : n ≠ 0) (hleft : Represents t c ls)
    (hright : Represents t (t.right n) rs) (hnot : n ∉ ls ++ rs) :
    Represents ((t.setLeft n c).updateSize n) n (ls ++ n :: rs) := by
  have hchanges := changes_setLeft t n c
  have hself : ((t.setLeft n c).updateSize n).left n = c := update_self ..
  refine .node hn ?_ ?_ ?_
  · rw [hself]
    exact hleft.frame hchanges fun m hm hin => hnot (mem_append_left _ (mem_singleton.mp hin ▸ hm))
  · exact hright.frame hchanges fun m hm hin => hnot (mem_append_right _ (mem_singleton.mp hin ▸ hm))
  · have hsizes : ((t.setLeft n c).updateSize n).subtree n =
        1 + (t.setLeft n c).nodeSize ((t.setLeft n c).left n) + (t.setLeft n c).nodeSize (t.right n) :=
      update_self ..
    have hchild : (t.setLeft n c).left n = c := update_self ..
    have hl : (t.setLeft n c).nodeSize c = ls.length := hleft.nodeSize
    have hr : (t.setLeft n c).nodeSize (t.right n) = rs.length := hright.nodeSize
    rw [hsizes, hchild, hl, hr]
    omega

theorem Represents.setRight {n c : Nat} {ls rs : List Nat} (hn : n ≠ 0) (hleft : Represents t (t.left n) ls)
    (hright : Represents t c rs) (hnot : n ∉ ls ++ rs) :
    Represents ((t.setRight n c).updateSize n) n (ls ++ n :: rs) := by
  have hchanges := changes_setRight t n c
  have hself : ((t.setRight n c).updateSize n).right n = c := update_self ..
  refine .node hn ?_ ?_ ?_
  · exact hleft.frame hchanges fun m hm hin => hnot (mem_append_left _ (mem_singleton.mp hin ▸ hm))
  · rw [hself]
    exact hright.frame hchanges fun m hm hin => hnot (mem_append_right _ (mem_singleton.mp hin ▸ hm))
  · have hsizes : ((t.setRight n c).updateSize n).subtree n =
        1 + (t.setRight n c).nodeSize (t.left n) + (t.setRight n c).nodeSize ((t.setRight n c).right n) :=
      update_self ..
    have hchild : (t.setRight n c).right n = c := update_self ..
    have hl : (t.setRight n c).nodeSize (t.left n) = ls.length := hleft.nodeSize
    have hr : (t.setRight n c).nodeSize c = rs.length := hright.nodeSize
    rw [hsizes, hchild, hl, hr]
    omega

theorem changes_onlyLeft (t : Nodes) (n c : Nat) : Changes t (t.setLeft n c) [n] :=
  ⟨fun _ hm => update_of_ne (ne_of_not_mem_cons hm) _ _, fun _ _ => rfl, fun _ _ => rfl, rfl⟩

theorem Represents.setBoth {n a b : Nat} {ls rs : List Nat} (hn : n ≠ 0) (hleft : Represents t a ls)
    (hright : Represents t b rs) (hnot : n ∉ ls ++ rs) :
    Represents (((t.setLeft n a).setRight n b).updateSize n) n (ls ++ n :: rs) := by
  have hself : (t.setLeft n a).left n = a := update_self ..
  apply Represents.setRight hn _ _ hnot
  · rw [hself]
    exact hleft.frame (changes_onlyLeft t n a) fun m hm hin =>
      hnot (mem_append_left _ (mem_singleton.mp hin ▸ hm))
  · exact hright.frame (changes_onlyLeft t n a) fun m hm hin =>
      hnot (mem_append_right _ (mem_singleton.mp hin ▸ hm))

/-- A walk below the left child gave `ls'`, and nothing else that hangs on the root changed. -/
theorem Represents.replaceLeft {t₁ : Nodes} {n c : Nat} {ls rs m : List Nat} (hn : n ≠ 0)
    (hright : Represents t (t.right n) rs) (hchild : Represents t₁ c ls) (hchanges : Changes t t₁ m) (hsub : ls ⊆ m)
    (hapart : ∀ k ∈ n :: rs, k ∉ m) (hnot : n ∉ rs) :
    Represents ((t₁.setLeft n c).updateSize n) n (ls ++ n :: rs) := by
  have hnm := hapart n mem_cons_self
  have hright₁ : Represents t₁ (t₁.right n) rs := by
    rw [hchanges.right n hnm]
    exact hright.frame hchanges (forall_mem_cons.mp hapart).2
  refine hchild.setLeft hn hright₁ fun hin => ?_
  rcases mem_append.mp hin with hl | hr
  · exact hnm (hsub hl)
  · exact hnot hr

theorem Represents.replaceRight {t₁ : Nodes} {n c : Nat} {ls rs m : List Nat} (hn : n ≠ 0)
    (hleft : Represents t (t.left n) ls) (hchild : Represents t₁ c rs) (hchanges : Changes t t₁ m) (hsub : rs ⊆ m)
    (hapart : ∀ k ∈ n :: ls, k ∉ m) (hnot : n ∉ ls) :
    Represents ((t₁.setRight n c).updateSize n) n (ls ++ n :: rs) := by
  have hnm := hapart n mem_cons_self
  have hleft₁ : Represents t₁ (t₁.left n) ls := by
    rw [hchanges.left n hnm]
    exact hleft.frame hchanges (forall_mem_cons.mp hapart).2
  refine hleft₁.setRight hn hchild fun hin => ?_
  rcases mem_append.mp hin with hl | hr
  · exact hnot hl
  · exact hnm (hsub hr)

theorem Changes.thenLeft {t₁ : Nodes} {m : List Nat} (h : Changes t t₁ m) (hsub : m ⊆ l) {n : Nat} (hn : n ∈ l)
    (c : Nat) : Changes t ((t₁.setLeft n c).updateSize n) l :=
  h.trans (changes_setLeft t₁ n c) hsub (cons_subset.mpr ⟨hn, nil_subset _⟩)

theorem Changes.thenRight {t₁ : Nodes} {m : List Nat} (h : Changes t t₁ m) (hsub : m ⊆ l) {n : Nat} (hn : n ∈ l)
    (c : Nat) : Changes t ((t₁.setRight n c).updateSize n) l :=
  h.trans (changes_setRight t₁ n c) hsub (cons_subset.mpr ⟨hn, nil_subset _⟩)

theorem Sorted.nodup (h : Sorted t l) : l.Nodup := by
  apply h.imp
  rintro m n hlt rfl
  exact absurd hlt (Nat.lt_irrefl _)

theorem Sorted.around {n : Nat} {ls rs : List Nat} (h : Sorted t (ls ++ n :: rs)) :
    Sorted t ls ∧ Sorted t rs ∧ (∀ m ∈ ls, t.lastAccess m < t.lastAccess n) ∧
      ∀ m ∈ rs, t.lastAccess n < t.lastAccess m := by
  rw [Sorted, pairwise_append, pairwise_cons] at h
  exact ⟨h.1, h.2.1.2, fun m hm => h.2.2 m hm n mem_cons_self, h.2.1.1⟩

theorem apart_of_nodup {n : Nat} {ls rs : List Nat} (h : (ls ++ n :: rs).Nodup) :
    n ∉ ls ∧ n ∉ rs ∧ (∀ k ∈ n :: rs, k ∉ ls) ∧ ∀ k ∈ n :: ls, k ∉ rs := by
  obtain ⟨_, hrest, hcross⟩ := nodup_append.mp h
  have hapart : ∀ k ∈ n :: rs, k ∉ ls := fun k hk hin => hcross k hin k hk rfl
  have hrnot := (nodup_cons.mp hrest).1
  refine ⟨hapart n mem_cons_self, hrnot, hapart, forall_mem_cons.mpr ⟨hrnot, fun k hk hin => ?_⟩⟩
  exact hapart k (mem_cons_of_mem _ hin) hk

section Filters

variable {key : Nat}

theorem filters_below (h : ∀ m ∈ l, t.lastAccess m < key) :
    (l.filter fun m => t.lastAccess m < key) = l ∧ (l.filter fun m => !decide (t.lastAccess m < key)) = [] :=
  ⟨filter_eq_self.mpr fun m hm => decide_eq_true (h m hm), filter_eq_nil_iff.mpr fun m hm => by simpa using h m hm⟩

theorem filters_above (h : ∀ m ∈ l, key ≤ t.lastAccess m) :
    (l.filter fun m => t.lastAccess m < key) = [] ∧ (l.filter fun m => !decide (t.lastAccess m < key)) = l :=
  ⟨filter_eq_nil_iff.mpr fun m hm => by simpa using h m hm, filter_eq_self.mpr fun m hm => by simpa using h m hm⟩

theorem sides_subset (n : Nat) (l : List Nat) (p q : Nat → Bool) : l.filter p ++ n :: l.filter q ⊆ n :: l :=
  append_subset.mpr ⟨fun _ hm => mem_cons_of_mem _ (mem_of_mem_filter hm), cons_subset_cons n filter_sublist.subset⟩

theorem filter_away (h : ∀ m ∈ l, t.lastAccess m ≠ key) : (l.filter fun m => t.lastAccess m ≠ key) = l :=
  filter_eq_self.mpr fun m hm => decide_eq_true (h m hm)

end Filters

section Walks

variable (priority : Nat → UInt64)

theorem mergeNodes_spec {fuel a b : Nat} {as bs : List Nat} (ha : Represents t a as)
    (hb : Represents t b bs) (hnodup : (as ++ bs).Nodup) (hfuel : as.length + bs.length < fuel) :
    ∃ t' p, mergeNodes priority fuel t a b = some (t', p) ∧ Represents t' p (as ++ bs) ∧ Changes t t' (as ++ bs) := by
  induction fuel generalizing a b t as bs with
  | zero => exact absurd hfuel (Nat.not_lt_zero _)
  | succ fuel ih =>
    rw [mergeNodes]
    split
    next hzero =>
      subst hzero
      cases ha.eq_nil
      exact ⟨t, b, rfl, hb, Changes.refl _ _⟩
    rename_i hane
    split
    next hzero =>
      subst hzero
      cases hb.eq_nil
      rw [append_nil]
      exact ⟨t, a, rfl, ha, Changes.refl _ _⟩
    rename_i hbne
    split
    · obtain ⟨ls, rs, rfl, hleft, hright⟩ := ha.root hane
      rw [append_assoc, cons_append] at hnodup ⊢
      obtain ⟨hlnot, _, _, hapart⟩ := apart_of_nodup hnodup
      have hrb := (nodup_cons.mp (nodup_append.mp hnodup).2.1).2
      rw [length_append, length_cons] at hfuel
      obtain ⟨t₁, c, hmerge, hchild, hchanges⟩ := ih hright hb hrb (by omega)
      rw [hmerge]
      exact ⟨_, a, rfl, hleft.replaceRight hane hchild hchanges (List.Subset.refl _) hapart hlnot,
        hchanges.thenRight (by simp) (by simp) c⟩
    · obtain ⟨ls, rs, rfl, hleft, hright⟩ := hb.root hbne
      rw [← append_assoc] at hnodup ⊢
      obtain ⟨_, hrnot, hapart, _⟩ := apart_of_nodup hnodup
      rw [length_append, length_cons] at hfuel
      obtain ⟨t₁, c, hmerge, hchild, hchanges⟩ := ih ha hleft (nodup_append.mp hnodup).1 (by omega)
      rw [hmerge]
      exact ⟨_, b, rfl, hright.replaceLeft hbne hchild hchanges (List.Subset.refl _) hapart hrnot,
        hchanges.thenLeft (by simp) (by simp) c⟩

theorem splitNodes_spec (key : Nat) {fuel root : Nat} (h : Represents t root l) (hsorted : Sorted t l)
    (hfuel : l.length < fuel) :
    ∃ t' left right, splitNodes key fuel t root = some (t', left, right) ∧
      Represents t' left (l.filter fun m => t.lastAccess m < key) ∧
      Represents t' right (l.filter fun m => !decide (t.lastAccess m < key)) ∧ Changes t t' l := by
  induction fuel generalizing root t l with
  | zero => exact absurd hfuel (Nat.not_lt_zero _)
  | succ fuel ih =>
    rw [splitNodes]
    split
    next hzero =>
      subst hzero
      cases h.eq_nil
      exact ⟨t, 0, 0, rfl, .nil, .nil, Changes.refl _ _⟩
    rename_i hne
    obtain ⟨ls, rs, rfl, hleft, hright⟩ := h.root hne
    obtain ⟨hls, hrs, hbelow, habove⟩ := hsorted.around
    obtain ⟨hlnot, hrnot, hapartl, hapartr⟩ := apart_of_nodup hsorted.nodup
    rw [length_append, length_cons] at hfuel
    split
    next hlt =>
      obtain ⟨t₁, left, right, hsplit, hl₁, hr₁, hchanges⟩ := ih hright hrs (by omega)
      rw [hsplit]
      obtain ⟨hsmall, hlarge⟩ := filters_below fun m hm => (hbelow m hm).trans hlt
      refine ⟨_, root, right, rfl, ?_, ?_, hchanges.thenRight (by simp) (by simp) left⟩
      · rw [filter_append, hsmall, filter_cons_of_pos (by simpa using hlt)]
        exact hleft.replaceRight hne hl₁ hchanges filter_sublist.subset hapartr hlnot
      · rw [filter_append, hlarge, nil_append, filter_cons_of_neg (by simpa using hlt)]
        apply hr₁.frame (changes_setRight t₁ root left)
        intro m hm hin
        exact hrnot (mem_singleton.mp hin ▸ mem_of_mem_filter hm)
    next hge =>
      obtain ⟨t₁, left, right, hsplit, hl₁, hr₁, hchanges⟩ := ih hleft hls (by omega)
      rw [hsplit]
      obtain ⟨hsmall, hlarge⟩ := filters_above fun m hm => (Nat.not_lt.mp hge).trans (habove m hm).le
      refine ⟨_, left, root, rfl, ?_, ?_, hchanges.thenLeft (by simp) (by simp) right⟩
      · rw [filter_append, filter_cons_of_neg (by simpa using hge), hsmall, append_nil]
        apply hl₁.frame (changes_setLeft t₁ root right)
        intro m hm hin
        exact hlnot (mem_singleton.mp hin ▸ mem_of_mem_filter hm)
      · rw [filter_append, filter_cons_of_pos (by simpa using hge), hlarge]
        exact hright.replaceLeft hne hr₁ hchanges filter_sublist.subset hapartl hrnot

theorem newerNodes_spec {fuel root key : Nat} (h : Represents t root l) (hsorted : Sorted t l)
    (hfuel : l.length < fuel) :
    newerNodes fuel t root key = some (l.filter fun m => key < t.lastAccess m).length := by
  induction fuel generalizing root l with
  | zero => exact absurd hfuel (Nat.not_lt_zero _)
  | succ fuel ih =>
    rw [newerNodes]
    split
    next hzero =>
      subst hzero
      cases h.eq_nil
      rfl
    rename_i hne
    obtain ⟨ls, rs, rfl, hleft, hright⟩ := h.root hne
    obtain ⟨hls, hrs, hbelow, habove⟩ := hsorted.around
    rw [length_append, length_cons] at hfuel
    split
    next hlt =>
      have hall : rs.filter (fun m => key < t.lastAccess m) = rs :=
        filter_eq_self.mpr fun m hm => decide_eq_true (hlt.trans (habove m hm))
      rw [ih hleft hls (by omega), filter_append, filter_cons_of_pos (by simpa using hlt), hall,
        hright.nodeSize, length_append, length_cons]
      show some _ = some _
      congr 1
      omega
    next hge =>
      have hnone : ls.filter (fun m => key < t.lastAccess m) = [] :=
        filter_eq_nil_iff.mpr fun m hm => by
          have hbelow' := hbelow m hm
          simp only [decide_eq_true_eq]
          omega
      rw [ih hright hrs (by omega), filter_append, hnone, nil_append, filter_cons_of_neg (by simpa using hge)]

theorem eraseNode_spec (key : Nat) {fuel root : Nat} (h : Represents t root l) (hsorted : Sorted t l)
    (hfuel : l.length < fuel) :
    ∃ t' p, eraseNode priority fuel t root key = some (t', p) ∧
      Represents t' p (l.filter fun m => t.lastAccess m ≠ key) ∧ Changes t t' l := by
  induction fuel generalizing root t l with
  | zero => exact absurd hfuel (Nat.not_lt_zero _)
  | succ fuel ih =>
    rw [eraseNode]
    split
    next hzero =>
      subst hzero
      cases h.eq_nil
      exact ⟨t, 0, rfl, .nil, Changes.refl _ _⟩
    rename_i hne
    obtain ⟨ls, rs, rfl, hleft, hright⟩ := h.root hne
    obtain ⟨hls, hrs, hbelow, habove⟩ := hsorted.around
    have hnodup := hsorted.nodup
    obtain ⟨hlnot, hrnot, hapartl, hapartr⟩ := apart_of_nodup hnodup
    rw [length_append, length_cons] at hfuel
    split
    next hkey =>
      have hsides : (ls ++ rs).Nodup :=
        hnodup.sublist (List.Sublist.append_left (sublist_cons_self root rs) ls)
      obtain ⟨t', p, hmerge, hresult, hchanges⟩ := mergeNodes_spec priority hleft hright hsides
        (show ls.length + rs.length < fuel + 1 by omega)
      refine ⟨t', p, hmerge, ?_, (Changes.refl t []).trans hchanges (nil_subset _) (by simp)⟩
      rw [filter_append, filter_cons_of_neg (by simpa using hkey),
        filter_away fun m hm => Nat.ne_of_lt (hkey ▸ hbelow m hm),
        filter_away fun m hm => Nat.ne_of_gt (hkey ▸ habove m hm)]
      exact hresult
    rename_i hkey
    split
    next hlt =>
      obtain ⟨t₁, c, herase, hchild, hchanges⟩ := ih hleft hls (by omega)
      rw [herase]
      refine ⟨_, root, rfl, ?_, hchanges.thenLeft (by simp) (by simp) c⟩
      rw [filter_append, filter_cons_of_pos (by simpa using hkey),
        filter_away fun m hm => Nat.ne_of_gt (hlt.trans (habove m hm))]
      exact hright.replaceLeft hne hchild hchanges filter_sublist.subset hapartl hrnot
    · have hgt : t.lastAccess root < key := by
        omega
      obtain ⟨t₁, c, herase, hchild, hchanges⟩ := ih hright hrs (by omega)
      rw [herase]
      refine ⟨_, root, rfl, ?_, hchanges.thenRight (by simp) (by simp) c⟩
      rw [filter_append, filter_cons_of_pos (by simpa using hkey),
        filter_away fun m hm => Nat.ne_of_lt ((hbelow m hm).trans hgt)]
      exact hleft.replaceRight hne hchild hchanges filter_sublist.subset hapartr hlnot

theorem insertNode_spec {fuel root node : Nat} (h : Represents t root l)
    (hsorted : Sorted t l) (hnode : node ≠ 0) (hfresh : ∀ m ∈ l, t.lastAccess m ≠ t.lastAccess node)
    (hsingle : Represents t node [node]) (hfuel : l.length < fuel) :
    ∃ t' p, insertNode priority fuel t root node = some (t', p) ∧
      Represents t' p ((l.filter fun m => t.lastAccess m < t.lastAccess node) ++
        node :: l.filter fun m => !decide (t.lastAccess m < t.lastAccess node)) ∧ Changes t t' (node :: l) := by
  have hout : node ∉ l := fun hin => hfresh node hin rfl
  induction fuel generalizing root t l with
  | zero => exact absurd hfuel (Nat.not_lt_zero _)
  | succ fuel ih =>
    rw [insertNode]
    split
    next hzero =>
      subst hzero
      cases h.eq_nil
      exact ⟨t, node, rfl, hsingle, Changes.refl _ _⟩
    rename_i hne
    split
    · obtain ⟨t₁, left, right, hsplit, hl₁, hr₁, hchanges⟩ :=
        splitNodes_spec (t.lastAccess node) h hsorted hfuel
      rw [hsplit]
      have hsides : node ∉ (l.filter fun m => t.lastAccess m < t.lastAccess node) ++
          l.filter fun m => !decide (t.lastAccess m < t.lastAccess node) := by
        intro hin
        rcases mem_append.mp hin with hl | hr
        · exact hout (mem_of_mem_filter hl)
        · exact hout (mem_of_mem_filter hr)
      refine ⟨_, node, rfl, Represents.setBoth hnode hl₁ hr₁ hsides, ?_⟩
      have hset := (changes_onlyLeft t₁ node left).trans (changes_setRight (t₁.setLeft node left) node right)
        (List.Subset.refl _) (List.Subset.refl _)
      refine hchanges.trans hset (fun m hm => mem_cons_of_mem _ hm) ?_
      exact fun m hm => mem_singleton.mp hm ▸ mem_cons_self
    obtain ⟨ls, rs, rfl, hleft, hright⟩ := h.root hne
    obtain ⟨hls, hrs, hbelow, habove⟩ := hsorted.around
    obtain ⟨hlnot, hrnot, hapartl, hapartr⟩ := apart_of_nodup hsorted.nodup
    have hrootne : root ≠ node := by
      rintro rfl
      exact hout (mem_append_right _ mem_cons_self)
    have houtl : node ∉ ls := fun hin => hout (mem_append_left _ hin)
    have houtr : node ∉ rs := fun hin => hout (mem_append_right _ (mem_cons_of_mem _ hin))
    rw [length_append, length_cons] at hfuel
    split
    next hlt =>
      obtain ⟨t₁, c, hinsert, hchild, hchanges⟩ := ih hleft hls
        (fun m hm => hfresh m (mem_append_left _ hm)) hsingle (by omega) houtl
      rw [hinsert]
      obtain ⟨hsmall, hlarge⟩ := filters_above fun m hm => hlt.le.trans (habove m hm).le
      have hapart : ∀ k ∈ root :: rs, k ∉ node :: ls := by
        intro k hk hin
        rcases mem_cons.mp hin with rfl | hl
        · exact (mem_cons.mp hk).elim (fun heq => hrootne heq.symm) houtr
        · exact hapartl k hk hl
      refine ⟨_, root, rfl, ?_, hchanges.thenLeft (by simp) (by simp) c⟩
      have hset := hright.replaceLeft hne hchild hchanges (sides_subset node ls _ _) hapart hrnot
      rw [append_assoc, cons_append] at hset
      rw [filter_append, filter_append, filter_cons_of_neg (by simpa using hlt.le),
        filter_cons_of_pos (by simpa using hlt.le), hsmall, hlarge, append_nil]
      exact hset
    · have hlt : t.lastAccess root < t.lastAccess node := by
        have hne' := hfresh root (mem_append_right _ mem_cons_self)
        omega
      obtain ⟨t₁, c, hinsert, hchild, hchanges⟩ := ih hright hrs
        (fun m hm => hfresh m (mem_append_right _ (mem_cons_of_mem _ hm))) hsingle (by omega) houtr
      rw [hinsert]
      obtain ⟨hsmall, hlarge⟩ := filters_below fun m hm => (hbelow m hm).trans hlt
      have hapart : ∀ k ∈ root :: ls, k ∉ node :: rs := by
        intro k hk hin
        rcases mem_cons.mp hin with rfl | hr
        · exact (mem_cons.mp hk).elim (fun heq => hrootne heq.symm) houtl
        · exact hapartr k hk hr
      refine ⟨_, root, rfl, ?_, hchanges.thenRight (cons_subset_cons node (by simp)) (by simp) c⟩
      have hset := hleft.replaceRight hne hchild hchanges (sides_subset node rs _ _) hapart hlnot
      rw [filter_append, filter_append, filter_cons_of_pos (by simpa using hlt),
        filter_cons_of_neg (by simpa using hlt), hsmall, hlarge, nil_append, append_assoc,
        cons_append]
      exact hset

end Walks

end FlashGordon.QsaLocality
