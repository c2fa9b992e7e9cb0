import Mathlib.Data.List.Induction
import Mathlib.Order.Bounds.Basic

/-! Keeping the newest. Items of several kinds arrive with a token each; what is kept is, for the greatest
token seen, the last item of every kind. An item of an older token is dropped, an item of a newer one drops
all that is kept. What is kept does not depend on the order in which items of different kinds or tokens
arrive. -/

namespace Newest

variable {K T A : Type*}

structure Kept (K T A : Type*) where
  token : Option T
  item : K → Option A

def Kept.empty : Kept K T A := ⟨none, fun _ => none⟩

variable [DecidableEq K] [LinearOrder T] (kind : A → K) (token : A → T)

def keep (kept : Kept K T A) (a : A) : Kept K T A :=
  match kept.token with
  | none => ⟨some (token a), Function.update (fun _ => none) (kind a) (some a)⟩
  | some t =>
    if token a < t then kept
    else if t < token a then ⟨some (token a), Function.update (fun _ => none) (kind a) (some a)⟩
    else ⟨some t, Function.update kept.item (kind a) (some a)⟩

def run (items : List A) : Kept K T A := items.foldl (keep kind token) .empty

def ofKind (k : K) (t : T) (items : List A) : List A := items.filter fun a => kind a = k ∧ token a = t

def tokens (items : List A) : Set T := {t | ∃ a ∈ items, token a = t}

section Rules

variable {kind : A → K} {token : A → T} {items other : List A} {k : K} {t : T}

theorem ofKind_append (a : A) :
    (ofKind kind token k t (items ++ [a])).getLast? =
      if kind a = k ∧ token a = t then some a else (ofKind kind token k t items).getLast? := by
  rw [ofKind, List.filter_append]
  split
  next h =>
    have hone : [a].filter (fun a => kind a = k ∧ token a = t) = [a] := List.filter_cons_of_pos (decide_eq_true h)
    rw [hone, List.getLast?_concat]
  next h =>
    have hnone : [a].filter (fun a => kind a = k ∧ token a = t) = [] :=
      List.filter_cons_of_neg fun hmatch => h (of_decide_eq_true hmatch)
    rw [hnone, List.append_nil, ofKind]

theorem ofKind_eq_nil (h : t ∉ tokens token items) : ofKind kind token k t items = [] := by
  rw [ofKind, List.filter_eq_nil_iff]
  intro a ha hmatch
  exact h ⟨a, ha, (of_decide_eq_true hmatch).2⟩

omit [LinearOrder T] in
theorem tokens_append (a : A) : tokens token (items ++ [a]) = insert (token a) (tokens token items) := by
  ext t
  constructor
  · rintro ⟨b, hb, rfl⟩
    rcases List.mem_append.mp hb with hold | hnew
    · exact .inr ⟨b, hold, rfl⟩
    · exact .inl (congrArg token (List.mem_singleton.mp hnew))
  · rintro (rfl | ⟨b, hb, rfl⟩)
    · exact ⟨a, List.mem_append_right _ (List.mem_singleton_self a), rfl⟩
    · exact ⟨b, List.mem_append_left _ hb, rfl⟩

structure Keeps (kind : A → K) (token : A → T) (items : List A) (kept : Kept K T A) : Prop where
  none_eq : kept.token = none → items = [] ∧ kept.item = fun _ => none
  greatest : ∀ t, kept.token = some t → IsGreatest (tokens token items) t
  last : ∀ t, kept.token = some t → ∀ k, kept.item k = (ofKind kind token k t items).getLast?

theorem keeps_fresh {a : A} (hnew : ∀ t ∈ tokens token items, t < token a) :
    Keeps kind token (items ++ [a]) ⟨some (token a), Function.update (fun _ => none) (kind a) (some a)⟩ where
  none_eq h := absurd h (Option.some_ne_none _)
  greatest t ht := by
    cases ht
    rw [tokens_append]
    refine ⟨.inl rfl, ?_⟩
    rintro s (rfl | hs)
    · exact le_refl _
    · exact (hnew s hs).le
  last t ht k := by
    cases ht
    have hnone : ofKind kind token k (token a) items = [] :=
      ofKind_eq_nil fun hmem => lt_irrefl _ (hnew _ hmem)
    rw [ofKind_append, hnone, List.getLast?_nil]
    dsimp only
    by_cases hk : kind a = k
    · subst hk
      rw [Function.update_self, if_pos ⟨rfl, rfl⟩]
    · rw [Function.update_of_ne (Ne.symm hk), if_neg fun h => hk h.1]

theorem keep_keeps {kept : Kept K T A} (h : Keeps kind token items kept) (a : A) :
    Keeps kind token (items ++ [a]) (keep kind token kept a) := by
  obtain ⟨held, item⟩ := kept
  cases held with
  | none =>
    obtain ⟨rfl, -⟩ := h.none_eq rfl
    exact keeps_fresh fun t ⟨b, hb, _⟩ => absurd hb List.not_mem_nil
  | some t =>
    have hgreatest := h.greatest t rfl
    rw [keep]
    dsimp only
    split
    next hold =>
      refine ⟨fun hnone => absurd hnone (Option.some_ne_none _), ?_, ?_⟩
      · intro s hs
        cases hs
        rw [tokens_append]
        exact ⟨.inr hgreatest.1, fun s hs => hs.elim (fun heq => heq ▸ hold.le) fun hmem => hgreatest.2 hmem⟩
      · intro s hs k
        cases hs
        rw [ofKind_append, if_neg fun hmatch => absurd hmatch.2 hold.ne]
        exact h.last t rfl k
    next hold =>
      split
      next hnew =>
        exact keeps_fresh fun s hs => lt_of_le_of_lt (hgreatest.2 hs) hnew
      next hnew =>
        have hsame : token a = t := le_antisymm (not_lt.mp hnew) (not_lt.mp hold)
        refine ⟨fun hnone => absurd hnone (Option.some_ne_none _), ?_, ?_⟩
        · intro s hs
          cases hs
          rw [tokens_append, hsame, Set.insert_eq_of_mem hgreatest.1]
          exact hgreatest
        · intro s hs k
          cases hs
          rw [ofKind_append]
          by_cases hk : kind a = k
          · subst hk
            rw [if_pos ⟨rfl, hsame⟩]
            exact Function.update_self _ _ _
          · rw [if_neg fun hmatch => hk hmatch.1]
            exact (Function.update_of_ne (Ne.symm hk) _ _).trans (h.last t rfl k)

theorem run_keeps (kind : A → K) (token : A → T) (items : List A) : Keeps kind token items (run kind token items) := by
  induction items using List.reverseRecOn with
  | nil => exact ⟨fun _ => ⟨rfl, rfl⟩, fun t ht => (by cases ht), fun t ht => (by cases ht)⟩
  | append_singleton items a ih =>
    rw [run, List.foldl_append]
    exact keep_keeps ih a

theorem Keeps.present {kept : Kept K T A} (h : Keeps kind token items kept) (ht : kept.token = some t) :
    ∃ k, (kept.item k).isSome = true := by
  obtain ⟨a, ha, hat⟩ := (h.greatest t ht).1
  refine ⟨kind a, ?_⟩
  rw [h.last t ht, List.getLast?_isSome]
  exact List.ne_nil_of_mem (List.mem_filter.mpr ⟨ha, decide_eq_true ⟨rfl, hat⟩⟩)

theorem Keeps.token_eq {kept : Kept K T A} (h : Keeps kind token items kept) {a : A}
    (ha : kept.item k = some a) : kept.token = some (token a) := by
  cases ht : kept.token with
  | none =>
    rw [(h.none_eq ht).2] at ha
    cases ha
  | some t =>
    rw [h.last t ht] at ha
    have hmem := List.mem_of_getLast? ha
    rw [(of_decide_eq_true (List.mem_filter.mp hmem).2).2]

theorem Keeps.token_none {kept : Kept K T A} (h : Keeps kind token items kept) :
    kept.token = none ↔ tokens token items = ∅ := by
  constructor
  · intro hnone
    rw [(h.none_eq hnone).1]
    exact Set.eq_empty_of_forall_notMem fun t ⟨a, ha, _⟩ => absurd ha List.not_mem_nil
  · intro hempty
    cases ht : kept.token with
    | none => rfl
    | some t =>
      have hmem := (h.greatest t ht).1
      rw [hempty] at hmem
      exact absurd hmem (Set.notMem_empty t)

section

variable (h : ∀ k t, ofKind kind token k t other = ofKind kind token k t items)
include h

theorem tokens_subset :
    tokens token other ⊆ tokens token items := by
  rintro t ⟨a, ha, rfl⟩
  have hmem : a ∈ ofKind kind token (kind a) (token a) other :=
    List.mem_filter.mpr ⟨ha, decide_eq_true ⟨rfl, rfl⟩⟩
  rw [h] at hmem
  exact ⟨a, (List.mem_filter.mp hmem).1, rfl⟩

theorem run_reorder :
    run kind token other = run kind token items := by
  have htokens : tokens token other = tokens token items :=
    Set.Subset.antisymm (tokens_subset h) (tokens_subset fun k t => (h k t).symm)
  have hother := run_keeps kind token other
  have hitems := run_keeps kind token items
  generalize run kind token other = first at hother ⊢
  generalize run kind token items = second at hitems ⊢
  obtain ⟨held, item⟩ := second
  obtain ⟨heldOther, itemOther⟩ := first
  cases held with
  | none =>
    have hempty : tokens token other = ∅ := htokens.trans (hitems.token_none.mp rfl)
    have hnone : heldOther = none := hother.token_none.mpr hempty
    subst hnone
    obtain ⟨-, hitem⟩ := hitems.none_eq rfl
    obtain ⟨-, hitemOther⟩ := hother.none_eq rfl
    exact congrArg (Kept.mk none) (hitemOther.trans hitem.symm)
  | some t =>
    have hgreatest : IsGreatest (tokens token other) t := htokens ▸ hitems.greatest t rfl
    cases heldOther with
    | none =>
      have hempty : tokens token other = ∅ := hother.token_none.mp rfl
      exact absurd (hempty ▸ hgreatest.1) (Set.notMem_empty t)
    | some s =>
      have hst : s = t := (hother.greatest s rfl).unique hgreatest
      subst hst
      refine congrArg (Kept.mk (some s)) (funext fun k => ?_)
      calc itemOther k = (ofKind kind token k s other).getLast? := hother.last s rfl k
        _ = (ofKind kind token k s items).getLast? := by rw [h]
        _ = item k := (hitems.last s rfl k).symm

end

end Rules

end Newest
