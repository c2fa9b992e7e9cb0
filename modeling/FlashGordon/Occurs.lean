import Mathlib.Data.List.Infix

/-! Where a word stands in a text: the first place, how often, and how much of it a text has begun at its end.
What one reads of a text in pieces depends on the last of these: a word that is not begun in one piece stands
wholly in it or wholly behind it. -/

namespace Occurs

open List

variable {α : Type} {m xs ys : List α}

/-- The text ends inside the word. -/
def Begun (m xs : List α) : Prop := ∃ k < m.length, 0 < k ∧ m.take k <:+ xs

theorem prefix_append_iff : m <+: xs ++ ys ↔ m <+: xs ∨ ∃ rest, rest ≠ [] ∧ m = xs ++ rest ∧ rest <+: ys := by
  constructor
  · intro h
    rcases Nat.lt_or_ge xs.length m.length with hlt | hge
    · obtain ⟨rest, rfl⟩ := prefix_of_prefix_length_le (prefix_append xs ys) h hlt.le
      refine .inr ⟨rest, ?_, rfl, (prefix_append_right_inj xs).mp h⟩
      rintro rfl
      simp at hlt
    · exact .inl (prefix_of_prefix_length_le h (prefix_append xs ys) hge)
  · rintro (h | ⟨rest, -, rfl, h⟩)
    · exact h.trans (prefix_append xs ys)
    · exact (prefix_append_right_inj xs).mpr h

theorem begun_of_suffix (h : ys <:+ xs) (hbegun : Begun m ys) : Begun m xs := by
  obtain ⟨k, hk, hpos, hsuffix⟩ := hbegun
  exact ⟨k, hk, hpos, hsuffix.trans h⟩

theorem begun_of_append {rest : List α} (hxs : xs ≠ []) (hrest : rest ≠ []) (h : m = xs ++ rest) : Begun m xs := by
  subst h
  refine ⟨xs.length, ?_, length_pos_iff.mpr hxs, ?_⟩
  · rw [length_append]
    have hpos := length_pos_iff.mpr hrest
    omega
  · rw [take_left]

theorem not_begun_of_notMem {x : α} (hm : m.head? = some x) (hxs : x ∉ xs) : ¬Begun m xs := by
  rintro ⟨k, hk, hpos, hsuffix⟩
  obtain ⟨rest, rfl⟩ := List.head?_eq_some_iff.mp hm
  obtain ⟨k, rfl⟩ := Nat.exists_eq_add_one.mpr hpos
  refine hxs (hsuffix.subset ?_)
  rw [take_succ_cons]
  exact mem_cons_self

theorem not_begun_of_getLast {x : α} (hxs : xs.getLast? = some x) (hm : x ∉ m.dropLast) : ¬Begun m xs := by
  rintro ⟨k, hk, hpos, hsuffix⟩
  have hne : m.take k ≠ [] := by
    rw [Ne, take_eq_nil_iff, not_or]
    exact ⟨hpos.ne', fun h => by simp [h] at hk⟩
  have hlast : (m.take k).getLast? = some x := by
    obtain ⟨front, rfl⟩ := hsuffix
    rwa [List.getLast?_append_of_ne_nil _ hne] at hxs
  have hmem : x ∈ m.take k := mem_of_getLast? hlast
  refine hm (List.IsPrefix.subset ?_ hmem)
  rw [dropLast_eq_take]
  exact take_prefix_take_left (by omega)

/-! Places. A word stands at `i` when it begins the text behind the first `i` letters. -/

theorem prefix_drop_append {i : Nat} (h : i + m.length ≤ xs.length) : m <+: (xs ++ ys).drop i ↔ m <+: xs.drop i := by
  rw [drop_append_of_le_length (by omega)]
  constructor
  · intro hm
    exact prefix_of_prefix_length_le hm (prefix_append _ _) (by rw [length_drop]; omega)
  · intro hm
    exact hm.trans (prefix_append _ _)

theorem prefix_drop_shift {i : Nat} : m <+: (xs ++ ys).drop (xs.length + i) ↔ m <+: ys.drop i := by
  rw [drop_append, drop_eq_nil_of_le (Nat.le_add_right _ _), nil_append, Nat.add_sub_cancel_left]

/-! Words whose first letter stands nowhere else in them: two of their places do not share a letter. -/

/-- The first letter of the word is not met again in it. -/
def Lone (m : List α) : Prop := ∃ c rest, m = c :: rest ∧ c ∉ rest

theorem Lone.ne_nil (h : Lone m) : m ≠ [] := by
  obtain ⟨c, rest, rfl, -⟩ := h
  exact cons_ne_nil c rest

theorem Lone.prefix_drop (h : Lone m) (hys : ys = [] ∨ ys.head? = m.head?) {i : Nat} (hi : i < xs.length)
    (hbegins : m <+: (xs ++ ys).drop i) : m <+: xs.drop i := by
  rw [drop_append_of_le_length hi.le] at hbegins
  rcases prefix_append_iff.mp hbegins with hinside | ⟨rest, hrest, hm, hfollows⟩
  · exact hinside
  · obtain ⟨c, letters, rfl, hc⟩ := h
    obtain ⟨x, rest, rfl⟩ := exists_cons_of_ne_nil hrest
    obtain ⟨more, rfl⟩ := hfollows
    rcases hys with hnil | hhead
    · exact absurd hnil (cons_ne_nil x _)
    · obtain rfl : x = c := Option.some.inj hhead
      have hdrop : xs.drop i ≠ [] := by rwa [Ne, drop_eq_nil_iff, not_le]
      obtain ⟨y, front, hfront⟩ := exists_cons_of_ne_nil hdrop
      rw [hfront] at hm
      refine absurd ?_ hc
      rw [(List.cons.inj hm).2]
      exact mem_append_right _ mem_cons_self

variable [DecidableEq α]

instance (m xs : List α) : Decidable (Begun m xs) :=
  inferInstanceAs (Decidable (∃ k < m.length, 0 < k ∧ m.take k <:+ xs))

/-- The first place of a word. -/
def find (m : List α) : List α → Option Nat
  | [] => if m = [] then some 0 else none
  | x :: xs => if m <+: x :: xs then some 0 else (find m xs).map (· + 1)

def count (m : List α) : List α → Nat
  | [] => 0
  | x :: xs => (if m <+: x :: xs then 1 else 0) + count m xs

theorem count_append (h : ¬Begun m xs) : count m (xs ++ ys) = count m xs + count m ys := by
  induction xs with
  | nil => simp [count]
  | cons x xs ih =>
    have hseam : m <+: x :: xs ++ ys ↔ m <+: x :: xs := by
      rw [prefix_append_iff]
      refine or_iff_left ?_
      rintro ⟨rest, hrest, heq, -⟩
      exact h (begun_of_append (cons_ne_nil x xs) hrest heq)
    rw [cons_append] at hseam ⊢
    rw [count, count, ih fun hbegun => h (begun_of_suffix (suffix_cons x xs) hbegun)]
    simp only [hseam]
    omega

theorem count_append_of_head (h : ∀ y ∈ ys.head?, y ∉ m.tail) : count m (xs ++ ys) = count m xs + count m ys := by
  induction xs with
  | nil => simp [count]
  | cons x xs ih =>
    have hseam : m <+: x :: xs ++ ys ↔ m <+: x :: xs := by
      rw [prefix_append_iff]
      refine or_iff_left ?_
      rintro ⟨rest, hrest, heq, hys⟩
      obtain ⟨y, rest, rfl⟩ := exists_cons_of_ne_nil hrest
      obtain ⟨tail, rfl⟩ := hys
      refine h y (by simp) ?_
      rw [heq]
      simp
    rw [cons_append] at hseam ⊢
    rw [count, count, ih]
    simp only [hseam]
    omega

theorem count_eq_zero_of_notMem {x : α} (hm : x ∈ m) (hxs : x ∉ xs) : count m xs = 0 := by
  induction xs with
  | nil => rfl
  | cons y ys ih =>
    have hnot : ¬m <+: y :: ys := fun h => hxs (h.subset hm)
    rw [count, if_neg hnot, ih fun h => hxs (mem_cons_of_mem y h)]

/-- The text has so many places of the word, whatever is put behind it. -/
def Weighs (m : List α) (n : Nat) (xs : List α) : Prop := ∀ ys, count m (xs ++ ys) = n + count m ys

theorem Weighs.count_eq {n : Nat} (h : Weighs m n xs) : count m xs = n := by
  have hnil := h []
  rwa [append_nil, count, Nat.add_zero] at hnil

theorem Weighs.of_eq {n k : Nat} (h : Weighs m n xs) (heq : n = k) : Weighs m k xs := heq ▸ h

theorem weighs_nil : Weighs m 0 [] := fun ys => (Nat.zero_add (count m ys)).symm

theorem Weighs.append {n k : Nat} (hx : Weighs m n xs) (hy : Weighs m k ys) : Weighs m (n + k) (xs ++ ys) := by
  intro zs
  rw [append_assoc, hx, hy, Nat.add_assoc]

theorem weighs_of_not_begun (h : ¬Begun m xs) : Weighs m (count m xs) xs := fun _ => count_append h

theorem Weighs.before {n : Nat} {y : α} (hhead : ys.head? = some y) (hy : y ∉ m.tail) (h : Weighs m n ys) :
    Weighs m (count m xs + n) (xs ++ ys) := by
  intro zs
  rw [append_assoc, count_append_of_head, h, Nat.add_assoc]
  intro z hz
  rw [List.head?_append, hhead, Option.some_or, Option.mem_some_iff] at hz
  exact hz ▸ hy

theorem count_eq_zero_iff (hm : m ≠ []) : count m xs = 0 ↔ find m xs = none := by
  induction xs with
  | nil => simp [count, find, hm]
  | cons x xs ih =>
    rw [count, find]
    split
    · simp
    · rw [Nat.zero_add, ih, Option.map_eq_none_iff]

theorem find_eq_some {i : Nat} : find m xs = some i ↔ m <+: xs.drop i ∧ ∀ j < i, ¬m <+: xs.drop j := by
  induction xs generalizing i with
  | nil =>
    rw [find]
    split
    next hm =>
      subst hm
      cases i with
      | zero => simp
      | succ i =>
        exact ⟨fun h => absurd (Option.some.inj h) (Nat.succ_ne_zero i).symm,
          fun h => absurd nil_prefix (h.2 0 (Nat.succ_pos i))⟩
    next hm =>
      simp [hm]
  | cons x xs ih =>
    rw [find]
    split
    next hm =>
      cases i with
      | zero => simpa using hm
      | succ i =>
        refine iff_of_false (by simp) ?_
        rintro ⟨-, hnot⟩
        exact hnot 0 (Nat.succ_pos i) hm
    next hm =>
      cases i with
      | zero => simpa using hm
      | succ i =>
        rw [Option.map_eq_some_iff]
        simp only [Nat.add_right_cancel_iff, exists_eq_right, drop_succ_cons, ih]
        refine and_congr_right fun _ => ⟨fun h j hj => ?_, fun h j hj => h (j + 1) (Nat.succ_lt_succ hj)⟩
        cases j with
        | zero => exact hm
        | succ j => exact h j (Nat.lt_of_succ_lt_succ hj)

theorem find_eq_none : find m xs = none ↔ ∀ i, ¬m <+: xs.drop i := by
  induction xs with
  | nil => simp [find]
  | cons x xs ih =>
    rw [find]
    split
    next hm =>
      exact iff_of_false (by simp) fun h => h 0 hm
    next hm =>
      rw [Option.map_eq_none_iff, ih]
      refine ⟨fun h i => ?_, fun h i => h (i + 1)⟩
      cases i with
      | zero => exact hm
      | succ i => exact h i

theorem find_le {i : Nat} (hm : m ≠ []) (h : find m xs = some i) : i + m.length ≤ xs.length := by
  have hle := (find_eq_some.mp h).1.length_le
  have hpos := length_pos_iff.mpr hm
  rw [length_drop] at hle
  omega

theorem find_append (hm : m ≠ []) {i : Nat} (h : find m xs = some i) : find m (xs ++ ys) = some i := by
  have hle := find_le hm h
  rw [find_eq_some] at h ⊢
  refine ⟨(prefix_drop_append hle).mpr h.1, fun j hj => ?_⟩
  rw [prefix_drop_append (by omega)]
  exact h.2 j hj

theorem find_take {i n : Nat} (h : find m xs = some i) (hn : i + m.length ≤ n) : find m (xs.take n) = some i := by
  rw [find_eq_some] at h ⊢
  refine ⟨?_, fun j hj hword => h.2 j hj (hword.trans ?_)⟩
  · rw [drop_take]
    exact prefix_take_iff.mpr ⟨h.1, by omega⟩
  · rw [drop_take]
    exact take_prefix _ _

theorem find_of_take (hm : m ≠ []) {i n : Nat} (h : find m (xs.take n) = some i) :
    find m xs = some i ∧ i + m.length ≤ n := by
  constructor
  · rw [← take_append_drop n xs]
    exact find_append hm h
  · have hle := find_le hm h
    rw [length_take] at hle
    omega

theorem find_shift (h : ∀ i < xs.length, ¬m <+: (xs ++ ys).drop i) :
    find m (xs ++ ys) = (find m ys).map (xs.length + ·) := by
  cases hys : find m ys with
  | none =>
    rw [Option.map_none, find_eq_none]
    intro i
    rcases Nat.lt_or_ge i xs.length with hi | hi
    · exact h i hi
    · obtain ⟨k, rfl⟩ := Nat.exists_eq_add_of_le hi
      rw [prefix_drop_shift]
      exact find_eq_none.mp hys k
  | some k =>
    rw [Option.map_some, find_eq_some, prefix_drop_shift]
    rw [find_eq_some] at hys
    refine ⟨hys.1, fun j hj => ?_⟩
    rcases Nat.lt_or_ge j xs.length with hj' | hj'
    · exact h j hj'
    · obtain ⟨l, rfl⟩ := Nat.exists_eq_add_of_le hj'
      rw [prefix_drop_shift]
      exact hys.2 l (by omega)

/-! The part of a word that a text ends with. -/

/-! The first place of such a word, and the text in front of it. -/

theorem Lone.find_front (h : Lone m) (hys : ys = [] ∨ ys.head? = m.head?) {i : Nat} :
    (find m (xs ++ ys) = some i ∧ i < xs.length) ↔ find m xs = some i := by
  constructor
  · rintro ⟨hfind, hi⟩
    rw [find_eq_some] at hfind ⊢
    refine ⟨h.prefix_drop hys hi hfind.1, fun j hj hword => hfind.2 j hj ?_⟩
    rw [drop_append_of_le_length (by omega)]
    exact hword.trans (prefix_append _ _)
  · intro hfind
    have hpos := length_pos_iff.mpr h.ne_nil
    have hle := find_le h.ne_nil hfind
    exact ⟨find_append h.ne_nil hfind, by omega⟩

theorem Lone.find_word (h : Lone m) : find m (xs ++ (m ++ ys)) = some xs.length ↔ find m xs = none := by
  have hhead : (m ++ ys).head? = m.head? := by
    obtain ⟨c, rest, rfl, -⟩ := h
    rfl
  constructor
  · intro hfind
    cases hxs : find m xs with
    | none => rfl
    | some i =>
      obtain ⟨hsame, hi⟩ := (h.find_front (.inr hhead)).mpr hxs
      rw [hsame] at hfind
      exact absurd (Option.some.inj hfind) (Nat.ne_of_lt hi)
  · intro hnone
    have hword : find m (m ++ ys) = some 0 :=
      find_eq_some.mpr ⟨prefix_append m ys, fun j hj => absurd hj (Nat.not_lt_zero j)⟩
    rw [find_shift, hword, Option.map_some, Nat.add_zero]
    exact fun i hi hbegins => find_eq_none.mp hnone i (h.prefix_drop (.inr hhead) hi hbegins)

theorem find_none_iff_absent : find m xs = none ↔ ¬m <:+: xs := by
  rw [find_eq_none, infix_iff_prefix_suffix]
  constructor
  · rintro h ⟨part, hbegins, hsuffix⟩
    obtain ⟨front, rfl⟩ := hsuffix
    exact h front.length (by rwa [drop_left])
  · intro h i hbegins
    exact h ⟨_, hbegins, drop_suffix i xs⟩

end Occurs
