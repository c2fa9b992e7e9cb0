import FlashGordon.Occurs

/-! Parsers that look at the text read so far and say whether it holds a whole piece. What such a parser answers may
depend on how much it has been shown; it is firm where it answers the same for every longer text, and depends, for a
piece, on the letters of the piece alone. -/

namespace Incremental

open Occurs List

/-- Of the text read so far: a whole piece and its length, or more is needed, or no text makes it right. -/
inductive Verdict (R E : Type) where
  | incomplete
  | complete (result : R) (consumed : Nat)
  | failed (error : E)

variable {α A R E : Type}

def Firm (parse : List α → Verdict R E) (text : List α) : Prop :=
  match parse text with
  | .incomplete => True
  | .complete result consumed =>
    consumed ≤ text.length ∧ ∀ more, parse (text.take consumed ++ more) = .complete result consumed
  | .failed error => ∀ more, parse (text ++ more) = .failed error

section Firm

variable {parse : List α → Verdict R E} {text : List α} {result : R} {consumed : Nat} {error : E}

theorem firm_of_incomplete (h : parse text = .incomplete) : Firm parse text := by
  unfold Firm
  rw [h]
  trivial

theorem firm_of_complete (result : R) (consumed : Nat) (hle : consumed ≤ text.length)
    (h : ∀ more, parse (text.take consumed ++ more) = .complete result consumed) : Firm parse text := by
  have hself := h (text.drop consumed)
  rw [take_append_drop] at hself
  unfold Firm
  rw [hself]
  exact ⟨hle, h⟩

theorem firm_of_failed (error : E) (h : ∀ more, parse (text ++ more) = .failed error) : Firm parse text := by
  have hself := h []
  rw [append_nil] at hself
  unfold Firm
  rw [hself]
  exact h

theorem Firm.length_le (h : Firm parse text) (hcomplete : parse text = .complete result consumed) :
    consumed ≤ text.length := by
  rw [Firm, hcomplete] at h
  exact h.1

theorem Firm.take_append (h : Firm parse text) (hcomplete : parse text = .complete result consumed) (more : List α) :
    parse (text.take consumed ++ more) = .complete result consumed := by
  rw [Firm, hcomplete] at h
  exact h.2 more

theorem Firm.append (h : Firm parse text) (hne : parse text ≠ .incomplete) (more : List α) :
    parse (text ++ more) = parse text := by
  cases hverdict : parse text with
  | incomplete => exact absurd hverdict hne
  | complete result consumed =>
    have htake := h.take_append hverdict (text.drop consumed ++ more)
    rwa [← append_assoc, take_append_drop] at htake
  | failed error =>
    rw [Firm, hverdict] at h
    exact h more

end Firm

def Verdict.map (f : A → R) : Verdict A E → Verdict R E
  | .incomplete => .incomplete
  | .complete result consumed => .complete (f result) consumed
  | .failed error => .failed error

def Verdict.ofExcept (consumed : Nat) : Except E A → Verdict A E
  | .ok result => .complete result consumed
  | .error error => .failed error

def andThen (first : List α → Verdict A E) (next : A → List α → Verdict R E) (text : List α) : Verdict R E :=
  match first text with
  | .incomplete => .incomplete
  | .failed error => .failed error
  | .complete result consumed =>
    match next result (text.drop consumed) with
    | .incomplete => .incomplete
    | .failed error => .failed error
    | .complete last more => .complete last (consumed + more)

def upTo [DecidableEq α] (word : List α) (read : List α → Except E A) (text : List α) : Verdict A E :=
  match find word text with
  | none => .incomplete
  | some i => .ofExcept (i + word.length) (read (text.take i))

def exactly (n : Nat) (read : List α → Except E A) (text : List α) : Verdict A E :=
  if text.length < n then .incomplete else .ofExcept n (read (text.take n))

theorem ofExcept_complete {n consumed : Nat} {value : Except E A} {result : A}
    (h : Verdict.ofExcept n value = .complete result consumed) : value = .ok result ∧ consumed = n := by
  cases value with
  | ok value => cases h; exact ⟨rfl, rfl⟩
  | error error => cases h

theorem ofExcept_failed {n : Nat} {value : Except E A} {error : E} (h : Verdict.ofExcept n value = .failed error) :
    value = .error error := by
  cases value with
  | ok value => cases h
  | error error => cases h; rfl

theorem map_failed {f : A → R} {verdict : Verdict A E} {error : E} (h : verdict.map f = .failed error) :
    verdict = .failed error := by
  cases verdict with
  | incomplete => cases h
  | complete result consumed => cases h
  | failed error => cases h; rfl

variable {read : List α → Except E A} {text : List α}

theorem exactly_complete {n consumed : Nat} {result : A}
    (h : exactly n read text = .complete result consumed) : consumed = n ∧ n ≤ text.length := by
  unfold exactly at h
  split_ifs at h with hshort
  exact ⟨(ofExcept_complete h).2, Nat.le_of_not_lt hshort⟩

variable {word : List α}

theorem upTo_complete [DecidableEq α] {result : A}
    {consumed : Nat} (h : upTo word read text = .complete result consumed) :
    ∃ i, find word text = some i ∧ read (text.take i) = .ok result ∧ consumed = i + word.length := by
  unfold upTo at h
  cases hfind : find word text with
  | none => rw [hfind] at h; cases h
  | some i =>
    rw [hfind] at h
    obtain ⟨hread, hconsumed⟩ := ofExcept_complete h
    exact ⟨i, rfl, hread, hconsumed⟩

theorem upTo_failed [DecidableEq α] {error : E}
    (h : upTo word read text = .failed error) : ∃ piece, read piece = .error error := by
  unfold upTo at h
  cases hfind : find word text with
  | none => rw [hfind] at h; cases h
  | some i =>
    rw [hfind] at h
    exact ⟨text.take i, ofExcept_failed h⟩

section AndThen

variable {first : List α → Verdict A E} {next : A → List α → Verdict R E} {text : List α}

theorem andThen_complete {last : R} {consumed : Nat} (h : andThen first next text = .complete last consumed) :
    ∃ result n m, first text = .complete result n ∧ next result (text.drop n) = .complete last m ∧ consumed = n + m := by
  unfold andThen at h
  cases hfirst : first text with
  | incomplete => rw [hfirst] at h; cases h
  | failed error => rw [hfirst] at h; cases h
  | complete result n =>
    rw [hfirst] at h
    dsimp only at h
    cases hnext : next result (text.drop n) with
    | incomplete => rw [hnext] at h; cases h
    | failed error => rw [hnext] at h; cases h
    | complete last m =>
      rw [hnext] at h
      cases h
      exact ⟨result, n, m, rfl, hnext, rfl⟩

theorem andThen_failed {error : E} (h : andThen first next text = .failed error) :
    first text = .failed error ∨
      ∃ result n, first text = .complete result n ∧ next result (text.drop n) = .failed error := by
  unfold andThen at h
  cases hfirst : first text with
  | incomplete => rw [hfirst] at h; cases h
  | failed error => rw [hfirst] at h; cases h; exact .inl rfl
  | complete result n =>
    rw [hfirst] at h
    dsimp only at h
    cases hnext : next result (text.drop n) with
    | incomplete => rw [hnext] at h; cases h
    | failed error => rw [hnext] at h; cases h; exact .inr ⟨result, n, rfl, hnext⟩
    | complete last m => rw [hnext] at h; cases h

end AndThen

theorem firm_map (f : A → R) {parse : List α → Verdict A E} (h : Firm parse text) :
    Firm (fun text => (parse text).map f) text := by
  cases hverdict : parse text with
  | incomplete => exact firm_of_incomplete (by rw [hverdict, Verdict.map])
  | complete result consumed =>
    exact firm_of_complete _ _ (h.length_le hverdict) fun more => by rw [h.take_append hverdict, Verdict.map]
  | failed error =>
    have hne : parse text ≠ .incomplete := by rw [hverdict]; simp
    exact firm_of_failed _ fun more => by rw [h.append hne, hverdict, Verdict.map]

theorem firm_andThen {first : List α → Verdict A E} {next : A → List α → Verdict R E} (hfirst : Firm first text)
    (hnext : ∀ result consumed, first text = .complete result consumed → Firm (next result) (text.drop consumed)) :
    Firm (andThen first next) text := by
  cases hverdict : first text with
  | incomplete => exact firm_of_incomplete (by rw [andThen, hverdict])
  | failed error =>
    have hne : first text ≠ .incomplete := by rw [hverdict]; simp
    exact firm_of_failed _ fun more => by rw [andThen, hfirst.append hne, hverdict]
  | complete result consumed =>
    have hle := hfirst.length_le hverdict
    have hthen : ∀ more, andThen first next (text.take consumed ++ more) =
        match next result more with
        | .incomplete => .incomplete
        | .failed error => .failed error
        | .complete last more => .complete last (consumed + more) := fun more => by
      rw [andThen, hfirst.take_append hverdict]
      dsimp only
      rw [drop_left' (by rw [length_take, Nat.min_eq_left hle])]
    have hrest := hnext result consumed hverdict
    cases hlast : next result (text.drop consumed) with
    | incomplete =>
      have hself := hthen (text.drop consumed)
      rw [take_append_drop, hlast] at hself
      exact firm_of_incomplete hself
    | failed error =>
      have hne : next result (text.drop consumed) ≠ .incomplete := by rw [hlast]; simp
      have hfailed : ∀ more, andThen first next (text ++ more) = .failed error := fun more => by
        have happend := hthen (text.drop consumed ++ more)
        rwa [← append_assoc, take_append_drop, hrest.append hne, hlast] at happend
      exact firm_of_failed error hfailed
    | complete last length =>
      have hlength := hrest.length_le hlast
      rw [length_drop] at hlength
      refine firm_of_complete last (consumed + length) (by omega) fun more => ?_
      rw [take_add, append_assoc, hthen, hrest.take_append hlast]

theorem firm_exactly (n : Nat) (read : List α → Except E A) (text : List α) : Firm (exactly n read) text := by
  by_cases hshort : text.length < n
  · exact firm_of_incomplete (if_pos hshort)
  · have htake : ∀ more, exactly n read (text.take n ++ more) = .ofExcept n (read (text.take n)) := fun more => by
      have hlength : (text.take n).length = n := by rw [length_take]; omega
      rw [exactly, if_neg (by rw [length_append]; omega), take_left' hlength]
    cases hread : read (text.take n) with
    | ok result =>
      exact firm_of_complete _ n (Nat.le_of_not_lt hshort) fun more => by rw [htake, hread, Verdict.ofExcept]
    | error error =>
      have hfailed : ∀ more, exactly n read (text ++ more) = .failed error := fun more => by
        have hmore := htake (text.drop n ++ more)
        rwa [← append_assoc, take_append_drop, hread] at hmore
      exact firm_of_failed error hfailed

theorem firm_upTo [DecidableEq α] (hword : word ≠ []) (read : List α → Except E A) (text : List α) :
    Firm (upTo word read) text := by
  cases hfind : find word text with
  | none => exact firm_of_incomplete (by rw [upTo, hfind])
  | some i =>
    have hle := find_le hword hfind
    have htake : ∀ more, upTo word read (text.take (i + word.length) ++ more) =
        .ofExcept (i + word.length) (read (text.take i)) := fun more => by
      rw [upTo, find_append hword (find_take hfind (Nat.le_refl _))]
      dsimp only
      rw [take_append_of_le_length (by rw [length_take]; omega), take_take,
        Nat.min_eq_left (Nat.le_add_right i word.length)]
    cases hread : read (text.take i) with
    | ok result => exact firm_of_complete _ _ hle fun more => by rw [htake, hread, Verdict.ofExcept]
    | error error =>
      have hfailed : ∀ more, upTo word read (text ++ more) = .failed error := fun more => by
        have hmore := htake (text.drop (i + word.length) ++ more)
        rwa [← append_assoc, take_append_drop, hread] at hmore
      exact firm_of_failed error hfailed

/-! Readers. A reader keeps no more of a text than its bound, shows that to the parser, and takes whole pieces off.
After some pieces it goes no further, and after a text that is refused. -/

section Reader

variable (parse : List α → Verdict R E) (bound : Nat) (goesOn : R → Prop)

/-- The pieces taken off a text when as much of it is shown as fits, and what is left. -/
inductive Cuts (text : List α) : List R → List α → Prop
  | start : Cuts text [] text
  | more {results rest result consumed} : Cuts text results rest → (∀ result ∈ results, goesOn result) →
      parse (rest.take bound) = .complete result consumed → Cuts text (results ++ [result]) (rest.drop consumed)

/-- Where a reader that is shown as much as fits comes to its end. -/
def Ends (text : List α) (results : List R) (error : Option E) (rest : List α) : Prop :=
  Cuts parse bound goesOn text results rest ∧
    match error with
    | none => (∃ result ∈ results, ¬goesOn result) ∨ parse (rest.take bound) = .incomplete
    | some error => (∀ result ∈ results, goesOn result) ∧ parse (rest.take bound) = .failed error

/-- However little of the text is shown, the verdict is the one on as much as fits, or that more is needed. -/
def Steady (rest : List α) : Prop :=
  ∀ n ≤ bound, parse (rest.take n) = .incomplete ∨ parse (rest.take n) = parse (rest.take bound)

end Reader

section Cuts

variable {parse : List α → Verdict R E} {bound : Nat} {goesOn : R → Prop} {text rest rest' : List α}
  {results results' : List R} {error error' : Option E}

theorem Cuts.unique (h : Cuts parse bound goesOn text results rest) (h' : Cuts parse bound goesOn text results' rest')
    (hlength : results.length = results'.length) : results = results' ∧ rest = rest' := by
  induction h generalizing results' rest' with
  | start =>
    cases h' with
    | start => exact ⟨rfl, rfl⟩
    | more _ _ _ => simp at hlength
  | more _ _ hverdict ih =>
    cases h' with
    | start => simp at hlength
    | more hcuts _ hverdict' =>
      rw [length_append, length_append] at hlength
      obtain ⟨rfl, rfl⟩ := ih hcuts (Nat.add_right_cancel hlength)
      rw [hverdict] at hverdict'
      cases hverdict'
      exact ⟨rfl, rfl⟩

theorem Cuts.imp {parse' : List α → Verdict R E}
    (himp : ∀ text result consumed, parse text = .complete result consumed → parse' text = .complete result consumed)
    (h : Cuts parse bound goesOn text results rest) : Cuts parse' bound goesOn text results rest := by
  induction h with
  | start => exact .start
  | more _ hgo hverdict ih => exact .more ih hgo (himp _ _ _ hverdict)

theorem Cuts.next (h : Cuts parse bound goesOn text results rest) (h' : Cuts parse bound goesOn text results' rest')
    (hlength : results.length < results'.length) :
    (∀ result ∈ results, goesOn result) ∧ ∃ result consumed, parse (rest.take bound) = .complete result consumed := by
  induction h' with
  | start => simp at hlength
  | @more before _ result consumed hcuts hgo hverdict ih =>
    rw [length_append, length_singleton] at hlength
    rcases Nat.lt_or_ge results.length before.length with hlt | hge
    · exact ih hlt
    · obtain ⟨rfl, rfl⟩ := h.unique hcuts (by omega)
      exact ⟨hgo, result, consumed, hverdict⟩

theorem Ends.length_le (h : Ends parse bound goesOn text results error rest)
    (h' : Cuts parse bound goesOn text results' rest') : results'.length ≤ results.length := by
  by_contra hlt
  obtain ⟨hgo, result, consumed, hverdict⟩ := h.1.next h' (by omega)
  obtain ⟨-, hend⟩ := h
  cases error with
  | none =>
    rcases hend with ⟨last, hlast, hstop⟩ | hincomplete
    · exact hstop (hgo last hlast)
    · rw [hverdict] at hincomplete
      cases hincomplete
  | some error =>
    rw [hend.2] at hverdict
    cases hverdict

theorem Ends.unique (h : Ends parse bound goesOn text results error rest)
    (h' : Ends parse bound goesOn text results' error' rest') :
    results = results' ∧ error = error' ∧ rest = rest' := by
  obtain ⟨rfl, rfl⟩ := h.1.unique h'.1 (Nat.le_antisymm (h'.length_le h.1) (h.length_le h'.1))
  refine ⟨rfl, ?_, rfl⟩
  obtain ⟨-, hend⟩ := h
  obtain ⟨-, hend'⟩ := h'
  cases error with
  | none =>
    cases error' with
    | none => rfl
    | some error' =>
      rcases hend with ⟨last, hlast, hstop⟩ | hincomplete
      · exact absurd (hend'.1 last hlast) hstop
      · rw [hend'.2] at hincomplete
        cases hincomplete
  | some error =>
    cases error' with
    | none =>
      rcases hend' with ⟨last, hlast, hstop⟩ | hincomplete
      · exact absurd (hend.1 last hlast) hstop
      · rw [hend.2] at hincomplete
        cases hincomplete
    | some error' =>
      have hsame := hend.2.symm.trans hend'.2
      cases hsame
      rfl

end Cuts

end Incremental
