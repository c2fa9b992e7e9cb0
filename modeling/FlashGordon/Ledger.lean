import Mathlib.Data.Finset.Card

/-! Collecting one reply from every party a request was sent to. The ledger keeps the frames taken so
far, the parties that have answered and whether anything went wrong; a frame is accepted when it matches
the request and its party has not answered yet. A ledger that closes without failure, with every party
answered and as many frames as requests, holds exactly one matching reply of each. -/

namespace Ledger

variable {P F : Type*} [DecidableEq P]

structure Book (P F : Type*) where
  seen : Finset P
  failed : Bool
  consumed : List F

/-- As long as nothing failed, the frames taken match and come from pairwise different parties, which
are the parties seen. -/
structure Sound (party : F → P) (Match : F → Prop) (book : Book P F) : Prop where
  matched : book.failed = false → ∀ frame ∈ book.consumed, Match frame
  nodup : book.failed = false → (book.consumed.map party).Nodup
  seen_eq : book.failed = false → book.seen = (book.consumed.map party).toFinset

variable {party : F → P} {Match : F → Prop} {book : Book P F}

theorem sound_empty : Sound party Match ⟨∅, false, []⟩ :=
  ⟨by simp, by simp, by simp⟩

theorem sound_failed {seen : Finset P} {consumed : List F} : Sound party Match ⟨seen, true, consumed⟩ :=
  ⟨by simp, by simp, by simp⟩

theorem Sound.accept {frame : F} (h : Sound party Match book) (hmatch : Match frame)
    (hnew : party frame ∉ book.seen) :
    Sound party Match ⟨insert (party frame) book.seen, book.failed, book.consumed ++ [frame]⟩ := by
  refine ⟨fun hok other hother => ?_, fun hok => ?_, fun hok => ?_⟩
  · rcases List.mem_append.mp hother with hbefore | hlast
    · exact h.matched hok other hbefore
    · rw [List.mem_singleton.mp hlast]
      exact hmatch
  · rw [List.map_append, List.map_cons, List.map_nil, List.nodup_append]
    refine ⟨h.nodup hok, List.nodup_singleton _, ?_⟩
    intro a ha b hb heq
    rw [List.mem_singleton] at hb
    refine hnew ?_
    rw [h.seen_eq hok, List.mem_toFinset, ← hb, ← heq]
    exact ha
  · rw [h.seen_eq hok]
    ext p
    simp

theorem Sound.perm {sent : List P} (h : Sound party Match book) (hok : book.failed = false)
    (hseen : book.seen = sent.toFinset) (hlength : book.consumed.length = sent.length) :
    (book.consumed.map party).Perm sent := by
  have hset : (book.consumed.map party).toFinset = sent.toFinset := (h.seen_eq hok).symm.trans hseen
  have hnodup : sent.Nodup := by
    refine Multiset.coe_nodup.mp (Multiset.toFinset_card_eq_card_iff_nodup.mp ?_)
    have hcard := List.toFinset_card_of_nodup (h.nodup hok)
    rw [hset, List.length_map, hlength] at hcard
    exact hcard
  rw [List.perm_ext_iff_of_nodup (h.nodup hok) hnodup]
  intro p
  rw [← List.mem_toFinset, ← List.mem_toFinset, hset]

end Ledger
