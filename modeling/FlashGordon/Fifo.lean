import Mathlib.Data.List.Basic

/-! A first-in first-out queue that remembers what it has handed out: everything ever put in, and how
much of it was taken. -/

structure Fifo (α : Type*) where
  sent : List α
  taken : Nat
  taken_le : taken ≤ sent.length

namespace Fifo

variable {α : Type*}

def empty : Fifo α := ⟨[], 0, Nat.le_refl 0⟩

def head? (queue : Fifo α) : Option α := queue.sent[queue.taken]?

def push (queue : Fifo α) (a : α) : Fifo α where
  sent := queue.sent ++ [a]
  taken := queue.taken
  taken_le := by
    have hle := queue.taken_le
    simp only [List.length_append, List.length_singleton]
    omega

/-- Takes the next element; an empty queue stays as it is. -/
def pop (queue : Fifo α) : Fifo α where
  sent := queue.sent
  taken := min (queue.taken + 1) queue.sent.length
  taken_le := Nat.min_le_right _ _

theorem pop_taken {queue : Fifo α} {a : α} (h : queue.head? = some a) : queue.pop.taken = queue.taken + 1 := by
  obtain ⟨hlt, -⟩ := List.getElem?_eq_some_iff.mp h
  exact Nat.min_eq_left hlt

theorem push_getElem? {queue : Fifo α} {a b : α} {position : Nat} (h : queue.sent[position]? = some a) :
    (queue.push b).sent[position]? = some a := by
  obtain ⟨hlt, -⟩ := List.getElem?_eq_some_iff.mp h
  exact (List.getElem?_append_left hlt).trans h

end Fifo
