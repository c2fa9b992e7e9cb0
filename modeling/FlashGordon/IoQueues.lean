import Mathlib.Data.List.Perm.Basic

/-! The queues between a program and a kernel that works on its own. The program queues entries, the kernel takes
them in order and completes those it took in any order, and the program reads the completions in the order in which
they were posted. No step loses an entry or makes one. -/

structure IoQueues (ε ρ : Type*) where
  queued : List ε
  inFlight : List ε
  completed : List (ε × ρ)

namespace IoQueues

variable {ε ρ : Type*}

def empty : IoQueues ε ρ := ⟨[], [], []⟩

def push (q : IoQueues ε ρ) (entries : List ε) : IoQueues ε ρ := { q with queued := q.queued ++ entries }

/-- The kernel takes the first `n` entries. -/
def take (q : IoQueues ε ρ) (n : Nat) : IoQueues ε ρ :=
  { q with queued := q.queued.drop n, inFlight := q.inFlight ++ q.queued.take n }

/-- The kernel completes the `i`-th of the entries that it took. -/
def post (q : IoQueues ε ρ) (i : Nat) (result : ρ) : IoQueues ε ρ :=
  match q.inFlight[i]? with
  | none => q
  | some entry => { q with inFlight := q.inFlight.eraseIdx i, completed := q.completed ++ [(entry, result)] }

def postAll (q : IoQueues ε ρ) (posts : List (Nat × ρ)) : IoQueues ε ρ :=
  posts.foldl (fun q posted => q.post posted.1 posted.2) q

/-- What is left after the program has read `n` completions. -/
def read (q : IoQueues ε ρ) (n : Nat) : IoQueues ε ρ := { q with completed := q.completed.drop n }

def held (q : IoQueues ε ρ) : List ε := q.completed.map Prod.fst ++ (q.inFlight ++ q.queued)

theorem held_push (q : IoQueues ε ρ) (entries : List ε) : (q.push entries).held = q.held ++ entries := by
  show q.completed.map Prod.fst ++ (q.inFlight ++ (q.queued ++ entries)) = _
  rw [held, List.append_assoc, List.append_assoc]

@[simp] theorem held_take (q : IoQueues ε ρ) (n : Nat) : (q.take n).held = q.held := by
  show q.completed.map Prod.fst ++ (q.inFlight ++ q.queued.take n ++ q.queued.drop n) = _
  rw [List.append_assoc, List.take_append_drop, held]

theorem held_post (q : IoQueues ε ρ) (i : Nat) (result : ρ) : (q.post i result).held.Perm q.held := by
  rw [post]
  split
  · exact List.Perm.refl _
  next entry hentry =>
    obtain ⟨hi, rfl⟩ := List.getElem?_eq_some_iff.mp hentry
    show ((q.completed ++ [(q.inFlight[i], result)]).map Prod.fst ++ (q.inFlight.eraseIdx i ++ q.queued)).Perm _
    rw [List.map_append, List.append_assoc]
    apply List.Perm.append_left
    exact (List.getElem_cons_eraseIdx_perm hi).append_right q.queued

theorem held_postAll (q : IoQueues ε ρ) (posts : List (Nat × ρ)) : (q.postAll posts).held.Perm q.held := by
  induction posts generalizing q with
  | nil => exact List.Perm.refl _
  | cons posted rest ih => exact (ih _).trans (q.held_post _ _)

theorem held_read (q : IoQueues ε ρ) (n : Nat) : (q.completed.take n).map Prod.fst ++ (q.read n).held = q.held := by
  show (q.completed.take n).map Prod.fst ++ ((q.completed.drop n).map Prod.fst ++ (q.inFlight ++ q.queued)) = _
  rw [← List.append_assoc, ← List.map_append, List.take_append_drop, held]

theorem mem_held_of_completed {q : IoQueues ε ρ} {entry : ε} {result : ρ} (h : (entry, result) ∈ q.completed) :
    entry ∈ q.held :=
  List.mem_append_left _ (List.mem_map_of_mem (f := Prod.fst) h)

theorem mem_held_of_inFlight {q : IoQueues ε ρ} {entry : ε} (h : entry ∈ q.inFlight) : entry ∈ q.held :=
  List.mem_append_right _ (List.mem_append_left _ h)

end IoQueues
