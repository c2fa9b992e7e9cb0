import FlashGordon.Ring
import FlashGordon.Runs
import Mathlib.Data.List.Nodup
import Mathlib.Data.List.Perm.Basic

/-! The engine queue (`api.c`): requests wait in a ring of four cells, and the bound counts those that wait and those
that the engine has taken and not yet completed. Every operation is one critical section of the queue's mutex, so
a run is a list of operations in any order. -/

namespace FlashGordon.Engine

open List

/-- `FG_API_ENGINE_QUEUE_CAPACITY`. -/
def queueCapacity : Nat := 4

/-- `api_engine_request`: a cell whose request was cancelled has no connection and no body. -/
structure EngineRequest (κ β ρ : Type) where
  connection : Option κ
  body : Option β
  routing : Option ρ

/-- `api_engine_queue`. -/
structure EngineQueue (κ β ρ : Type) where
  entries : Nat → EngineRequest κ β ρ
  head : Nat
  count : Nat
  outstanding : Nat
  stopping : Bool

inductive Admission where
  | queued
  | full
  | stopping
  deriving DecidableEq

section Operations

variable {κ β ρ : Type}

/-- `api_engine_queue_try_push`. -/
def tryPush (queue : EngineQueue κ β ρ) (request : EngineRequest κ β ρ) : Admission × EngineQueue κ β ρ :=
  if queue.stopping then (.stopping, queue)
  else if queue.outstanding < queueCapacity ∧ queue.count < queueCapacity then
    (.queued, { queue with
      entries := Function.update queue.entries (Ring.slot queueCapacity queue.head queue.count) request
      count := queue.count + 1
      outstanding := queue.outstanding + 1 })
  else (.full, queue)

def forOther [DecidableEq κ] (connection : κ) (request : EngineRequest κ β ρ) : Bool := request.connection ≠ some connection

/-- What `api_engine_queue_cancel` leaves of a cancelled request. -/
def cleared (_ : EngineRequest κ β ρ) : EngineRequest κ β ρ := ⟨none, none, none⟩

/-- `api_engine_queue_cancel`: the requests of other connections move up, and each cancelled one gives its place in
the bound back. -/
def cancel [DecidableEq κ] (queue : EngineQueue κ β ρ) (connection : κ) : EngineQueue κ β ρ :=
  let (kept, entries) := Ring.keepAll queueCapacity queue.head queue.count (forOther connection) cleared queue.entries
  { queue with entries, count := kept, outstanding := queue.outstanding - (queue.count - kept) }

/-- `api_engine_queue_pop_wait`, when it finds a request. -/
def popWait (queue : EngineQueue κ β ρ) : Option (EngineRequest κ β ρ × EngineQueue κ β ρ) :=
  if queue.count = 0 then none
  else some (queue.entries queue.head,
    { queue with head := (queue.head + 1) % queueCapacity, count := queue.count - 1 })

/-- The pipeline engine takes the `i`-th request of the queue. -/
def takeAt (queue : EngineQueue κ β ρ) (i : Nat) : Option (EngineRequest κ β ρ × EngineQueue κ β ρ) :=
  if i < queue.count then
    some (queue.entries (Ring.slot queueCapacity queue.head i),
      { queue with
        entries := Ring.closeGap queueCapacity queue.head i queue.count queue.entries
        count := queue.count - 1 })
  else none

/-- `api_engine_queue_complete`. -/
def complete (queue : EngineQueue κ β ρ) : EngineQueue κ β ρ := { queue with outstanding := queue.outstanding - 1 }

/-- `api_engine_queue_stop`. -/
def stop (queue : EngineQueue κ β ρ) : EngineQueue κ β ρ := { queue with stopping := true }

end Operations

/-! Runs. The run numbers the requests it admits; no operation of the queue looks at the number. -/

variable {κ β ρ : Type}

abbrev Numbered (κ β ρ : Type) := EngineRequest κ (Nat × β) ρ

def EngineQueue.waiting (queue : EngineQueue κ β ρ) : List (EngineRequest κ β ρ) :=
  Ring.contents queueCapacity queue.head queue.count queue.entries

/-- The queue, and what became of each request so far. -/
structure System (κ β ρ : Type) where
  queue : EngineQueue κ (Nat × β) ρ
  admitted : List (Numbered κ β ρ)
  handed : List (Numbered κ β ρ)
  cancelled : List (Numbered κ β ρ)
  completed : Nat

inductive Action (κ β ρ : Type) where
  | push (connection : κ) (body : β) (routing : Option ρ)
  | cancel (connection : κ)
  | pop
  | takeAt (i : Nat)
  | complete
  | stop

def System.numbered (s : System κ β ρ) (connection : κ) (body : β) (routing : Option ρ) : Numbered κ β ρ :=
  ⟨some connection, some (s.admitted.length, body), routing⟩

def System.hand (s : System κ β ρ) (taken : Option (Numbered κ β ρ × EngineQueue κ (Nat × β) ρ)) : System κ β ρ :=
  match taken with
  | none => s
  | some (request, queue) => { s with queue, handed := s.handed ++ [request] }

/-- One critical section. The engine completes only a request that it took and has not completed. -/
def step [DecidableEq κ] (s : System κ β ρ) : Action κ β ρ → Option (System κ β ρ)
  | .push connection body routing =>
    let request := s.numbered connection body routing
    match tryPush s.queue request with
    | (.queued, queue) => some { s with queue, admitted := s.admitted ++ [request] }
    | (_, queue) => some { s with queue }
  | .cancel connection => some { s with
      queue := cancel s.queue connection
      cancelled := s.cancelled ++ s.queue.waiting.filter fun request => !forOther connection request }
  | .pop => some (s.hand (popWait s.queue))
  | .takeAt i => some (s.hand (takeAt s.queue i))
  | .complete =>
    if s.completed < s.handed.length then some { s with queue := complete s.queue, completed := s.completed + 1 }
    else none
  | .stop => some { s with queue := stop s.queue }

/-- `api_engine_queue_init`. -/
def queueInit (entries : Nat → Numbered κ β ρ) : System κ β ρ := ⟨⟨entries, 0, 0, 0, false⟩, [], [], [], 0⟩

def System.running (s : System κ β ρ) : Nat := s.handed.length - s.completed

/-- The place of every admitted request, and the count that is kept beside it. -/
structure Sound (s : System κ β ρ) : Prop where
  head_lt : s.queue.head < queueCapacity
  completed_le : s.completed ≤ s.handed.length
  counted : s.queue.count + s.running = s.queue.outstanding
  bounded : s.queue.outstanding ≤ queueCapacity
  placed : s.admitted.Perm (s.queue.waiting ++ (s.handed ++ s.cancelled))
  ordered : s.queue.waiting.Sublist s.admitted
  numbers : s.admitted.map (fun request => request.body.map Prod.fst) = (List.range s.admitted.length).map some

theorem queueInit_sound (entries : Nat → Numbered κ β ρ) : Sound (queueInit entries) where
  head_lt := Nat.succ_pos 3
  completed_le := Nat.le_refl 0
  counted := rfl
  bounded := Nat.zero_le _
  placed := List.Perm.refl []
  ordered := List.Sublist.refl []
  numbers := rfl

variable {s : System κ β ρ}

theorem Sound.count_le (h : Sound s) : s.queue.count ≤ queueCapacity := by
  have hcounted := h.counted
  have hbounded := h.bounded
  omega

@[simp] theorem EngineQueue.waiting_length (queue : EngineQueue κ β ρ) : queue.waiting.length = queue.count :=
  Ring.length_contents _ _ _ _

theorem popWait_waiting {queue next : EngineQueue κ β ρ} {request : EngineRequest κ β ρ}
    (hhead : queue.head < queueCapacity) (h : popWait queue = some (request, next)) :
    queue.waiting = request :: next.waiting ∧ next.count + 1 = queue.count ∧ next.head < queueCapacity ∧
      next.outstanding = queue.outstanding := by
  rw [popWait] at h
  split at h
  · cases h
  next hcount =>
    obtain ⟨n, hn⟩ := Nat.exists_eq_succ_of_ne_zero hcount
    obtain ⟨rfl, rfl⟩ := h
    refine ⟨?_, ?_, Nat.mod_lt _ (by decide), rfl⟩
    · rw [EngineQueue.waiting, EngineQueue.waiting, hn]
      exact Ring.contents_succ hhead queue.entries
    · exact Nat.sub_add_cancel (Nat.pos_of_ne_zero hcount)

theorem takeAt_waiting {queue next : EngineQueue κ β ρ} {request : EngineRequest κ β ρ} {i : Nat}
    (hcount : queue.count ≤ queueCapacity) (h : takeAt queue i = some (request, next)) :
    queue.waiting[i]? = some request ∧ next.waiting = queue.waiting.eraseIdx i ∧ next.count + 1 = queue.count ∧
      next.head = queue.head ∧ next.outstanding = queue.outstanding := by
  rw [takeAt] at h
  split at h
  next hi =>
    obtain ⟨rfl, rfl⟩ := h
    exact ⟨Ring.contents_getElem hi _, Ring.contents_closeGap hi hcount _, Nat.sub_add_cancel (by omega), rfl, rfl⟩
  · cases h

theorem Sound.hand (h : Sound s) {queue : EngineQueue κ (Nat × β) ρ} {request : Numbered κ β ρ}
    (hperm : s.queue.waiting.Perm (request :: queue.waiting)) (hsub : queue.waiting.Sublist s.queue.waiting)
    (hcount : queue.count + 1 = s.queue.count) (hhead : queue.head < queueCapacity)
    (houtstanding : queue.outstanding = s.queue.outstanding) : Sound (s.hand (some (request, queue))) := by
  have hrunning : (s.hand (some (request, queue))).running = s.running + 1 := by
    show (s.handed ++ [request]).length - s.completed = s.handed.length - s.completed + 1
    have hle := h.completed_le
    rw [length_append, length_singleton]
    omega
  refine ⟨hhead, ?_, ?_, ?_, ?_, hsub.trans h.ordered, h.numbers⟩
  · show s.completed ≤ (s.handed ++ [request]).length
    rw [length_append]
    exact h.completed_le.trans (Nat.le_add_right _ _)
  · rw [hrunning]
    show queue.count + (s.running + 1) = queue.outstanding
    have hcounted := h.counted
    omega
  · show queue.outstanding ≤ queueCapacity
    rw [houtstanding]
    exact h.bounded
  · show s.admitted.Perm (queue.waiting ++ (s.handed ++ [request] ++ s.cancelled))
    refine h.placed.trans ((hperm.append_right _).trans ?_)
    rw [append_assoc, singleton_append, cons_append, ← append_assoc, ← append_assoc]
    exact perm_middle.symm

theorem Sound.pop (h : Sound s) : Sound (s.hand (popWait s.queue)) := by
  cases hpop : popWait s.queue with
  | none => exact h
  | some taken =>
    obtain ⟨hwaiting, hcount, hhead, houtstanding⟩ := popWait_waiting h.head_lt hpop
    refine h.hand (hwaiting ▸ List.Perm.refl _) ?_ hcount hhead houtstanding
    rw [hwaiting]
    exact sublist_cons_self _ _

theorem Sound.takeAt (h : Sound s) (i : Nat) : Sound (s.hand (takeAt s.queue i)) := by
  cases htake : Engine.takeAt s.queue i with
  | none => exact h
  | some taken =>
    obtain ⟨request, queue⟩ := taken
    obtain ⟨hat, hwaiting, hcount, hhead, houtstanding⟩ := takeAt_waiting h.count_le htake
    refine h.hand ?_ ?_ hcount (hhead ▸ h.head_lt) houtstanding
    · rw [hwaiting]
      obtain ⟨hi, rfl⟩ := List.getElem?_eq_some_iff.mp hat
      exact (getElem_cons_eraseIdx_perm hi).symm
    · rw [hwaiting]
      exact eraseIdx_sublist _ _

theorem tryPush_cases (queue : EngineQueue κ β ρ) (request : EngineRequest κ β ρ) :
    (∃ answer, answer ≠ .queued ∧ tryPush queue request = (answer, queue)) ∨
      ∃ next, tryPush queue request = (.queued, next) ∧ queue.outstanding < queueCapacity ∧
        next.waiting = queue.waiting ++ [request] ∧ next.count = queue.count + 1 ∧ next.head = queue.head ∧
        next.outstanding = queue.outstanding + 1 := by
  rw [tryPush]
  split
  · exact .inl ⟨.stopping, by decide, rfl⟩
  · split
    next hroom =>
      exact .inr ⟨_, rfl, hroom.1, Ring.contents_push hroom.2 queue.entries request, rfl, rfl, rfl⟩
    · exact .inl ⟨.full, by decide, rfl⟩

theorem Sound.push (h : Sound s) {queue : EngineQueue κ (Nat × β) ρ} {connection : κ} {body : β}
    {routing : Option ρ} (hroom : s.queue.outstanding < queueCapacity)
    (hwaiting : queue.waiting = s.queue.waiting ++ [s.numbered connection body routing])
    (hcount : queue.count = s.queue.count + 1) (hhead : queue.head = s.queue.head)
    (houtstanding : queue.outstanding = s.queue.outstanding + 1) :
    Sound { s with queue, admitted := s.admitted ++ [s.numbered connection body routing] } := by
  refine ⟨hhead ▸ h.head_lt, h.completed_le, ?_, houtstanding ▸ hroom, ?_, ?_, ?_⟩
  · show queue.count + s.running = queue.outstanding
    have hcounted := h.counted
    omega
  · rw [hwaiting, append_assoc]
    refine (h.placed.append_right _).trans ?_
    rw [append_assoc]
    exact List.Perm.append_left _ perm_append_comm
  · rw [hwaiting]
    exact h.ordered.append (List.Sublist.refl _)
  · rw [map_append, h.numbers, length_append, length_singleton, range_succ, map_append]
    rfl

section Cancel

variable [DecidableEq κ]

theorem cancel_waiting {queue : EngineQueue κ β ρ} (hcount : queue.count ≤ queueCapacity) (connection : κ) :
    (cancel queue connection).waiting = queue.waiting.filter (forOther connection) :=
  (Ring.keepAll_kept _ _ _ hcount).front

theorem cancel_count {queue : EngineQueue κ β ρ} (hcount : queue.count ≤ queueCapacity) (connection : κ) :
    (cancel queue connection).count = (queue.waiting.filter (forOther connection)).length := by
  rw [← cancel_waiting hcount, EngineQueue.waiting_length]

theorem Sound.cancel (h : Sound s) (connection : κ) :
    Sound { s with
      queue := cancel s.queue connection
      cancelled := s.cancelled ++ s.queue.waiting.filter fun request => !forOther connection request } := by
  have hcount := h.count_le
  have hkept : (Engine.cancel s.queue connection).count ≤ s.queue.count := by
    rw [cancel_count hcount, ← s.queue.waiting_length]
    exact length_filter_le _ _
  have houtstanding : (Engine.cancel s.queue connection).outstanding =
      s.queue.outstanding - (s.queue.count - (Engine.cancel s.queue connection).count) := rfl
  refine ⟨h.head_lt, h.completed_le, ?_, ?_, ?_, ?_, h.numbers⟩
  · show (Engine.cancel s.queue connection).count + s.running = (Engine.cancel s.queue connection).outstanding
    have hcounted := h.counted
    omega
  · show (Engine.cancel s.queue connection).outstanding ≤ queueCapacity
    have hbounded := h.bounded
    omega
  · rw [cancel_waiting hcount]
    refine h.placed.trans ((filter_append_perm (forOther connection) _).symm.append_right _ |>.trans ?_)
    rw [append_assoc]
    apply List.Perm.append_left
    rw [← append_assoc s.handed]
    exact perm_append_comm
  · rw [cancel_waiting hcount]
    exact filter_sublist.trans h.ordered

theorem step_sound {s t : System κ β ρ} {action : Action κ β ρ} (h : Sound s) (hstep : step s action = some t) :
    Sound t := by
  cases action with
  | push connection body routing =>
    rw [step] at hstep
    rcases tryPush_cases s.queue (s.numbered connection body routing) with
      ⟨answer, hanswer, hpush⟩ | ⟨queue, hpush, hroom, hwaiting, hcount, hhead, houtstanding⟩
    · simp only [hpush] at hstep
      cases answer with
      | queued => exact absurd rfl hanswer
      | full => exact Option.some.inj hstep ▸ h
      | stopping => exact Option.some.inj hstep ▸ h
    · simp only [hpush] at hstep
      exact Option.some.inj hstep ▸ h.push hroom hwaiting hcount hhead houtstanding
  | cancel connection => exact Option.some.inj hstep ▸ h.cancel connection
  | pop => exact Option.some.inj hstep ▸ h.pop
  | takeAt i => exact Option.some.inj hstep ▸ h.takeAt i
  | complete =>
    rw [step] at hstep
    split at hstep
    next hrunning =>
      refine Option.some.inj hstep ▸ ⟨h.head_lt, hrunning, ?_, ?_, h.placed, h.ordered, h.numbers⟩
      · show s.queue.count + (s.handed.length - (s.completed + 1)) = s.queue.outstanding - 1
        have hcounted : s.queue.count + (s.handed.length - s.completed) = s.queue.outstanding := h.counted
        omega
      · exact (Nat.sub_le _ _).trans h.bounded
    · cases hstep
  | stop => exact Option.some.inj hstep ▸ ⟨h.head_lt, h.completed_le, h.counted, h.bounded, h.placed, h.ordered, h.numbers⟩

theorem exec_sound {entries : Nat → Numbered κ β ρ} {actions : List (Action κ β ρ)}
    (hrun : Runs.exec step (queueInit entries) actions = some s) : Sound s :=
  Runs.exec_invariant_always (fun _ _ _ h hstep => step_sound h hstep) (queueInit_sound entries) hrun

theorem exec_pops (h : Sound s) {n : Nat} (hn : s.queue.count = n) :
    ∃ t, Runs.exec step s (List.replicate n .pop) = some t ∧ Sound t ∧ t.queue.count = 0 ∧ t.admitted = s.admitted := by
  induction n generalizing s with
  | zero => exact ⟨s, rfl, h, hn, rfl⟩
  | succ n ih =>
    cases hpop : popWait s.queue with
    | none =>
      rw [popWait, if_neg (by omega)] at hpop
      cases hpop
    | some taken =>
      have hstep : step s .pop = some (s.hand (some taken)) := by
        rw [step, hpop]
      have hcount : taken.2.count = n := by
        have hless := (popWait_waiting h.head_lt hpop).2.1
        omega
      obtain ⟨t, hexec, hsound, hempty, hadmitted⟩ := ih (step_sound h hstep) hcount
      exact ⟨t, Runs.exec_cons_eq_some.mpr ⟨_, hstep, hexec⟩, hsound, hempty, hadmitted⟩

end Cancel

theorem Sound.nodup (h : Sound s) : s.admitted.Nodup := by
  have hrange : ((List.range s.admitted.length).map some).Nodup :=
    List.Nodup.map (Option.some_injective Nat) nodup_range
  rw [← h.numbers] at hrange
  exact List.Nodup.of_map _ hrange

/-- After every run each admitted request is in one place: it waits, or the engine has it, or it was cancelled, and
those that wait keep the order of their admission. The bound is on those that wait and those that run. -/
theorem admitted_once [DecidableEq κ] {s : System κ β ρ} {entries : Nat → Numbered κ β ρ}
    {actions : List (Action κ β ρ)} (hrun : Runs.exec step (queueInit entries) actions = some s) :
    s.admitted.Perm (s.queue.waiting ++ (s.handed ++ s.cancelled)) ∧
      (s.queue.waiting ++ (s.handed ++ s.cancelled)).Nodup ∧
      s.queue.waiting.Sublist s.admitted ∧
      s.queue.waiting.length + s.running = s.queue.outstanding ∧
      s.queue.outstanding ≤ queueCapacity ∧
      ∃ t, Runs.exec step s (List.replicate s.queue.count .pop) = some t ∧ t.admitted = s.admitted ∧
        t.admitted.Perm (t.handed ++ t.cancelled) ∧ (t.handed ++ t.cancelled).Nodup := by
  have h := exec_sound hrun
  refine ⟨h.placed, h.placed.nodup h.nodup, h.ordered, ?_, h.bounded, ?_⟩
  · rw [EngineQueue.waiting_length]
    exact h.counted
  · obtain ⟨t, hexec, hsound, hempty, hadmitted⟩ := exec_pops h rfl
    have hnone : t.queue.waiting = [] := by
      rw [← length_eq_zero_iff, EngineQueue.waiting_length, hempty]
    have hplaced : t.admitted.Perm (t.handed ++ t.cancelled) := by
      have hall := hsound.placed
      rwa [hnone, nil_append] at hall
    exact ⟨t, hexec, hadmitted, hplaced, hplaced.nodup hsound.nodup⟩

/-- A cancelled request between two that stay, and one that the engine takes from the middle. -/
theorem admitted_once_wrapped :
    let actions : List (Action Nat Unit Unit) := [.push 1 () none, .pop, .complete, .push 2 () none, .push 3 () none,
      .push 2 () none, .push 4 () none, .cancel 2, .takeAt 1, .push 5 () none]
    ∃ s, Runs.exec step (queueInit fun _ => ⟨none, none, none⟩) actions = some s ∧
      s.queue.waiting.map EngineRequest.connection = [some 3, some 5] ∧
      s.handed.map EngineRequest.connection = [some 1, some 4] ∧
      (s.queue.waiting ++ (s.handed ++ s.cancelled)).Nodup ∧ s.queue.waiting.Sublist s.admitted := by
  intro actions
  have hplaces : (Runs.exec step (queueInit fun _ => ⟨none, none, none⟩) actions).map (fun s =>
      (s.queue.waiting.map EngineRequest.connection, s.handed.map EngineRequest.connection)) =
      some ([some 3, some 5], [some 1, some 4]) := by decide +kernel
  obtain ⟨s, hrun, hs⟩ := Option.map_eq_some_iff.mp hplaces
  obtain ⟨hwaiting, hhanded⟩ := Prod.mk.inj hs
  exact ⟨s, hrun, hwaiting, hhanded, (admitted_once hrun).2.1, (admitted_once hrun).2.2.1⟩

end FlashGordon.Engine
