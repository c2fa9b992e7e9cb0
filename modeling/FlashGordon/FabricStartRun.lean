import FlashGordon.FabricStart
import Mathlib.Algebra.Order.BigOperators.Group.Finset

/-! The steps of the fabric's start. Each step leaves its rank fewer calls to make, so every start-up ends. -/

namespace FlashGordon.Fabric

open Wire

variable {ranks rank : Nat} {m : Manifest} {s t : State}

/-- Why the rank leaves `fg_fabric_open` with an error. -/
def Refused (ranks : Nat) (m : Manifest) (s : State) (rank : Nat) : Prop :=
  match s.stage rank with
  | .idle => ¬VersionSupported m.protocolVersion.toUInt16
  | .awaiting peer cls fd =>
    match (s.conn fd).reply with
    | some theirs => ¬HelloValid theirs m peer cls
    | none => ¬(s.stage peer).Listens
  | .reading cls _ fd =>
    ∃ theirs, (s.conn fd).hello = some theirs ∧
      (theirs.rank.toNat ≤ rank ∨ ranks ≤ theirs.rank.toNat ∨ ¬HelloValid theirs m theirs.rank.toNat cls ∨
        (s.peer (rank, theirs.rank.toNat, cls)).isSome)
  | _ => False

inductive Moves (ranks : Nat) (m : Manifest) (s : State) (rank : Nat) : State → Prop where
  | start (stage : s.stage rank = .idle) : Moves ranks m s rank (s.goto rank (connectFrom ranks rank 0 0))
  | connect (peer cls : Nat) (stage : s.stage rank = .connecting peer cls) (listens : (s.stage peer).Listens) :
      Moves ranks m s rank ((s.connect rank peer cls).goto rank (.greeting peer cls ⟨rank, s.opened rank⟩))
  | greet (peer cls : Nat) (fd : Fd) (stage : s.stage rank = .greeting peer cls fd) :
      Moves ranks m s rank ((s.sendHello fd (helloFill m rank cls)).goto rank (.awaiting peer cls fd))
  | receive (peer cls : Nat) (fd : Fd) (theirs : Hello) (stage : s.stage rank = .awaiting peer cls fd)
      (reply : (s.conn fd).reply = some theirs) :
      Moves ranks m s rank ((s.record rank peer cls fd).goto rank (connectFrom ranks rank peer (cls + 1)))
  | accept (cls accepted : Nat) (fd : Fd) (rest : List Fd) (stage : s.stage rank = .accepting cls accepted)
      (waiting : s.queue (rank, cls) = fd :: rest) :
      Moves ranks m s rank ((s.accept rank cls rest).goto rank (.reading cls accepted fd))
  | take (cls accepted peer : Nat) (fd : Fd) (theirs : Hello) (stage : s.stage rank = .reading cls accepted fd)
      (hello : (s.conn fd).hello = some theirs) (named : theirs.rank.toNat = peer)
      (fresh : s.peer (rank, peer, cls) = none) :
      Moves ranks m s rank (((s.sendReply fd (helloFill m rank cls)).record rank peer cls fd).goto rank
        (acceptFrom ranks rank cls (accepted + 1)))
  | fail (u : State) (err : Error) (refused : Refused ranks m s rank) (same : u.stage = s.stage) :
      Moves ranks m s rank (u.goto rank (.failed err))

theorem step_cases (h : step ranks m s rank = some t) : rank < ranks ∧ Moves ranks m s rank t := by
  unfold step at h
  split at h
  · cases h
  rename_i hrank
  refine ⟨Nat.lt_of_not_le hrank, ?_⟩
  split at h
  next hstage =>
    split at h
    next hversion =>
      cases h
      exact .fail s _ (by simpa only [Refused, hstage] using hversion) rfl
    · cases h
      exact .start hstage
  next peer cls hstage =>
    split at h
    next hlistens =>
      cases h
      exact .connect peer cls hstage hlistens
    · cases h
  next peer cls fd hstage =>
    cases h
    exact .greet peer cls fd hstage
  next peer cls fd hstage =>
    unfold receiveReply at h
    split at h
    next theirs hreply =>
      split at h
      · cases h
        exact .receive peer cls fd theirs hstage hreply
      next hvalid =>
        cases h
        exact .fail s _ (by simpa only [Refused, hstage, hreply] using hvalid) rfl
    next hreply =>
      split at h
      · cases h
      next hlistens =>
        cases h
        exact .fail s _ (by simpa only [Refused, hstage, hreply] using hlistens) rfl
  next cls accepted hstage =>
    split at h
    · cases h
    next fd rest hqueue =>
      cases h
      exact .accept cls accepted fd rest hstage hqueue
  next cls accepted fd hstage =>
    split at h
    · cases h
    next theirs hhello =>
      cases h
      unfold takeHello
      simp only
      split
      · refine .fail s _ ?_ rfl
        rw [Refused, hstage]
        exact ⟨theirs, hhello, by tauto⟩
      · split
        next hduplicate =>
          refine .fail (s.sendReply fd (helloFill m rank cls)) _ ?_ rfl
          rw [Refused, hstage]
          exact ⟨theirs, hhello, .inr (.inr (.inr hduplicate))⟩
        next hfresh =>
          exact .take cls accepted _ fd theirs hstage hhello rfl (by simpa [State.sendReply] using hfresh)
  · cases h
  · cases h

/-- The loop counters of a stage are within their loops. -/
def Stage.Shaped (ranks rank : Nat) : Stage → Prop
  | .connecting peer cls | .greeting peer cls _ | .awaiting peer cls _ => peer < rank ∧ cls < 2
  | .accepting cls accepted | .reading cls accepted _ => cls < 2 ∧ rank < accepted ∧ accepted < ranks
  | _ => True

/-- The number of steps a rank can still take. -/
def Stage.left (ranks rank : Nat) : Stage → Nat
  | .idle => 6 * rank + 4 * ranks + 1
  | .connecting peer cls => 3 * (2 * rank - (2 * peer + cls)) + 4 * ranks
  | .greeting peer cls _ => 3 * (2 * rank - (2 * peer + cls)) + 4 * ranks - 1
  | .awaiting peer cls _ => 3 * (2 * rank - (2 * peer + cls)) + 4 * ranks - 2
  | .accepting cls accepted => if cls = 0 then 2 * ranks + 2 * (ranks - accepted) else 2 * (ranks - accepted)
  | .reading cls accepted _ => if cls = 0 then 2 * ranks + 2 * (ranks - accepted) - 1 else 2 * (ranks - accepted) - 1
  | .finished | .failed _ => 0

theorem acceptFrom_cases (ranks rank cls accepted : Nat) :
    (accepted < ranks ∧ acceptFrom ranks rank cls accepted = .accepting cls accepted) ∨
    (ranks ≤ accepted ∧ cls = 0 ∧ rank + 1 < ranks ∧ acceptFrom ranks rank cls accepted = .accepting 1 (rank + 1)) ∨
    (ranks ≤ accepted ∧ (cls ≠ 0 ∨ ranks ≤ rank + 1) ∧ acceptFrom ranks rank cls accepted = .finished) := by
  rw [acceptFrom]
  split
  · exact .inl ⟨by assumption, rfl⟩
  · split
    · exact .inr (.inl ⟨by omega, by omega, by omega, rfl⟩)
    · exact .inr (.inr ⟨by omega, by omega, rfl⟩)

theorem connectFrom_cases (ranks rank p cls : Nat) :
    (p < rank ∧ cls < 2 ∧ connectFrom ranks rank p cls = .connecting p cls) ∨
    ((rank ≤ p ∨ 2 ≤ cls) ∧ p + 1 < rank ∧ connectFrom ranks rank p cls = .connecting (p + 1) 0) ∨
    ((rank ≤ p ∨ 2 ≤ cls) ∧ rank ≤ p + 1 ∧ connectFrom ranks rank p cls = acceptFrom ranks rank 0 (rank + 1)) := by
  rw [connectFrom]
  split
  · exact .inl ⟨by omega, by omega, rfl⟩
  · split
    · exact .inr (.inl ⟨by omega, by omega, rfl⟩)
    · exact .inr (.inr ⟨by omega, by omega, rfl⟩)

theorem shaped_acceptFrom {cls accepted : Nat} (hcls : cls < 2) (h : rank < accepted) :
    (acceptFrom ranks rank cls accepted).Shaped ranks rank := by
  obtain ⟨ha, heq⟩ | ⟨-, -, hr, heq⟩ | ⟨-, -, heq⟩ := acceptFrom_cases ranks rank cls accepted <;> rw [heq]
  · exact ⟨hcls, h, ha⟩
  · exact ⟨by omega, by omega, hr⟩
  · trivial

theorem left_acceptFrom {cls accepted : Nat} :
    (acceptFrom ranks rank cls accepted).left ranks rank ≤ (Stage.accepting cls accepted).left ranks rank := by
  obtain ⟨-, heq⟩ | ⟨ha, hcls, hr, heq⟩ | ⟨-, -, heq⟩ := acceptFrom_cases ranks rank cls accepted <;> rw [heq]
  · simp only [Stage.left, hcls, if_true, one_ne_zero, if_false]
    omega
  · simp [Stage.left]

theorem shaped_connectFrom {p cls : Nat} : (connectFrom ranks rank p cls).Shaped ranks rank := by
  obtain ⟨hp, hcls, heq⟩ | ⟨-, hp, heq⟩ | ⟨-, -, heq⟩ := connectFrom_cases ranks rank p cls <;> rw [heq]
  · exact ⟨hp, hcls⟩
  · exact ⟨hp, by omega⟩
  · exact shaped_acceptFrom (by omega) (Nat.lt_succ_self rank)

theorem left_connectFrom {p cls : Nat} (hcls : cls ≤ 2) :
    (connectFrom ranks rank p cls).left ranks rank ≤ 3 * (2 * rank - (2 * p + cls)) + 4 * ranks := by
  obtain ⟨-, -, heq⟩ | ⟨-, -, heq⟩ | ⟨-, -, heq⟩ := connectFrom_cases ranks rank p cls <;> rw [heq]
  · exact le_rfl
  · simp only [Stage.left]
    omega
  · refine left_acceptFrom.trans ?_
    simp only [Stage.left, if_true]
    omega

theorem Moves.stage (h : Moves ranks m s rank t) (hshape : (s.stage rank).Shaped ranks rank) :
    ∃ next : Stage, t.stage = Function.update s.stage rank next ∧ next.Shaped ranks rank ∧
      next.left ranks rank < (s.stage rank).left ranks rank := by
  cases h with
  | start stage =>
    refine ⟨_, rfl, shaped_connectFrom, ?_⟩
    rw [stage]
    have hle : (connectFrom ranks rank 0 0).left ranks rank ≤ _ := left_connectFrom (by omega)
    exact lt_of_le_of_lt hle (by simp only [Stage.left]; omega)
  | connect peer cls stage =>
    rw [stage] at hshape ⊢
    exact ⟨_, rfl, hshape, by simp only [Stage.left, Stage.Shaped] at hshape ⊢; omega⟩
  | greet peer cls fd stage =>
    rw [stage] at hshape ⊢
    exact ⟨_, rfl, hshape, by simp only [Stage.left, Stage.Shaped] at hshape ⊢; omega⟩
  | receive peer cls fd theirs stage =>
    rw [stage] at hshape ⊢
    refine ⟨_, rfl, shaped_connectFrom, ?_⟩
    simp only [Stage.Shaped] at hshape
    have hle : (connectFrom ranks rank peer (cls + 1)).left ranks rank ≤ _ := left_connectFrom (by omega)
    exact lt_of_le_of_lt hle (by simp only [Stage.left]; omega)
  | accept cls accepted fd rest stage =>
    rw [stage] at hshape ⊢
    refine ⟨_, rfl, hshape, ?_⟩
    simp only [Stage.left, Stage.Shaped] at hshape ⊢
    split <;> omega
  | take cls accepted peer fd theirs stage =>
    rw [stage] at hshape ⊢
    simp only [Stage.Shaped] at hshape
    refine ⟨_, rfl, shaped_acceptFrom hshape.1 (by omega), ?_⟩
    have hle : (acceptFrom ranks rank cls (accepted + 1)).left ranks rank ≤ _ := left_acceptFrom
    refine lt_of_le_of_lt hle ?_
    by_cases hcls : cls = 0 <;> simp only [Stage.left, hcls, if_true, if_false] <;> omega
  | fail u err refused same =>
    refine ⟨.failed err, by rw [State.goto, same], trivial, ?_⟩
    unfold Refused at refused
    split at refused <;> rename_i hstage
    · simp [hstage, Stage.left]
    · simp only [hstage, Stage.left, Stage.Shaped] at hshape ⊢
      omega
    · simp only [hstage, Stage.left, Stage.Shaped] at hshape ⊢
      split <;> omega
    · exact refused.elim

def Shaped (ranks : Nat) (s : State) : Prop := ∀ rank < ranks, (s.stage rank).Shaped ranks rank

def callsLeft (ranks : Nat) (s : State) : Nat :=
  ∑ rank ∈ Finset.range ranks, (s.stage rank).left ranks rank

theorem shaped_step (h : Shaped ranks s) (hstep : step ranks m s rank = some t) : Shaped ranks t := by
  obtain ⟨hrank, hmove⟩ := step_cases hstep
  obtain ⟨next, hnext, hshape, -⟩ := hmove.stage (h rank hrank)
  intro other hother
  rw [hnext, Function.update_apply]
  split
  next heq =>
    exact heq ▸ hshape
  · exact h other hother

theorem callsLeft_step (h : Shaped ranks s) (hstep : step ranks m s rank = some t) :
    callsLeft ranks t < callsLeft ranks s := by
  obtain ⟨hrank, hmove⟩ := step_cases hstep
  obtain ⟨next, hnext, -, hless⟩ := hmove.stage (h rank hrank)
  apply Finset.sum_lt_sum
  · intro other _
    rw [hnext, Function.update_apply]
    split
    next heq =>
      exact heq ▸ hless.le
    · exact le_rfl
  · exact ⟨rank, Finset.mem_range.mpr hrank, by rw [hnext, Function.update_self]; exact hless⟩

theorem shaped_initial : Shaped ranks initial := fun _ _ => trivial

theorem exists_quiet (h : Shaped ranks s) :
    ∃ schedule t, Runs.exec (step ranks m) s schedule = some t ∧ Runs.Quiet (step ranks m) t :=
  Runs.exists_quiet (fun _ _ _ hs ht => shaped_step hs ht) (fun _ _ _ hs ht => callsLeft_step hs ht) h

end FlashGordon.Fabric
