import FlashGordon.Runs

/-! Runs that come to rest. A quantity that every step lowers bounds the length of a run, so every state can
be driven to one where nothing is enabled. -/

namespace Runs

variable {σ α : Type*} {step : σ → α → Option σ}

/-- No action is defined in the state. -/
def Quiet (step : σ → α → Option σ) (s : σ) : Prop := ∀ a, step s a = none

theorem exec_append {s t : σ} {first : List α} (h : exec step s first = some t) (second : List α) :
    exec step s (first ++ second) = exec step t second := by
  induction first generalizing s with
  | nil =>
    rw [exec_nil, Option.some.injEq] at h
    rw [h, List.nil_append]
  | cons a rest ih =>
    obtain ⟨u, hu, hrest⟩ := exec_cons_eq_some.mp h
    rw [List.cons_append, exec_cons, hu, Option.bind_some]
    exact ih hrest

section Lowering

variable {Inv : σ → Prop} {weight : σ → Nat}

theorem exists_quiet (hinv : ∀ s a t, Inv s → step s a = some t → Inv t)
    (hlower : ∀ s a t, Inv s → step s a = some t → weight t < weight s) {s : σ} (h : Inv s) :
    ∃ actions t, exec step s actions = some t ∧ Quiet step t := by
  induction hw : weight s using Nat.strongRecOn generalizing s with
  | ind n ih =>
    by_cases hquiet : Quiet step s
    · exact ⟨[], s, rfl, hquiet⟩
    · simp only [Quiet, not_forall] at hquiet
      obtain ⟨a, ha⟩ := hquiet
      obtain ⟨u, hu⟩ := Option.ne_none_iff_exists'.mp ha
      have hdrop := hlower s a u h hu
      obtain ⟨actions, t, hrun, hrest⟩ := ih (weight u) (by omega) (hinv s a u h hu) rfl
      refine ⟨a :: actions, t, ?_, hrest⟩
      rw [exec_cons, hu, Option.bind_some]
      exact hrun

end Lowering

end Runs
