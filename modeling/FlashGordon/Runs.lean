import Mathlib.Data.List.Basic

/-! Runs of a partial transition function. A step may be undefined (the program has no behaviour
there), and a run is a list of actions taken one after another. The invariant rule carries a property
along every run whose steps all meet a side condition on the state they start from. -/

namespace Runs

variable {σ α : Type*}

/-- The state after the actions, `none` when one of the steps is undefined. -/
def exec (step : σ → α → Option σ) : σ → List α → Option σ
  | s, [] => some s
  | s, a :: rest => (step s a).bind fun t => exec step t rest

/-- Every step of the run starts from a state that meets `Good`. -/
def Along (step : σ → α → Option σ) (Good : σ → α → Prop) : σ → List α → Prop
  | _, [] => True
  | s, a :: rest => Good s a ∧
      match step s a with
      | some t => Along step Good t rest
      | none => True

@[simp] theorem exec_nil (step : σ → α → Option σ) (s : σ) : exec step s [] = some s := rfl

theorem exec_cons (step : σ → α → Option σ) (s : σ) (a : α) (rest : List α) :
    exec step s (a :: rest) = (step s a).bind fun t => exec step t rest := rfl

variable {step : σ → α → Option σ}

theorem exec_cons_eq_some {s u : σ} {a : α} {rest : List α} :
    exec step s (a :: rest) = some u ↔ ∃ t, step s a = some t ∧ exec step t rest = some u := by
  rw [exec_cons, Option.bind_eq_some_iff]

theorem Along.tail {Good : σ → α → Prop} {s t : σ} {a : α} {rest : List α}
    (h : Along step Good s (a :: rest)) (ht : step s a = some t) : Along step Good t rest := by
  have htail := h.2
  rwa [ht] at htail

theorem Along.of_forall {Good : σ → α → Prop} {actions : List α}
    (h : ∀ a ∈ actions, ∀ s, Good s a) (s : σ) : Along step Good s actions := by
  induction actions generalizing s with
  | nil => trivial
  | cons a rest ih =>
    refine ⟨h a List.mem_cons_self s, ?_⟩
    split
    · exact ih (List.forall_mem_cons.mp h).2 _
    · trivial

theorem exec_invariant {Good : σ → α → Prop} {Inv : σ → Prop}
    (hstep : ∀ s a t, Inv s → Good s a → step s a = some t → Inv t) {s u : σ} {actions : List α}
    (hinit : Inv s) (halong : Along step Good s actions) (hrun : exec step s actions = some u) :
    Inv u := by
  induction actions generalizing s with
  | nil =>
    rw [exec_nil, Option.some.injEq] at hrun
    exact hrun ▸ hinit
  | cons a rest ih =>
    obtain ⟨t, ht, hrest⟩ := exec_cons_eq_some.mp hrun
    exact ih (hstep s a t hinit halong.1 ht) (halong.tail ht) hrest

theorem exec_invariant_always {Inv : σ → Prop}
    (hstep : ∀ s a t, Inv s → step s a = some t → Inv t) {s u : σ} {actions : List α}
    (hinit : Inv s) (hrun : exec step s actions = some u) : Inv u := by
  induction actions generalizing s with
  | nil =>
    rw [exec_nil, Option.some.injEq] at hrun
    exact hrun ▸ hinit
  | cons a rest ih =>
    obtain ⟨t, ht, hrest⟩ := exec_cons_eq_some.mp hrun
    exact ih (hstep s a t hinit ht) hrest

theorem exec_frozen {β : Type*} {Inv Mark : σ → Prop} {f : σ → β} (hinv : ∀ s a t, Inv s → step s a = some t → Inv t)
    (hmark : ∀ s a t, Inv s → Mark s → step s a = some t → Mark t ∧ f t = f s) {s u : σ} {actions : List α}
    (h : Inv s) (hs : Mark s) (hrun : exec step s actions = some u) : Inv u ∧ Mark u ∧ f u = f s := by
  induction actions generalizing s with
  | nil =>
    rw [exec_nil, Option.some.injEq] at hrun
    exact hrun ▸ ⟨h, hs, rfl⟩
  | cons a rest ih =>
    obtain ⟨t, ht, hrest⟩ := exec_cons_eq_some.mp hrun
    obtain ⟨hmarked, hf⟩ := hmark s a t h hs ht
    obtain ⟨hu, hmu, hfu⟩ := ih (hinv s a t h ht) hmarked hrest
    exact ⟨hu, hmu, hfu.trans hf⟩

end Runs
