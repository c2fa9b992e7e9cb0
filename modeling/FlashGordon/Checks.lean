import FlashGordon.Status
import Mathlib.Data.List.FinRange

/-!
Validators. A validator makes its checks one after another and stops at the first that refuses, so
it accepts exactly what every one of its checks accepts. The lemmas turn a validator, branch by
branch, into the conjunction of what its checks ask.
-/

namespace FlashGordon.Checks

/-- How a run ends early: with an error, or by going past the end of an array, after which nothing is
known of it. -/
inductive Halt where
  | error (err : Error)
  | overrun
  deriving DecidableEq

variable {ε α β : Type}

def refuse (bad : Prop) [Decidable bad] (err : ε) : Except ε Unit :=
  if bad then .error err else .ok ()

/-- A check that is made only under a condition. -/
def whenever (p : Prop) [Decidable p] (check : Except ε Unit) : Except ε Unit :=
  if p then check else .ok ()

@[simp] theorem refuse_eq_ok {bad : Prop} [Decidable bad] {err : ε} : refuse bad err = .ok () ↔ ¬ bad := by
  by_cases h : bad <;> simp [refuse, h]

@[simp] theorem whenever_eq_ok {p : Prop} [Decidable p] {check : Except ε Unit} :
    whenever p check = .ok () ↔ (p → check = .ok ()) := by
  by_cases h : p <;> simp [whenever, h]

@[simp] theorem bind_eq_ok {first : Except ε α} {next : α → Except ε β} {b : β} :
    (first >>= next) = .ok b ↔ ∃ a, first = .ok a ∧ next a = .ok b := by
  cases first <;> simp [bind, Except.bind]

theorem ok_bind {a : α} {next : α → Except ε β} : (Except.ok a >>= next) = next a := rfl

theorem error_bind {err : ε} {next : α → Except ε β} : (Except.error err >>= next) = .error err := rfl

@[simp] theorem exists_unit {p : Unit → Prop} : (∃ u, p u) ↔ p () :=
  ⟨fun ⟨(), h⟩ => h, fun h => ⟨(), h⟩⟩

@[simp] theorem pure_eq_ok {a b : α} : (pure a : Except ε α) = .ok b ↔ a = b := by
  simp [pure, Except.pure]

@[simp] theorem forM_eq_ok {items : List α} {check : α → Except ε PUnit} :
    items.forM check = .ok () ↔ ∀ a ∈ items, check a = .ok () := by
  induction items with
  | nil => simp [List.forM, pure, Except.pure]
  | cons a items ih =>
    show (check a >>= fun _ => items.forM check) = .ok () ↔ _
    rw [bind_eq_ok, exists_unit, ih, List.forall_mem_cons]

end FlashGordon.Checks
