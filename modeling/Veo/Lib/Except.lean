-- SUMMARY: Taking apart computations in Except and EStateM by their result.
import Mathlib.Logic.Basic

/-!
# Computations that return or fail

A `do` block in `Except ε` that returned a value ran each of its steps successfully. One that
failed did so at a step. In `EStateM ε σ` the steps also pass on a state, which a failure leaves
as it is.
-/

namespace Except

variable {ε α β : Type}

theorem bind_eq_ok {x : Except ε α} {f : α → Except ε β} {b : β} :
    x >>= f = .ok b ↔ ∃ a, x = .ok a ∧ f a = .ok b := by
  cases x with
  | error e => simp [bind, Except.bind]
  | ok a => simp [bind, Except.bind]

theorem bind_eq_error {x : Except ε α} {f : α → Except ε β} {e : ε} :
    x >>= f = .error e ↔ x = .error e ∨ ∃ a, x = .ok a ∧ f a = .error e := by
  cases x with
  | error e => simp [bind, Except.bind]
  | ok a => simp [bind, Except.bind]

theorem map_eq_ok {x : Except ε α} {f : α → β} {b : β} :
    x.map f = .ok b ↔ ∃ a, x = .ok a ∧ f a = b := by
  cases x <;> simp [Except.map]

theorem toOption_eq_some {x : Except ε α} {a : α} : x.toOption = some a ↔ x = .ok a := by
  cases x <;> simp [Except.toOption]

/-- The check that decides between a value and an error was passed. -/
theorem ite_eq_ok {P : Prop} [Decidable P] {a b : α} {e : ε} :
    (if P then .ok a else .error e : Except ε α) = .ok b ↔ P ∧ a = b := by
  by_cases h : P <;> simp [h]

end Except

namespace EStateM

variable {ε σ α β : Type}

theorem bind_eq_ok {x : EStateM ε σ α} {f : α → EStateM ε σ β} {s s' : σ} {b : β} :
    (x >>= f) s = .ok b s' ↔ ∃ a s₁, x s = .ok a s₁ ∧ f a s₁ = .ok b s' := by
  cases h : x s with
  | ok a s₁ => simp [bind, EStateM.bind, h, and_assoc]
  | error e s₁ => simp [bind, EStateM.bind, h]

theorem bind_eq_error {x : EStateM ε σ α} {f : α → EStateM ε σ β} {s s' : σ} {e : ε} :
    (x >>= f) s = .error e s' ↔
      x s = .error e s' ∨ ∃ a s₁, x s = .ok a s₁ ∧ f a s₁ = .error e s' := by
  cases h : x s with
  | ok a s₁ => simp [bind, EStateM.bind, h, and_assoc]
  | error e s₁ => simp [bind, EStateM.bind, h]

end EStateM
