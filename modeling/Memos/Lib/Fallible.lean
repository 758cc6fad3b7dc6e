/-
Computations that may fail.

When a computation that is put together succeeds, so does each of its parts.
-/
import Mathlib.Tactic.Common

namespace Fallible

variable {ε ε' α β : Type} {x : Except ε α} {a : α} {b : β}

theorem bind_ok {f : α → Except ε β} : (x >>= f) = .ok b ↔ ∃ a, x = .ok a ∧ f a = .ok b := by
  cases x with
  | error e =>
      constructor
      · intro h
        cases h
      · rintro ⟨_, h, -⟩
        cases h
  | ok a =>
      constructor
      · intro h
        exact ⟨a, rfl, h⟩
      · rintro ⟨a', same, h⟩
        injection same with same
        rw [same]
        exact h

theorem ok_bind {f : α → Except ε β} : (Except.ok a >>= f) = f a := rfl

theorem mapError_ok {f : ε → ε'} : x.mapError f = .ok a ↔ x = .ok a := by
  cases x with
  | error e => exact iff_of_false nofun nofun
  | ok b =>
      show Except.ok b = Except.ok a ↔ _
      rw [Except.ok.injEq, Except.ok.injEq]

end Fallible
