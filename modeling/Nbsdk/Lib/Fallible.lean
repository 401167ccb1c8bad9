import Mathlib.Logic.Basic

/-! Computations in `Except`: a lemma that runs a step.
It is proved through the equations of the bind, so that rewriting a step never asks the
kernel to unfold the computation behind it.
-/

namespace Fallible

universe u v

variable {φ : Type v} {α β : Type u}

/-- After a success the continuation runs on its value. -/
theorem ok_bind (value : α) (next : α → Except φ β)
    : (Except.ok value >>= next) = next value := by
  simp only [bind, Except.bind]

/-- Two steps succeed when the first does and the second does on its value. -/
theorem bind_eq_ok {first : Except φ α} {next : α → Except φ β} {result : β}
    : (first >>= next) = .ok result ↔ ∃ value, first = .ok value ∧ next value = .ok result := by
  cases first with
  | error failure => simp [bind, Except.bind]
  | ok value => simp [bind, Except.bind]

theorem mapError_ok {ψ : Type v} (rename : φ → ψ) (value : α)
    : (Except.ok value).mapError rename = .ok value := rfl

/-- Failures can be renamed before or after two steps are joined. -/
theorem mapError_bind {ψ : Type v} (rename : φ → ψ) (first : Except φ α)
    (next : α → Except φ β)
    : (first >>= next).mapError rename
      = first.mapError rename >>= fun value => (next value).mapError rename := by
  cases first <;> rfl

end Fallible
