import Mathlib.Tactic.TypeStar

/-!
# `Bcachefs.Loop.Except`: computations that fail with an error code

A C function that returns a negative error code or a result is a computation in `Except ε`.
What it returns when it succeeds is read off one call at a time: `bind_eq_ok` takes a
successful `x >>= f` apart into a successful `x` and a successful `f`.
-/

set_option autoImplicit false

namespace Bcachefs.Loop

variable {ε α β : Type}

/-- A bind succeeds exactly when its first part does and the rest succeeds on its value. -/
theorem bind_eq_ok {x : Except ε α} {f : α → Except ε β} {b : β} :
    x >>= f = .ok b ↔ ∃ a, x = .ok a ∧ f a = .ok b := by
  cases x <;> simp [bind, Except.bind]

end Bcachefs.Loop
