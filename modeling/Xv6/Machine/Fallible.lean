import Mathlib.Tactic.Common

/-!
# Inversion of fallible computations

A sequence of two fallible computations succeeds when both do, and fails as the first of them that
fails.
-/

namespace Machine

universe u v

variable {ε : Type u} {α β : Type v} {x : Except ε α} {f : α → Except ε β} {a : α} {b : β} {e : ε}

lemma bind_eq_ok : x >>= f = .ok b ↔ ∃ a, x = .ok a ∧ f a = .ok b := by
  cases x with
  | error => simp [bind, Except.bind]
  | ok => simp [bind, Except.bind]

lemma bind_eq_error : x >>= f = .error e ↔ x = .error e ∨ ∃ a, x = .ok a ∧ f a = .error e := by
  cases x with
  | error => simp [bind, Except.bind]
  | ok => simp [bind, Except.bind]

lemma eq_ok_of_toOption (h : x.toOption = some a) : x = .ok a := by
  cases x with
  | error => cases h
  | ok => exact congrArg _ (Option.some.inj h)

end Machine
