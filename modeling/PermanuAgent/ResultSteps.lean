import Mathlib.Tactic.Common

/-!
# Chains of fallible steps

A fallible computation is a chain of steps that stops at the first error. Each
lemma says when a step succeeded, so a successful chain is taken apart into the
facts its steps established.
-/

set_option autoImplicit false

namespace Permanu.ResultSteps

variable {ε α β : Type}

/-- Fails with `e` unless the condition holds. -/
def ensure (b : Bool) (e : ε) : Except ε Unit := if b then .ok () else .error e

def okOr (x : Option α) (e : ε) : Except ε α :=
  match x with
  | some a => .ok a
  | none => .error e

def okValue (x : Except ε α) (default : α) : α :=
  match x with
  | .ok a => a
  | .error _ => default

variable {x : Except ε α} {b : β}

theorem eq_ok_okValue (default : α) (h : x.isOk = true) :
    x = .ok (okValue x default) := by
  cases x with
  | error e => cases h
  | ok a => rfl

@[simp] theorem bind_ok {f : α → Except ε β} :
    (x >>= f) = .ok b ↔ ∃ a, x = .ok a ∧ f a = .ok b := by
  cases x with
  | error e | ok a => simp [bind, Except.bind]

@[simp] theorem pure_ok (a b : α) : (pure a : Except ε α) = .ok b ↔ a = b := by
  simp [pure, Except.pure]

@[simp] theorem ensure_ok {b : Bool} {e : ε} {u : Unit} : ensure b e = .ok u ↔ b = true := by
  cases b <;> simp [ensure]

@[simp] theorem okOr_ok (x : Option α) (e : ε) (a : α) : okOr x e = .ok a ↔ x = some a := by
  cases x <;> simp [okOr]

@[simp] theorem map_ok (f : α → β) :
    x.map f = .ok b ↔ ∃ a, x = .ok a ∧ f a = b := by
  cases x <;> simp [Except.map]

@[simp] theorem mapError_ok (x : Except ε α) (f : ε → β) (a : α) :
    x.mapError f = .ok a ↔ x = .ok a := by
  cases x <;> simp [Except.mapError]

end Permanu.ResultSteps
