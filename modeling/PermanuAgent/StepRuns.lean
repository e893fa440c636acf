import Mathlib.Data.List.Induction

/-!
# Runs

A run is the state after a list of operations. A property of the operations and the state
they reach is proved for the last operation of a run. A loop takes steps until none applies.
-/

set_option autoImplicit false

namespace Permanu.StepRuns

open List

variable {σ ο : Type} {step : σ → ο → σ} {init : σ}

def run (step : σ → ο → σ) (init : σ) (ops : List ο) : σ := ops.foldl step init

@[simp] theorem run_nil (step : σ → ο → σ) (init : σ) : run step init [] = init := rfl

@[simp] theorem run_concat (step : σ → ο → σ) (init : σ) (ops : List ο) (op : ο) :
    run step init (ops ++ [op]) = step (run step init ops) op := by
  simp [run]

theorem run_append (step : σ → ο → σ) (init : σ) (ops rest : List ο) :
    run step init (ops ++ rest) = run step (run step init ops) rest := foldl_append

/-- What holds at the start and survives the last operation holds of every run. -/
theorem run_induction (step : σ → ο → σ) (P : List ο → σ → Prop) (start : P [] init)
    (next : ∀ ops op, P ops (run step init ops) →
      P (ops ++ [op]) (step (run step init ops) op)) {ops : List ο} :
    P ops (run step init ops) := by
  induction ops using List.reverseRecOn with
  | nil => exact start
  | append_singleton ops op ih =>
    rw [run_concat]
    exact next ops op ih

theorem run_invariant (step : σ → ο → σ) (Inv : σ → Prop) (start : Inv init)
    (next : ∀ s op, Inv s → Inv (step s op)) (ops : List ο) : Inv (run step init ops) :=
  run_induction step (fun _ s => Inv s) start (fun ops op => next (run step init ops) op)

/-- The same for the runs whose every operation is allowed where it happens. -/
theorem run_invariant_along (allowed : σ → ο → Prop) (Inv : σ → Prop)
    (start : Inv init) (next : ∀ s op, Inv s → allowed s op → Inv (step s op)) (ops : List ο)
    (h : ∀ before op, before ++ [op] <+: ops → allowed (run step init before) op) :
    Inv (run step init ops) := by
  induction ops using List.reverseRecOn with
  | nil => exact start
  | append_singleton ops op ih =>
    rw [run_concat]
    apply next
    · exact ih fun before o hb => h before o (hb.trans (prefix_append ops [op]))
    · exact h ops op (prefix_refl _)

theorem along_of_take (allowed : σ → ο → Prop) {ops : List ο}
    (h : ∀ (i : ℕ) (hi : i < ops.length), allowed (run step init (ops.take i)) ops[i])
    (before : List ο) (op : ο) (hb : before ++ [op] <+: ops) :
    allowed (run step init before) op := by
  obtain ⟨after,rfl⟩ := hb
  have hop := h before.length (by simp)
  simpa using hop

/-- Repeat a step until it no longer applies, at most `fuel` times. -/
def exhaust (step : σ → Option σ) : ℕ → σ → σ
  | 0, state => state
  | fuel + 1, state =>
    match step state with
    | none => state
    | some next => exhaust step fuel next

theorem exhaust_invariant (Inv : σ → Prop) {step : σ → Option σ} {fuel : ℕ} {state : σ}
    (start : Inv state) (next : ∀ s t, Inv s → step s = some t → Inv t) :
    Inv (exhaust step fuel state) := by
  induction fuel generalizing state with
  | zero => exact start
  | succ fuel ih =>
    unfold exhaust
    cases hstep : step state with
    | none => exact start
    | some after => exact ih (next state after start hstep)

end Permanu.StepRuns
