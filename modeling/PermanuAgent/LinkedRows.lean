import Mathlib.Data.List.Basic
import Mathlib.Tactic.Common

/-!
# Linked rows

Rows with a value before and a value after them are linked when each starts
where the one before it ended. A row joins the end of a linked list exactly
when it starts at the last value.
-/

set_option autoImplicit false

namespace Permanu.LinkedRows

open List

variable {ρ τ α : Type}

def Linked (before after : ρ → α) : α → List ρ → Prop
  | _, [] => True
  | start, r::rest => before r = start ∧ Linked before after (after r) rest

def lastValue (after : ρ → α) (start : α) (rows : List ρ) : α :=
  (rows.getLast?.map after).getD start

theorem lastValue_cons (after : ρ → α) (start : α) (r : ρ) (rest : List ρ) :
    lastValue after start (r::rest) = lastValue after (after r) rest := by
  cases rest with
  | nil => rfl
  | cons s rest => simp [lastValue, getLast?_cons]

theorem linked_concat (before after : ρ → α) (start : α) {rows : List ρ} {r : ρ} :
    Linked before after start (rows ++ [r]) ↔
      Linked before after start rows ∧ before r = lastValue after start rows := by
  induction rows generalizing start with
  | nil => simp [Linked, lastValue]
  | cons s rest ih =>
    rw [cons_append, lastValue_cons]
    simp only [Linked, ih, and_assoc]

theorem linked_map (before after : ρ → α) (f : τ → ρ) (start : α) {rows : List τ} :
    Linked before after start (rows.map f) ↔ Linked (before ∘ f) (after ∘ f) start rows := by
  induction rows generalizing start with
  | nil => rfl
  | cons r rest ih => simp only [map_cons, Linked, Function.comp_apply, ih]

end Permanu.LinkedRows
