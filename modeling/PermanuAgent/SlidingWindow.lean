import Mathlib.Algebra.Order.Ring.Int
import Mathlib.Data.List.Basic

/-!
# Sliding windows

A log holds keyed entries in the order of their times. An entry is added only when
fewer than `m` entries of its key lie in the window that ends with it; then no
window of that width, wherever it ends, holds more than `m` entries of the key.
-/

set_option autoImplicit false

namespace Permanu.SlidingWindow

open List

variable {κ : Type} [DecidableEq κ] (width : ℤ)

section
variable (t : ℤ) (key : κ) (log : List (κ × ℤ))

/-- The entries of a key after `t - width` and up to `t`. -/
def windowCount : ℕ :=
  log.countP fun e => e.1 = key ∧ t - width < e.2 ∧ e.2 ≤ t

theorem windowCount_concat (e : κ × ℤ) :
    windowCount width t key (log ++ [e]) =
      windowCount width t key log + if e.1 = key ∧ t - width < e.2 ∧ e.2 ≤ t then 1 else 0 := by
  rw [windowCount, countP_append, countP_singleton]
  simp only [windowCount, decide_eq_true_eq]

theorem windowCount_eq_zero (h : ∀ e ∈ log, e.1 ≠ key) : windowCount width t key log = 0 := by
  rw [windowCount, countP_eq_zero]
  intro e he
  simp [h e he]

end

variable {log : List (κ × ℤ)} {now : ℤ}

/-- With every entry in the past only the start of the window matters. -/
theorem windowCount_past (hpast : ∀ e ∈ log, e.2 ≤ now) (key : κ) :
    windowCount width now key log = log.countP fun e => e.1 = key ∧ now - width < e.2 := by
  apply countP_congr
  intro e he
  simp [hpast e he]

theorem windowCount_later (hpast : ∀ e ∈ log, e.2 ≤ now) {t : ℤ} (ht : now ≤ t) (key : κ) :
    windowCount width t key log ≤ windowCount width now key log := by
  rw [windowCount_past width hpast]
  apply countP_mono_left
  intro e _ h
  simp only [decide_eq_true_eq] at h ⊢
  exact ⟨h.1,by omega⟩

theorem windowCount_le_concat (hpast : ∀ e ∈ log, e.2 ≤ now) {key : κ} {m : ℤ}
    (hfree : (windowCount width now key log : ℤ) < m)
    (h : ∀ t, (windowCount width t key log : ℤ) ≤ m) {t : ℤ} :
    (windowCount width t key (log ++ [(key, now)]) : ℤ) ≤ m := by
  rw [windowCount_concat]
  by_cases hin : t - width < now ∧ now ≤ t
  · have hle := windowCount_later width hpast hin.2 key
    rw [if_pos ⟨rfl,hin⟩]
    omega
  · rw [if_neg fun hc => hin hc.2]
    exact h t

end Permanu.SlidingWindow
