import Mathlib.Data.List.Sort
import Mathlib.Data.List.Induction

/-!
# Numbered rows

A feed of rows with ascending numbers is read from a number on. What was read is a front
of the rows above that number; what is left are the rows above the last number read.
-/

set_option autoImplicit false

namespace Permanu.NumberedRows

open List

variable {α : Type} {number : α → ℕ}

def Ascending (number : α → ℕ) (rows : List α) : Prop :=
  rows.Pairwise fun a b => number a < number b

def above (number : α → ℕ) (bound : ℕ) (rows : List α) : List α :=
  rows.filter fun row => decide (bound < number row)

def lastNumber (number : α → ℕ) (bound : ℕ) : List α → ℕ
  | [] => bound
  | row :: rest => lastNumber number (number row) rest

@[simp] theorem above_append (bound : ℕ) (front back : List α) :
    above number bound (front ++ back) = above number bound front ++ above number bound back :=
  filter_append ..

variable {bound : ℕ} {rows : List α}

variable {row : α} {high low : ℕ} {back : List α}

theorem mem_above : row ∈ above number bound rows ↔ row ∈ rows ∧ bound < number row := by
  simp [above]

theorem foldl_max_le {least : ℕ} :
    rows.foldl (fun highest row => max highest (number row)) least ≤ bound ↔
      least ≤ bound ∧ ∀ row ∈ rows, number row ≤ bound := by
  induction rows generalizing least with
  | nil => simp
  | cons row rest ih =>
    rw [foldl_cons, ih]
    simp [and_assoc]

theorem above_none (h : ∀ row ∈ rows, number row ≤ bound) : above number bound rows = [] := by
  rw [above, filter_eq_nil_iff]
  intro row hrow
  have := h row hrow
  simpa using this

theorem above_all (h : ∀ row ∈ rows, bound < number row) : above number bound rows = rows := by
  rw [above, filter_eq_self]
  intro row hrow
  simpa using h row hrow

theorem above_above (h : low ≤ high) :
    above number high (above number low rows) = above number high rows := by
  rw [above, above, filter_filter]
  apply filter_congr
  intro row _
  by_cases hrow : high < number row
  · simp [hrow, show low < number row by omega]
  · simp [hrow]

theorem Ascending.above (h : Ascending number rows) (bound : ℕ) :
    Ascending number (above number bound rows) := List.Pairwise.filter _ h

theorem lastNumber_append (bound : ℕ) (front back : List α) :
    lastNumber number bound (front ++ back) =
      lastNumber number (lastNumber number bound front) back := by
  induction front generalizing bound with
  | nil => rfl
  | cons row rest ih => exact ih (number row)

theorem lastNumber_cases (number : α → ℕ) (bound : ℕ) (rows : List α) :
    (rows = [] ∧ lastNumber number bound rows = bound) ∨
      ∃ front row, rows = front ++ [row] ∧ lastNumber number bound rows = number row := by
  induction rows using List.reverseRecOn with
  | nil => exact .inl ⟨rfl,rfl⟩
  | append_singleton front row _ =>
    refine .inr ⟨front,row,rfl,?_⟩
    rw [lastNumber_append]
    rfl

theorem le_lastNumber (h : Ascending number rows) :
    ∀ row ∈ rows, number row ≤ lastNumber number bound rows := by
  rcases lastNumber_cases number bound rows with ⟨rfl,-⟩ | ⟨front,last,rfl,hlast⟩
  · exact fun _ hrow => nomatch hrow
  · intro row hrow
    rw [hlast]
    rcases mem_append.1 hrow with hfront | hsame
    · exact le_of_lt ((pairwise_append.1 h).2.2 row hfront last mem_cons_self)
    · rw [mem_singleton.1 hsame]

theorem bound_le_lastNumber (h : ∀ row ∈ rows, bound < number row) :
    bound ≤ lastNumber number bound rows := by
  rcases lastNumber_cases number bound rows with ⟨-,hlast⟩ | ⟨front,last,rfl,hlast⟩
  · exact hlast.ge
  · rw [hlast]
    exact le_of_lt (h last (by simp))

variable {front : List α}

/-- What is left after a front was read are the rows above the last number read. -/
theorem rest_above (h : Ascending number rows)
    (hread : above number bound rows = front ++ back) :
    back = above number (lastNumber number bound front) rows := by
  have hascending := h.above bound
  rw [hread] at hascending
  have hbound : ∀ row ∈ front, bound < number row := by
    intro row hrow
    have hmem : row ∈ above number bound rows := by
      rw [hread]
      exact mem_append_left _ hrow
    exact (mem_above.1 hmem).2
  have hparts := pairwise_append.1 hascending
  rw [← above_above (bound_le_lastNumber hbound), hread, above_append,
    above_none (le_lastNumber hparts.1), nil_append, above_all]
  intro row hrow
  rcases lastNumber_cases number bound front with ⟨-,hlast⟩ | ⟨before,last,rfl,hlast⟩
  · rw [hlast]
    have hmem : row ∈ above number bound rows := by
      rw [hread]
      exact mem_append_right _ hrow
    exact (mem_above.1 hmem).2
  · rw [hlast]
    exact hparts.2.2 last (by simp) row hrow

/-- Once every row above a number was read, nothing is above the last one. -/
theorem above_lastNumber (h : Ascending number rows) :
    above number (lastNumber number bound (above number bound rows)) rows = [] :=
  (rest_above h (append_nil _).symm).symm

def through (number : α → ℕ) (bound : ℕ) (rows : List α) : List α :=
  rows.filter fun row => decide (number row ≤ bound)

theorem mem_through :
    row ∈ through number bound rows ↔ row ∈ rows ∧ number row ≤ bound := by
  simp [through]

theorem through_all (h : ∀ row ∈ rows, number row ≤ bound) : through number bound rows = rows := by
  rw [through, filter_eq_self]
  intro row hrow
  simpa using h row hrow

theorem through_none (h : ∀ row ∈ rows, bound < number row) : through number bound rows = [] := by
  rw [through, filter_eq_nil_iff]
  intro row hrow
  simpa using h row hrow

theorem through_append_above (h : Ascending number rows) (bound : ℕ) :
    through number bound rows ++ above number bound rows = rows := by
  induction rows with
  | nil => rfl
  | cons row rest ih =>
    have hparts := pairwise_cons.1 h
    by_cases hrow : number row ≤ bound
    · have hrest := ih hparts.2
      rw [through, above] at hrest ⊢
      simpa [hrow, Nat.not_lt.2 hrow] using hrest
    · have hlater : ∀ other ∈ row :: rest, bound < number other := by
        intro other hother
        rcases mem_cons.1 hother with rfl | hin
        · omega
        · have := hparts.1 other hin
          omega
      rw [through_none hlater, above_all hlater, nil_append]

/-- What lies between two numbers, cut at one between them. -/
theorem above_through_split (h : Ascending number rows) {middle : ℕ} (hlow : low ≤ middle)
    (hhigh : middle ≤ high) :
    above number low (through number high rows) =
      above number low (through number middle rows) ++
        above number middle (through number high rows) := by
  have hthrough :
      through number middle (through number high rows) = through number middle rows := by
    rw [through, through, filter_filter]
    apply filter_congr
    intro row _
    by_cases hrow : number row ≤ middle
    · simp [hrow, show number row ≤ high by omega]
    · simp [hrow]
  have hcut := through_append_above
    (show Ascending number (through number high rows) from List.Pairwise.filter _ h) middle
  have hlater : above number low (above number middle (through number high rows)) =
      above number middle (through number high rows) := by
    apply above_all
    intro row hrow
    exact lt_of_le_of_lt hlow (mem_above.1 hrow).2
  calc above number low (through number high rows)
      = above number low (through number middle (through number high rows) ++
          above number middle (through number high rows)) := by rw [hcut]
    _ = _ := by rw [above_append, hthrough, hlater]

/-- A front of the rows is what lies up to its last number. -/
theorem through_front (h : Ascending number rows)
    (hbound : ∀ row ∈ rows, bound < number row) (hfront : front <+: rows) :
    through number (lastNumber number bound front) rows = front := by
  obtain ⟨back,rfl⟩ := hfront
  have hback := rest_above h (above_all hbound)
  have hcut := through_append_above h (lastNumber number bound front)
  rw [← hback] at hcut
  exact append_cancel_right hcut

def upTo (stop : α → Bool) : List α → List α
  | [] => []
  | row :: rest => if stop row then [row] else row :: upTo stop rest

variable {stop : α → Bool}

theorem upTo_append (h : ∀ row ∈ front, stop row = false)
    (back : List α) : upTo stop (front ++ back) = front ++ upTo stop back := by
  induction front with
  | nil => rfl
  | cons row rest ih =>
    have hrow := h row mem_cons_self
    have hrest := ih fun other hother => h other (mem_cons_of_mem row hother)
    simp [upTo, hrow, hrest]

theorem upTo_all (h : ∀ row ∈ rows, stop row = false) : upTo stop rows = rows := by
  simpa [upTo] using upTo_append h []

theorem upTo_stopped (h : ∀ row ∈ front, stop row = false)
    {last : α} (hlast : stop last = true) :
    upTo stop (front ++ last :: back) = front ++ [last] := by
  rw [upTo_append h]
  simp [upTo, hlast]

end Permanu.NumberedRows
