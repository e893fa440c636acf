import Mathlib.Tactic.IntervalCases
import Mathlib.Tactic.NormNum

/-!
# Days and dates

Day 0 is 1970-01-01. Both directions count days inside a 400-year era whose
years begin in March, so the leap day is the last day of its year. The two
functions are inverse to each other on every date of the calendar.
-/

set_option autoImplicit false

namespace Permanu.CivilDate

def leap (year : ℤ) : Bool := (year % 4 == 0 && year % 100 != 0) || year % 400 == 0

def daysInMonth (year month : ℤ) : Option ℤ :=
  if month = 1 || month = 3 || month = 5 || month = 7 || month = 8 || month = 10 || month = 12
  then some 31
  else if month = 4 || month = 6 || month = 9 || month = 11 then some 30
  else if month = 2 then some (if leap year then 29 else 28)
  else none

def daysFromCivil (year month day : ℤ) : ℤ :=
  let year := if month ≤ 2 then year - 1 else year
  let era := year / 400
  let yearOfEra := year - era * 400
  let monthPrime := if month > 2 then month - 3 else month + 9
  let dayOfYear := (153 * monthPrime + 2) / 5 + day - 1
  let dayOfEra := yearOfEra * 365 + yearOfEra / 4 - yearOfEra / 100 + dayOfYear
  era * 146097 + dayOfEra - 719468

structure Date where
  year : ℤ
  month : ℤ
  day : ℤ
  deriving DecidableEq, Repr

def yearOfEra (dayOfEra : ℤ) : ℤ :=
  (dayOfEra - dayOfEra / 1460 + dayOfEra / 36524 - dayOfEra / 146096) / 365

def dayOfYear (dayOfEra : ℤ) : ℤ :=
  dayOfEra - (365 * yearOfEra dayOfEra + yearOfEra dayOfEra / 4 - yearOfEra dayOfEra / 100)

def civilFromDays (days : ℤ) : Date :=
  let shifted := days + 719468
  let era := shifted / 146097
  let dayOfEra := shifted - era * 146097
  let monthPrime := (5 * dayOfYear dayOfEra + 2) / 153
  let day := dayOfYear dayOfEra - (153 * monthPrime + 2) / 5 + 1
  let month := if monthPrime < 10 then monthPrime + 3 else monthPrime - 9
  ⟨yearOfEra dayOfEra + era * 400 + (if month ≤ 2 then 1 else 0), month, day⟩

/-- Day `n` of an era lies in century `f`, in the four-year cycle `k` of it and in
year `j` of that cycle. Only the last year of a cycle can have a 366th day, and the
last cycle of a century has one only at the end of the era. -/
structure EraPosition (n f k j : ℤ) : Prop where
  century : 0 ≤ f ∧ f ≤ 3
  cycle : 0 ≤ k ∧ k ≤ 24
  cycleYear : 0 ≤ j ∧ j ≤ 3
  year : yearOfEra n = 100 * f + 4 * k + j
  offset : dayOfYear n = n - 36524 * f - 1461 * k - 365 * j
  day : 0 ≤ dayOfYear n ∧ dayOfYear n ≤ 365
  leapDay : dayOfYear n = 365 → j = 3 ∧ (k < 24 ∨ f = 3)

variable {f j k month n t year : ℤ}

theorem year_of_position (n : ℤ) (hf : 0 ≤ f ∧ f ≤ 3) (hk : 0 ≤ k ∧ k ≤ 24)
    (hj : 0 ≤ j ∧ j ≤ 3) (h0 : 36524 * f + 1461 * k + 365 * j ≤ n)
    (h1 : n ≤ 36524 * f + 1461 * k + 365 * j + 365)
    (h2 : n = 36524 * f + 1461 * k + 365 * j + 365 → j = 3 ∧ (k < 24 ∨ f = 3)) :
    yearOfEra n = 100 * f + 4 * k + j := by
  have hl : 36524 * f ≤ n := by omega
  have hc : n < 36524 * f + 36524 ∨ n = 146096 ∧ f = 3 := by omega
  have he : n / 1460 = 25 * f + k ∨
      n / 1460 = 25 * f + k + 1 ∧ j = 3 ∧ 36524 * f + 1461 * k + 365 * j < n := by omega
  unfold yearOfEra
  rcases he with he | he <;> omega

theorem era_position (h0 : 0 ≤ n) (h1 : n < 146097) : ∃ f k j, EraPosition n f k j := by
  obtain ⟨f,hf,hn⟩ : ∃ f, (0 ≤ f ∧ f ≤ 3) ∧ 36524 * f ≤ n ∧
      (n < 36524 * f + 36524 ∨ f = 3) := ⟨min (n / 36524) 3, by omega, by omega⟩
  obtain ⟨k,hk⟩ : ∃ k, k = (n - 36524 * f) / 1461 := ⟨_,rfl⟩
  obtain ⟨j,hj⟩ : ∃ j, j = min ((n - 36524 * f - 1461 * k) / 365) 3 := ⟨_,rfl⟩
  have hk' : 0 ≤ k ∧ k ≤ 24 := by omega
  have hj' : 0 ≤ j ∧ j ≤ 3 := by omega
  have hy := year_of_position n hf hk' hj' (by omega) (by omega) (by omega)
  have ho : dayOfYear n = n - 36524 * f - 1461 * k - 365 * j := by
    unfold dayOfYear
    omega
  exact ⟨f,k,j,hf,hk',hj',hy,ho,by omega,by omega⟩

/-- A date of the calendar. -/
def Valid (d : Date) : Prop :=
  ∃ k, daysInMonth d.year d.month = some k ∧ 1 ≤ d.day ∧ d.day ≤ k

/-- The date of day `t` of the year of era `y`, counted from the first of March. -/
def marchDate (era y t : ℤ) : Date :=
  let monthPrime := (5 * t + 2) / 153
  let month := if monthPrime < 10 then monthPrime + 3 else monthPrime - 9
  ⟨y + era * 400 + (if month ≤ 2 then 1 else 0), month, t - (153 * monthPrime + 2) / 5 + 1⟩

variable {days era y : ℤ}

theorem marchDate_valid (h0 : 0 ≤ t) (h1 : t ≤ 365)
    (hl : t = 365 → leap (y + era * 400 + 1) = true) : Valid (marchDate era y t) := by
  obtain ⟨m,hm⟩ : ∃ m, m = (5 * t + 2) / 153 := ⟨_,rfl⟩
  have hr : 0 ≤ m ∧ m < 12 := by omega
  obtain ⟨hr0,hr1⟩ := hr
  simp only [Valid, marchDate, ← hm]
  interval_cases m <;> norm_num [daysInMonth] <;> try omega
  -- only February is left: its 29th day exists exactly in a leap year
  by_cases hy : leap (y + era * 400 + 1) = true
  · simp only [hy, if_true]
    omega
  · have : t ≠ 365 := fun h => hy (hl h)
    omega

theorem daysFromCivil_marchDate (hy : 0 ≤ y ∧ y < 400) (h0 : 0 ≤ t) (h1 : t ≤ 365) :
    daysFromCivil (marchDate era y t).year (marchDate era y t).month (marchDate era y t).day =
      era * 146097 + (365 * y + y / 4 - y / 100) + t - 719468 := by
  obtain ⟨m,hm⟩ : ∃ m, m = (5 * t + 2) / 153 := ⟨_,rfl⟩
  have hr : 0 ≤ m ∧ m < 12 := by omega
  obtain ⟨d,hd⟩ : ∃ d, d = t - (153 * m + 2) / 5 + 1 := ⟨_,rfl⟩
  simp only [daysFromCivil, marchDate, ← hm, ← hd]
  by_cases h : m < 10 <;> omega

theorem civilFromDays_marchDate (days : ℤ) :
    ∃ era n, 0 ≤ n ∧ n < 146097 ∧ days = era * 146097 + n - 719468 ∧
      civilFromDays days = marchDate era (yearOfEra n) (dayOfYear n) :=
  ⟨(days + 719468) / 146097, days + 719468 - (days + 719468) / 146097 * 146097,
    by omega, by omega, by omega, rfl⟩

theorem leap_of_position (p : EraPosition n f k j) (h : dayOfYear n = 365) :
    leap (yearOfEra n + era * 400 + 1) = true := by
  obtain ⟨hj,hk⟩ := p.leapDay h
  have hc := p.cycle
  rw [p.year, hj]
  simp only [leap, Bool.or_eq_true, Bool.and_eq_true, beq_iff_eq, bne_iff_ne]
  omega

theorem civilFromDays_valid (days : ℤ) : Valid (civilFromDays days) := by
  obtain ⟨era,n,h0,h1,_,hd⟩ := civilFromDays_marchDate days
  obtain ⟨f,k,j,p⟩ := era_position h0 h1
  rw [hd]
  exact marchDate_valid p.day.1 p.day.2 (leap_of_position p)

theorem daysFromCivil_civilFromDays (days : ℤ) :
    daysFromCivil (civilFromDays days).year (civilFromDays days).month (civilFromDays days).day =
      days := by
  obtain ⟨era,n,h0,h1,he,hd⟩ := civilFromDays_marchDate days
  obtain ⟨f,k,j,p⟩ := era_position h0 h1
  have hy : 0 ≤ yearOfEra n ∧ yearOfEra n < 400 := by
    have := p.year
    have := p.century
    have := p.cycle
    have := p.cycleYear
    omega
  rw [hd, daysFromCivil_marchDate hy p.day.1 p.day.2, he, dayOfYear]
  omega

theorem valid_month {d : Date} (h : Valid d) : 1 ≤ d.month ∧ d.month ≤ 12 ∧ d.day ≤ 31 := by
  obtain ⟨k,hk,h1,h2⟩ := h
  simp only [daysInMonth, Bool.or_eq_true, decide_eq_true_eq] at hk
  split at hk
  · simp only [Option.some.injEq] at hk
    omega
  · split at hk
    · simp only [Option.some.injEq] at hk
      omega
    · split at hk
      · split at hk <;> simp only [Option.some.injEq] at hk <;> omega
      · simp at hk

theorem marchDate_year (h0 : 0 ≤ t) (h1 : t ≤ 365) :
    (marchDate era y t).year = y + era * 400 + (if 306 ≤ t then 1 else 0) := by
  simp only [marchDate]
  split_ifs <;> omega

theorem civilFromDays_position : ∃ era y t : ℤ, 0 ≤ y ∧ y < 400 ∧ 0 ≤ t ∧ t ≤ 365 ∧
    (t = 365 → y % 4 = 3 ∧ (y % 100 ≠ 99 ∨ y = 399)) ∧
    days = era * 146097 + (365 * y + y / 4 - y / 100) + t - 719468 ∧
    (civilFromDays days).year = y + era * 400 + (if 306 ≤ t then 1 else 0) := by
  obtain ⟨era,n,h0,h1,he,hd⟩ := civilFromDays_marchDate days
  obtain ⟨f,k,j,p⟩ := era_position h0 h1
  have hy := p.year
  have hf := p.century
  have hk := p.cycle
  have hj := p.cycleYear
  have hl := p.leapDay
  refine ⟨era,yearOfEra n,dayOfYear n,by omega,by omega,p.day.1,p.day.2,?_,?_,?_⟩
  · intro h
    omega
  · rw [he, dayOfYear]
    omega
  · rw [hd, marchDate_year p.day.1 p.day.2]

/-- The years 1 to 9999 are the days from 0001-01-01 to 9999-12-31. -/
theorem civilFromDays_year (days : ℤ) :
    (1 ≤ (civilFromDays days).year ↔ -719162 ≤ days) ∧
      ((civilFromDays days).year ≤ 9999 ↔ days ≤ 2932896) := by
  obtain ⟨era,y,t,hy0,hy1,ht0,ht1,hl,hd,hyear⟩ := civilFromDays_position
  rw [hyear]
  constructor <;> split_ifs <;> omega

theorem daysFromCivil_ge {day : ℤ} (hy : 1 ≤ year) (hm : 1 ≤ month) (hd : 1 ≤ day) :
    -719162 ≤ daysFromCivil year month day := by
  simp only [daysFromCivil]
  split_ifs <;> omega

theorem daysInMonth_pos (h : daysInMonth year month = some days) :
    1 ≤ month := by
  simp only [daysInMonth, Bool.or_eq_true, decide_eq_true_eq] at h
  split_ifs at h <;> omega

end Permanu.CivilDate
