import PermanuAgent.PlanText
import Mathlib

/-!
# The order of timestamp texts

Texts of timestamps are compared byte by byte. In the years of four digits that
is the order of the instants: the fields have fixed widths and stand from the
year down to the second. An instant before the year 0 has a text that starts with
a sign, below every digit. In the years 1 to 9999 texts and instants correspond: each
accepted text is that of a time of the calendar, and is the text of its instant.
-/

set_option autoImplicit false

namespace Permanu.TimestampOrder
open ByteText CivilDate PlanText List

def yearStart (year : ℤ) : ℤ := 365 * year + year / 4 - year / 100 + year / 400

theorem yearStart_mono : Monotone yearStart := by
  apply monotone_int_of_le_succ
  intro year
  unfold yearStart
  omega

def dateNumber (d : Date) : ℤ := 372 * d.year + 31 * d.month + d.day

/-- The month and day of day `t` of a year that begins in March, in the same number. -/
def dayNumber (t : ℤ) : ℤ :=
  31 * ((5 * t + 2) / 153 + 3) + (t - (153 * ((5 * t + 2) / 153) + 2) / 5 + 1)

theorem dayNumber_strictMono : StrictMono dayNumber := by
  apply strictMono_int_of_lt_succ
  intro t
  have hmonth : (5 * (t + 1) + 2) / 153 = (5 * t + 2) / 153 ∨
      (5 * (t + 1) + 2) / 153 = (5 * t + 2) / 153 + 1 := by omega
  unfold dayNumber
  rcases hmonth with h | h <;> omega

theorem dateNumber_marchDate {t : ℤ} {era y : ℤ} (h0 : 0 ≤ t) (h1 : t ≤ 365) :
    dateNumber (marchDate era y t) = 372 * (y + era * 400) + dayNumber t := by
  simp only [dateNumber, marchDate, dayNumber]
  split_ifs <;> omega

/-- The quotients of a year and of the next one by its century, cycle and year of the cycle. -/
theorem yearStart_position {f k j : ℤ} (era : ℤ) (hf : 0 ≤ f ∧ f ≤ 3) (hk : 0 ≤ k ∧ k ≤ 24)
    (hj : 0 ≤ j ∧ j ≤ 3) :
    yearStart (100 * f + 4 * k + j + era * 400) =
      era * 146097 + 36524 * f + 1461 * k + 365 * j ∧
    yearStart (100 * f + 4 * k + j + era * 400) +
      (if j = 3 ∧ (k < 24 ∨ f = 3) then 366 else 365) =
      yearStart (100 * f + 4 * k + j + era * 400 + 1) := by
  have h4 : (100 * f + 4 * k + j + era * 400) / 4 = 25 * f + k + 100 * era := by omega
  have h100 : (100 * f + 4 * k + j + era * 400) / 100 = f + 4 * era := by omega
  have h400 : (100 * f + 4 * k + j + era * 400) / 400 = era := by omega
  have h4' : (100 * f + 4 * k + j + era * 400 + 1) / 4 =
      25 * f + k + 100 * era + if j = 3 then 1 else 0 := by
    split_ifs <;> omega
  have h100' : (100 * f + 4 * k + j + era * 400 + 1) / 100 =
      f + 4 * era + if j = 3 ∧ k = 24 then 1 else 0 := by
    split_ifs <;> omega
  have h400' : (100 * f + 4 * k + j + era * 400 + 1) / 400 =
      era + if j = 3 ∧ k = 24 ∧ f = 3 then 1 else 0 := by
    split_ifs <;> omega
  constructor
  · rw [yearStart, h4, h100, h400]
    ring
  · rw [yearStart, yearStart, h4, h100, h400, h4', h100', h400']
    split_ifs <;> omega

/-- A day is the day `t` of a year that begins in March, and its date grows with both. -/
theorem civilFromDays_day (days : ℤ) : ∃ year t : ℤ, 0 ≤ t ∧ t ≤ 365 ∧
    days + 719468 = yearStart year + t ∧ days + 719468 < yearStart (year + 1) ∧
    dateNumber (civilFromDays days) = 372 * year + dayNumber t := by
  obtain ⟨era,n,h0,h1,he,hd⟩ := civilFromDays_marchDate days
  obtain ⟨f,k,j,p⟩ := era_position h0 h1
  obtain ⟨hf,hk,hj,hy,ho,hday,hleap⟩ := p
  obtain ⟨hstart,hnext⟩ := yearStart_position era hf hk hj
  rw [← hy] at hstart hnext
  refine ⟨yearOfEra n + era * 400,dayOfYear n,hday.1,hday.2,by omega,?_,?_⟩
  · by_cases hlast : dayOfYear n = 365
    · omega
    · split_ifs at hnext <;> omega
  · rw [hd, dateNumber_marchDate hday.1 hday.2]

theorem dateNumber_strictMono : StrictMono fun days => dateNumber (civilFromDays days) := by
  intro a b hab
  obtain ⟨y,t,ht0,ht1,ha,hay,hda⟩ := civilFromDays_day a
  obtain ⟨z,u,hu0,hu1,hb,hbz,hdb⟩ := civilFromDays_day b
  show dateNumber (civilFromDays a) < dateNumber (civilFromDays b)
  have hle : y ≤ z := by
    by_contra hlt
    have := yearStart_mono (show z + 1 ≤ y by omega)
    omega
  rcases hle.eq_or_lt with rfl | hlt
  · have := dayNumber_strictMono (show t < u by omega)
    omega
  · -- a year has fewer than 372 days in this numbering
    have hlow := dayNumber_strictMono.monotone hu0
    have hhigh := dayNumber_strictMono.monotone ht1
    have hspan : dayNumber 365 < dayNumber 0 + 372 := by decide
    omega

theorem append_lt_append_of_lt {a b : Str} (h : a < b) (hlen : a.length = b.length) (r s : Str) :
    a ++ r < b ++ s := by
  induction a generalizing b with
  | nil =>
    obtain rfl : b = [] := length_eq_zero_iff.mp hlen.symm
    exact absurd h (List.lt_irrefl _)
  | cons x xs ih =>
    cases b with
    | nil => cases hlen
    | cons y ys =>
      rw [cons_append, cons_append, cons_lt_cons_iff]
      rcases cons_lt_cons_iff.mp h with hlt | ⟨rfl,hlt⟩
      · exact .inl hlt
      · exact .inr ⟨rfl,ih hlt (by simpa using hlen)⟩

theorem append_lt_append_left {a : Str} {r s : Str} (h : r < s) : a ++ r < a ++ s := by
  induction a with
  | nil => exact h
  | cons x xs ih =>
    rw [cons_append, cons_append, cons_lt_cons_iff]
    exact .inr ⟨rfl,ih⟩

theorem digitByte_lt {d e : ℕ} (h : d < e) (he : e < 10) : digitByte d < digitByte e := by
  rw [UInt8.lt_iff_toNat_lt, digitByte_toNat (by omega), digitByte_toNat he]
  omega

variable {d : Date} {m n : ℕ} {a : ℤ} {b : UInt8}

theorem padded_two_lt (h : n < m) (hm : m < 100) : padded 2 n < padded 2 m := by
  rw [padded_two (by omega), padded_two hm, cons_lt_cons_iff, cons_lt_cons_iff]
  by_cases htens : n / 10 < m / 10
  · exact .inl (digitByte_lt htens (by omega))
  · have heq : n / 10 = m / 10 := by omega
    exact .inr ⟨by rw [heq],.inl (digitByte_lt (by omega) (by omega))⟩

theorem padded_four_eq (h : n < 10000) :
    padded 4 n = padded 2 (n / 100) ++ padded 2 (n % 100) := by
  rw [padded_four h, padded_two (by omega), padded_two (by omega),
    show n / 100 / 10 = n / 1000 by omega, show n % 100 / 10 = n / 10 % 10 by omega,
    show n % 100 % 10 = n % 10 by omega]
  rfl

theorem padded_two_length (h : n < 100) : (padded 2 n).length = 2 := by
  rw [padded_two h]
  rfl

theorem padded_four_length (h : n < 10000) : (padded 4 n).length = 4 := by
  rw [padded_four h]
  rfl

theorem padded_four_lt (h : n < m) (hm : m < 10000) : padded 4 n < padded 4 m := by
  rw [padded_four_eq (by omega), padded_four_eq hm]
  by_cases hhigh : n / 100 < m / 100
  · apply append_lt_append_of_lt (padded_two_lt hhigh (by omega))
    rw [padded_two_length (by omega), padded_two_length (by omega)]
  · have heq : n / 100 = m / 100 := by omega
    rw [heq]
    exact append_lt_append_left (padded_two_lt (by omega) (by omega))

/-- Two texts with one head are ordered by their next two digits, and then by what follows. -/
theorem field_lt {head rest rest' : Str} (hm : m < 100) (h : n < m ∨ n = m ∧ rest < rest') :
    head ++ (padded 2 n ++ rest) < head ++ (padded 2 m ++ rest') := by
  apply append_lt_append_left
  rcases h with hn | ⟨rfl,h⟩
  · apply append_lt_append_of_lt (padded_two_lt hn hm)
    rw [padded_two_length (by omega), padded_two_length hm]
  · exact append_lt_append_left h

theorem timestampText_lt {y d h i s y' m' d' h' i' s' : ℕ} (hy : y < 10000) (hy' : y' < 10000)
    (hm' : m' < 100) (hd' : d' < 100) (hh' : h' < 100) (hi' : i' < 100) (hs' : s' < 100)
    (hlt : y < y' ∨ y = y' ∧ (m < m' ∨ m = m' ∧ (d < d' ∨ d = d' ∧ (h < h' ∨ h = h' ∧
      (i < i' ∨ i = i' ∧ s < s'))))) :
    timestampText y m d h i s < timestampText y' m' d' h' i' s' := by
  simp only [timestampText, append_assoc]
  rcases hlt with hlt | ⟨rfl,hlt⟩
  · apply append_lt_append_of_lt (padded_four_lt hlt hy')
    rw [padded_four_length hy, padded_four_length hy']
  apply append_lt_append_left
  refine field_lt hm' (hlt.imp_right (.imp_right fun hlt => ?_))
  refine field_lt hd' (hlt.imp_right (.imp_right fun hlt => ?_))
  refine field_lt hh' (hlt.imp_right (.imp_right fun hlt => ?_))
  refine field_lt hi' (hlt.imp_right (.imp_right fun hlt => ?_))
  exact field_lt hs' (.inl hlt)

def year (seconds : ℤ) : ℤ := (civilFromDays (seconds / 86400)).year

/-- The text of the instant has a year of four digits. -/
def FourDigitYear (seconds : ℤ) : Prop := 0 ≤ year seconds ∧ year seconds ≤ 9999

theorem date_bounds (days : ℤ) : 1 ≤ (civilFromDays days).month ∧ (civilFromDays days).month ≤ 12 ∧
    1 ≤ (civilFromDays days).day ∧ (civilFromDays days).day ≤ 31 := by
  have hv := civilFromDays_valid days
  have hm := valid_month hv
  obtain ⟨_,_,hd,_⟩ := hv
  exact ⟨hm.1,hm.2.1,hd,hm.2.2⟩

theorem year_mono : Monotone year := by
  intro a b hab
  have hdays : a / 86400 ≤ b / 86400 := by omega
  have hnum := dateNumber_strictMono.monotone hdays
  simp only [dateNumber] at hnum
  have ha := date_bounds (a / 86400)
  have hb := date_bounds (b / 86400)
  unfold year
  omega

theorem formatTimestamp_lt {b : ℤ} (hab : a < b) (h0 : 0 ≤ year a) (h1 : year b ≤ 9999) :
    formatTimestamp a < formatTimestamp b := by
  have hle := year_mono hab.le
  have ha := date_bounds (a / 86400)
  have hb := date_bounds (b / 86400)
  unfold year at h0 h1 hle
  rw [formatTimestamp_fields h0, formatTimestamp_fields (by omega)]
  apply timestampText_lt
  all_goals try omega
  rcases (show a / 86400 ≤ b / 86400 by omega).eq_or_lt with heq | hlt
  · rw [heq]
    omega
  · have hnum := dateNumber_strictMono hlt
    simp only [dateNumber] at hnum
    omega

theorem formatTimestamp_sign {seconds : ℤ} (h : year seconds < 0) :
    ∃ rest, formatTimestamp seconds = byte '-' :: rest := by
  obtain ⟨n,hn⟩ := Int.eq_negSucc_of_lt_zero h
  unfold year at hn
  simp only [formatTimestamp, hn, paddedInt, cons_append]
  exact ⟨_,rfl⟩

theorem formatTimestamp_digit {seconds : ℤ} (h : FourDigitYear seconds) :
    ∃ d < 10, ∃ rest, formatTimestamp seconds = digitByte d :: rest := by
  obtain ⟨h0,h1⟩ := h
  unfold year at h0 h1
  rw [formatTimestamp_fields h0, timestampText, padded_four (by omega)]
  exact ⟨_,by omega,_,rfl⟩

/-- An instant with a year of four digits against one that is not later than such years. -/
theorem formatTimestamp_lt_iff {b : ℤ} (ha : year a ≤ 9999) (hb : FourDigitYear b) :
    formatTimestamp a < formatTimestamp b ↔ a < b := by
  by_cases hneg : year a < 0
  · obtain ⟨rest,hr⟩ := formatTimestamp_sign hneg
    obtain ⟨d,hd,rest',hr'⟩ := formatTimestamp_digit hb
    have hab : a < b := by
      by_contra hle
      have := year_mono (not_lt.mp hle)
      have := hb.1
      omega
    refine iff_of_true ?_ hab
    rw [hr, hr', cons_lt_cons_iff, UInt8.lt_iff_toNat_lt, digitByte_toNat hd]
    exact .inl (show 45 < 48 + d by omega)
  · constructor
    · intro hlt
      by_contra hle
      rcases (not_lt.mp hle).eq_or_lt with rfl | hba
      · exact List.lt_irrefl _ hlt
      · exact List.lt_asymm hlt (formatTimestamp_lt hba hb.1 ha)
    · intro hab
      exact formatTimestamp_lt hab (not_lt.mp hneg) hb.2

theorem ltText_formatTimestamp {b : ℤ} (ha : year a ≤ 9999) (hb : FourDigitYear b) :
    ltText (formatTimestamp a) (formatTimestamp b) = decide (a < b) := by
  rw [ltText, decide_eq_decide]
  exact formatTimestamp_lt_iff ha hb

def marchMonth (month : ℤ) : ℤ := if month > 2 then month - 3 else month + 9

def marchYear (d : Date) : ℤ := if d.month ≤ 2 then d.year - 1 else d.year

def marchDay (d : Date) : ℤ := (153 * marchMonth d.month + 2) / 5 + d.day - 1

theorem daysFromCivil_yearStart (d : Date) :
    daysFromCivil d.year d.month d.day = yearStart (marchYear d) + marchDay d - 719468 := by
  simp only [daysFromCivil, yearStart, marchDay, marchYear, marchMonth]
  split_ifs <;> omega

theorem yearStart_next {year : ℤ} (hleap : leap (year + 1) = true) :
    yearStart (year + 1) = yearStart year + 366 := by
  simp only [leap, Bool.or_eq_true, Bool.and_eq_true, beq_iff_eq, bne_iff_ne] at hleap
  unfold yearStart
  omega

theorem valid_marchDay (h : Valid d) :
    0 ≤ marchMonth d.month ∧ marchMonth d.month ≤ 11 ∧
      (153 * marchMonth d.month + 2) / 5 ≤ marchDay d ∧
      marchDay d < (153 * (marchMonth d.month + 1) + 2) / 5 ∧
      marchDay d ≤ 365 ∧ (marchDay d = 365 → leap (marchYear d + 1) = true) := by
  obtain ⟨hm1,hm2,-⟩ := valid_month h
  obtain ⟨k,hk,hd1,hd2⟩ := h
  obtain ⟨year,month,day⟩ := d
  simp only [marchDay, marchYear, marchMonth] at *
  interval_cases month <;> simp [daysInMonth] at hk <;> norm_num <;> try omega
  split at hk
  · next hleap => exact ⟨by omega,by omega,by omega,fun _ => hleap⟩
  · omega

theorem daysFromCivil_injective {e : Date} (hd : Valid d) (he : Valid e)
    (h : daysFromCivil d.year d.month d.day = daysFromCivil e.year e.month e.day) : d = e := by
  -- an earlier year ends before a later one begins
  have hless : ∀ {d e : Date}, Valid d → Valid e → marchYear d < marchYear e →
      yearStart (marchYear d) + marchDay d < yearStart (marchYear e) + marchDay e := by
    intro d e hd he hyear
    have hmono : yearStart (marchYear d + 1) ≤ yearStart (marchYear e) := yearStart_mono hyear
    obtain ⟨-,-,-,-,hlast,hleap⟩ := valid_marchDay hd
    obtain ⟨hm,-,hfirst,-,-,-⟩ := valid_marchDay he
    by_cases hday : marchDay d = 365
    · rw [yearStart_next (hleap hday)] at hmono
      omega
    · have hshort : yearStart (marchYear d) + 365 ≤ yearStart (marchYear d + 1) := by
        unfold yearStart
        omega
      omega
  rw [daysFromCivil_yearStart, daysFromCivil_yearStart] at h
  have hyear : marchYear d = marchYear e := by
    rcases lt_trichotomy (marchYear d) (marchYear e) with hlt | heq | hgt
    · have := hless hd he hlt
      omega
    · exact heq
    · have := hless he hd hgt
      omega
  obtain ⟨hm0,hm1,hlow,hhigh,-⟩ := valid_marchDay hd
  obtain ⟨hm0',hm1',hlow',hhigh',-⟩ := valid_marchDay he
  have hday : marchDay d = marchDay e := by
    rw [hyear] at h
    omega
  have hmonth : marchMonth d.month = marchMonth e.month := by omega
  have hsame : d.day = e.day := by
    simp only [marchDay, hmonth] at hday
    omega
  obtain ⟨hd1,hd2,-⟩ := valid_month hd
  obtain ⟨he1,he2,-⟩ := valid_month he
  have hmonths : d.month = e.month := by
    simp only [marchMonth] at hmonth
    split_ifs at hmonth <;> omega
  obtain ⟨year,month,day⟩ := d
  obtain ⟨year',month',day'⟩ := e
  simp only [marchYear] at hyear hmonths hsame
  subst hmonths hsame
  split_ifs at hyear
  · rw [show year = year' by omega]
  · rw [hyear]

structure CalendarTime where
  year : ℕ
  month : ℕ
  day : ℕ
  hour : ℕ
  minute : ℕ
  second : ℕ
  inYears : 1 ≤ year ∧ year ≤ 9999
  date : Valid ⟨year,month,day⟩
  time : hour ≤ 23 ∧ minute ≤ 59 ∧ second ≤ 59

def CalendarTime.text (c : CalendarTime) : Str :=
  timestampText c.year c.month c.day c.hour c.minute c.second

def CalendarTime.seconds (c : CalendarTime) : ℤ :=
  daysFromCivil c.year c.month c.day * 86400 + c.hour * 3600 + c.minute * 60 + c.second

theorem timestamp_text (c : CalendarTime) : timestamp c.text = some c.seconds := by
  obtain ⟨hm1,hm2,hd2⟩ := valid_month c.date
  have hy := c.inYears
  have ht := c.time
  simp only at hm1 hm2 hd2
  exact timestamp_timestampText (by omega) (by omega) (by omega) (by omega) (by omega)
    (by omega) hy.1 c.date

theorem digitValue_lt (h : isDigit b = true) : digitValue b < 10 := by
  simp only [isDigit, Bool.and_eq_true, decide_eq_true_eq, UInt8.le_iff_toNat_le] at h
  have hhigh : b.toNat ≤ 57 := h.2
  unfold digitValue
  omega

theorem digitByte_digitValue (h : isDigit b = true) : digitByte (digitValue b) = b := by
  have hless := digitValue_lt h
  simp only [isDigit, Bool.and_eq_true, decide_eq_true_eq, UInt8.le_iff_toNat_le] at h
  have hlow : 48 ≤ b.toNat := h.1
  apply UInt8.toNat_inj.1
  rw [digitByte_toNat hless, digitValue]
  omega

theorem padded_parseDecimal_two {a : UInt8} (ha : isDigit a = true) (hb : isDigit b = true) :
    parseDecimal [a, b] < 100 ∧ padded 2 (parseDecimal [a, b]) = [a, b] := by
  have hva := digitValue_lt ha
  have hvb := digitValue_lt hb
  have hvalue : parseDecimal [a, b] = digitValue a * 10 + digitValue b := by
    simp [parseDecimal]
  have hless : parseDecimal [a, b] < 100 := by omega
  refine ⟨hless,?_⟩
  rw [padded_two hless, hvalue, show (digitValue a * 10 + digitValue b) / 10 =
    digitValue a by omega,
    show (digitValue a * 10 + digitValue b) % 10 = digitValue b by omega, digitByte_digitValue ha,
    digitByte_digitValue hb]

theorem padded_parseDecimal_four {a c d : UInt8} (ha : isDigit a = true) (hb : isDigit b = true)
    (hc : isDigit c = true) (hd : isDigit d = true) :
    parseDecimal [a, b, c, d] < 10000 ∧ padded 4 (parseDecimal [a, b, c, d]) = [a, b, c, d] := by
  obtain ⟨hab,htext⟩ := padded_parseDecimal_two ha hb
  obtain ⟨hcd,htext'⟩ := padded_parseDecimal_two hc hd
  have hvalue : parseDecimal [a, b, c, d] = parseDecimal [a, b] * 100 + parseDecimal [c, d] := by
    simp [parseDecimal]
    omega
  have hless : parseDecimal [a, b, c, d] < 10000 := by omega
  refine ⟨hless,?_⟩
  rw [padded_four_eq hless, hvalue,
    show (parseDecimal [a, b] * 100 + parseDecimal [c, d]) / 100 = parseDecimal [a, b] by omega,
    show (parseDecimal [a, b] * 100 + parseDecimal [c, d]) % 100 = parseDecimal [c, d] by omega,
    htext, htext']
  rfl

theorem civilFromDays_daysFromCivil (h : Valid d) :
    civilFromDays (daysFromCivil d.year d.month d.day) = d :=
  daysFromCivil_injective (civilFromDays_valid _) h (daysFromCivil_civilFromDays _)

theorem formatTimestamp_seconds {c : CalendarTime} : formatTimestamp c.seconds = c.text := by
  have htime := c.time
  have hdays : c.seconds / 86400 = daysFromCivil c.year c.month c.day := by
    unfold CalendarTime.seconds
    omega
  have hdate := civilFromDays_daysFromCivil c.date
  have hsecond : c.seconds % 86400 = c.hour * 3600 + c.minute * 60 + c.second := by
    unfold CalendarTime.seconds
    omega
  rw [formatTimestamp_fields (by rw [hdays, hdate]; exact Int.natCast_nonneg _), hdays,
    hdate, hsecond]
  congr 1 <;> omega

theorem twenty_bytes :
    ∀ text : Str, text.length = 20 → ∃ a b c d s₁ e f s₂ g i s₃ j k s₄ l m s₅ n o s₆,
    text = [a, b, c, d, s₁, e, f, s₂, g, i, s₃, j, k, s₄, l, m, s₅, n, o, s₆]
  | [_, _, _, _, _, _, _, _, _, _, _, _, _, _, _, _, _, _, _, _], _ =>
    ⟨_,_,_,_,_,_,_,_,_,_,_,_,_,_,_,_,_,_,_,_,rfl⟩

/-- An accepted text is that of a time of the calendar. -/
theorem timestamp_accepted {text : Str} {seconds : ℤ} (h : timestamp text = some seconds) :
    ∃ c : CalendarTime, c.text = text ∧ c.seconds = seconds := by
  have hshape : timestampShape text = true := by
    by_contra hno
    simp only [timestamp, if_neg hno] at h
    cases h
  have hlength : text.length = 20 := by
    rw [timestampShape, Bool.and_eq_true, beq_iff_eq] at hshape
    exact hshape.1
  obtain ⟨a,b,c,d,s₁,e,f,s₂,g,i,s₃,j,k,s₄,l,m,s₅,n,o,s₆,rfl⟩ := twenty_bytes text hlength
  simp only [timestampShape, List.zipIdx, timestampByte, all_cons, all_nil, Bool.and_eq_true]
    at hshape
  obtain ⟨-,ha,hb,hc,hd,h₁,he,hf,h₂,hg,hi,h₃,hj,hk,h₄,hl,hm,h₅,hn,ho,h₆,-⟩ := hshape
  obtain rfl : s₁ = byte '-' := beq_iff_eq.1 h₁
  obtain rfl : s₂ = byte '-' := beq_iff_eq.1 h₂
  obtain rfl : s₃ = byte 'T' := beq_iff_eq.1 h₃
  obtain rfl : s₄ = byte ':' := beq_iff_eq.1 h₄
  obtain rfl : s₅ = byte ':' := beq_iff_eq.1 h₅
  obtain rfl : s₆ = byte 'Z' := beq_iff_eq.1 h₆
  obtain ⟨hyear,hyears⟩ := padded_parseDecimal_four ha hb hc hd
  rw [timestamp_bytes, timestampOf] at h
  · split at h
    · cases h
    next days hdays =>
    split at h
    · cases h
    next hvalid =>
    simp only [Bool.or_eq_true, Bool.not_eq_true', Bool.and_eq_false_iff, decide_eq_true_eq,
      decide_eq_false_iff_not, not_or, not_not, not_lt] at hvalid
    obtain ⟨⟨⟨⟨hy,hday⟩,hhour⟩,hminute⟩,hsecond⟩ := hvalid
    refine ⟨⟨parseDecimal [a, b, c, d],parseDecimal [e, f],parseDecimal [g, i],parseDecimal [j, k],
      parseDecimal [l, m],parseDecimal [n, o],by omega,⟨days,hdays,hday⟩,by omega⟩,?_,?_⟩
    · rw [CalendarTime.text, timestampText, hyears, (padded_parseDecimal_two he hf).2,
        (padded_parseDecimal_two hg hi).2, (padded_parseDecimal_two hj hk).2,
        (padded_parseDecimal_two hl hm).2, (padded_parseDecimal_two hn ho).2]
      rfl
    · exact Option.some.inj h
  · simp only [mem_cons, not_mem_nil, or_false, forall_eq_or_imp, forall_eq]
    exact ⟨ha,hb,hc,hd,he,hf,hg,hi,hj,hk,hl,hm,hn,ho⟩

/-- Timestamps convert exactly and sort as text. -/
theorem timestamps_exact :
    (∀ seconds, 1 ≤ year seconds → year seconds ≤ 9999 →
      timestamp (formatTimestamp seconds) = some seconds) ∧
    (∀ text seconds, timestamp text = some seconds → formatTimestamp seconds = text) ∧
    (∀ text, (timestamp text).isSome = true ↔ ∃ c : CalendarTime, c.text = text) ∧
    ∀ a b, 1 ≤ year a → year a ≤ 9999 → 1 ≤ year b → year b ≤ 9999 →
      (formatTimestamp a < formatTimestamp b ↔ a < b) := by
  refine ⟨?_,?_,?_,?_⟩
  · intro seconds h0 h1
    have hyear := civilFromDays_year (seconds / 86400)
    rw [year] at h0 h1
    exact timestamp_formatTimestamp (by omega) (by omega)
  · intro text seconds h
    obtain ⟨c,rfl,rfl⟩ := timestamp_accepted h
    exact formatTimestamp_seconds
  · intro text
    constructor
    · intro h
      obtain ⟨seconds,hseconds⟩ := Option.isSome_iff_exists.1 h
      obtain ⟨c,hc,-⟩ := timestamp_accepted hseconds
      exact ⟨c,hc⟩
    · rintro ⟨c,rfl⟩
      rw [timestamp_text]
      rfl
  · intro a b ha0 ha1 hb0 hb1
    exact formatTimestamp_lt_iff ha1 ⟨by omega,hb1⟩

end Permanu.TimestampOrder
