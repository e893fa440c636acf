import PermanuAgent.ByteText
import PermanuAgent.CivilDate

/-!
# Identifiers and timestamps

Each matcher is an anchored full match over ASCII. Timestamps are whole UTC
seconds in the years 1 to 9999; their text has exactly twenty bytes, so a
second outside those years has a rendering that no longer parses.
-/

set_option autoImplicit false

namespace Permanu.PlanText
open ByteText CivilDate List

def hexN (value : Str) (length : ℕ) : Bool := value.length == length && value.all isLowerHex
def hex64 (value : Str) : Bool := hexN value 64
def hex40 (value : Str) : Bool := hexN value 40

def uuid7Byte (index : ℕ) (b : UInt8) : Bool :=
  if index = 8 || index = 13 || index = 18 || index = 23 then b == byte '-'
  else if index = 14 then b == byte '7'
  else if index = 19 then oneOf "89ab" b
  else isLowerHex b

def uuid7 (value : Str) : Bool :=
  value.length == 36 && value.zipIdx.all fun (b, index) => uuid7Byte index b

def first (value : Str) (p : UInt8 → Bool) : Bool := value.head?.any p
def last (value : Str) (p : UInt8 → Bool) : Bool := value.getLast?.any p

def reference (value : Str) : Bool :=
  value.length ≤ 64 && first value isAlphanumeric
    && value.all fun b => isAlphanumeric b || oneOf "._-" b

def keyId (value : Str) : Bool :=
  value.length == 22 && value.all fun b => isAlphanumeric b || oneOf "_-" b

def envName (value : Str) : Bool :=
  value.length ≤ 128 && first value (fun b => isAlphabetic b || b == byte '_')
    && value.all fun b => isAlphanumeric b || b == byte '_'

def edge (b : UInt8) : Bool := isLower b || isDigit b

def hostLabel (label : Str) (finalLabel : Bool) : Bool :=
  1 ≤ label.length && label.length ≤ 63
    && first label (fun b => isLower b || (!finalLabel && isDigit b))
    && (finalLabel || last label edge)
    && label.all fun b => edge b || b == byte '-'

def hostname (value : Str) : Bool :=
  let labels := value.splitOn (byte '.')
  1 ≤ value.length && value.length ≤ 253 && 2 ≤ labels.length
    && labels.dropLast.all (hostLabel · false) && labels.getLast?.any (hostLabel · true)

def octet (value : Str) : Option ℕ :=
  if 1 ≤ value.length && value.length ≤ 3 && value.all isDigit
      && (value.length == 1 || !startsWith value "0") && parseDecimal value ≤ 255
  then some (parseDecimal value) else none

def ipv4Parts (value : Str) (separator : Char) : Option ℕ :=
  let parts := value.splitOn (byte separator)
  if parts.length ≠ 4 then none
  else parts.foldlM (fun acc part => (octet part).map (acc * 256 + ·)) 0

def nonPublicIpv4 : List (ℕ × ℕ) :=
  [(0x00000000, 8), (0x0a000000, 8), (0x64400000, 10), (0x7f000000, 8), (0xa9fe0000, 16),
    (0xac100000, 12), (0xc0000000, 24), (0xc0000200, 24), (0xc0586300, 24), (0xc0a80000, 16),
    (0xc6120000, 15), (0xc6336400, 24), (0xcb007100, 24), (0xe0000000, 4), (0xf0000000, 4)]

def publicIpv4 (value : Str) : Bool :=
  (ipv4Parts value '.').any fun ip =>
    nonPublicIpv4.all fun (net, bits) => ip >>> (32 - bits) != net >>> (32 - bits)

def ipv4Shaped (value : Str) : Bool :=
  !value.isEmpty && value.all fun b => isDigit b || b == byte '.'

def defaultRoute (value : Str) : Bool :=
  match (stripSuffix value ".sslip.io").bind (splitOnce '.') with
  | none => false
  | some (label, ip) =>
    1 ≤ label.length && label.length ≤ 63 && label.all (fun b => edge b || b == byte '-')
      && !startsWith label "-" && !endsWith label "-" && (ipv4Parts ip '-').isSome

def cron (value : Str) : Bool :=
  let fields := value.splitOn (byte ' ')
  fields.length == 5
    && fields.all fun field => !field.isEmpty && field.all fun b => isDigit b || oneOf "*/,-" b

def digits (value : Str) : Bool := !value.isEmpty && value.all isDigit

def semver (value : Str) : Bool :=
  let (core, pre) := match splitOnce '-' value with
    | some (core, pre) => (core, some pre)
    | none => (value, none)
  let parts := core.splitOn (byte '.')
  parts.length == 3 && parts.all digits
    && pre.all fun pre => !pre.isEmpty && pre.all fun b => isAlphanumeric b || oneOf ".-" b

def repo (value : Str) : Bool :=
  match value.splitOn (byte '/') with
  | [] => false
  | host::path =>
    !host.isEmpty && host.all (fun b => edge b || oneOf ".-" b)
      && 1 ≤ path.length && path.length ≤ 4
      && path.all fun segment =>
        !segment.isEmpty && segment.all fun b => isAlphanumeric b || oneOf "._-" b

def deliveryId (value : Str) : Bool :=
  1 ≤ value.length && value.length ≤ 128
    && value.all fun b => isAlphanumeric b || oneOf "._:-" b

def absPath (value : Str) : Bool :=
  2 ≤ value.length && value.length ≤ 256 && startsWith value "/"
    && value.tail.all fun b => isAlphanumeric b || oneOf "._/-" b

def bucket (value : Str) : Bool :=
  3 ≤ value.length && value.length ≤ 63 && first value edge && last value edge
    && value.all fun b => edge b || oneOf ".-" b

def timezone (value : Str) : Bool :=
  value == str "UTC" ||
  match value.splitOn (byte '/') with
  | [] => false
  | area::rest =>
    !area.isEmpty && area.all (fun b => isAlphabetic b || b == byte '_')
      && 1 ≤ rest.length && rest.length ≤ 2
      && rest.all fun part => !part.isEmpty && part.all fun b => isAlphanumeric b || oneOf "_+-" b

def imageComponent (value : Str) : Bool :=
  first value edge && last value edge && value.all fun b => edge b || oneOf "._-" b

def imageRepository (value : Str) : Bool :=
  match value.splitOn (byte '/') with
  | [] => false
  | host::path =>
    let hostOk := match splitOnce ':' host with
      | some (name, port) => imageComponent name && digits port && port.length ≤ 5
      | none => imageComponent host
    hostOk && path.length ≤ 6 && path.all imageComponent

def capability (value : Str) : Bool :=
  2 ≤ value.length && value.length ≤ 32 && first value isUpper
    && value.all fun b => isUpper b || b == byte '_'

def userPart (value : Str) : Bool :=
  1 ≤ value.length && value.length ≤ 32 && first value (fun b => isAlphanumeric b || b == byte '_')
    && value.all fun b => isAlphanumeric b || oneOf "_.-" b

def user (value : Str) : Bool :=
  match splitOnce ':' value with
  | some (name, group) => userPart name && userPart group
  | none => userPart value

def forbiddenInLabel (code : ℕ) : Bool :=
  code ≤ 0x1f || (0x7f ≤ code && code ≤ 0x9f) || code == 0x061c
    || (0x200b ≤ code && code ≤ 0x200f) || (0x202a ≤ code && code ≤ 0x202e)
    || (0x2060 ≤ code && code ≤ 0x2069) || code == 0xfeff

def labelCharsOk (value : Str) : Bool :=
  (chars value).any fun codes =>
    codes.all (fun code => !forbiddenInLabel code)
      && !codes.head?.any isWhiteSpace && !codes.getLast?.any isWhiteSpace

def gitRefName (name : Str) : Bool :=
  1 ≤ name.length && name.length ≤ 200
    && name.all (fun b => isAlphanumeric b || oneOf "._/-" b)
    && !containsText name ".." && !containsText name "//" && !containsText name "@\x7b"
    && !startsWith name "/" && !startsWith name "-"
    && !endsWith name "/" && !endsWith name "." && !endsWith name ".lock"
    && (name.splitOn (byte '/')).all fun part => !startsWith part "." && !endsWith part ".lock"

def gitRef (value : Str) (pattern : Bool) : Bool :=
  value.length ≤ 211 &&
  match value.dropPrefix? (str "refs/heads/") with
  | none => false
  | some name =>
    gitRefName (if pattern then (stripSuffix name "/*").getD name else name)

def timestampByte (index : ℕ) (b : UInt8) : Bool :=
  if index = 4 || index = 7 then b == byte '-'
  else if index = 10 then b == byte 'T'
  else if index = 13 || index = 16 then b == byte ':'
  else if index = 19 then b == byte 'Z'
  else isDigit b

def slice (value : Str) (i j : ℕ) : Str := (value.drop i).take (j - i)

def timestampShape (value : Str) : Bool :=
  value.length == 20 && value.zipIdx.all fun (b, index) => timestampByte index b

def timestampOf (year month day hour minute second : ℤ) : Option ℤ :=
  match daysInMonth year month with
  | none => none
  | some days =>
    if year < 1 || !(1 ≤ day && day ≤ days) || hour > 23 || minute > 59 || second > 59 then none
    else some (daysFromCivil year month day * 86400 + hour * 3600 + minute * 60 + second)

def timestamp (value : Str) : Option ℤ :=
  let number (i j : ℕ) : ℤ := parseDecimal (slice value i j)
  if timestampShape value then
    timestampOf (number 0 4) (number 5 7) (number 8 10) (number 11 13) (number 14 16) (number 17 19)
  else none

/-- The decimal numeral of an integer filled with zeros to `width`, its sign included. -/
def paddedInt (width : ℕ) : ℤ → Str
  | .ofNat n => padded width n
  | .negSucc n => byte '-' :: padded (width - 1) (n+1)

def formatTimestamp (seconds : ℤ) : Str :=
  let days := seconds / 86400
  let secondOfDay := seconds % 86400
  let date := civilFromDays days
  paddedInt 4 date.year ++ [byte '-'] ++ paddedInt 2 date.month ++ [byte '-']
    ++ paddedInt 2 date.day ++ [byte 'T'] ++ paddedInt 2 (secondOfDay / 3600) ++ [byte ':']
    ++ paddedInt 2 (secondOfDay % 3600 / 60) ++ [byte ':'] ++ paddedInt 2 (secondOfDay % 60)
    ++ [byte 'Z']

def timestampText (year month day hour minute second : ℕ) : Str :=
  padded 4 year ++ [byte '-'] ++ padded 2 month ++ [byte '-'] ++ padded 2 day ++ [byte 'T']
    ++ padded 2 hour ++ [byte ':'] ++ padded 2 minute ++ [byte ':'] ++ padded 2 second ++ [byte 'Z']

variable {n : ℕ} {seconds : ℤ}

theorem parseDecimal_two (h : n < 100) :
    parseDecimal [digitByte (n / 10), digitByte (n % 10)] = n := by
  simp only [parseDecimal, List.foldl, digitValue_digitByte _ (show n / 10 < 10 by omega),
    digitValue_digitByte _ (show n % 10 < 10 by omega)]
  omega

theorem parseDecimal_four (h : n < 10000) :
    parseDecimal [digitByte (n / 1000), digitByte (n / 100 % 10), digitByte (n / 10 % 10),
      digitByte (n % 10)] = n := by
  simp only [parseDecimal, List.foldl, digitValue_digitByte _ (show n / 1000 < 10 by omega),
    digitValue_digitByte _ (show n / 100 % 10 < 10 by omega),
    digitValue_digitByte _ (show n / 10 % 10 < 10 by omega),
    digitValue_digitByte _ (show n % 10 < 10 by omega)]
  omega

theorem timestamp_bytes (a b c d e f g h i j k l m n : UInt8)
    (hs : ∀ x ∈ [a, b, c, d, e, f, g, h, i, j, k, l, m, n], isDigit x = true) :
    timestamp [a, b, c, d, byte '-', e, f, byte '-', g, h, byte 'T', i, j, byte ':', k, l, byte ':',
      m, n, byte 'Z'] =
      timestampOf (parseDecimal [a, b, c, d]) (parseDecimal [e, f]) (parseDecimal [g, h])
        (parseDecimal [i, j]) (parseDecimal [k, l]) (parseDecimal [m, n]) := by
  have hshape : timestampShape
      [a, b, c, d, byte '-', e, f, byte '-', g, h, byte 'T', i, j, byte ':', k, l, byte ':', m, n,
        byte 'Z'] = true := by
    simp [timestampShape, List.zipIdx, timestampByte, hs]
  simp only [timestamp, hshape, if_true]
  rfl

theorem timestamp_timestampText {year month day hour minute second : ℕ} (hy : year < 10000)
    (hm : month < 100) (hd : day < 100) (hh : hour < 24) (hi : minute < 60) (hs : second < 60)
    (h1 : 1 ≤ year) (hv : Valid ⟨year,month,day⟩) :
    timestamp (timestampText year month day hour minute second) =
      some (daysFromCivil year month day * 86400 + hour * 3600 + minute * 60 + second) := by
  obtain ⟨k,hk,hd1,hd2⟩ := hv
  simp only at hk hd1 hd2
  rw [timestampText, padded_four hy, padded_two hm, padded_two hd,
    padded_two (by omega), padded_two (by omega), padded_two (by omega)]
  simp only [cons_append, nil_append]
  rw [timestamp_bytes, parseDecimal_four hy, parseDecimal_two hm, parseDecimal_two hd,
    parseDecimal_two (by omega), parseDecimal_two (by omega),
    parseDecimal_two (by omega)]
  · simp only [timestampOf, hk]
    rw [if_neg]
    simp only [Bool.or_eq_true, Bool.not_eq_true', Bool.and_eq_false_iff, decide_eq_true_eq,
      decide_eq_false_iff_not]
    omega
  · simp only [mem_cons, not_mem_nil, or_false, forall_eq_or_imp, forall_eq]
    refine ⟨?_,?_,?_,?_,?_,?_,?_,?_,?_,?_,?_,?_,?_,?_⟩
    all_goals exact isDigit_digitByte (by omega)

theorem paddedInt_toNat {width : ℕ} {z : ℤ} (h : 0 ≤ z) :
    paddedInt width z = padded width z.toNat := by
  obtain ⟨n,rfl⟩ := Int.eq_ofNat_of_zero_le h
  rfl

theorem formatTimestamp_fields (hy : 0 ≤ (civilFromDays (seconds / 86400)).year) :
    formatTimestamp seconds = timestampText (civilFromDays (seconds / 86400)).year.toNat
      (civilFromDays (seconds / 86400)).month.toNat (civilFromDays (seconds / 86400)).day.toNat
      (seconds % 86400 / 3600).toNat (seconds % 86400 % 3600 / 60).toNat
      (seconds % 86400 % 60).toNat := by
  have hv := civilFromDays_valid (seconds / 86400)
  have hm := valid_month hv
  obtain ⟨k,_,hd,_⟩ := hv
  simp only [formatTimestamp]
  rw [paddedInt_toNat (by omega), paddedInt_toNat (by omega), paddedInt_toNat (by omega),
    paddedInt_toNat (by omega), paddedInt_toNat (by omega), paddedInt_toNat (by omega)]
  rfl

theorem timestamp_ge {value : Str} {t : ℤ} (h : timestamp value = some t) : -62135596800 ≤ t := by
  simp only [timestamp, timestampOf] at h
  split_ifs at h with hs
  split at h
  · cases h
  · rename_i days hdays
    split_ifs at h with hc
    simp only [Bool.or_eq_true, decide_eq_true_eq, Bool.not_eq_true', Bool.and_eq_false_iff,
      decide_eq_false_iff_not, not_or, not_lt, not_not] at hc
    have hm := daysInMonth_pos hdays
    have hday := daysFromCivil_ge hc.1.1.1.1 hm hc.1.1.1.2.1
    simp only [Option.some.injEq] at h
    omega

/-- Every second of the years 1 to 9999 is read back from its text. -/
theorem timestamp_formatTimestamp (h0 : -62135596800 ≤ seconds)
    (h1 : seconds ≤ 253402300799) : timestamp (formatTimestamp seconds) = some seconds := by
  have hy0 := (civilFromDays_year (seconds / 86400)).1.mpr (by omega)
  have hy1 := (civilFromDays_year (seconds / 86400)).2.mpr (by omega)
  have hv := civilFromDays_valid (seconds / 86400)
  have hr := daysFromCivil_civilFromDays (seconds / 86400)
  have hm := valid_month hv
  have hd : 1 ≤ (civilFromDays (seconds / 86400)).day := by
    obtain ⟨k,_,hd,_⟩ := hv
    exact hd
  rw [formatTimestamp_fields (by omega), timestamp_timestampText]
  · rw [Int.toNat_of_nonneg (by omega), Int.toNat_of_nonneg (by omega),
      Int.toNat_of_nonneg (by omega), Int.toNat_of_nonneg (by omega),
      Int.toNat_of_nonneg (by omega), Int.toNat_of_nonneg (by omega), hr]
    congr 1
    omega
  all_goals try omega
  rw [Int.toNat_of_nonneg (by omega), Int.toNat_of_nonneg (by omega),
    Int.toNat_of_nonneg (by omega)]
  exact hv

/-- A second after the year 9999 has a text of more than twenty bytes, which is no timestamp. -/
theorem timestamp_formatTimestamp_late (h : 253402300799 < seconds) :
    timestamp (formatTimestamp seconds) = none := by
  have hy := (civilFromDays_year (seconds / 86400)).2
  have hyear : 10000 ≤ (civilFromDays (seconds / 86400)).year.toNat := by omega
  have hlong := padded_four_long hyear
  have hshape : timestampShape (formatTimestamp seconds) = false := by
    rw [formatTimestamp_fields (by omega), timestampShape, Bool.and_eq_false_iff]
    left
    have hw : ∀ n, 2 ≤ (padded 2 n).length := by
      intro n
      simp only [padded, List.leftpad, length_append, length_replicate]
      omega
    simp only [timestampText, length_append, length_singleton, beq_eq_false_iff_ne]
    have h1 := hw (civilFromDays (seconds / 86400)).month.toNat
    have h2 := hw (civilFromDays (seconds / 86400)).day.toNat
    have h3 := hw (seconds % 86400 / 3600).toNat
    have h4 := hw (seconds % 86400 % 3600 / 60).toNat
    have h5 := hw (seconds % 86400 % 60).toNat
    omega
  simp [timestamp, hshape]

end Permanu.PlanText
