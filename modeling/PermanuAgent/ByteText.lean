import Mathlib.Data.List.Infix
import Mathlib.Tactic.Ring

/-!
# Texts as bytes

A text is the list of its UTF-8 bytes, so lengths, slices and the byte order
are those of a byte string. The ASCII classes, the splitting helpers, the
decimal and hexadecimal renderings and the UTF-8 decoder are stated for any
byte list. The decoder rejects overlong forms, surrogates and code points
above 10FFFF.
-/

set_option autoImplicit false

namespace Permanu.ByteText

open List

abbrev Str := List UInt8

instance : LawfulBEq Str := inferInstance

def str (s : String) : Str := s.toByteArray.data.toList

def byte (c : Char) : UInt8 := c.toNat.toUInt8

theorem str_injective : Function.Injective str := by
  intro a b h
  apply String.toByteArray_inj.mp
  cases ha : a.toByteArray
  cases hb : b.toByteArray
  simp_all [str]

def isDigit (b : UInt8) : Bool := 48 ≤ b && b ≤ 57
def isLower (b : UInt8) : Bool := 97 ≤ b && b ≤ 122
def isUpper (b : UInt8) : Bool := 65 ≤ b && b ≤ 90
def isAlphabetic (b : UInt8) : Bool := isLower b || isUpper b
def isAlphanumeric (b : UInt8) : Bool := isAlphabetic b || isDigit b
def isLowerHex (b : UInt8) : Bool := isDigit b || (97 ≤ b && b ≤ 102)

def isAsciiWhitespace (b : UInt8) : Bool := b == 9 || b == 10 || b == 12 || b == 13 || b == 32

def oneOf (s : String) (b : UInt8) : Bool := (str s).contains b

def splitOnce (c : Char) : Str → Option (Str × Str)
  | [] => none
  | b::rest => if b = byte c then some ([], rest) else (splitOnce c rest).map (·.map (b :: ·) id)

def startsWith (s : Str) (p : String) : Bool := (str p).isPrefixOf s
def endsWith (s : Str) (p : String) : Bool := (str p).isSuffixOf s
def containsText (s : Str) (p : String) : Bool := decide (str p <:+: s)
def stripSuffix (s : Str) (p : String) : Option Str :=
  if endsWith s p then some (s.take (s.length - (str p).length)) else none

theorem splitOn_cons (b a : UInt8) (s : Str) : (a :: s).splitOn b =
    if a = b then [] :: s.splitOn b else (s.splitOn b).modifyHead (a :: ·) := by
  simp [List.splitOn, splitOnP_cons_eq_if_modifyHead]

variable {b : UInt8} {rest word : Str} {d n : ℕ}

theorem splitOn_word (h : b ∉ word) :
    (word ++ rest).splitOn b = (rest.splitOn b).modifyHead (word ++ ·) := by
  induction word with
  | nil =>
    rw [nil_append]
    cases rest.splitOn b <;> rfl
  | cons a word ih =>
    rw [mem_cons, not_or] at h
    rw [cons_append, splitOn_cons, if_neg (Ne.symm h.1), ih h.2, modifyHead_modifyHead]
    rfl

theorem splitOn_piece (h : b ∉ word) :
    (word ++ b :: rest).splitOn b = word :: rest.splitOn b := by
  rw [splitOn_word h, splitOn_cons, if_pos rfl, modifyHead_cons, append_nil]

theorem length_splitOn (b : UInt8) (s : Str) : (s.splitOn b).length = s.count b + 1 := by
  induction s with
  | nil => rfl
  | cons a s ih =>
    rw [splitOn_cons, count_cons]
    split <;> next h => simp [ih, h]

def leText (a b : Str) : Bool := decide (a ≤ b)
def ltText (a b : Str) : Bool := decide (a < b)

def digitValue (b : UInt8) : ℕ := b.toNat - 48

def parseDecimal (s : Str) : ℕ := s.foldl (fun n b => n * 10 + digitValue b) 0

def digitByte (d : ℕ) : UInt8 := (48 + d).toUInt8

def decimalGo : ℕ → ℕ → Str → Str
  | 0, _, tail => tail
  | fuel+1, n, tail =>
    if n < 10 then digitByte n :: tail else decimalGo fuel (n / 10) (digitByte (n % 10) :: tail)

def decimal (n : ℕ) : Str := decimalGo (n+1) n []

def decimalInt : ℤ → Str
  | .ofNat n => decimal n
  | .negSucc n => byte '-' :: decimal (n+1)

/-- The numeral of `n` filled with zeros on the left up to `width` bytes. -/
def padded (width n : ℕ) : Str := List.leftpad width (byte '0') (decimal n)

theorem digitByte_toNat (h : d < 10) : (digitByte d).toNat = 48 + d := by
  simp only [digitByte, Nat.toUInt8_eq, UInt8.toNat_ofNat']
  omega

theorem digitValue_digitByte (d : ℕ) (h : d < 10) : digitValue (digitByte d) = d := by
  rw [digitValue, digitByte_toNat h]
  omega

theorem isDigit_digitByte (h : d < 10) : isDigit (digitByte d) = true := by
  simp only [isDigit, Bool.and_eq_true, decide_eq_true_eq, UInt8.le_iff_toNat_le,
    digitByte_toNat h]
  constructor
  · change 48 ≤ 48 + d
    omega
  · change 48 + d ≤ 57
    omega

theorem decimalGo_append (fuel n : ℕ) (tail : Str) :
    decimalGo fuel n tail = decimalGo fuel n [] ++ tail := by
  induction fuel generalizing n tail with
  | zero => rfl
  | succ fuel ih =>
    by_cases hn : n < 10
    · simp [decimalGo, hn]
    · simp only [decimalGo, hn, if_false]
      rw [ih _ (digitByte (n % 10) :: tail), ih _ [digitByte (n % 10)]]
      simp

theorem decimalGo_fuel {fuel : ℕ} (fuel' n : ℕ) (tail : Str) (h : n < fuel) (h' : n < fuel') :
    decimalGo fuel n tail = decimalGo fuel' n tail := by
  induction fuel generalizing fuel' n tail with
  | zero => omega
  | succ fuel ih =>
    cases fuel' with
    | zero => omega
    | succ fuel' =>
      by_cases hn : n < 10
      · simp [decimalGo, hn]
      · simp only [decimalGo, hn, if_false]
        exact ih fuel' (n / 10) _ (by omega) (by omega)

theorem decimal_of_lt (h : n < 10) : decimal n = [digitByte n] := by
  simp [decimal, decimalGo, h]

theorem decimal_of_le (n : ℕ) (h : 10 ≤ n) :
    decimal n = decimal (n / 10) ++ [digitByte (n % 10)] := by
  have hn : ¬ n < 10 := by omega
  simp only [decimal, decimalGo, hn, if_false]
  rw [decimalGo_append, decimalGo_fuel (n / 10 + 1) (n / 10) [] (by omega) (by omega)]
  rfl

theorem decimal_length_pos (n : ℕ) : 0 < (decimal n).length := by
  by_cases h : n < 10
  · simp [decimal_of_lt h]
  · simp [decimal_of_le n (by omega)]

theorem padded_two (h : n < 100) :
    padded 2 n = [digitByte (n / 10), digitByte (n % 10)] := by
  by_cases h1 : n < 10
  · rw [padded, decimal_of_lt h1, Nat.div_eq_of_lt h1, Nat.mod_eq_of_lt h1]
    rfl
  · rw [padded, decimal_of_le n (by omega), decimal_of_lt (by omega)]
    rfl

theorem padded_four (h : n < 10000) :
    padded 4 n = [digitByte (n / 1000), digitByte (n / 100 % 10), digitByte (n / 10 % 10),
      digitByte (n % 10)] := by
  have h0 : digitByte 0 = byte '0' := rfl
  by_cases h1 : n < 10
  · rw [padded, decimal_of_lt h1, show n / 1000 = 0 by omega, show n / 100 % 10 = 0 by omega,
      show n / 10 % 10 = 0 by omega, show n % 10 = n by omega, h0]
    rfl
  by_cases h2 : n < 100
  · rw [padded, decimal_of_le n (by omega), decimal_of_lt (by omega),
      show n / 1000 = 0 by omega, show n / 100 % 10 = 0 by omega,
      show n / 10 % 10 = n / 10 by omega, h0]
    rfl
  by_cases h3 : n < 1000
  · rw [padded, decimal_of_le n (by omega), decimal_of_le (n / 10) (by omega),
      decimal_of_lt (by omega), show n / 1000 = 0 by omega,
      show n / 10 / 10 = n / 100 % 10 by omega, h0]
    rfl
  · rw [padded, decimal_of_le n (by omega), decimal_of_le (n / 10) (by omega),
      decimal_of_le (n / 10 / 10) (by omega), decimal_of_lt (by omega),
      show n / 10 / 10 / 10 = n / 1000 by omega, show n / 10 / 10 = n / 100 by omega]
    rfl

theorem padded_four_long (h : 10000 ≤ n) : 4 < (padded 4 n).length := by
  have h1 := decimal_length_pos (n / 10 / 10 / 10 / 10)
  rw [padded, decimal_of_le n (by omega), decimal_of_le (n / 10) (by omega),
    decimal_of_le (n / 10 / 10) (by omega), decimal_of_le (n / 10 / 10 / 10) (by omega)]
  simp only [List.leftpad, length_append, length_replicate, length_singleton]
  omega

def hexDigit (d : ℕ) : UInt8 := if d < 10 then (48 + d).toUInt8 else (87 + d).toUInt8

def hex (bytes : Str) : Str :=
  bytes.flatMap fun b => [hexDigit (b.toNat / 16), hexDigit (b.toNat % 16)]

/-- The `len` low bytes of a number, the most significant first. -/
def bigEndian : ℕ → ℕ → Str
  | 0, _ => []
  | len+1, n => (n / 256^len % 256).toUInt8 :: bigEndian len n

theorem bigEndian_length {len : ℕ} : (bigEndian len n).length = len := by
  induction len with
  | zero => rfl
  | succ len ih => simp [bigEndian, ih]

def hexValue (b : UInt8) : Option ℕ :=
  if isDigit b then some (b.toNat - 48)
  else if 97 ≤ b && b ≤ 102 then some (b.toNat - 87)
  else if 65 ≤ b && b ≤ 70 then some (b.toNat - 55)
  else none

def isContinuation (b : UInt8) : Bool := 128 ≤ b && b < 192

def scalar (code : ℕ) : Bool := code < 0xD800 || (0xE000 ≤ code && code < 0x110000)

def two (a b : UInt8) : ℕ := (a.toNat - 192) * 64 + (b.toNat - 128)
def three (a b c : UInt8) : ℕ := ((a.toNat - 224) * 64 + (b.toNat - 128)) * 64 + (c.toNat - 128)
def four (a b c d : UInt8) : ℕ :=
  (((a.toNat - 240) * 64 + (b.toNat - 128)) * 64 + (c.toNat - 128)) * 64 + (d.toNat - 128)

/-- The code points of a byte text, or `none` when it is not well-formed UTF-8. -/
def chars : Str → Option (List ℕ)
  | [] => some []
  | a::rest =>
    if a < 128 then (chars rest).map (a.toNat :: ·)
    else match rest with
      | [] => none
      | b::rest =>
        if !isContinuation b then none
        else if 194 ≤ a && a < 224 then (chars rest).map (two a b :: ·)
        else match rest with
          | [] => none
          | c::rest =>
            if !isContinuation c then none
            else if 224 ≤ a && a < 240 && 0x800 ≤ three a b c && scalar (three a b c) then
              (chars rest).map (three a b c :: ·)
            else match rest with
              | [] => none
              | d::rest =>
                if isContinuation d && 240 ≤ a && a < 245 && 0x10000 ≤ four a b c d
                    && scalar (four a b c d) then
                  (chars rest).map (four a b c d :: ·)
                else none

def encodeChar (code : ℕ) : Str :=
  if code < 0x80 then [code.toUInt8]
  else if code < 0x800 then [(192 + code / 64).toUInt8, (128 + code % 64).toUInt8]
  else if code < 0x10000 then
    [(224 + code / 4096).toUInt8, (128 + code / 64 % 64).toUInt8, (128 + code % 64).toUInt8]
  else
    [(240 + code / 262144).toUInt8, (128 + code / 4096 % 64).toUInt8,
      (128 + code / 64 % 64).toUInt8, (128 + code % 64).toUInt8]

def utf16Units (code : ℕ) : List ℕ :=
  if code < 0x10000 then [code]
  else [0xD800 + (code - 0x10000) / 0x400, 0xDC00 + (code - 0x10000) % 0x400]

def utf16 (s : Str) : List ℕ := ((chars s).getD []).flatMap utf16Units

def isWhiteSpace (code : ℕ) : Bool :=
  (9 ≤ code && code ≤ 13) || code == 32 || code == 0x85 || code == 0xA0 || code == 0x1680
    || (0x2000 ≤ code && code ≤ 0x200A) || code == 0x2028 || code == 0x2029 || code == 0x202F
    || code == 0x205F || code == 0x3000

/-- The length of the white space character at the head of a text, or 0. The bytes of a
character come in the order that `order` undoes. -/
def blankWidth (order : Str → Str) (s : Str) : ℕ :=
  ([1, 2, 3].find? fun n =>
    (chars (order (s.take n))).any fun codes => codes.map isWhiteSpace == [true]).getD 0

def dropBlanks (order : Str → Str) : ℕ → Str → Str
  | _, [] => []
  | skip + 1, _ :: rest => dropBlanks order skip rest
  | 0, b :: rest =>
    match blankWidth order (b :: rest) with
    | 0 => b :: rest
    | width + 1 => dropBlanks order width rest

def trimStart (s : Str) : Str := dropBlanks id 0 s

def trimEnd (s : Str) : Str := (dropBlanks reverse 0 s.reverse).reverse

def trim (s : Str) : Str := trimEnd (trimStart s)

def splitBlanks : ℕ → Str → List Str
  | _, [] => [[]]
  | skip + 1, _ :: rest => splitBlanks skip rest
  | 0, b :: rest =>
    match blankWidth id (b :: rest) with
    | 0 => (splitBlanks 0 rest).modifyHead (b :: ·)
    | width + 1 => [] :: splitBlanks width rest

def splitWhitespace (s : Str) : List Str := (splitBlanks 0 s).filter (· ≠ [])

def isChar (s : Str) : Bool := (chars s).any fun codes => codes.length == 1

/-- The length of the longest beginning that a character could start with. -/
def brokenWidth (s : Str) : ℕ :=
  ([3, 2].find? fun n => [1, 2].any fun more => isChar (s.take n ++ replicate more 128)).getD 1

def lossyFrom : ℕ → Str → Str
  | _, [] => []
  | skip + 1, _ :: rest => lossyFrom skip rest
  | 0, b :: rest =>
    match [1, 2, 3, 4].find? fun n => isChar ((b :: rest).take n) with
    | some width => (b :: rest).take width ++ lossyFrom (width - 1) rest
    | none => encodeChar 0xFFFD ++ lossyFrom (brokenWidth (b :: rest) - 1) rest

/-- `String::from_utf8_lossy`: every part that is no character becomes a replacement character. -/
def lossy (s : Str) : Str := lossyFrom 0 s

example : trim [0xC2, 0xA0, 97, 0xE2, 0x80, 0x83] = [97] := by decide

example : lossy [97, 0xF0, 0x90, 0x80, 98, 0xFF] =
    [97] ++ encodeChar 0xFFFD ++ [98] ++ encodeChar 0xFFFD := by decide

theorem ascii_mem_chars {s : Str} {codes : List ℕ} {b : UInt8} (h : chars s = some codes)
    (hb : b ∈ s) (hascii : b < 128) : b.toNat ∈ codes := by
  have hlong : ∀ a, isContinuation a = true → b ≠ a := by
    rintro a ha rfl
    rw [isContinuation, decide_eq_false (UInt8.not_le.mpr hascii)] at ha
    cases ha
  fun_induction chars s generalizing codes with
  | case2 a rest ha ih =>
    obtain ⟨more,hmore,rfl⟩ := Option.map_eq_some_iff.mp h
    rcases mem_cons.mp hb with rfl | hrest
    · exact mem_cons_self
    · exact mem_cons_of_mem _ (ih hmore hrest)
  | _ => grind [Option.map_eq_some_iff]
/-- No letter is part of a white space character. -/
theorem letter_not_blank {order : Str → Str} (horder : ∀ c, (order c).Perm c) {s : Str}
    {b : UInt8} (hb : isAlphabetic b = true) : b ∉ s.take (blankWidth order s) := by
  unfold blankWidth
  cases hwidth : [1, 2, 3].find? fun n => (chars (order (s.take n))).any fun codes =>
      codes.map isWhiteSpace == [true] with
  | none => simp
  | some n =>
    intro hmem
    have hfound := find?_some hwidth
    obtain ⟨codes,hcodes,hblank⟩ := (Option.any_eq_true _ _).mp hfound
    obtain ⟨code,rfl,hwhite⟩ := map_eq_singleton_iff.mp (beq_iff_eq.mp hblank)
    simp [isAlphabetic, isLower, isUpper, UInt8.le_iff_toNat_le] at hb
    have hascii : b < 128 := UInt8.lt_iff_toNat_lt.mpr (by change _ < 128; omega)
    have hcode := ascii_mem_chars hcodes ((horder _).mem_iff.mpr hmem) hascii
    rw [mem_singleton] at hcode
    simp [isWhiteSpace, ← hcode] at hwhite
    omega

/-- Letters are kept. -/
theorem letter_mem_dropBlanks {order : Str → Str} (horder : ∀ c, (order c).Perm c) {skip : ℕ}
    {s : Str} {b : UInt8} (hb : isAlphabetic b = true) (h : b ∈ s.drop skip) :
    b ∈ dropBlanks order skip s := by
  induction s generalizing skip with
  | nil => simp at h
  | cons a rest ih =>
    cases skip with
    | succ skip => exact ih h
    | zero =>
      unfold dropBlanks
      have hblank := letter_not_blank horder (s := a :: rest) hb
      split
      next => exact h
      next width hwidth =>
        rw [hwidth, take_succ_cons, mem_cons, not_or] at hblank
        refine ih ?_
        rw [drop_zero, mem_cons, ← take_append_drop width rest, mem_append] at h
        exact (h.resolve_left hblank.1).resolve_left hblank.2

theorem letter_mem_trim {s : Str} {b : UInt8} (hb : isAlphabetic b = true) (h : b ∈ s) :
    b ∈ trim s := by
  rw [trim, trimEnd, mem_reverse]
  apply letter_mem_dropBlanks reverse_perm hb
  rw [drop_zero, mem_reverse]
  exact letter_mem_dropBlanks (fun _ => .refl _) hb h

end Permanu.ByteText
