import PermanuAgent.JsonValue

/-!
# Reading JSON

The reader keeps the members of an object in document order, duplicates
included, so that a strict caller can refuse duplicates before the members are
normalised into a map. It follows the usual strict grammar: no leading zero,
no trailing comma, no raw control byte in a string, paired surrogate escapes,
and at most 127 nested arrays and objects.
-/

set_option autoImplicit false

namespace Permanu.JsonReader
open ByteText JsonValue

def isBlank (b : UInt8) : Bool := b == 32 || b == 9 || b == 10 || b == 13

def skipBlanks (s : Str) : Str := s.dropWhile isBlank

def hex4 (a b c d : UInt8) : Option ℕ := do
  let a ← hexValue a
  let b ← hexValue b
  let c ← hexValue c
  let d ← hexValue d
  return ((a * 16 + b) * 16 + c) * 16 + d

def simpleEscape (b : UInt8) : Option UInt8 :=
  if b = byte '"' || b = byte '\\' || b = byte '/' then some b
  else if b = byte 'b' then some 8
  else if b = byte 'f' then some 12
  else if b = byte 'n' then some 10
  else if b = byte 'r' then some 13
  else if b = byte 't' then some 9
  else none

def isLeading (code : ℕ) : Bool := 0xD800 ≤ code && code < 0xDC00
def isTrailing (code : ℕ) : Bool := 0xDC00 ≤ code && code < 0xE000

def unicodeEscape : Str → Option (ℕ × Str)
  | a::b::c::d::rest =>
    match hex4 a b c d with
    | none => none
    | some code =>
      if isTrailing code then none
      else if !isLeading code then some (code, rest)
      else match rest with
        | 92::117::e::f::g::h::rest =>
          match hex4 e f g h with
          | none => none
          | some low =>
            if isTrailing low then
              some (0x10000 + (code - 0xD800) * 0x400 + (low - 0xDC00), rest)
            else none
        | _ => none
  | _ => none

def readString : ℕ → Str → Option (Str × Str)
  | 0, _ => none
  | _+1, [] => none
  | fuel+1, b::rest =>
    if b = byte '"' then some ([], rest)
    else if b < 32 then none
    else if b ≠ byte '\\' then (readString fuel rest).map (·.map (b :: ·) id)
    else match rest with
      | [] => none
      | e::rest =>
        match simpleEscape e with
        | some c => (readString fuel rest).map (·.map (c :: ·) id)
        | none =>
          if e ≠ byte 'u' then none
          else match unicodeEscape rest with
            | none => none
            | some (code, rest) => (readString fuel rest).map (·.map (encodeChar code ++ ·) id)

def readFraction : Str → Option (Str × Str)
  | 46::rest =>
    let digits := rest.takeWhile isDigit
    if digits = [] then none else some (46 :: digits, rest.dropWhile isDigit)
  | s => some ([], s)

def exponentSign : Str → Str × Str
  | 43::rest => ([43], rest)
  | 45::rest => ([45], rest)
  | s => ([], s)

def readExponent : Str → Option (Str × Str)
  | b::rest =>
    if b = byte 'e' || b = byte 'E' then
      let (sign, rest) := exponentSign rest
      let digits := rest.takeWhile isDigit
      if digits = [] then none else some (b :: sign ++ digits, rest.dropWhile isDigit)
    else some ([], b::rest)
  | [] => some ([], [])

def integerLiteral (negative : Bool) (digits : Str) : Value :=
  let n := parseDecimal digits
  if negative then
    if 0 < n && n ≤ 2^63 then .number (-(n : ℤ)) else .float (byte '-' :: digits)
  else if n < 2^64 then .number n else .float digits

def readNumber (s : Str) : Option (Value × Str) := do
  let (negative, body) := match s with
    | 45::r => (true, r)
    | r => (false, r)
  let digits := body.takeWhile isDigit
  let rest := body.dropWhile isDigit
  if digits = [] || (1 < digits.length && digits.head? == some (byte '0')) then none
  let (fraction, rest) ← readFraction rest
  let (exponent, rest) ← readExponent rest
  if fraction = [] && exponent = [] then return (integerLiteral negative digits, rest)
  let sign := if negative then [byte '-'] else []
  return (.float (sign ++ digits ++ fraction ++ exponent), rest)

def readWord (word : String) (v : Value) (s : Str) : Option (Value × Str) :=
  (s.dropPrefix? (str word)).map fun rest => (v, rest)

def separated (first : Bool) (s : Str) : Option Str :=
  if first then some s
  else match s with
    | 44::rest => some (skipBlanks rest)
    | _ => none

mutual
def readValue : ℕ → ℕ → Str → Option (Value × Str)
  | 0, _, _ => none
  | fuel+1, depth, s =>
    match skipBlanks s with
    | [] => none
    | b::rest =>
      if b = byte '"' then (readString fuel rest).map (·.map .string id)
      else if b = byte '[' then
        if depth ≤ 1 then none else (readItems fuel (depth-1) true rest).map (·.map .array id)
      else if b = byte '\x7b' then
        if depth ≤ 1 then none else (readMembers fuel (depth-1) true rest).map (·.map .object id)
      else if b = byte 'n' then readWord "null" .null (b::rest)
      else if b = byte 't' then readWord "true" (.bool true) (b::rest)
      else if b = byte 'f' then readWord "false" (.bool false) (b::rest)
      else readNumber (b::rest)
def readItems : ℕ → ℕ → Bool → Str → Option (List Value × Str)
  | 0, _, _, _ => none
  | fuel+1, depth, first, s =>
    match skipBlanks s with
    | [] => none
    | b::rest =>
      if b = byte ']' then some ([], rest)
      else match separated first (b::rest) with
        | none => none
        | some s =>
          match readValue fuel depth s with
          | none => none
          | some (v, s) => (readItems fuel depth false s).map (·.map (v :: ·) id)
def readMembers : ℕ → ℕ → Bool → Str → Option (List (Str × Value) × Str)
  | 0, _, _, _ => none
  | fuel+1, depth, first, s =>
    match skipBlanks s with
    | [] => none
    | b::rest =>
      if b = byte '\x7d' then some ([], rest)
      else match separated first (b::rest) with
        | some (34::s) =>
          match readString fuel s with
          | none => none
          | some (k, s) =>
            match skipBlanks s with
            | 58::s =>
              match readValue fuel depth s with
              | none => none
              | some (v, s) => (readMembers fuel depth false s).map (·.map ((k,v) :: ·) id)
            | _ => none
        | _ => none
end

/-- The document of a whole text: one value, and only blanks after it. Every two calls
of the reader consume a byte, so the fuel also bounds the strings. -/
def readDocument (s : Str) : Option Value :=
  match readValue (2 * s.length + 2) 128 s with
  | some (v, rest) => if skipBlanks rest = [] then some v else none
  | none => none

mutual
def distinctNames : Value → Bool
  | .array items => distinctNamesItems items
  | .object members => (members.map Prod.fst).Nodup && distinctNamesMembers members
  | _ => true
def distinctNamesItems : List Value → Bool
  | [] => true
  | v::vs => distinctNames v && distinctNamesItems vs
def distinctNamesMembers : List (Str × Value) → Bool
  | [] => true
  | (_,v)::rest => distinctNames v && distinctNamesMembers rest
end

def readJson (s : Str) : Option Value :=
  if (chars s).isSome then (readDocument s).map Value.normalise else none

end Permanu.JsonReader
