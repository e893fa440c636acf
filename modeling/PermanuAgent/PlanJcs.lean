import PermanuAgent.JsonReader

/-!
# Canonical JSON

A strict document is bounded in size, has no duplicate member names and holds
only integers of magnitude at most 2^53 - 1. The canonical text sorts members
by the UTF-16 code units of their names and is what every digest is taken over.
-/

set_option autoImplicit false

namespace Permanu.PlanJcs
open ByteText JsonValue JsonReader Option

def maxSafeInteger : ℕ := 2^53 - 1

def nonIntegerFrom (inString escaped : Bool) (previous : UInt8) : Str → Bool
  | [] => false
  | b::rest =>
    if inString then
      if escaped then nonIntegerFrom true false previous rest
      else if b = byte '\\' then nonIntegerFrom true true previous rest
      else nonIntegerFrom (b ≠ byte '"') false previous rest
    else if (b = byte '.' || b = byte 'e' || b = byte 'E') && isDigit previous then true
    else nonIntegerFrom (b = byte '"') false (if isAsciiWhitespace b then previous else b) rest

def containsNonIntegerLiteral (bytes : Str) : Bool := nonIntegerFrom false false (byte ' ') bytes

mutual
def integersOnly : Value → Bool
  | .number n => n.natAbs ≤ maxSafeInteger
  | .float _ => false
  | .array items => integersOnlyItems items
  | .object members => integersOnlyMembers members
  | _ => true
def integersOnlyItems : List Value → Bool
  | [] => true
  | v::vs => integersOnly v && integersOnlyItems vs
def integersOnlyMembers : List (Str × Value) → Bool
  | [] => true
  | (_,v)::rest => integersOnly v && integersOnlyMembers rest
end

def rejectDuplicateFields (line : Str) : Bool := (readDocument line).any distinctNames

def parseStrict (bytes : Str) (maxBytes : ℕ) : Option Value :=
  if maxBytes < bytes.length || (chars bytes).isNone then none
  else if !rejectDuplicateFields bytes then none
  else if containsNonIntegerLiteral bytes then none
  else match readJson bytes with
    | none => none
    | some v => if integersOnly v then some v else none

def encodeByte (b : UInt8) : Str :=
  if 32 ≤ b && b ≠ byte '"' && b ≠ byte '\\' then [b]
  else if b = byte '"' then str "\\\""
  else if b = byte '\\' then str "\\\\"
  else if b = 8 then str "\\b"
  else if b = 9 then str "\\t"
  else if b = 10 then str "\\n"
  else if b = 12 then str "\\f"
  else if b = 13 then str "\\r"
  else str "\\u00" ++ [hexDigit (b.toNat / 16), hexDigit (b.toNat % 16)]

def encodeString (text : Str) : Str := [byte '"'] ++ text.flatMap encodeByte ++ [byte '"']

def commaSeparated : List Str → Str
  | [] => []
  | [part] => part
  | part::rest => part ++ byte ',' :: commaSeparated rest

def lexLe : List ℕ → List ℕ → Bool
  | [], _ => true
  | _::_, [] => false
  | a::as, b::bs => a < b || (a == b && lexLe as bs)

def insertUnits (m : List ℕ × Str) : List (List ℕ × Str) → List (List ℕ × Str)
  | [] => [m]
  | n::rest => if lexLe m.1 n.1 then m::n::rest else n::insertUnits m rest

def sortUnits : List (List ℕ × Str) → List (List ℕ × Str)
  | [] => []
  | m::rest => insertUnits m (sortUnits rest)

mutual
def encode : Value → Option Str
  | .null => some (str "null")
  | .bool true => some (str "true")
  | .bool false => some (str "false")
  | .number n => if integersOnly (.number n) then some (decimalInt n) else none
  | .float _ => none
  | .string text => some (encodeString text)
  | .array items =>
    (encodeItems items).map fun parts => [byte '['] ++ commaSeparated parts ++ [byte ']']
  | .object members =>
    (encodeMembers members).map fun parts =>
      [byte '\x7b'] ++ commaSeparated ((sortUnits parts).map Prod.snd) ++ [byte '\x7d']
def encodeItems : List Value → Option (List Str)
  | [] => some []
  | v::vs => do
    let head ← encode v
    let tail ← encodeItems vs
    return head :: tail
def encodeMembers : List (Str × Value) → Option (List (List ℕ × Str))
  | [] => some []
  | (k,v)::rest => do
    let head ← encode v
    let tail ← encodeMembers rest
    return (utf16 k, encodeString k ++ byte ':' :: head) :: tail
end

/-- The canonical text of a value, or `none` outside the domain. -/
def canonicalize (v : Value) : Option Str := encode v

theorem encodeItems_mem {items : List Value} (h : (encodeItems items).isSome = true) :
    ∀ v ∈ items, (encode v).isSome = true := by
  induction items with
  | nil => simp
  | cons v vs ih =>
    obtain ⟨parts,hparts⟩ := isSome_iff_exists.mp h
    simp only [encodeItems, bind_eq_bind, bind_eq_some_iff] at hparts
    obtain ⟨head,hhead,tail,htail,_⟩ := hparts
    intro w hw
    rcases List.mem_cons.mp hw with rfl | hw
    · rw [hhead]
      rfl
    · exact ih (by rw [htail]; rfl) w hw

theorem encodeMembers_lookup {members : List (Str × Value)}
    (h : (encodeMembers members).isSome = true) {k : Str} {w : Value}
    (hw : members.lookup k = some w) : (encode w).isSome = true := by
  induction members with
  | nil => cases hw
  | cons m rest ih =>
    obtain ⟨parts,hparts⟩ := isSome_iff_exists.mp h
    simp only [encodeMembers, bind_eq_bind, bind_eq_some_iff] at hparts
    obtain ⟨head,hhead,tail,htail,_⟩ := hparts
    rw [List.lookup_cons] at hw
    split at hw
    · obtain rfl := Option.some.inj hw
      rw [hhead]
      rfl
    · exact ih (by rw [htail]; rfl) hw

/-- The members of a canonical value are canonical, and so is the null of a missing one. -/
theorem canonicalize_get {v : Value} (h : (canonicalize v).isSome = true) {k : String} :
    (canonicalize v[k]!).isSome = true := by
  rw [Value.getElem_text, Value.get]
  cases hg : v.get? (str k) with
  | none => rfl
  | some w =>
    cases v with
    | object members =>
      rw [canonicalize, encode, isSome_map] at h
      exact encodeMembers_lookup h hg
    | _ => cases hg

theorem canonicalize_items {v : Value} (h : (canonicalize v).isSome = true) :
    ∀ w ∈ v.items, (canonicalize w).isSome = true := by
  intro w hw
  cases v with
  | array items =>
    rw [canonicalize, encode, isSome_map] at h
    exact encodeItems_mem h w hw
  | _ => cases hw

end Permanu.PlanJcs
