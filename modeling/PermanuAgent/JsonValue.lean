import PermanuAgent.ByteText

/-!
# JSON values

Objects are association lists; a normalised value keeps the members of every
object in the byte order of their names, so structural equality is equality of
maps. An index into a missing member, or into a value of another kind, is
`null`. A number that is not an integer of at most 64 bits is kept as its
literal.
-/

set_option autoImplicit false

namespace Permanu.JsonValue
open ByteText

inductive Value where
  | null
  | bool (b : Bool)
  | number (n : ℤ)
  | float (literal : Str)
  | string (s : Str)
  | array (items : List Value)
  | object (members : List (Str × Value))
  deriving Repr, Inhabited

namespace Value

mutual
def beq : Value → Value → Bool
  | .null, .null => true
  | .bool a, .bool b => a == b
  | .number a, .number b => a == b
  | .float a, .float b => a == b
  | .string a, .string b => a == b
  | .array a, .array b => beqItems a b
  | .object a, .object b => beqMembers a b
  | _, _ => false
def beqItems : List Value → List Value → Bool
  | [], [] => true
  | a::as, b::bs => beq a b && beqItems as bs
  | _, _ => false
def beqMembers : List (Str × Value) → List (Str × Value) → Bool
  | [], [] => true
  | (k,a)::as, (l,b)::bs => k == l && beq a b && beqMembers as bs
  | _, _ => false
end

mutual
theorem beq_iff : ∀ a b : Value, beq a b = true ↔ a = b
  | .null, b => by cases b <;> simp [beq]
  | .bool a, b => by cases b <;> simp [beq]
  | .number a, b => by cases b <;> simp [beq]
  | .float a, b => by cases b <;> simp [beq]
  | .string a, b => by cases b <;> simp [beq]
  | .array a, b => by cases b <;> simp [beq, beqItems_iff]
  | .object a, b => by cases b <;> simp [beq, beqMembers_iff]
theorem beqItems_iff : ∀ a b : List Value, beqItems a b = true ↔ a = b
  | [], b => by cases b <;> simp [beqItems]
  | a::as, b => by cases b <;> simp [beqItems, beq_iff, beqItems_iff]
theorem beqMembers_iff : ∀ a b : List (Str × Value), beqMembers a b = true ↔ a = b
  | [], b => by cases b <;> simp [beqMembers]
  | (k,a)::as, b => by
    cases b with
    | nil => simp [beqMembers]
    | cons m bs =>
      obtain ⟨l,b⟩ := m
      simp [beqMembers, beq_iff, beqMembers_iff, and_assoc]
end

instance : DecidableEq Value := fun a b => decidable_of_iff _ (beq_iff a b)

def get? : Value → Str → Option Value
  | .object members, k => members.lookup k
  | _, _ => none

section
variable (v : Value)

def get (k : Str) : Value := (v.get? k).getD .null

def item? (i : ℕ) : Option Value :=
  match v with
  | .array items => items[i]?
  | _ => none

def item (i : ℕ) : Value := (v.item? i).getD .null

instance : GetElem? Value String Value (fun _ _ => True) where
  getElem v k _ := v.get (str k)
  getElem? v k := v.get? (str k)
  getElem! v k := v.get (str k)

instance : GetElem? Value ℕ Value (fun _ _ => True) where
  getElem v i _ := v.item i
  getElem? v i := v.item? i
  getElem! v i := v.item i

theorem getElem_text (k : String) : v[k]! = v.get (str k) := rfl

def asStr : Value → Option Str
  | .string s => some s
  | _ => none

def asBool : Value → Option Bool
  | .bool b => some b
  | _ => none

def asI64 : Value → Option ℤ
  | .number n => if -2^63 ≤ n && n < 2^63 then some n else none
  | _ => none

def asU64 : Value → Option ℕ
  | .number n => if 0 ≤ n && n < 2^64 then some n.toNat else none
  | _ => none

def asArray : Value → Option (List Value)
  | .array items => some items
  | _ => none

def asObject : Value → Option (List (Str × Value))
  | .object members => some members
  | _ => none

def isNull : Value → Bool
  | .null => true
  | _ => false

def text : Str := v.asStr.getD []

def items : List Value := v.asArray.getD []

def is (s : String) : Bool :=
  match v with
  | .string t => t == str s
  | _ => false

def keys : List Str := (v.asObject.getD []).map Prod.fst

def has (k : String) : Bool := (v.get? (str k)).isSome

def insertMember (k : Str) (v : Value) : List (Str × Value) → List (Str × Value)
  | [] => [(k,v)]
  | (l,w)::rest =>
    if k = l then (k,v)::rest
    else if leText k l then (k,v)::(l,w)::rest
    else (l,w)::insertMember k v rest

def set (k : String) (w : Value) : Value :=
  match v with
  | .object members => .object (insertMember (str k) w members)
  | other => other

def remove (k : String) : Value :=
  match v with
  | .object members => .object (members.filter fun m => m.1 != str k)
  | other => other

end

mutual
def normalise : Value → Value
  | .array items => .array (normaliseItems items)
  | .object members => .object (normaliseMembers members [])
  | other => other
def normaliseItems : List Value → List Value
  | [] => []
  | v::vs => normalise v :: normaliseItems vs
def normaliseMembers : List (Str × Value) → List (Str × Value) → List (Str × Value)
  | [], acc => acc
  | (k,v)::rest, acc => normaliseMembers rest (insertMember k (normalise v) acc)
end

def obj (members : List (String × Value)) : Value :=
  .object (members.foldl (fun acc m => insertMember (str m.1) m.2 acc) [])

def txt (s : String) : Value := .string (str s)

theorem is_iff {v : Value} {s : String} : v.is s = true ↔ v = .string (str s) := by
  cases v <;> simp [is]

theorem asStr_eq_some {v : Value} {s : Str} : v.asStr = some s ↔ v = .string s := by
  cases v <;> simp [asStr]

theorem is_text {v : Value} {s : String} (h : v.is s = true) : v.text = str s := by
  rw [is_iff] at h
  simp [h, text, asStr]

end Value

end Permanu.JsonValue
