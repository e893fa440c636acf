import Mathlib.Tactic.IntervalCases
import PermanuAgent.JsonOrder
import PermanuAgent.PlanJcs

/-!
# Canonical texts read back

The reader takes every part of a canonical text as the encoder wrote it: strings
by their bytes, numerals by their digits, arrays and objects by induction on the
value. The members come in the order of their UTF-16 names, so the value read is
the written one after its members are put in order again.
-/

set_option autoImplicit false

namespace Permanu.JsonRoundTrip
open ByteText JsonValue JsonValue.Value JsonReader PlanJcs List Option Prod Nat Bool
open JsonOrder

theorem readString_encodeByte (b : UInt8) (fuel : ℕ) (rest : Str) :
    readString (fuel+1) (encodeByte b ++ rest) =
      (readString fuel rest).map (·.map (b :: ·) id) := by
  by_cases hquote : b = byte '"'
  · subst hquote
    rfl
  by_cases hslash : b = byte '\\'
  · subst hslash
    rfl
  by_cases hlow : b < 32
  · have hn : b.toNat < 32 := hlow
    have hb : b = b.toNat.toUInt8 := by simp
    -- each control byte has its own escape
    generalize b.toNat = n at hn hb
    subst hb
    interval_cases n <;> rfl
  · have hle : (32 : UInt8) ≤ b := by simpa using hlow
    simp [encodeByte, readString, hquote, hslash, hlow, hle]

theorem encodeByte_length_pos (b : UInt8) : 0 < (encodeByte b).length := by
  unfold encodeByte
  split_ifs <;> exact zero_lt_succ _

theorem readString_encode (text rest : Str) (fuel : ℕ)
    (h : (text.flatMap encodeByte).length < fuel) :
    readString fuel (text.flatMap encodeByte ++ byte '"' :: rest) = some (text, rest) := by
  induction text generalizing fuel with
  | nil =>
    cases fuel with
    | zero => omega
    | succ fuel => simp [readString]
  | cons b text ih =>
    cases fuel with
    | zero => omega
    | succ fuel =>
      have hb := encodeByte_length_pos b
      rw [flatMap_cons, length_append] at h
      rw [flatMap_cons, append_assoc, readString_encodeByte, ih fuel (by omega)]
      rfl

theorem decimal_digits (n : ℕ) : ∀ b ∈ decimal n, isDigit b = true := by
  induction n using Nat.strong_induction_on with
  | _ n ih =>
    by_cases h : n < 10
    · intro b hb
      rw [decimal_of_lt h, mem_singleton] at hb
      exact hb ▸ isDigit_digitByte h
    · intro b hb
      rw [decimal_of_le n (by omega), mem_append, mem_singleton] at hb
      rcases hb with hb | rfl
      · exact ih (n / 10) (by omega) b hb
      · exact isDigit_digitByte (by omega)

theorem parseDecimal_decimal (n : ℕ) : parseDecimal (decimal n) = n := by
  induction n using Nat.strong_induction_on with
  | _ n ih =>
    by_cases h : n < 10
    · simp [decimal_of_lt h, parseDecimal, digitValue_digitByte n h]
    · have hq := ih (n / 10) (by omega)
      rw [decimal_of_le n (by omega), parseDecimal, foldl_append]
      rw [parseDecimal] at hq
      rw [hq]
      simp only [foldl_cons, foldl_nil, digitValue_digitByte (n % 10) (by omega)]
      omega

theorem decimal_head {n : ℕ} (h : 0 < n) : ∃ b tail, decimal n = b :: tail ∧ b ≠ byte '0' := by
  induction n using Nat.strong_induction_on with
  | _ n ih =>
    by_cases hn : n < 10
    · refine ⟨digitByte n,[],decimal_of_lt hn,fun h0 => ?_⟩
      have := congrArg UInt8.toNat h0
      rw [digitByte_toNat hn] at this
      simp [byte] at this
      omega
    · obtain ⟨b,tail,hb,hne⟩ := ih (n / 10) (by omega) (by omega)
      exact ⟨b,tail ++ [digitByte (n % 10)],by rw [decimal_of_le n (by omega), hb]; rfl,hne⟩

/-- The rest of a text does not continue a numeral. -/
def Stops (rest : Str) : Prop :=
  ∀ b ∈ rest.head?, isDigit b = false ∧ b ≠ 46 ∧ b ≠ byte 'e' ∧ b ≠ byte 'E'

variable {rest s t text : Str} {n : ℤ} {b : UInt8} {v w : Value} {level maxBytes : ℕ}
  {items : List Value}

theorem takeWhile_stops {digits : Str} (hd : ∀ b ∈ digits, isDigit b = true)
    (hr : Stops rest) : (digits ++ rest).takeWhile isDigit = digits ∧
      (digits ++ rest).dropWhile isDigit = rest := by
  rw [takeWhile_append_of_pos hd, dropWhile_append_of_pos hd]
  cases rest with
  | nil => simp
  | cons b rest => simp [(hr b rfl).1]

theorem readFraction_stops (hr : Stops rest) : readFraction rest = some ([], rest) := by
  cases rest with
  | nil => rfl
  | cons b rest =>
    have h := (hr b rfl).2.1
    unfold readFraction
    split
    · rename_i heq
      exact absurd (List.cons.inj heq).1 h
    · rfl

theorem readExponent_stops (hr : Stops rest) : readExponent rest = some ([], rest) := by
  cases rest with
  | nil => rfl
  | cons b rest =>
    have h := (hr b rfl).2.2
    simp [readExponent, h.1, h.2]

theorem readDigits (negative : Bool) (n : ℕ) (hr : Stops rest)
    (hn : negative = true → 0 < n) :
    readNumber ((if negative then [45] else []) ++ decimal n ++ rest) =
      some (integerLiteral negative (decimal n), rest) := by
  obtain ⟨htake,hdrop⟩ := takeWhile_stops (decimal_digits n) hr
  have hlead : (1 < (decimal n).length && (decimal n).head? == some (byte '0')) = false := by
    by_cases h0 : 0 < n
    · obtain ⟨b,tail,hb,hne⟩ := decimal_head h0
      simp [hb, hne]
    · obtain rfl : n = 0 := by omega
      rfl
  have hne : decimal n ≠ [] := length_pos_iff.mp (decimal_length_pos n)
  cases negative with
  | true =>
    simp [readNumber, htake, hdrop, hlead, hne, readFraction_stops hr,
      readExponent_stops hr]
  | false =>
    -- a numeral does not begin with a sign
    obtain ⟨b,tail,hb⟩ := exists_cons_of_ne_nil hne
    have hsign : b ≠ 45 := by
      intro h45
      have := decimal_digits n b (by simp [hb])
      simp [h45, isDigit] at this
    simp only [false_eq_true, if_false, nil_append]
    rw [hb] at htake hdrop hlead ⊢
    simp only [cons_append] at htake hdrop ⊢
    unfold readNumber
    split
    · rename_i heq
      split at heq
      · rename_i h45
        exact absurd (List.cons.inj h45).1 hsign
      · obtain ⟨rfl,rfl⟩ := mk.inj heq
        simpa [htake, hdrop, readFraction_stops hr, readExponent_stops hr] using hlead

theorem readNumber_encode (hn : integersOnly (.number n) = true)
    (hr : Stops rest) : readNumber (decimalInt n ++ rest) = some (.number n, rest) := by
  have hsafe : n.natAbs ≤ 2^53 - 1 := of_decide_eq_true hn
  cases n with
  | ofNat m =>
    have h := readDigits false m hr (by simp)
    simp only [false_eq_true, if_false, nil_append] at h
    have hm : m < 2^64 := by
      simp only [Int.ofNat_eq_natCast, Int.natAbs_natCast] at hsafe
      omega
    rw [decimalInt, h, integerLiteral, parseDecimal_decimal]
    simp only [false_eq_true, if_false, if_pos hm]
    rfl
  | negSucc m =>
    have h := readDigits true (m+1) hr (by simp)
    simp only [if_true, cons_append, nil_append] at h
    have hm : m + 1 ≤ 2^63 := by
      simp only [Int.natAbs_negSucc] at hsafe
      omega
    have hb : byte '-' = 45 := by decide
    rw [decimalInt, hb, cons_append, h, integerLiteral, parseDecimal_decimal]
    simp only [if_true, Nat.zero_lt_succ, decide_true, Bool.true_and, decide_eq_true_eq, if_pos hm]
    rfl

def opens (b : UInt8) : Bool := !isBlank b && b != byte ']' && b != byte '\x7d'

theorem opens_of_digit (h : isDigit b = true) : opens b = true := by
  simp only [isDigit, and_eq_true, decide_eq_true_eq] at h
  have hlow : 48 ≤ b.toNat := h.1
  have hhigh : b.toNat ≤ 57 := h.2
  have hb : b = b.toNat.toUInt8 := by simp
  clear h
  generalize b.toNat = n at hlow hhigh hb
  subst hb
  interval_cases n <;> rfl

theorem encode_head (h : encode v = some t) :
    ∃ b tail, t = b :: tail ∧ opens b = true := by
  cases v with
  | null | string s =>
    cases h
    exact ⟨_,_,rfl,rfl⟩
  | bool b => cases b <;> cases h <;> exact ⟨_,_,rfl,rfl⟩
  | number n =>
    simp only [encode] at h
    split_ifs at h
    cases h
    cases n with
    | ofNat m =>
      obtain ⟨b,tail,hb⟩ := exists_cons_of_ne_nil
        (length_pos_iff.mp (decimal_length_pos m))
      exact ⟨b,tail,hb,opens_of_digit (decimal_digits m b (by simp [hb]))⟩
    | negSucc m => exact ⟨_,_,rfl,rfl⟩
  | float s => cases h
  | array items | object members =>
    simp only [encode, map_eq_some_iff] at h
    obtain ⟨parts,_,rfl⟩ := h
    exact ⟨_,_,rfl,rfl⟩

variable {k tail : Str} {parts : List Str} {close : UInt8} {word : String}

theorem numeral_head (h : decimalInt n = b :: tail) :
    b ≠ byte '"' ∧ b ≠ byte '[' ∧ b ≠ byte '\x7b' ∧ b ≠ byte 'n' ∧ b ≠ byte 't' ∧
      b ≠ byte 'f' := by
  have hb : isDigit b = true ∨ b = byte '-' := by
    cases n with
    | ofNat m =>
      rw [decimalInt] at h
      exact .inl (decimal_digits m b (by simp [h]))
    | negSucc m => exact .inr (List.cons.inj h).1.symm
  rcases hb with hb | rfl
  · refine ⟨?_,?_,?_,?_,?_,?_⟩ <;> (rintro rfl; revert hb; decide)
  · decide

theorem skipBlanks_opens (rest : Str) (h : opens b = true) :
    skipBlanks (b :: rest) = b :: rest := by
  simp only [opens, and_eq_true, not_eq_true'] at h
  simp [skipBlanks, h.1.1]

theorem stops_comma : Stops (byte ',' :: rest) := by
  intro b hb
  cases hb
  decide

theorem stops_close (h : b = byte ']' ∨ b = byte '\x7d') :
    Stops (b :: rest) := by
  intro a ha
  cases ha
  rcases h with rfl | rfl <;> decide

/-- The text reads as the value before any rest that does not continue it. -/
def Reads (t : Str) (w : Value) (d : ℕ) : Prop :=
  ∀ fuel depth rest, 2 * t.length ≤ fuel → d < depth → Stops rest →
    readValue fuel depth (t ++ rest) = some (w, rest)

/-- The text of the value reads as the value with its members in some order. -/
def Readable (v : Value) : Prop :=
  ∀ t, encode v = some t → ∃ w, normalise w = v ∧ Reads t w (depth v)

def continued (parts : List Str) : Str := parts.flatMap (byte ',' :: ·)

theorem commaSeparated_cons (part : Str) :
    commaSeparated (part::parts) = part ++ continued parts := by
  induction parts generalizing part with
  | nil => simp [commaSeparated, continued]
  | cons next parts ih =>
    rw [commaSeparated, ih next]
    · simp [continued]
    · simp

def lead (first : Bool) : Str := if first then [] else [byte ',']

def joined (first : Bool) (parts : List Str) : Str :=
  if first then commaSeparated parts else continued parts

theorem joined_nil (first : Bool) : joined first [] = [] := by
  cases first <;> rfl

theorem joined_cons (first : Bool) (part : Str) (parts : List Str) :
    joined first (part::parts) = lead first ++ part ++ joined false parts := by
  cases first with
  | false => simp [joined, lead, continued]
  | true => simpa [joined, lead] using commaSeparated_cons part

theorem stops_joined
    (h : close = byte ']' ∨ close = byte '\x7d') : Stops (joined false parts ++ close :: rest) := by
  cases parts with
  | nil => exact stops_close h
  | cons part parts => exact stops_comma

theorem separated_lead (first : Bool) (b : UInt8) (rest : Str) (h : opens b = true) :
    ∃ a tail, skipBlanks (lead first ++ b :: rest) = a :: tail ∧ a ≠ byte ']' ∧ a ≠ byte '\x7d' ∧
      separated first (a :: tail) = some (b :: rest) := by
  have hb := skipBlanks_opens rest h
  cases first with
  | true =>
    simp only [opens, and_eq_true, bne_iff_ne] at h
    exact ⟨b,rest,hb,h.1.2,h.2,rfl⟩
  | false =>
    refine ⟨byte ',',b :: rest,rfl,by decide,by decide,?_⟩
    simp only [separated, false_eq_true, if_false]
    exact congrArg some hb

section
variable {α : Type} (read : ℕ → ℕ → Bool → Str → Option (List α × Str))

def Steps (level : ℕ) (w : α) (part : Str) : Prop :=
  0 < part.length ∧ ∀ first fuel rest, 2 * part.length ≤ fuel → Stops rest →
    read (fuel+1) level first (lead first ++ part ++ rest) =
      (read fuel level false rest).map (·.map (w :: ·) id)

theorem read_joined (hc : close = byte ']' ∨ close = byte '\x7d') (level : ℕ)
    (hclose : ∀ fuel first rest,
      read (fuel+1) level first (close :: rest) = some ([], rest))
    (ws : List α) (parts : List Str) (h : List.Forall₂ (Steps read level) ws parts)
    (first : Bool) (fuel : ℕ) (rest : Str) (hf : 2 * (joined first parts).length + 2 ≤ fuel) :
    read fuel level first (joined first parts ++ close :: rest) = some (ws, rest) := by
  induction h generalizing first fuel with
  | nil =>
    obtain ⟨fuel,rfl⟩ := Nat.exists_eq_add_of_lt (show 0 < fuel by omega)
    rw [zero_add, joined_nil]
    exact hclose fuel first rest
  | @cons w part ws parts hw _ ih =>
    rw [joined_cons, length_append, length_append] at hf
    obtain ⟨fuel,rfl⟩ := Nat.exists_eq_add_of_lt (show 0 < fuel by omega)
    have hpos := hw.1
    rw [zero_add, joined_cons, append_assoc, hw.2 first fuel _ (by omega)
      (stops_joined hc), ih false fuel (by omega)]
    rfl
end

theorem readItems_steps {part : Str} (hv : encode v = some part)
    (hw : Reads part w (depth v)) (hd : depth v < level) : Steps readItems level w part := by
  obtain ⟨b,tail,rfl,hb⟩ := encode_head hv
  refine ⟨succ_pos _,fun first fuel rest hf hr => ?_⟩
  have hread := hw fuel level rest hf hd hr
  obtain ⟨a,s,hskip,hclose,_,hsep⟩ := separated_lead first b (tail ++ rest) hb
  rw [append_assoc, cons_append]
  rw [cons_append] at hread
  simp only [readItems, hskip, if_neg hclose, hsep, hread]

theorem readItems_close (fuel : ℕ) (first : Bool) (rest : Str) :
    readItems (fuel+1) level first (byte ']' :: rest) = some ([], rest) := by
  have hskip : skipBlanks (byte ']' :: rest) = byte ']' :: rest := rfl
  simp only [readItems, hskip, if_true]

theorem encodeItems_cons
    (h : encodeItems (v::items) = some parts) : ∃ part rest, encode v = some part ∧
      encodeItems items = some rest ∧ parts = part :: rest := by
  simp only [encodeItems, bind_eq_bind, bind_eq_some_iff, Option.pure_def,
    Option.some.injEq] at h
  obtain ⟨part,hp,rest,hr,rfl⟩ := h
  exact ⟨part,rest,hp,hr,rfl⟩

theorem encodeItems_steps (parts : List Str)
    (h : encodeItems items = some parts) (hr : ∀ v ∈ items, Readable v) :
    ∃ ws, normaliseItems ws = items ∧ ∀ level, depthItems items < level →
      List.Forall₂ (Steps readItems level) ws parts := by
  induction items generalizing parts with
  | nil =>
    cases h
    exact ⟨[],rfl,fun _ _ => .nil⟩
  | cons v items ih =>
    obtain ⟨part,parts,hp,hps,rfl⟩ := encodeItems_cons h
    obtain ⟨w,hw,hread⟩ := hr v (by simp) part hp
    obtain ⟨ws,hws,hrest⟩ := ih parts hps (fun u hu => hr u (by simp [hu]))
    refine ⟨w :: ws,by rw [normaliseItems, hw, hws],fun level hd => ?_⟩
    rw [depthItems, max_lt_iff] at hd
    exact .cons (readItems_steps hp hread hd.1) (hrest level hd.2)

def memberText (k text : Str) : Str := encodeString k ++ byte ':' :: text

theorem readMembers_steps
    (hw : Reads text w (depth v)) (hd : depth v < level) :
    Steps readMembers level (k,w) (memberText k text) := by
  refine ⟨by simp [memberText],fun first fuel rest hf hr => ?_⟩
  simp only [memberText, encodeString, length_append, length_cons, length_nil] at hf
  have hread := hw fuel level rest (by omega) hd hr
  have hstring := readString_encode k (byte ':' :: (text ++ rest)) fuel (by omega)
  have hquote : byte '"' = 34 := by decide
  have hcolon : skipBlanks (byte ':' :: (text ++ rest)) = 58 :: (text ++ rest) := rfl
  obtain ⟨a,s,hskip,_,hclose,hsep⟩ := separated_lead first (byte '"')
    (k.flatMap encodeByte ++ byte '"' :: byte ':' :: (text ++ rest)) rfl
  have htext : lead first ++ memberText k text ++ rest = lead first ++
      byte '"' :: (k.flatMap encodeByte ++ byte '"' :: byte ':' :: (text ++ rest)) := by
    simp [memberText, encodeString]
  rw [hquote] at hsep
  rw [htext]
  simp only [readMembers, hskip, if_neg hclose, hsep]
  rw [hquote] at hstring
  simp only [hstring, hcolon, hread]

theorem readMembers_close (fuel : ℕ) (first : Bool) (rest : Str) :
    readMembers (fuel+1) level first (byte '\x7d' :: rest) = some ([], rest) := by
  have hskip : skipBlanks (byte '\x7d' :: rest) = byte '\x7d' :: rest := rfl
  simp only [readMembers, hskip, if_true]

theorem encodeMembers_cons {members : List (Str × Value)}
    {parts : List (List ℕ × Str)} : encodeMembers ((k,v)::members) = some parts ↔
      ∃ text rest, encode v = some text ∧ encodeMembers members = some rest ∧
        parts = (utf16 k, memberText k text) :: rest := by
  simp only [encodeMembers, bind_eq_bind, bind_eq_some_iff, Option.pure_def,
    Option.some.injEq, memberText]
  constructor
  · rintro ⟨text,ht,rest,hr,rfl⟩
    exact ⟨text,rest,ht,hr,rfl⟩
  · rintro ⟨text,rest,ht,hr,rfl⟩
    exact ⟨text,ht,rest,hr,rfl⟩

section
variable (members : List (Str × Value))

def inOrder : List (Str × Value) :=
  members.map fun m => (m.1, normalise m.2)

theorem encodeMembers_steps (parts : List (List ℕ × Str))
    (h : encodeMembers members = some parts) (hr : ∀ m ∈ members, Readable m.2) :
    ∃ ws, inOrder ws = members ∧ ∀ level, depthMembers members < level →
      List.Forall₂ (Steps readMembers level) ws (parts.map snd) := by
  induction members generalizing parts with
  | nil =>
    cases h
    exact ⟨[],rfl,fun _ _ => .nil⟩
  | cons m members ih =>
    obtain ⟨k,v⟩ := m
    obtain ⟨text,parts,ht,hps,rfl⟩ := encodeMembers_cons.mp h
    obtain ⟨w,hw,hread⟩ := hr (k,v) (by simp) text ht
    obtain ⟨ws,hws,hrest⟩ := ih parts hps (fun u hu => hr u (by simp [hu]))
    refine ⟨(k,w) :: ws,by simp only [inOrder, map_cons, hw] at hws ⊢; rw [hws],?_⟩
    intro level hd
    rw [depthMembers, max_lt_iff] at hd
    exact .cons (readMembers_steps hread hd.1) (hrest level hd.2)

theorem encodeMembers_insertUnits {members : List (Str × Value)}
    (parts : List (List ℕ × Str)) (hv : encode v = some text)
    (h : encodeMembers members = some parts) :
    ∃ members', members'.Perm ((k,v)::members) ∧
      encodeMembers members' = some (insertUnits (utf16 k, memberText k text) parts) := by
  induction members generalizing parts with
  | nil =>
    cases h
    exact ⟨[(k,v)],List.Perm.refl _,encodeMembers_cons.mpr ⟨text,[],hv,rfl,rfl⟩⟩
  | cons m members ih =>
    obtain ⟨l,u⟩ := m
    have hall := h
    obtain ⟨text',rest,hu,hr,rfl⟩ := encodeMembers_cons.mp h
    simp only [insertUnits]
    split_ifs with hle
    · exact ⟨(k,v)::(l,u)::members,List.Perm.refl _,
        encodeMembers_cons.mpr ⟨text,_,hv,hall,rfl⟩⟩
    · obtain ⟨members',hp,he⟩ := ih rest hr
      refine ⟨(l,u)::members',(hp.cons (l,u)).trans (List.Perm.swap _ _ _),?_⟩
      exact encodeMembers_cons.mpr ⟨text',_,hu,he,rfl⟩

theorem encodeMembers_sortUnits (parts : List (List ℕ × Str))
    (h : encodeMembers members = some parts) :
    ∃ members', members'.Perm members ∧ encodeMembers members' = some (sortUnits parts) := by
  induction members generalizing parts with
  | nil =>
    cases h
    exact ⟨[],List.Perm.refl _,rfl⟩
  | cons m members ih =>
    obtain ⟨k,v⟩ := m
    obtain ⟨text,rest,hv,hr,rfl⟩ := encodeMembers_cons.mp h
    obtain ⟨members',hp,he⟩ := ih rest hr
    obtain ⟨members'',hp',he'⟩ := encodeMembers_insertUnits _ hv he
    exact ⟨members'',hp'.trans (hp.cons (k,v)),he'⟩

theorem skipBlanks_between (b close : UInt8) (text rest : Str) (h : opens b = true) :
    skipBlanks ([b] ++ text ++ [close] ++ rest) = b :: (text ++ close :: rest) := by
  rw [append_assoc, append_assoc]
  exact skipBlanks_opens _ h

theorem readable_array (h : ∀ v ∈ items, Readable v) :
    Readable (.array items) := by
  intro t ht
  simp only [encode, map_eq_some_iff] at ht
  obtain ⟨parts,hparts,rfl⟩ := ht
  obtain ⟨ws,hws,hsteps⟩ := encodeItems_steps parts hparts h
  refine ⟨.array ws,by rw [normalise, hws],fun fuel level rest hf hd _ => ?_⟩
  simp only [length_append, length_cons, length_nil] at hf
  cases fuel with
  | zero => omega
  | succ fuel =>
    rw [depth] at hd
    have hskip := skipBlanks_between (byte '[') (byte ']') (commaSeparated parts) rest rfl
    have hread := read_joined readItems (.inl rfl) (level-1)
      readItems_close ws parts (hsteps (level-1) (by omega)) true fuel rest (by
        simp only [joined, if_true]
        omega)
    simp only [joined, if_true] at hread
    have hne : byte '[' ≠ byte '"' := by decide
    have hlevel : ¬ level ≤ 1 := by omega
    simp only [readValue, hskip, if_neg hne, if_true, if_neg hlevel]
    rw [hread]
    rfl

theorem reads_members {ws : List (Str × Value)} {d : ℕ}
    (h : ∀ level, d < level → List.Forall₂ (Steps readMembers level) ws parts) :
    Reads ([byte '\x7b'] ++ commaSeparated parts ++ [byte '\x7d']) (.object ws) (d+1) := by
  intro fuel level rest hf hd _
  simp only [length_append, length_cons, length_nil] at hf
  cases fuel with
  | zero => omega
  | succ fuel =>
    have hskip := skipBlanks_between (byte '\x7b') (byte '\x7d') (commaSeparated parts) rest rfl
    have hread := read_joined readMembers (.inr rfl) (level-1)
      readMembers_close ws parts (h (level-1) (by omega)) true fuel rest (by
        simp only [joined, if_true]
        omega)
    simp only [joined, if_true] at hread
    have hne : byte '\x7b' ≠ byte '"' ∧ byte '\x7b' ≠ byte '[' := by decide
    have hlevel : ¬ level ≤ 1 := by omega
    simp only [readValue, hskip, if_neg hne.1, if_neg hne.2, if_true, if_neg hlevel, hread]
    rfl

theorem readable_object
    (ho : (members.map fst).Pairwise (· < ·)) (h : ∀ m ∈ members, Readable m.2) :
    Readable (.object members) := by
  intro t ht
  simp only [encode, map_eq_some_iff] at ht
  obtain ⟨parts,hparts,rfl⟩ := ht
  obtain ⟨members',hp,hsorted⟩ := encodeMembers_sortUnits members parts hparts
  obtain ⟨ws,hws,hsteps⟩ := encodeMembers_steps members' _ hsorted
    (fun m hm => h m (hp.subset hm))
  have hnorm : normaliseMembers ws [] = members :=
    normaliseMembers_of_perm ho (show (inOrder ws).Perm members from hws ▸ hp)
  have hdepth : depthMembers members' ≤ depthMembers members :=
    depthMembers_le.mpr fun m hm => depthMembers_le.mp (le_refl _) m (hp.subset hm)
  refine ⟨.object ws,by rw [normalise, hnorm],?_⟩
  exact reads_members fun level hd => hsteps level (by omega)

end

theorem readable_string : Readable (.string text) := by
  intro t ht
  cases ht
  refine ⟨.string text,rfl,fun fuel level rest hf _ _ => ?_⟩
  simp only [encodeString, length_append, length_cons, length_nil] at hf
  cases fuel with
  | zero => omega
  | succ fuel =>
    have hskip : skipBlanks (encodeString text ++ rest) =
        byte '"' :: (text.flatMap encodeByte ++ byte '"' :: rest) := by
      rw [encodeString, append_assoc, append_assoc]
      rfl
    simp only [readValue, hskip, if_true]
    rw [readString_encode text rest fuel (by omega)]
    rfl

theorem readable_number : Readable (.number n) := by
  intro t ht
  have hhead := encode_head ht
  simp only [encode] at ht
  split_ifs at ht with hn
  cases ht
  refine ⟨.number n,rfl,fun fuel level rest hf _ hr => ?_⟩
  have hnumber := readNumber_encode hn hr
  obtain ⟨b,tail,hb,hopens⟩ := hhead
  rw [hb] at hf hnumber ⊢
  cases fuel with
  | zero => simp at hf
  | succ fuel =>
    have hnone : b ≠ byte '"' ∧ b ≠ byte '[' ∧ b ≠ byte '\x7b' ∧ b ≠ byte 'n' ∧ b ≠ byte 't' ∧
        b ≠ byte 'f' := numeral_head hb
    simp only [cons_append] at hnumber ⊢
    simp only [readValue, skipBlanks_opens (tail ++ rest) hopens, hnone, if_false, hnumber]

theorem readWord_append (word : String) (v : Value) (rest : Str) :
    readWord word v (str word ++ rest) = some (v, rest) := by
  rw [readWord, dropPrefix?_append_of_beq rest (beq_self_eq_true (str word))]
  rfl

theorem readable_word
    (hw : str word = b :: tail) (hv : encode v = some (str word)) (hn : normalise v = v)
    (hb : b ≠ byte '"' ∧ b ≠ byte '[' ∧ b ≠ byte '\x7b')
    (hr : ∀ s, (if b = byte 'n' then readWord "null" .null s
      else if b = byte 't' then readWord "true" (.bool true) s
      else if b = byte 'f' then readWord "false" (.bool false) s
      else readNumber s) = readWord word v s) : Readable v := by
  intro t ht
  obtain rfl : str word = t := Option.some.inj (hv.symm.trans ht)
  refine ⟨v,hn,fun fuel level rest hf _ _ => ?_⟩
  obtain ⟨b',tail',hb',hopens⟩ := encode_head ht
  obtain ⟨rfl,rfl⟩ := List.cons.inj (hw.symm.trans hb')
  have hword := readWord_append word v rest
  rw [hw] at hf hword ⊢
  cases fuel with
  | zero => simp at hf
  | succ fuel =>
    rw [cons_append] at hword ⊢
    simp only [readValue, skipBlanks_opens (tail ++ rest) hopens, hb, if_false]
    rw [hr, hword]

mutual
theorem readable : ∀ v : Value, Ordered v → Readable v
  | .null, _ => readable_word rfl rfl rfl (by decide) fun _ => rfl
  | .bool true, _ => readable_word rfl rfl rfl (by decide) fun _ => rfl
  | .bool false, _ => readable_word rfl rfl rfl (by decide) fun _ => rfl
  | .number n, _ => readable_number
  | .float _, _ => fun _ ht => nomatch ht
  | .string text, _ => readable_string
  | .array items, h => readable_array (readableItems items h)
  | .object members, h => readable_object members h.1 (readableMembers members h.2)
theorem readableItems : ∀ items : List Value, OrderedItems items → ∀ v ∈ items, Readable v
  | [], _, _, hv => nomatch hv
  | v::vs, h, u, hu => by
    rcases mem_cons.mp hu with he | hu
    · exact he ▸ readable v h.1
    · exact readableItems vs h.2 u hu
theorem readableMembers : ∀ members : List (Str × Value), OrderedMembers members →
    ∀ m ∈ members, Readable m.2
  | [], _, _, hm => nomatch hm
  | (k,v)::rest, h, m, hm => by
    rcases mem_cons.mp hm with he | hm
    · exact he ▸ readable v h.1
    · exact readableMembers rest h.2 m hm
end

/-- The canonical text of an ordered value, nested no deeper than the reader goes, reads
back as the value. -/
theorem readDocument_canonical (ho : Ordered v) (hd : depth v < 128)
    (h : canonicalize v = some t) : (readDocument t).map normalise = some v := by
  obtain ⟨w,hw,hread⟩ := readable v ho t h
  have hdoc := hread (2 * t.length + 2) 128 [] (by omega) hd (by simp [Stops])
  rw [append_nil] at hdoc
  simp [readDocument, hdoc, skipBlanks, hw]

theorem readNumber_depth (h : readNumber s = some (v, rest)) :
    depth v = 0 := by
  unfold readNumber at h
  split at h
  simp only at h
  split at h
  · simp at h
  · simp only [bind_eq_bind, bind_eq_some_iff] at h
    obtain ⟨fraction,_,exponent,_,h⟩ := h
    split at h
    · obtain ⟨rfl,_⟩ := mk.inj (Option.some.inj h)
      simp only [integerLiteral]
      split_ifs <;> rfl
    · obtain ⟨rfl,_⟩ := mk.inj (Option.some.inj h)
      rfl

theorem readWord_depth {u : Value}
    (h : readWord word u s = some (v, rest)) : v = u := by
  simp only [readWord, map_eq_some_iff, mk.injEq] at h
  obtain ⟨_,_,rfl,_⟩ := h
  rfl

/-- What the reader returns is nested less deep than it was allowed to go. -/
theorem reader_depth {fuel : ℕ} :
    (∀ level s v rest, readValue fuel level s = some (v, rest) → 0 < level → depth v < level) ∧
    (∀ level first s vs rest, readItems fuel level first s = some (vs, rest) → 0 < level →
      depthItems vs < level) ∧
    ∀ level first s ms rest, readMembers fuel level first s = some (ms, rest) → 0 < level →
      depthMembers ms < level := by
  induction fuel with
  | zero => simp [readValue, readItems, readMembers]
  | succ fuel ih =>
    obtain ⟨ihv,ihi,ihm⟩ := ih
    refine ⟨?_,?_,?_⟩
    · intro level s v rest h hl
      simp only [readValue] at h
      split at h
      · cases h
      · split_ifs at h with hq ha h1 ho h1 hn ht hf
        · obtain ⟨⟨text,_⟩,_,he⟩ := map_eq_some_iff.mp h
          obtain ⟨rfl,_⟩ := mk.inj he
          exact hl
        · obtain ⟨⟨vs,_⟩,hvs,he⟩ := map_eq_some_iff.mp h
          obtain ⟨rfl,_⟩ := mk.inj he
          have := ihi (level-1) true _ vs _ hvs (by omega)
          simp only [depth]
          omega
        · obtain ⟨⟨ms,_⟩,hms,he⟩ := map_eq_some_iff.mp h
          obtain ⟨rfl,_⟩ := mk.inj he
          have := ihm (level-1) true _ ms _ hms (by omega)
          simp only [depth]
          omega
        · rw [readWord_depth h]
          exact hl
        · rw [readWord_depth h]
          exact hl
        · rw [readWord_depth h]
          exact hl
        · rw [readNumber_depth h]
          exact hl
    · intro level first s vs rest h hl
      simp only [readItems] at h
      split at h
      · cases h
      · split_ifs at h
        · cases h
          exact hl
        · split at h
          · cases h
          · split at h
            · cases h
            · rename_i v s' hv
              obtain ⟨⟨tail,_⟩,ht,he⟩ := map_eq_some_iff.mp h
              obtain ⟨rfl,_⟩ := mk.inj he
              exact max_lt (ihv level _ v s' hv hl) (ihi level false _ tail _ ht hl)
    · intro level first s ms rest h hl
      simp only [readMembers] at h
      split at h
      · cases h
      · split_ifs at h
        · cases h
          exact hl
        · split at h
          · split at h
            · cases h
            · split at h
              · split at h
                · cases h
                · rename_i v s' hv
                  obtain ⟨⟨tail,_⟩,ht,he⟩ := map_eq_some_iff.mp h
                  obtain ⟨rfl,_⟩ := mk.inj he
                  exact max_lt (ihv level _ v s' hv hl) (ihm level false _ tail _ ht hl)
              · cases h
          · cases h

theorem parseStrict_ordered {bytes : Str}
    (h : parseStrict bytes maxBytes = some v) : Ordered v ∧ depth v < 128 := by
  simp only [parseStrict] at h
  split_ifs at h
  simp only [readJson] at h
  split_ifs at h
  cases hdoc : readDocument bytes with
  | none => simp [hdoc] at h
  | some w =>
    simp only [hdoc, map_some] at h
    split_ifs at h
    obtain rfl := Option.some.inj h
    refine ⟨normalise_ordered w,(normalise_depth w).trans_lt ?_⟩
    simp only [readDocument] at hdoc
    split at hdoc
    · rename_i u rest hu
      split_ifs at hdoc
      obtain rfl := Option.some.inj hdoc
      exact reader_depth.1 128 _ u rest hu (by omega)
    · cases hdoc

/-- Whatever strict reading returns for a canonical text is the value written. -/
theorem parseStrict_canonical (ho : Ordered v)
    (hd : depth v < 128) (h : canonicalize v = some t) (hw : parseStrict t maxBytes = some w) :
    w = v := by
  have hdoc := readDocument_canonical ho hd h
  simp only [parseStrict] at hw
  split_ifs at hw
  simp only [readJson] at hw
  split_ifs at hw
  · rw [hdoc] at hw
    simp only at hw
    split_ifs at hw
    exact (Option.some.inj hw).symm

/-- Of two texts that strict reading accepts, the canonical texts are the same only for the
same value, and reading the canonical text again gives no other. -/
theorem canonical_text_identifies {a b t : Str} {m n : ℕ} {v w : Value}
    (ha : parseStrict a m = some v) (hb : parseStrict b n = some w)
    (hv : canonicalize v = some t) (hw : canonicalize w = some t) :
    v = w ∧ ∀ k u, parseStrict t k = some u → u = v := by
  obtain ⟨hov,hdv⟩ := parseStrict_ordered ha
  obtain ⟨how,hdw⟩ := parseStrict_ordered hb
  have hread := readDocument_canonical hov hdv hv
  rw [readDocument_canonical how hdw hw, Option.some.injEq] at hread
  exact ⟨hread.symm,fun k u hu => parseStrict_canonical hov hdv hv hu⟩

theorem spaced_text_identified :
    parseStrict (str " [1 ]") 8 = parseStrict (str "[1]") 8 ∧
      ∀ k u, parseStrict (str "[1]") k = some u → u = .array [.number 1] :=
  ⟨by decide,(canonical_text_identifies (a := str " [1 ]") (b := str "[1]") (m := 8) (n := 8)
    (w := .array [.number 1]) (by decide) (by decide) (by decide) (by decide)).2⟩

end Permanu.JsonRoundTrip
