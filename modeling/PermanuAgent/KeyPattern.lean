import PermanuAgent.PlanSpec
import Mathlib.Computability.RegularExpressions

/-!
# The names of credentials

`K` is matched without regard to case against a whole name, with a word boundary at both
ends. A build argument is refused by a check that is written without a regex: it looks
for a keyword between segments that underscores separate. On names that hold no dot and
no hyphen, as those of variables, both are the same.
-/

set_option autoImplicit false

namespace Permanu.KeyPattern
open ByteText PlanSpec RegularExpression List Computability

abbrev Pattern := RegularExpression UInt8

def anyOf (bytes : String) : Pattern := ((str bytes).map char).foldr (· + ·) 0
def literal (text : String) : Pattern := ((str text).map char).foldr (· * ·) 1
def maybe (p : Pattern) : Pattern := p + 1
def oneOrMore (p : Pattern) : Pattern := p * p.star

def letters : String := "abcdefghijklmnopqrstuvwxyz0123456789"
def alphanumeric : Pattern := anyOf letters
def hyphen : Pattern := maybe (anyOf "_-")

def keyword : Pattern :=
  literal "pass" * maybe (literal "word" + literal "wd" + literal "phrase") + literal "pwd" +
    literal "secret" + literal "token" + literal "api" * hyphen * literal "key" +
    literal "apikey" + literal "access" * hyphen * literal "key" +
    literal "private" * hyphen * literal "key" + literal "client" * hyphen * literal "secret" +
    literal "credential" * maybe (literal "s") + literal "authorization" +
    literal "auth" * hyphen * literal "token" +
    literal "session" * hyphen * (literal "id" + literal "token") + literal "cookie" +
    literal "database" * hyphen * literal "url" + literal "dsn" +
    literal "conn" * maybe (literal "ection") * hyphen * literal "string"

def kBody : Pattern :=
  (oneOrMore alphanumeric * anyOf "_.-").star * keyword *
    (anyOf "_.-" * oneOrMore alphanumeric).star

def isWord (b : UInt8) : Bool := isAlphanumeric b || b == byte '_'

/-- The compiled `key_whole`: the letters of `K` are lower case. -/
def keyWhole (name : Str) : Bool :=
  name.head?.any isWord && name.getLast?.any isWord && kBody.rmatch (toLower name)

def finite : Pattern → Bool
  | .plus p q | .comp p q => finite p && finite q
  | .star _ => false
  | _ => true

def words : Pattern → List Str
  | .zero | .star _ => []
  | .epsilon => [[]]
  | .char b => [[b]]
  | .plus p q => words p ++ words q
  | .comp p q => (words p).flatMap fun v => (words q).map (v ++ ·)

variable {v : Str}

theorem mem_words {p : Pattern} (h : finite p = true) : v ∈ p.matches' ↔ v ∈ words p := by
  induction p generalizing v with
  | zero => exact iff_of_false (Language.notMem_zero v) not_mem_nil
  | epsilon => exact (Language.mem_one v).trans mem_singleton.symm
  | char b => exact mem_singleton.symm
  | plus p q hp hq =>
    rw [finite, Bool.and_eq_true] at h
    exact (or_congr (hp h.1) (hq h.2)).trans mem_append.symm
  | comp p q hp hq =>
    rw [finite, Bool.and_eq_true] at h
    refine Language.mem_mul.trans ?_
    simp only [words, mem_flatMap, mem_map, hp h.1, hq h.2]
  | star p => cases h

/-- What is left of a name in lower case. -/
def Plain (v : Str) : Prop := ∀ b ∈ v, isLower b = true ∨ isDigit b = true ∨ b = byte '_'

theorem Plain.left {w : Str} (h : Plain (v ++ w)) : Plain v :=
  fun b hb => h b (mem_append_left w hb)
theorem Plain.right {w : Str} (h : Plain (v ++ w)) : Plain w :=
  fun b hb => h b (mem_append_right v hb)

def Piece (v : Str) : Prop := v ≠ [] ∧ ∀ b ∈ v, isAlphanumeric b = true

theorem Piece.unbroken (h : Piece v) : byte '_' ∉ v := fun hin => absurd (h.2 _ hin) (by decide)

theorem mem_alphanumeric : v ∈ alphanumeric.matches' ↔ ∃ b ∈ str letters, v = [b] := by
  have hbytes : words alphanumeric = (str letters).map ([·]) := by decide
  rw [mem_words (by decide), hbytes, mem_map]
  simp only [eq_comm]

theorem mem_oneOrMore (h : Plain v) : v ∈ (oneOrMore alphanumeric).matches' ↔ Piece v := by
  refine Language.mem_mul.trans ?_
  constructor
  · rintro ⟨first,hfirst,rest,hrest,rfl⟩
    obtain ⟨b,hb,rfl⟩ := mem_alphanumeric.1 hfirst
    obtain ⟨parts,rfl,hparts⟩ := Language.mem_kstar.1 hrest
    have hall : ∀ b ∈ str letters, isAlphanumeric b = true := by decide +kernel
    refine ⟨by simp,?_⟩
    rw [singleton_append, forall_mem_cons]
    refine ⟨hall b hb,fun c hc => ?_⟩
    obtain ⟨part,hpart,hin⟩ := mem_flatten.1 hc
    obtain ⟨d,hd,rfl⟩ := mem_alphanumeric.1 (hparts part hpart)
    rw [mem_singleton.1 hin]
    exact hall d hd
  · intro hv
    have hall : ∀ b ∈ v, [b] ∈ alphanumeric.matches' := by
      intro b hb
      have hbytes : ∀ n < 256, isLower (UInt8.ofNat n) = true ∨ isDigit (UInt8.ofNat n) = true →
          UInt8.ofNat n ∈ str letters := by decide +kernel
      have hletter : isLower b = true ∨ isDigit b = true := by
        have hne : b ≠ byte '_' := fun hsame => hv.unbroken (hsame ▸ hb)
        simpa [hne] using h b hb
      exact mem_alphanumeric.2
        ⟨b,by simpa using hbytes b.toNat b.toNat_lt (by simpa using hletter),rfl⟩
    obtain ⟨b,rest,rfl⟩ := exists_cons_of_ne_nil hv.1
    rw [forall_mem_cons] at hall
    refine ⟨[b],hall.1,rest,Language.mem_kstar.2 ⟨rest.map ([·]),?_,forall_mem_map.2 hall.2⟩,rfl⟩
    rw [← flatMap_def, flatMap_singleton']

theorem segments_word (h : byte '_' ∉ v) : segments v = true ↔ Piece v := by
  rw [segments, ← append_nil v, splitOn_word h]
  simp [Piece]

theorem segments_piece (h : byte '_' ∉ v) {rest : Str} :
    segments (v ++ byte '_' :: rest) = true ↔ Piece v ∧ segments rest = true := by
  rw [segments, splitOn_piece h]
  simp [Piece, segments]

theorem suffixSegments_iff : suffixSegments v = true ↔
    v = [] ∨ ∃ body, v = byte '_' :: body ∧ segments body = true := by
  rw [suffixSegments, Bool.or_eq_true, List.isEmpty_iff, Option.any_eq_true]
  refine or_congr_right (exists_congr fun body => and_congr_left fun _ => ?_)
  rw [dropPrefix?_eq_some_iff]
  constructor
  · rintro ⟨front,rfl,hfront⟩
    rw [beq_iff_eq.1 hfront]
    rfl
  · rintro rfl
    exact ⟨str "_",rfl,beq_self_eq_true _⟩

theorem prefixSegments_iff : prefixSegments v = true ↔
    v = [] ∨ ∃ body, segments body = true ∧ v = body ++ [byte '_'] := by
  rw [prefixSegments, Bool.or_eq_true, List.isEmpty_iff, Option.any_eq_true]
  refine or_congr_right (exists_congr fun body => and_comm.trans (and_congr_right fun _ => ?_))
  rw [stripSuffix, endsWith, Option.ite_none_right_eq_some, isSuffixOf_iff_suffix]
  constructor
  · rintro ⟨⟨front,rfl⟩,htake⟩
    rw [length_append, Nat.add_sub_cancel, take_left, Option.some.injEq] at htake
    rw [htake]
    rfl
  · rintro rfl
    rw [show [byte '_'] = str "_" from rfl, length_append, Nat.add_sub_cancel, take_left]
    exact ⟨⟨body,rfl⟩,rfl⟩

/-- Segments are one piece and what may follow a keyword. -/
theorem segments_iff : segments v = true ↔
    ∃ piece rest, Piece piece ∧ suffixSegments rest = true ∧ v = piece ++ rest := by
  constructor
  · intro h
    by_cases hin : byte '_' ∈ v
    · obtain ⟨piece,rest,rfl,hout⟩ := eq_append_cons_of_mem hin
      obtain ⟨hpiece,hrest⟩ := (segments_piece hout).1 h
      exact ⟨piece,_,hpiece,suffixSegments_iff.2 (.inr ⟨rest,rfl,hrest⟩),rfl⟩
    · exact ⟨v,[],(segments_word hin).1 h,rfl,(append_nil v).symm⟩
  · rintro ⟨piece,rest,hpiece,hrest,rfl⟩
    rcases suffixSegments_iff.1 hrest with rfl | ⟨body,rfl,hbody⟩
    · rw [append_nil]
      exact (segments_word hpiece.unbroken).2 hpiece
    · exact (segments_piece hpiece.unbroken).2 ⟨hpiece,hbody⟩

theorem mem_separator (h : Plain v) : v ∈ (anyOf "_.-").matches' ↔ v = [byte '_'] := by
  have hwords : words (anyOf "_.-") = [[byte '_'], [byte '.'], [byte '-']] := by decide
  rw [mem_words (by decide), hwords]
  simp only [mem_cons, not_mem_nil, or_false]
  refine or_iff_left ?_
  rintro (rfl | rfl) <;> exact absurd (h _ mem_cons_self) (by decide)

theorem mem_keyword (h : Plain v) : v ∈ keyword.matches' ↔ ∃ k ∈ kKeywords, v = str k := by
  rw [mem_words (by decide)]
  constructor
  · have hall : ∀ w ∈ words keyword, byte '-' ∈ w ∨ ∃ k ∈ kKeywords, w = str k := by decide +kernel
    intro hv
    refine (hall v hv).resolve_left fun hin => absurd (h _ hin) (by decide)
  · have hall : ∀ k ∈ kKeywords, str k ∈ words keyword := by decide +kernel
    rintro ⟨k,hk,rfl⟩
    exact hall k hk

theorem kstar_mul_slide {α : Type} [KleeneAlgebra α] (a b : α) : (a * b)∗ * a = a * (b * a)∗ := by
  apply le_antisymm
  · refine kstar_mul_le (le_mul_of_one_le_right zero_le one_le_kstar) ?_
    rw [mul_assoc, ← mul_assoc b]
    exact mul_le_mul_right mul_kstar_le_kstar a
  · refine mul_kstar_le (le_mul_of_one_le_left zero_le one_le_kstar) ?_
    rw [← mul_assoc, mul_assoc _ a]
    exact mul_le_mul_left kstar_mul_le_kstar a

theorem mem_suffix (h : Plain v) :
    v ∈ (anyOf "_.-" * oneOrMore alphanumeric).star.matches' ↔ suffixSegments v = true := by
  induction hn : v.length using Nat.strong_induction_on generalizing v with
  | _ n ih =>
    rw [suffixSegments_iff, matches'_star, ← Language.one_add_self_mul_kstar_eq_kstar]
    refine or_congr Iff.rfl ⟨?_,?_⟩
    · rintro ⟨block,⟨sep,hsep,piece,hpiece,rfl⟩,rest,hrest,rfl⟩
      obtain rfl := (mem_separator h.left.left).1 hsep
      refine ⟨piece ++ rest,rfl,
        segments_iff.2 ⟨piece,rest,(mem_oneOrMore h.left.right).1 hpiece,?_,rfl⟩⟩
      exact (ih _ (by simp at hn; omega) h.right rfl).1 hrest
    · rintro ⟨body,rfl,hbody⟩
      obtain ⟨piece,rest,hpiece,hrest,rfl⟩ := segments_iff.1 hbody
      have hparts : Plain ([byte '_'] ++ piece ++ rest) := h
      refine ⟨[byte '_'] ++ piece,⟨[byte '_'],(mem_separator hparts.left.left).2 rfl,piece,
        (mem_oneOrMore hparts.left.right).2 hpiece,rfl⟩,rest,?_,rfl⟩
      exact (ih _ (by simp at hn; omega) hparts.right rfl).2 hrest

theorem mem_segments (h : Plain v) : v ∈ (oneOrMore alphanumeric).matches' *
    (anyOf "_.-" * oneOrMore alphanumeric).star.matches' ↔ segments v = true := by
  rw [segments_iff]
  constructor
  · rintro ⟨piece,hpiece,rest,hrest,rfl⟩
    exact ⟨piece,rest,(mem_oneOrMore h.left).1 hpiece,(mem_suffix h.right).1 hrest,rfl⟩
  · rintro ⟨piece,rest,hpiece,hrest,rfl⟩
    exact ⟨piece,(mem_oneOrMore h.left).2 hpiece,rest,(mem_suffix h.right).2 hrest,rfl⟩

theorem mem_front (h : Plain v) :
    v ∈ (oneOrMore alphanumeric * anyOf "_.-").star.matches' ↔ prefixSegments v = true := by
  rw [prefixSegments_iff, matches'_star, matches'_mul, ← Language.one_add_kstar_mul_self_eq_kstar,
    ← mul_assoc, kstar_mul_slide, ← matches'_mul, ← matches'_star]
  refine or_congr Iff.rfl ⟨?_,?_⟩
  · rintro ⟨body,hbody,sep,hsep,rfl⟩
    rw [(mem_separator h.right).1 hsep]
    exact ⟨body,(mem_segments h.left).1 hbody,rfl⟩
  · rintro ⟨body,hbody,rfl⟩
    exact ⟨body,(mem_segments h.left).2 hbody,_,(mem_separator h.right).2 rfl,rfl⟩

theorem mem_kBody (h : Plain v) : v ∈ kBody.matches' ↔ ∃ front, prefixSegments front = true ∧
    ∃ k ∈ kKeywords, ∃ rest, suffixSegments rest = true ∧ v = front ++ str k ++ rest := by
  constructor
  · rintro ⟨start,⟨front,hfront,word,hword,rfl⟩,rest,hrest,rfl⟩
    obtain ⟨k,hk,rfl⟩ := (mem_keyword h.left.right).1 hword
    exact ⟨front,(mem_front h.left.left).1 hfront,k,hk,rest,(mem_suffix h.right).1 hrest,rfl⟩
  · rintro ⟨front,hfront,k,hk,rest,hrest,rfl⟩
    exact ⟨_,⟨front,(mem_front h.left.left).2 hfront,_,(mem_keyword h.left.right).2 ⟨k,hk,rfl⟩,rfl⟩,
      rest,(mem_suffix h.right).2 hrest,rfl⟩

theorem secretLookingName_iff (name : Str) : secretLookingName name = true ↔
    ∃ front, prefixSegments front = true ∧ ∃ k ∈ kKeywords, ∃ rest, suffixSegments rest = true ∧
      toLower name = front ++ str k ++ rest := by
  simp only [secretLookingName, any_eq_true, mem_range, Bool.and_eq_true, Option.any_eq_true,
    dropPrefix?_eq_some_iff]
  constructor
  · rintro ⟨start,-,hfront,k,hk,rest,⟨found,hdrop,hfound⟩,hrest⟩
    refine ⟨_,hfront,k,hk,rest,hrest,?_⟩
    rw [append_assoc, ← beq_iff_eq.1 hfound, ← hdrop, take_append_drop]
  · rintro ⟨front,hfront,k,hk,rest,hrest,heq⟩
    rw [heq, append_assoc]
    refine ⟨front.length,by rw [length_append]; omega,by rwa [take_left],k,hk,rest,
      ⟨str k,?_,beq_self_eq_true _⟩,hrest⟩
    rw [drop_left]

theorem toLower_plain {name : Str} (h : ∀ b ∈ name, isWord b = true) : Plain (toLower name) := by
  rw [Plain, toLower, forall_mem_map]
  intro b hb
  have hall : ∀ n < 256, isWord (UInt8.ofNat n) = true →
      let c := if isUpper (UInt8.ofNat n) then UInt8.ofNat n + 32 else UInt8.ofNat n
      isLower c = true ∨ isDigit c = true ∨ c = byte '_' := by decide +kernel
  simpa using hall b.toNat b.toNat_lt (by simpa using h b hb)

/-- On the names of variables the check of build arguments is the pattern. -/
theorem secretLookingName_eq_keyWhole (name : Str) (h : PlanText.envName name = true) :
    secretLookingName name = keyWhole name := by
  simp only [PlanText.envName, Bool.and_eq_true, all_eq_true] at h
  have hwords : ∀ b ∈ name, isWord b = true := h.2
  have hne : name ≠ [] := by
    rintro rfl
    exact absurd h.1.2 (by decide)
  have hends : name.head?.any isWord = true ∧ name.getLast?.any isWord = true := by
    rw [head?_eq_some_head hne, getLast?_eq_some_getLast hne]
    exact ⟨hwords _ (head_mem hne),hwords _ (getLast_mem hne)⟩
  rw [keyWhole, hends.1, hends.2, Bool.eq_iff_iff, Bool.true_and, Bool.true_and,
    rmatch_iff_matches',
    mem_kBody (toLower_plain hwords), secretLookingName_iff]

theorem secretLookingName_apiKey : PlanText.envName (str "API_KEY") = true ∧
    secretLookingName (str "API_KEY") = keyWhole (str "API_KEY") :=
  ⟨by decide,secretLookingName_eq_keyWhole _ (by decide)⟩

end Permanu.KeyPattern
