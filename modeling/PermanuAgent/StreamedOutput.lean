import Mathlib.Data.List.DropRight
import PermanuAgent.PlanSpec

/-!
# Streamed output

The output of a child process, read line by line and sanitized on its way to the
control plane. Of each credential key only the first occurrence on a line is looked at,
and a line that is no UTF-8 or cannot be cut where it is too long ends the reader.
-/

set_option autoImplicit false

namespace Permanu.StreamedOutput

open ByteText List PlanSpec

def credentialKeys : List Str :=
  ["access_token", "access-token", "auth_token", "auth-token", "git_token", "git-token", "token",
    "password", "passwd", "secret", "client_secret", "client-secret"].map str

/-- What follows the first occurrence of a key. -/
def afterFirst (key : Str) : Str → Option Str
  | [] => none
  | b :: rest => ((b :: rest).dropPrefix? key).or (afterFirst key rest)

def assigns (rest : Str) : Bool := (trimStart rest).head?.any (oneOf ":=")

def looksLikeCredentialAssignment (lower : Str) : Bool :=
  credentialKeys.any fun key => (afterFirst key lower).any assigns

def marked (lower : Str) : Bool :=
  ["authorization:", "bearer ", "x-access-token:"].any (containsText lower)

def sanitizeGitOutput (line : Str) : Str :=
  if marked (toLower line) || looksLikeCredentialAssignment (toLower line) then [] else trim line

/-- The lines that `sanitize_git_error` shows. -/
def safe (lines : List Str) : List Str := (lines.map sanitizeGitOutput).filter (· ≠ [])

def sanitizeGitError (lines : List Str) : Str :=
  if safe lines = [] then str "(error details redacted for security)"
  else (str "; ").intercalate (safe lines)

inductive StreamSanitizer
  | git
  | build
  | plain

def trimEndMatches (line : Str) : Str := line.rdropWhile fun b => b == 13 || b == 10

def sanitizeStreamLine (line : Str) (sanitizer : StreamSanitizer) : Option Str :=
  let line := trimEndMatches line
  match sanitizer with
  | .git => if sanitizeGitOutput line = [] then none else some (sanitizeGitOutput line ++ [10])
  | .build =>
    if containsText line "(*service).Write failed" ||
        (containsText line "locked for" && containsText line "unavailable") then none
    else some (line ++ [10])
  | .plain => some (line ++ [10])

def maxStreamLineBytes : ℕ := 16 * 1024

inductive Ending
  | endOfFile
  | readError
  | panic
  deriving DecidableEq

/-- A line as it is sanitized. -/
def cut (line : Str) : Str :=
  if maxStreamLineBytes < line.length then line.take maxStreamLineBytes ++ str "...[truncated]"
  else line

/-- Whether the line can be cut at a boundary of its characters, if it is to be. -/
def cuts (text : Str) : Bool := !(text[maxStreamLineBytes]?.any isContinuation)

/-- The lines that `read_line` gives, with their newlines. -/
def readLines : Str → List Str
  | [] => []
  | b :: rest =>
    if b = 10 then [b] :: readLines rest
    else match readLines rest with
      | [] => [[b]]
      | line :: more => (b :: line) :: more

/-- What is sent of the lines to come, and how the loop ends. -/
def streamReader (sanitizer : StreamSanitizer) : List Str → List Str × Ending
  | [] => ([],.endOfFile)
  | line :: rest =>
    if (chars line).isNone then ([],.readError)
    else if !cuts line then ([],.panic)
    else
      let (sent,ending) := streamReader sanitizer rest
      ((sanitizeStreamLine (cut line) sanitizer).toList ++ sent,ending)

/-- Some occurrence of a key is followed by a separator. -/
def Leaks (lower : Str) : Prop :=
  ∃ key ∈ credentialKeys, ∃ before after, lower = before ++ (key ++ after) ∧ assigns after

/-- The first occurrence of some key is, or there is a literal marker. -/
def Seen (lower : Str) : Prop :=
  marked lower ∨ ∃ key ∈ credentialKeys, ∃ after ∈ afterFirst key lower, assigns after

theorem afterFirst_occurs {key lower after : Str} (h : afterFirst key lower = some after) :
    ∃ before, lower = before ++ (key ++ after) := by
  induction lower with
  | nil => cases h
  | cons b rest ih =>
    rcases Option.or_eq_some_iff.mp h with hhere | ⟨-,hlater⟩
    · obtain ⟨front,hfront,hkey⟩ := dropPrefix?_eq_some_iff.mp hhere
      exact ⟨[],by rw [nil_append, hfront, beq_iff_eq.mp hkey]⟩
    · obtain ⟨before,hbefore⟩ := ih hlater
      exact ⟨b :: before,by rw [hbefore, cons_append]⟩

theorem trim_of_leaks {line : Str} (h : Leaks (toLower line)) : trim line ≠ [] := by
  obtain ⟨key,hkey,before,after,hline,-⟩ := h
  have hword : ∀ key ∈ credentialKeys, ∃ b ∈ key, isAlphabetic b = true := by decide
  obtain ⟨b,hb,hletter⟩ := hword key hkey
  have hmem : b ∈ toLower line := by simp [hline, hb]
  obtain ⟨a,ha,rfl⟩ := mem_map.mp hmem
  have hkept : isAlphabetic a = true := by
    by_cases hupper : isUpper a = true
    · simp [isAlphabetic, hupper]
    · simpa [hupper] using hletter
  exact ne_nil_of_mem (letter_mem_trim hkept ha)

theorem looks_iff {lower : Str} : looksLikeCredentialAssignment lower ↔
    ∃ key ∈ credentialKeys, ∃ after ∈ afterFirst key lower, assigns after := by
  simp [looksLikeCredentialAssignment, Option.any_eq_true]

theorem hidden_iff {line : Str} (h : Leaks (toLower line)) :
    sanitizeGitOutput line = [] ↔ Seen (toLower line) := by
  simp only [sanitizeGitOutput, Seen, ← looks_iff, Bool.or_eq_true]
  split_ifs with hseen
  · simp [hseen]
  · simp [hseen, trim_of_leaks h]

theorem safe_append (lines more : List Str) : safe (lines ++ more) = safe lines ++ safe more := by
  rw [safe, map_append, filter_append, safe, safe]

theorem kept (line : Str) (h : ¬ Leaks (toLower line)) (hmarked : marked (toLower line) = false) :
    sanitizeGitOutput line = trim line := by
  have hlooks : looksLikeCredentialAssignment (toLower line) = false := by
    rw [← Bool.not_eq_true, looks_iff]
    rintro ⟨key,hkey,after,hafter,hassigns⟩
    obtain ⟨before,hbefore⟩ := afterFirst_occurs hafter
    exact h ⟨key,hkey,before,after,hbefore,hassigns⟩
  simp [sanitizeGitOutput, hmarked, hlooks]

/-- A line without a leak or a marker is kept. One with a leak adds nothing to the error of
any text, and nothing to a stream, iff the first occurrence of some key leaks or there
is a marker. -/
theorem credentials_hidden_iff (line : Str) :
    (¬ Leaks (toLower line) → marked (toLower line) = false → sanitizeGitOutput line = trim line) ∧
    (Leaks (toLower line) → ((∀ before after,
      sanitizeGitError (before ++ line :: after) = sanitizeGitError (before ++ after)) ↔
        Seen (toLower line))) ∧
    (Leaks (toLower (trimEndMatches line)) →
      (sanitizeStreamLine line .git = none ↔ Seen (toLower (trimEndMatches line)))) := by
  refine ⟨kept line,fun hleaks => ?_,fun hleaks => ?_⟩
  · rw [← hidden_iff hleaks]
    constructor
    · intro h
      by_contra hshown
      have hfirst : safe [str "x"] = [str "x"] := by decide
      have hlast : safe [line] = [sanitizeGitOutput line] := by simp [safe, hshown]
      have hlonger := h [str "x"] []
      rw [sanitizeGitError, safe_append, append_nil, sanitizeGitError, hfirst, hlast] at hlonger
      simp at hlonger
      exact hshown hlonger.2
    · intro h before after
      have hnone : safe (line :: after) = safe after := by simp [safe, h]
      simp only [sanitizeGitError, safe_append, hnone]
  · rw [← hidden_iff hleaks]
    simp [sanitizeStreamLine]

/-- Every line is sent up to the end of the output iff all are UTF-8 and can be cut. -/
theorem streamed_to_end_iff (sanitizer : StreamSanitizer) (output : Str) :
    streamReader sanitizer (readLines output) =
      ((readLines output).filterMap fun line => sanitizeStreamLine (cut line) sanitizer,
        .endOfFile) ↔
    ∀ line ∈ readLines output, (chars line).isSome ∧ cuts line := by
  induction readLines output with
  | nil => simp [streamReader]
  | cons line rest ih =>
    rw [streamReader, forall_mem_cons, ← ih]
    cases hchars : chars line with
    | none => simp
    | some codes =>
      cases hcuts : cuts line with
      | false => simp
      | true =>
        cases hclean : sanitizeStreamLine (cut line) sanitizer <;> simp [hclean, Prod.ext_iff]

/-- The second occurrence of a key leaks and is shown. -/
theorem second_assignment_shown : Leaks (str "token for x: token=abc") ∧
    sanitizeGitOutput (str "token for x: token=abc") = str "token for x: token=abc" := by
  refine ⟨⟨str "token",by decide,str "token for x: ",str "=abc",by decide,by decide⟩,by decide⟩

/-- A byte that is no UTF-8 ends the reader before the next line. -/
theorem invalid_byte_ends_stream :
    streamReader .plain (readLines (255 :: str "\nready\n")) = ([],.readError) := by decide

end Permanu.StreamedOutput
