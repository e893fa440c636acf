import PermanuAgent.AdmissionReconcile
import Mathlib.Data.List.TakeWhile

/-!
# The consumed log of the runner

The log is two files: the rotated one, then the current one. A file is read when
it is a regular file of the runner's owner that others cannot write. Its bytes up
to a limit are taken, a torn last line is cut off, and every other line is decoded
or reported. What the runner wrote in whole lines, within the limit, is read back
line by line.
-/

set_option autoImplicit false

namespace Permanu.ConsumedLog
open ByteText JsonReader PlanActions List
open AdmissionReconcile

def maxLogBytes : ℕ := 33 * 1024 * 1024 + 1024 * 1024

structure Metadata where
  isFile : Bool
  uid : ℕ
  mode : ℕ
  inode : ℕ
  deriving DecidableEq, Repr

/-- The answers to opening a path without following links, to the status of the handle
and to reading it to its end. -/
inductive Opened where
  | notFound
  | failed (error : Str)
  | handle (status : Option Metadata) (contents : Option Str)
  deriving DecidableEq, Repr

def rotated (path : Str) : Str := path ++ str ".1"

def completeLines (bytes : Str) : Str := (bytes.reverse.dropWhile (· ≠ 10)).reverse

def trusted (ownerUid : ℕ) (m : Metadata) : Bool :=
  m.isFile && m.uid == ownerUid && m.mode &&& 0o022 == 0

def readTrusted (file : Str) (ownerUid : ℕ) : Opened → Except Str (Option (Str × ℕ))
  | .notFound => .ok none
  | .failed error => .error (file ++ str ": " ++ error)
  | .handle none _ => .error (file ++ str ": cannot stat")
  | .handle (some status) contents =>
    if !trusted ownerUid status then .error (file ++ str ": unexpected owner, mode or type")
    else match contents with
      | none => .error (file ++ str ": read failed")
      | some bytes => .ok (some (completeLines (bytes.take maxLogBytes), status.inode))

def wellFormed (raw : Str) (line : ConsumedLine) : Bool :=
  if !kindIn actionEvents line.event then line.event ≠ []
  else match readJson raw with
    | none => false
    | some value => value["plan_id"]!.asStr.isSome && value["plan_digest_hex"]!.asStr.isSome
      && value["action_index"]!.asU64.isSome

variable {torn : Str} {lines : List ConsumedLine}

section Decoding

-- the version and the line of a text, as the derived deserialiser reads them
variable (decode : Str → Option (ℕ × ConsumedLine))

def decodeLine (raw : Str) : Option ConsumedLine :=
  match decode raw with
  | some (v, line) => if v = 1 ∧ wellFormed raw line then some line else none
  | none => none

def rawLines (bytes : Str) : List Str := (bytes.splitOn 10).filter (· ≠ [])

def readFile (file : Str) (ownerUid : ℕ) (current : Bool) (opened : Opened) (read : LogRead) :
    LogRead :=
  match readTrusted file ownerUid opened with
  | .ok none => read
  | .error problem => { read with problems := read.problems ++ [problem] }
  | .ok (some (bytes, inode)) =>
    let raws := rawLines bytes
    { lines := read.lines ++ raws.filterMap (decodeLine decode)
      problems := read.problems ++ (raws.filter fun raw => (decodeLine decode raw).isNone).map
        fun _ => str "malformed consumed.log line"
      inode := if current then some inode else read.inode
      offset := if current then bytes.length else read.offset }

def emptyRead : LogRead := ⟨[],[],none,0⟩

variable (render : ConsumedLine → Str)

/-- A text of the line that the reader decodes to the line. -/
structure Readable (line : ConsumedLine) : Prop where
  plain : 10 ∉ render line
  filled : render line ≠ []
  decoded : decode (render line) = some (1, line)
  formed : wellFormed (render line) line = true

def rendered (lines : List ConsumedLine) : Str := lines.flatMap fun line => render line ++ [10]

theorem rendered_cons (line : ConsumedLine) (rest : List ConsumedLine) :
    rendered render (line :: rest) = render line ++ 10 :: rendered render rest := by
  simp [rendered]

theorem rendered_concat (lines : List ConsumedLine) (line : ConsumedLine) :
    rendered render (lines ++ [line]) = rendered render lines ++ (render line ++ [10]) := by
  simp [rendered]

theorem completeLines_torn {bytes : Str} (h : 10 ∉ torn) :
    completeLines (bytes ++ 10 :: torn) = bytes ++ [10] := by
  have hdrop :
      ((10 :: torn).reverse ++ bytes.reverse).dropWhile (· ≠ 10) = 10 :: bytes.reverse := by
    rw [reverse_cons, append_assoc, dropWhile_append_of_pos]
    · simp
    · intro b hb
      have : b ≠ 10 := fun heq => h (heq ▸ mem_reverse.mp hb)
      simpa using this
  rw [completeLines, reverse_append, hdrop]
  simp

theorem completeLines_rendered (h : 10 ∉ torn) :
    completeLines (rendered render lines ++ torn) = rendered render lines := by
  rcases eq_nil_or_concat lines with rfl | ⟨before,line,rfl⟩
  · -- without a line feed nothing is kept
    have hdrop : torn.reverse.dropWhile (· ≠ 10) = [] := by
      rw [dropWhile_eq_nil_iff]
      intro b hb
      have : b ≠ 10 := fun heq => h (heq ▸ mem_reverse.mp hb)
      simpa using this
    show completeLines torn = []
    rw [completeLines, hdrop, reverse_nil]
  · rw [concat_eq_append, rendered_concat, ← append_assoc, append_assoc _ [10]]
    exact completeLines_torn h

theorem rawLines_rendered
    (h : ∀ line ∈ lines, Readable decode render line) :
    rawLines (rendered render lines) = lines.map render := by
  induction lines with
  | nil => rfl
  | cons line rest ih =>
    have hline := h line mem_cons_self
    have hsplit : (rendered render (line :: rest)).splitOn 10 =
        render line :: (rendered render rest).splitOn 10 := by
      rw [rendered_cons]
      apply splitOnP_append_cons_of_forall_mem
      · intro b hb
        have : b ≠ 10 := fun heq => hline.plain (heq ▸ hb)
        simpa using this
      · rfl
    have hrest := ih fun l hl => h l (mem_cons_of_mem _ hl)
    rw [rawLines, hsplit, filter_cons_of_pos (by simpa using hline.filled), map_cons,
      ← hrest, rawLines]

theorem decodeLine_render {line : ConsumedLine} (h : Readable decode render line) :
    decodeLine decode (render line) = some line := by
  simp [decodeLine, h.decoded, h.formed]

/-- A trusted file of whole lines within the limit is read back, whatever is torn at its end. -/
theorem readFile_rendered {file : Str} {ownerUid : ℕ} {current : Bool} {status : Metadata}
    {read : LogRead} (htrust : trusted ownerUid status = true)
    (hlines : ∀ line ∈ lines, Readable decode render line) (htorn : 10 ∉ torn)
    (hsize : (rendered render lines).length ≤ maxLogBytes) :
    readFile decode file ownerUid current
      (.handle (some status) (some (rendered render lines ++ torn))) read =
      { lines := read.lines ++ lines
        problems := read.problems
        inode := if current then some status.inode else read.inode
        offset := if current then (rendered render lines).length else read.offset } := by
  have htake : (rendered render lines ++ torn).take maxLogBytes =
      rendered render lines ++ torn.take (maxLogBytes - (rendered render lines).length) := by
    rw [take_append, take_of_length_le hsize]
  have hbytes : readTrusted file ownerUid
      (.handle (some status) (some (rendered render lines ++ torn))) =
      .ok (some (rendered render lines, status.inode)) := by
    simp only [readTrusted, htrust, Bool.not_true, Bool.false_eq_true, if_false, htake]
    rw [completeLines_rendered render fun h => htorn (mem_of_mem_take h)]
  have hdecoded : (lines.map render).filterMap (decodeLine decode) = lines := by
    rw [filterMap_map]
    exact (filterMap_congr fun line hl => decodeLine_render decode render (hlines line hl)).trans
      filterMap_some
  have hproblems : (lines.map render).filter (fun raw => (decodeLine decode raw).isNone) = [] := by
    rw [filter_eq_nil_iff]
    intro raw hraw
    obtain ⟨line,hl,rfl⟩ := mem_map.mp hraw
    simp [decodeLine_render decode render (hlines line hl)]
  simp only [readFile, hbytes, rawLines_rendered decode render hlines, hdecoded, hproblems,
    map_nil, append_nil]

end Decoding

end Permanu.ConsumedLog
