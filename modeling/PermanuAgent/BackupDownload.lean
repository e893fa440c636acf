import PermanuAgent.ByteText

/-!
# The download of a backup

`ReadBackupArtifact` streams a file in chunks until it has passed the length that the file
had when it was opened. Each read finds the file as it is then; an empty answer is its end.
The loop does not take that for the end of the stream: a file that was cut meanwhile gives
empty chunks for ever.
-/

set_option autoImplicit false

namespace Permanu.BackupDownload
open ByteText List

def chunkBytes : ℕ := 1024 * 1024

structure Chunk where
  offset : ℕ
  data : Str
  totalBytes : ℕ
  last : Bool
  contentDigestHex : Str
  deriving DecidableEq, Repr

inductive Phase where
  | reading
  | ended
  | failed
  deriving DecidableEq, Repr

structure Download where
  position : ℕ
  buffer : Str
  sent : List Chunk
  phase : Phase
  deriving DecidableEq, Repr

/-- The file at a read, and how many bytes the read returns at most. -/
structure Moment where
  content : Str
  count : ℕ
  fails : Bool

def Moment.returns (m : Moment) (place room : ℕ) : Option Str :=
  if m.fails then none else some ((m.content.drop place).take (min (m.count + 1) room))

variable (total : ℕ) (digest : Str) (offset : ℕ) (file : ℕ → Moment)

def Download.send (d : Download) : Download :=
  let last := decide (total ≤ d.position + d.buffer.length)
  { position := d.position + d.buffer.length
    buffer := []
    sent := d.sent ++ [⟨d.position,d.buffer,total,last,if last then digest else []⟩]
    phase := if last then .ended else .reading }

def Download.read (d : Download) : Option Str → Download
  | none => { d with phase := .failed }
  | some data =>
    let d := { d with buffer := d.buffer ++ data }
    -- the inner loop ends at the end of the file or with a full buffer
    if data = [] ∨ chunkBytes ≤ d.buffer.length then d.send total digest else d

/-- What read `n` answers: the file is behind the bytes that were read from it, and the
buffer has room for the rest of a chunk. -/
def Download.answer (d : Download) (n : ℕ) : Option Str :=
  (file n).returns (d.position + d.buffer.length) (chunkBytes - d.buffer.length)

def after : ℕ → Download
  | 0 => ⟨offset,[],[],.reading⟩
  | n + 1 =>
    if (after n).phase = .reading then (after n).read total digest ((after n).answer file n)
    else after n

/-- Where the file is read by read `n`, behind what the reads before it found there, and how
much of a chunk they have filled. -/
def place : ℕ → ℕ × ℕ
  | 0 => (offset,0)
  | n + 1 =>
    let found := (((file n).returns (place n).1 (chunkBytes - (place n).2)).getD []).length
    let filled := (place n).2 + found
    ((place n).1 + found,if found = 0 ∨ chunkBytes ≤ filled then 0 else filled)

def sentBytes (chunks : List Chunk) : ℕ := (chunks.map fun chunk => chunk.data.length).sum

def Contiguous (offset : ℕ) : List Chunk → Prop
  | [] => True
  | chunk :: rest => chunk.offset = offset ∧ Contiguous (offset + chunk.data.length) rest

/-- The bytes from `start` on were found there by one of the first `n` reads. -/
def Held (n start : ℕ) (data : Str) : Prop :=
  ∀ i b, data[i]? = some b → ∃ k < n, (file k).content[start + i]? = some b

def Unmarked (chunk : Chunk) : Prop := chunk.last = false ∧ chunk.contentDigestHex = []

/-- Only a stream that has ended has a chunk marked last: its last one, with the digest. -/
def Marked (d : Download) : Prop :=
  if d.phase = .ended then ∃ front chunk, d.sent = front ++ [chunk] ∧ (∀ c ∈ front, Unmarked c) ∧
    chunk.last = true ∧ chunk.contentDigestHex = digest
  else ∀ c ∈ d.sent, Unmarked c

/-- What the loop has sent and holds before read `n`. -/
structure Running (n : ℕ) (d : Download) : Prop where
  contiguous : Contiguous offset d.sent
  sent : d.position = offset + sentBytes d.sent
  held : ∀ chunk ∈ d.sent, Held file n chunk.offset chunk.data
  buffer : Held file n d.position d.buffer
  marked : Marked digest d

/-- As long as the loop goes on, it reads where the reads so far have got to; it ends with a
read that fails or behind one that got to the length at open. -/
def Stands (n : ℕ) (d : Download) : Prop :=
  if d.phase = .reading then (d.position + d.buffer.length,d.buffer.length) = place offset file n
  else ∃ m, (file m).fails = true ∨ total ≤ (place offset file m).1

variable {total digest offset file} {n start : ℕ} {data : Str} {d : Download}

theorem contiguous_concat (chunks : List Chunk) (chunk : Chunk) :
    Contiguous offset (chunks ++ [chunk]) ↔
      Contiguous offset chunks ∧ chunk.offset = offset + sentBytes chunks := by
  induction chunks generalizing offset with
  | nil => simp [Contiguous, sentBytes]
  | cons first rest ih =>
    rw [cons_append, Contiguous, ih, Contiguous, and_assoc, sentBytes, sentBytes, map_cons,
      sum_cons, Nat.add_assoc]

theorem Held.succ (h : Held file n start data) : Held file (n + 1) start data := by
  intro i b hb
  obtain ⟨k,hk,hbyte⟩ := h i b hb
  exact ⟨k,by omega,hbyte⟩

theorem Held.append {more : Str} (h : Held file n start data)
    (hmore : Held file n (start + data.length) more) : Held file n start (data ++ more) := by
  intro i b hb
  by_cases hi : i < data.length
  · rw [getElem?_append_left hi] at hb
    exact h i b hb
  · rw [getElem?_append_right (by omega)] at hb
    obtain ⟨k,hk,hbyte⟩ := hmore _ b hb
    refine ⟨k,hk,?_⟩
    rwa [show start + data.length + (i - data.length) = start + i by omega] at hbyte

theorem Running.succ (h : Running digest offset file n d) :
    Running digest offset file (n + 1) d :=
  ⟨h.contiguous,h.sent,fun chunk hc => (h.held chunk hc).succ,h.buffer.succ,h.marked⟩

theorem Running.send (h : Running digest offset file n d) (hphase : d.phase = .reading) :
    Running digest offset file n (d.send total digest) := by
  have hmarked : ∀ c ∈ d.sent, Unmarked c := by
    simpa [Marked, hphase] using h.marked
  refine ⟨(contiguous_concat _ _).2 ⟨h.contiguous,h.sent⟩,?_,?_,
    fun i b hb => by simp [Download.send] at hb,?_⟩
  · simp [Download.send, sentBytes, h.sent, Nat.add_assoc]
  · intro chunk hchunk
    rcases mem_append.1 hchunk with hold | hnew
    · exact h.held chunk hold
    · rw [mem_singleton.1 hnew]
      exact h.buffer
  · by_cases hlast : total ≤ d.position + d.buffer.length
    · simp only [Marked, Download.send, hlast, decide_true, if_true]
      exact ⟨d.sent,_,rfl,hmarked,rfl,rfl⟩
    · simpa [Marked, Download.send, hlast, Unmarked, or_imp, forall_and] using hmarked

theorem Running.read (h : Running digest offset file n d) (hphase : d.phase = .reading) :
    Running digest offset file (n + 1) (d.read total digest (d.answer file n)) := by
  have hnext := h.succ
  cases hanswer : d.answer file n with
  | none =>
    exact ⟨hnext.contiguous,hnext.sent,hnext.held,hnext.buffer,
      by simpa [Marked, hphase, Download.read] using h.marked⟩
  | some data =>
    have hread : Held file (n + 1) (d.position + d.buffer.length) data := by
      intro i b hb
      refine ⟨n,Nat.lt_succ_self n,?_⟩
      rw [Download.answer, Moment.returns, Option.ite_none_left_eq_some] at hanswer
      rw [← Option.some.inj hanswer.2, getElem?_take, Option.ite_none_right_eq_some,
        getElem?_drop] at hb
      exact hb.2
    have hgrown : Running digest offset file (n + 1) { d with buffer := d.buffer ++ data } :=
      ⟨hnext.contiguous,hnext.sent,hnext.held,hnext.buffer.append hread,hnext.marked⟩
    rw [Download.read]
    split
    · exact hgrown.send hphase
    · exact hgrown

theorem running (total : ℕ) (digest : Str) (offset : ℕ) (file : ℕ → Moment) (n : ℕ) :
    Running digest offset file n (after total digest offset file n) := by
  induction n with
  | zero =>
    exact ⟨trivial,rfl,fun _ h => (nomatch h),fun i b hb => by simp [after] at hb,
      by simp [Marked, after]⟩
  | succ n ih =>
    rw [after]
    split
    · next hphase => exact ih.read hphase
    · exact ih.succ

theorem place_succ (h : (d.position + d.buffer.length,d.buffer.length) = place offset file n) :
    place offset file (n + 1) =
      let found := ((d.answer file n).getD []).length
      let filled := d.buffer.length + found
      (d.position + filled,if found = 0 ∨ chunkBytes ≤ filled then 0 else filled) := by
  rw [place, ← h, Download.answer, Nat.add_assoc]

theorem Stands.read (h : Stands total offset file n d) (hphase : d.phase = .reading) :
    Stands total offset file (n + 1) (d.read total digest (d.answer file n)) := by
  rw [Stands, if_pos hphase] at h
  have hplace := place_succ h
  cases hanswer : d.answer file n with
  | none =>
    rw [Download.answer, Moment.returns] at hanswer
    exact ⟨n,.inl (by simpa using hanswer)⟩
  | some data =>
    simp only [hanswer, Option.getD_some, length_eq_zero_iff] at hplace
    rw [Stands, Download.read]
    split
    · next hfull =>
      rw [length_append] at hfull
      rw [if_pos hfull] at hplace
      by_cases hlast : total ≤ d.position + (d.buffer.length + data.length)
      · simp only [Download.send, length_append, hlast, decide_true, if_true]
        exact ⟨n + 1,.inr (by rwa [hplace])⟩
      · simp [Download.send, hlast, hplace]
    · next hopen =>
      rw [length_append] at hopen
      simp [hplace, hopen]

end Permanu.BackupDownload
