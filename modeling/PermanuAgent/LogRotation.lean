import PermanuAgent.AdmissionPasses
import PermanuAgent.ConsumedLog
import PermanuAgent.PlanAuthority
import PermanuAgent.StepRuns

/-!
# The rotation of the consumed log

The runner appends lines to the current file and may rename it over the rotated
one; the agent opens and reads the rotated file, opens and reads the current one
and applies what it read. The steps of the two interleave freely. A file that was
opened is read through its handle, whatever became of its name. When no rename
falls between the two opens and no file outgrows the limit of the reader, the
lines up to the cursor have all been applied. A rename between the two opens hides
a whole file from the reader, and the cursor passes over its lines.
-/

set_option autoImplicit false

namespace Permanu.LogRotation
open ByteText JsonReader StepRuns List Option Nat
open AdmissionStore AdmissionReconcile AdmissionPasses ConsumedLog

structure Setting where
  path : Str
  ownerUid : ℕ
  mode : ℕ
  decode : Str → Option (ℕ × ConsumedLine)
  render : ConsumedLine → Str
  log : List ConsumedLine

/-- The lines have consecutive numbers from one, the files are the owner's alone. -/
structure Setting.Proper (w : Setting) : Prop where
  closed : w.mode &&& 0o022 = 0
  readable : ∀ line ∈ w.log, Readable w.decode w.render line
  numbered : ∀ (k : ℕ) (line : ConsumedLine), w.log[k]? = some line → line.seq = k + 1

structure Segment where
  first : ℕ
  count : ℕ
  torn : Str

def Segment.stop (g : Segment) : ℕ := g.first + g.count

def Segment.lines (log : List ConsumedLine) (g : Segment) : List ConsumedLine :=
  (log.drop g.first).take g.count

/-- Where the reader stands: before a pass, with the rotated file open, between the two
files, with the current file open, and with both read. -/
inductive Reader where
  | idle
  | first (inode : ℕ)
  | between (read : LogRead)
  | second (read : LogRead) (inode : ℕ)
  | complete (read : LogRead)

def Reader.opening : Reader → Bool
  | .first _ => true
  | .between _ => true
  | _ => false

/-- The files by inode, the two names, the number of lines written, whether a rotation
happened since the reader last opened the rotated file or read the current one, the
reader, the store and all lines that passes went through. -/
structure System where
  files : ℕ → Segment
  fresh : ℕ
  rotated : Option ℕ
  current : Option ℕ
  written : ℕ
  turned : Bool
  reader : Reader
  store : Store
  passed : List ConsumedLine

inductive Event where
  | append
  | tear (bytes : Str)
  | rename
  | create
  | openRotated
  | readRotated
  | openCurrent
  | readCurrent
  | reconcile (now : ℤ)
  deriving DecidableEq

def initial (store : Store) : System :=
  ⟨fun _ => ⟨0,0,[]⟩,0,none,none,0,false,.idle,store,[]⟩

variable (w : Setting)

def opened (s : System) (inode : ℕ) : Opened :=
  .handle (some ⟨true,w.ownerUid,w.mode,inode⟩)
    (some (rendered w.render ((s.files inode).lines w.log) ++ (s.files inode).torn))

def readFirst (answer : Opened) : LogRead :=
  readFile w.decode (rotated w.path) w.ownerUid false answer emptyRead

def readSecond (answer : Opened) (read : LogRead) : LogRead :=
  readFile w.decode w.path w.ownerUid true answer read

def setFile (s : System) (inode : ℕ) (g : Segment) : System :=
  { s with files := Function.update s.files inode g }

def renamed (s : System) (f : ℕ) : System :=
  { s with rotated := some f, current := none, turned := true }

def advance (s : System) : Event → System
  | .append =>
    match s.current with
    | none => s
    | some f =>
      if s.written < w.log.length then
        setFile { s with written := s.written + 1 } f ⟨(s.files f).first,(s.files f).count + 1,[]⟩
      else s
  | .tear bytes =>
    match s.current with
    | none => s
    | some f => if 10 ∈ bytes then s else setFile s f { s.files f with torn := bytes }
  | .rename =>
    match s.current with
    | none => s
    | some f =>
      if s.turned then s else renamed s f
  | .create =>
    match s.current with
    | some _ => s
    | none =>
      setFile { s with fresh := s.fresh + 1, current := some s.fresh } s.fresh ⟨s.written,0,[]⟩
  | .openRotated =>
    match s.reader, s.rotated with
    | .idle, none => { s with turned := false, reader := .between (readFirst w .notFound) }
    | .idle, some f => { s with turned := false, reader := .first f }
    | _, _ => s
  | .readRotated =>
    match s.reader with
    | .first f => { s with reader := .between (readFirst w (opened w s f)) }
    | _ => s
  | .openCurrent =>
    match s.reader, s.current with
    | .between read, none => { s with reader := .complete (readSecond w .notFound read) }
    | .between read, some f => { s with reader := .second read f }
    | _, _ => s
  | .readCurrent =>
    match s.reader with
    | .second read f =>
      { s with turned := false, reader := .complete (readSecond w (opened w s f) read) }
    | _ => s
  | .reconcile now =>
    match s.reader with
    | .complete read =>
      { s with
        reader := .idle
        store := (reconcile read now s.store).1
        passed := s.passed ++ newLines (lastSeqOf s.store) read.lines }
    | _ => s

/-- Only lines of the log before a position. -/
def Within (log lines : List ConsumedLine) (stop : ℕ) : Prop :=
  ∀ line ∈ lines, ∃ k < stop, log[k]? = some line

/-- All lines of the log from a position to another. -/
def Covers (log lines : List ConsumedLine) (start stop : ℕ) : Prop :=
  ∀ (k : ℕ) (line : ConsumedLine), start ≤ k → k < stop → log[k]? = some line → line ∈ lines

theorem Segment.mem_lines (log : List ConsumedLine) (g : Segment) {line : ConsumedLine} :
    line ∈ g.lines log ↔ ∃ k, g.first ≤ k ∧ k < g.stop ∧ log[k]? = some line := by
  rw [lines, mem_iff_getElem?]
  constructor
  · rintro ⟨i,hi⟩
    rw [getElem?_take] at hi
    split_ifs at hi with hlt
    rw [getElem?_drop] at hi
    exact ⟨g.first + i,by omega,by unfold stop; omega,hi⟩
  · rintro ⟨k,hlo,hhi,hk⟩
    unfold stop at hhi
    refine ⟨k - g.first,?_⟩
    rw [getElem?_take, if_pos (by omega), getElem?_drop]
    rwa [Nat.add_sub_cancel' hlo]

theorem Segment.lines_subset (log : List ConsumedLine) {g : Segment} : g.lines log ⊆ log :=
  fun _ h => mem_of_mem_drop (mem_of_mem_take h)

theorem Segment.within (log : List ConsumedLine) {g : Segment} :
    Within log (g.lines log) g.stop := by
  intro line hl
  obtain ⟨k,_,hlt,hk⟩ := (g.mem_lines log).mp hl
  exact ⟨k,hlt,hk⟩

theorem Segment.covers (log : List ConsumedLine) {g : Segment} :
    Covers log (g.lines log) g.first g.stop := fun k _ hlo hhi hk =>
  (g.mem_lines log).mpr ⟨k,hlo,hhi,hk⟩

variable {first second : List ConsumedLine} {f from' mid : ℕ} {r : Reader}

theorem Within.append {log : List ConsumedLine} {stop : ℕ} (h : mid ≤ stop)
    (h1 : Within log first mid) (h2 : Within log second stop) :
    Within log (first ++ second) stop := by
  intro line hl
  rcases mem_append.mp hl with hl | hl
  · obtain ⟨k,hlt,hk⟩ := h1 line hl
    exact ⟨k,by omega,hk⟩
  · exact h2 line hl

theorem Covers.append {log : List ConsumedLine} {start stop : ℕ}
    (h1 : Covers log first start mid) (h2 : Covers log second mid stop) :
    Covers log (first ++ second) start stop := by
  intro k line hlo hhi hk
  by_cases hmid : k < mid
  · exact mem_append_left _ (h1 k line hlo hmid hk)
  · exact mem_append_right _ (h2 k line (by omega) hhi hk)

def System.start (s : System) : ℕ := s.current.elim s.written fun f => (s.files f).first

structure Disk (s : System) : Prop where
  logged : s.written ≤ w.log.length
  plain : ∀ f, 10 ∉ (s.files f).torn
  sized : ∀ f, (rendered w.render ((s.files f).lines w.log)).length ≤ maxLogBytes
  stops : ∀ f, (s.files f).stop ≤ s.written
  current : ∀ f, s.current = some f → f < s.fresh ∧ (s.files f).stop = s.written ∧
    s.rotated ≠ some f
  rotated : ∀ f, s.rotated = some f → f < s.fresh ∧ (s.files f).stop = s.start
  unrotated : s.rotated = none → s.start = 0

/-- The lines from a position on are in the rotated file and the current one. -/
def Reached (s : System) (from' : ℕ) : Prop :=
  s.start ≤ from' ∨ ∃ f, s.rotated = some f ∧ (s.files f).first ≤ from'

/-- Another rotation would not lose a line from the position on, unless there was one. -/
structure Kept (s : System) (from' : ℕ) : Prop where
  reached : Reached s from'
  ready : s.turned = false → s.start ≤ from'

def Phase (s : System) : Reader → Prop
  | .idle => Kept s (lastSeqOf s.store)
  | .first f => s.rotated = some f ∧ Reached s (lastSeqOf s.store)
  | .between read => Within w.log read.lines s.start ∧
    Covers w.log read.lines (lastSeqOf s.store) s.start
  | .second read f => f < s.fresh ∧ Within w.log read.lines (s.files f).first ∧
    Covers w.log read.lines (lastSeqOf s.store) (s.files f).first ∧
    lastSeqOf s.store ≤ (s.files f).stop ∧ s.start ≤ (s.files f).stop ∧
    (s.turned = false → s.current = some f)
  | .complete read => ∃ stop, Within w.log read.lines stop ∧
    Covers w.log read.lines (lastSeqOf s.store) stop ∧ lastSeqOf s.store ≤ stop ∧
    stop ≤ s.written ∧ Kept s stop

structure Inv (s : System) : Prop where
  disk : Disk w s
  known : lastSeqOf s.store ≤ s.written
  passed : ∀ (k : ℕ) (line : ConsumedLine), w.log[k]? = some line → k < lastSeqOf s.store →
    line ∈ s.passed
  phase : Phase w s s.reader

def Undisturbed (s : System) : Event → Prop
  | .rename => s.reader.opening = false
  | .append => ∀ f ∈ s.current,
    (rendered w.render (Segment.lines w.log ⟨(s.files f).first,(s.files f).count + 1,[]⟩)).length
      ≤ maxLogBytes
  | _ => True

instance (s : System) (event : Event) : Decidable (Undisturbed w s event) :=
  match event with
  | .rename => inferInstanceAs (Decidable (_ = _))
  | .append => inferInstanceAs (Decidable (∀ f ∈ s.current, _))
  | .tear _ | .create | .openRotated | .readRotated | .openCurrent | .readCurrent | .reconcile _ =>
    .isTrue trivial

structure Grows (s t : System) : Prop where
  start : t.start = s.start
  first : ∀ f < s.fresh, (t.files f).first = (s.files f).first
  stop : ∀ f < s.fresh, (s.files f).stop ≤ (t.files f).stop
  current : ∀ f, s.current = some f → t.current = some f
  fresh : s.fresh ≤ t.fresh
  written : s.written ≤ t.written
  rotated : t.rotated = s.rotated
  turned : t.turned = s.turned
  reader : t.reader = s.reader
  store : t.store = s.store
  passed : t.passed = s.passed

variable {w} {s t : System}

theorem Grows.reached (h : Grows s t) (hd : Disk w s)
    (hr : Reached s from') : Reached t from' := by
  rcases hr with hr | ⟨f,hf,hle⟩
  · exact .inl (h.start ▸ hr)
  · refine .inr ⟨f,h.rotated ▸ hf,?_⟩
    rw [h.first f (hd.rotated f hf).1]
    exact hle

theorem Grows.kept (h : Grows s t) (hd : Disk w s) (hk : Kept s from') : Kept t from' :=
  ⟨h.reached hd hk.reached,fun ht => h.start ▸ hk.ready (h.turned ▸ ht)⟩

theorem Grows.phase (h : Grows s t) (hd : Disk w s)
    (hp : Phase w s r) : Phase w t r := by
  cases r with
  | idle =>
    rw [Phase, h.store]
    exact h.kept hd hp
  | first f => exact ⟨h.rotated ▸ hp.1,h.store ▸ h.reached hd hp.2⟩
  | between read =>
    rw [Phase, h.start, h.store]
    exact hp
  | second read f =>
    obtain ⟨hf,hwithin,hcovers,hknown,hstart,hcur⟩ := hp
    have hstop := h.stop f hf
    rw [Phase, h.start, h.store, h.first f hf]
    exact ⟨hf.trans_le h.fresh,hwithin,hcovers,hknown.trans hstop,hstart.trans hstop,
      fun ht => h.current f (hcur (h.turned ▸ ht))⟩
  | complete read =>
    obtain ⟨stop,hwithin,hcovers,hknown,hle,hk⟩ := hp
    rw [Phase, h.store]
    exact ⟨stop,hwithin,hcovers,hknown,hle.trans h.written,h.kept hd hk⟩

theorem Grows.inv (h : Grows s t) (hd : Disk w t) (hi : Inv w s) : Inv w t := by
  constructor
  · exact hd
  · rw [h.store]
    exact hi.known.trans h.written
  · rw [h.store, h.passed]
    exact hi.passed
  · rw [h.reader]
    exact h.phase hi.disk hi.phase

theorem setFile_files (s : System) (f : ℕ) (g : Segment) (i : ℕ) :
    (setFile s f g).files i = if i = f then g else s.files i := Function.update_apply ..

theorem write_inv (hi : Inv w s) (hcur : s.current = some f) (g : Segment)
    (written : ℕ) (hfirst : g.first = (s.files f).first) (hstop : g.stop = written)
    (hle : s.written ≤ written) (hlog : written ≤ w.log.length) (hplain : 10 ∉ g.torn)
    (hsize : (rendered w.render (g.lines w.log)).length ≤ maxLogBytes) :
    Inv w (setFile { s with written := written } f g) := by
  have hd := hi.disk
  obtain ⟨hf,hend,hrot⟩ := hd.current f hcur
  have hstart : (setFile { s with written := written } f g).start = s.start := by
    simp [System.start, setFile, hcur, hfirst]
  refine Grows.inv (s := s) ⟨hstart,?_,?_,fun _ h => h,le_rfl,hle,rfl,rfl,rfl,rfl,rfl⟩ ?_ hi
  · intro i _
    rw [setFile_files]
    split_ifs with h
    · rw [hfirst, h]
    · rfl
  · intro i _
    rw [setFile_files]
    split_ifs with h
    · rw [hstop, h, hend]
      exact hle
    · exact le_rfl
  · constructor
    · exact hlog
    · intro i
      rw [setFile_files]
      split_ifs
      · exact hplain
      · exact hd.plain i
    · intro i
      rw [setFile_files]
      split_ifs
      · exact hsize
      · exact hd.sized i
    · intro i
      rw [setFile_files]
      split_ifs
      · exact hstop.le
      · exact (hd.stops i).trans hle
    · intro i hc
      obtain rfl : f = i := some.inj (hcur.symm.trans hc)
      rw [setFile_files, if_pos rfl]
      exact ⟨hf,hstop,hrot⟩
    · intro i hr
      have hne : i ≠ f := fun heq => hrot (heq ▸ hr)
      rw [setFile_files, if_neg hne, hstart]
      exact hd.rotated i hr
    · intro hnone
      rw [hstart]
      exact hd.unrotated hnone

theorem create_inv (hi : Inv w s) (hcur : s.current = none) :
    Inv w (setFile { s with fresh := s.fresh + 1, current := some s.fresh } s.fresh
      ⟨s.written,0,[]⟩) := by
  have hd := hi.disk
  have hstart : (setFile { s with fresh := s.fresh + 1, current := some s.fresh } s.fresh
      ⟨s.written,0,[]⟩).start = s.start := by
    simp [System.start, setFile, hcur]
  -- the new inode is none of those in use
  refine Grows.inv (s := s) ⟨hstart,?_,?_,?_,le_succ _,le_rfl,rfl,rfl,rfl,rfl,rfl⟩ ?_ hi
  · intro i hlt
    rw [setFile_files, if_neg hlt.ne]
  · intro i hlt
    rw [setFile_files, if_neg hlt.ne]
  · intro i h
    rw [hcur] at h
    cases h
  · constructor
    · exact hd.logged
    · intro i
      rw [setFile_files]
      split_ifs
      · exact not_mem_nil
      · exact hd.plain i
    · intro i
      rw [setFile_files]
      split_ifs
      · simp [Segment.lines, rendered]
      · exact hd.sized i
    · intro i
      rw [setFile_files]
      split_ifs
      · exact le_rfl
      · exact hd.stops i
    · intro i hc
      obtain rfl : s.fresh = i := some.inj hc
      rw [setFile_files, if_pos rfl]
      exact ⟨lt_succ_self _,rfl,fun hr => absurd (hd.rotated _ hr).1 (lt_irrefl _)⟩
    · intro i hr
      obtain ⟨hlt,hstop⟩ := hd.rotated i hr
      rw [setFile_files, if_neg hlt.ne, hstart]
      exact ⟨hlt.trans (lt_succ_self _),hstop⟩
    · intro hnone
      rw [hstart]
      exact hd.unrotated hnone

/-- A rename outside the two opens: the file that moves was read up to its start, or is
the one the reader has open. -/
theorem phase_renamed (hd : Disk w s) (hcur : s.current = some f)
    (hturned : s.turned = false) (hopen : r.opening = false) (hp : Phase w s r) :
    Phase w (renamed s f) r := by
  have hstart : s.start = (s.files f).first := by
    simp [System.start, hcur]
  have hkept : ∀ from' : ℕ, Kept s from' → Kept (renamed s f) from' := by
    intro from' hk
    exact ⟨.inr ⟨f,rfl,hstart ▸ hk.ready hturned⟩,by simp [renamed]⟩
  cases r with
  | idle => exact hkept _ hp
  | first i | between read => cases hopen
  | second read i =>
    obtain ⟨hi,hwithin,hcovers,hknown,_,hhandle⟩ := hp
    obtain rfl : f = i := some.inj (hcur.symm.trans (hhandle hturned))
    exact ⟨hi,hwithin,hcovers,hknown,(hd.current f hcur).2.1.ge,by simp [renamed]⟩
  | complete read =>
    obtain ⟨stop,hwithin,hcovers,hknown,hle,hk⟩ := hp
    exact ⟨stop,hwithin,hcovers,hknown,hle,hkept stop hk⟩

theorem rename_inv (hi : Inv w s) (hcur : s.current = some f)
    (hturned : s.turned = false) (hopen : s.reader.opening = false) : Inv w (renamed s f) := by
  have hd := hi.disk
  obtain ⟨hf,hstop,_⟩ := hd.current f hcur
  constructor
  · refine ⟨hd.logged,hd.plain,hd.sized,hd.stops,by simp [renamed],fun i hr => ?_,by simp [renamed]⟩
    obtain rfl : f = i := some.inj hr
    exact ⟨hf,hstop⟩
  · exact hi.known
  · exact hi.passed
  · exact phase_renamed hd hcur hturned hopen hi.phase

theorem reader_inv (hi : Inv w s) (turned : Bool) (r : Reader)
    (h : Phase w { s with turned := turned, reader := r } r) :
    Inv w { s with turned := turned, reader := r } :=
  ⟨{ hi.disk with },hi.known,hi.passed,h⟩

theorem readFile_opened (hw : w.Proper) (hd : Disk w s) (file : Str) (current : Bool)
    (f : ℕ) (read : LogRead) :
    (readFile w.decode file w.ownerUid current (opened w s f) read).lines =
      read.lines ++ (s.files f).lines w.log := by
  rw [opened, readFile_rendered w.decode w.render]
  · simp [trusted, hw.closed]
  · exact fun line hl => hw.readable line (Segment.lines_subset _ hl)
  · exact hd.plain f
  · exact hd.sized f

theorem openRotated_inv (hi : Inv w s) : Inv w (advance w s .openRotated) := by
  have hphase := hi.phase
  simp only [advance]
  split
  · rename_i hidle hnone
    apply reader_inv hi
    -- without a rotated file the current one starts at the first line
    have hstart := hi.disk.unrotated hnone
    refine ⟨fun line hl => absurd hl not_mem_nil,fun k line _ hlt => ?_⟩
    exact absurd hlt (by show ¬ k < s.start; omega)
  · rename_i f hidle hsome
    rw [hidle] at hphase
    apply reader_inv hi
    exact ⟨hsome,hphase.reached⟩
  · exact hi

theorem readRotated_inv (hw : w.Proper) (hi : Inv w s) : Inv w (advance w s .readRotated) := by
  have hphase := hi.phase
  simp only [advance]
  split
  · rename_i f hfirst
    rw [hfirst] at hphase
    obtain ⟨hrot,hreached⟩ := hphase
    have hlines : (readFirst w (opened w s f)).lines = (s.files f).lines w.log := by
      rw [readFirst, readFile_opened hw hi.disk]
      rfl
    have hstop := (hi.disk.rotated f hrot).2
    apply reader_inv hi s.turned
    show Within w.log (readFirst w (opened w s f)).lines s.start ∧
      Covers w.log (readFirst w (opened w s f)).lines (lastSeqOf s.store) s.start
    rw [hlines, ← hstop]
    refine ⟨Segment.within _,fun k line hlo hhi hk => ?_⟩
    rcases hreached with hle | ⟨i,hi,hle⟩
    · omega
    · obtain rfl : f = i := some.inj (hrot.symm.trans hi)
      exact Segment.covers _ k line (hle.trans hlo) hhi hk
  · exact hi

theorem openCurrent_inv (hi : Inv w s) : Inv w (advance w s .openCurrent) := by
  have hphase := hi.phase
  simp only [advance]
  split
  · rename_i read hbetween hnone
    rw [hbetween] at hphase
    have hstart : s.start = s.written := by simp [System.start, hnone]
    rw [Phase, hstart] at hphase
    apply reader_inv hi s.turned
    exact ⟨s.written,hphase.1,hphase.2,hi.known,le_rfl,.inl hstart.le,fun _ => hstart.le⟩
  · rename_i read f hbetween hsome
    rw [hbetween] at hphase
    have hstart : s.start = (s.files f).first := by simp [System.start, hsome]
    rw [Phase, hstart] at hphase
    obtain ⟨hf,hstop,_⟩ := hi.disk.current f hsome
    apply reader_inv hi s.turned
    refine ⟨hf,hphase.1,hphase.2,hi.known.trans hstop.ge,?_,fun _ => hsome⟩
    exact hstart.le.trans (le_add_right _ _)
  · exact hi

theorem readCurrent_inv (hw : w.Proper) (hi : Inv w s) : Inv w (advance w s .readCurrent) := by
  have hphase := hi.phase
  simp only [advance]
  split
  · rename_i read f hsecond
    rw [hsecond] at hphase
    obtain ⟨_,hwithin,hcovers,hknown,hstart,_⟩ := hphase
    apply reader_inv hi
    refine ⟨(s.files f).stop,?_,?_,hknown,hi.disk.stops f,.inl hstart,fun _ => hstart⟩
    · rw [readSecond, readFile_opened hw hi.disk]
      exact hwithin.append (le_add_right _ _) (Segment.within _)
    · rw [readSecond, readFile_opened hw hi.disk]
      exact hcovers.append (Segment.covers _)
  · exact hi

theorem lastSeqOf_reconcile (read : LogRead) (now : ℤ) (store : Store) :
    lastSeqOf (reconcile read now store).1 =
      seqAfter (lastSeqOf store) (newLines (lastSeqOf store) read.lines) :=
  applyLines_seq (lastSeqOf store) store

variable {lines : List ConsumedLine}

theorem Within.numbered (hw : w.Proper) {stop : ℕ}
    (h : Within w.log lines stop) : Numbered lines := by
  intro a ha b hb heq
  obtain ⟨i,_,hi⟩ := h a ha
  obtain ⟨j,_,hj⟩ := h b hb
  have hseq := (hw.numbered i a hi).symm.trans (heq.trans (hw.numbered j b hj))
  obtain rfl : i = j := by omega
  exact some.inj (hi.symm.trans hj)

/-- A pass over the lines up to a position moves the cursor to that position. -/
theorem seqAfter_stop (hw : w.Proper) {lastSeq stop : ℕ}
    (hwithin : Within w.log lines stop) (hcovers : Covers w.log lines lastSeq stop)
    (hle : lastSeq ≤ stop) (hstop : stop ≤ w.log.length) :
    seqAfter lastSeq (newLines lastSeq lines) = stop := by
  apply le_antisymm
  · rcases seqAfter_cases lastSeq (newLines lastSeq lines) with ⟨_,h⟩ | ⟨l,hl,h⟩
    · exact h.trans_le hle
    · obtain ⟨k,hlt,hk⟩ := hwithin l (newLines_mem hl).1
      rw [h, hw.numbered k l hk]
      exact hlt
  · rcases eq_or_lt_of_le hle with heq | hlt
    · rcases seqAfter_cases lastSeq (newLines lastSeq lines) with ⟨_,h⟩ | ⟨l,hl,h⟩
      · rw [h, heq]
      · have := (newLines_mem hl).2
        omega
    · -- the line before the position is among the new ones
      have hget : w.log[stop - 1]? = some w.log[stop - 1] := getElem?_eq_getElem (by omega)
      have hseq := hw.numbered _ _ hget
      have hmem : w.log[stop - 1] ∈ newLines lastSeq lines := by
        rw [mem_newLines (hwithin.numbered hw)]
        exact ⟨hcovers _ _ (by omega) (by omega) hget,by omega⟩
      have := (newLines_ascending lastSeq lines).le_seqAfter lastSeq hmem
      omega

theorem reconcile_inv (hw : w.Proper) {now : ℤ} (hi : Inv w s) :
    Inv w (advance w s (.reconcile now)) := by
  have hphase := hi.phase
  simp only [advance]
  split
  · rename_i read hcomplete
    rw [hcomplete] at hphase
    obtain ⟨stop,hwithin,hcovers,hknown,hle,hkept⟩ := hphase
    have hseq : lastSeqOf (reconcile read now s.store).1 = stop := by
      rw [lastSeqOf_reconcile]
      exact seqAfter_stop hw hwithin hcovers hknown (hle.trans hi.disk.logged)
    constructor
    · exact { hi.disk with }
    · exact hseq.trans_le hle
    · intro k line hk hlt
      rw [hseq] at hlt
      by_cases hold : k < lastSeqOf s.store
      · exact mem_append_left _ (hi.passed k line hk hold)
      · apply mem_append_right
        rw [mem_newLines (hwithin.numbered hw), hw.numbered k line hk]
        exact ⟨hcovers k line (by omega) hlt hk,by omega⟩
    · show Kept _ (lastSeqOf (reconcile read now s.store).1)
      rw [hseq]
      exact ⟨hkept.reached,hkept.ready⟩
  · exact hi

theorem advance_inv (hw : w.Proper) (s : System) (event : Event) (hi : Inv w s)
    (h : Undisturbed w s event) : Inv w (advance w s event) := by
  cases event with
  | append =>
    simp only [advance]
    split
    · exact hi
    · rename_i f hcur
      split_ifs with hmore
      · apply write_inv hi hcur
        · rfl
        · rw [← (hi.disk.current f hcur).2.1]
          exact (add_assoc ..).symm
        · exact le_succ _
        · exact hmore
        · exact not_mem_nil
        · exact h f hcur
      · exact hi
  | tear bytes =>
    simp only [advance]
    split
    · exact hi
    · rename_i f hcur
      split_ifs with hfeed
      · exact hi
      · exact write_inv hi hcur _ s.written rfl (hi.disk.current f hcur).2.1 le_rfl hi.disk.logged
          hfeed (hi.disk.sized f)
  | rename =>
    simp only [advance]
    split
    · exact hi
    · rename_i f hcur
      split_ifs with hturned
      · exact hi
      · exact rename_inv hi hcur (by simpa using hturned) h
  | create =>
    simp only [advance]
    split
    · exact hi
    · rename_i hcur
      exact create_inv hi hcur
  | openRotated => exact openRotated_inv hi
  | readRotated => exact readRotated_inv hw hi
  | openCurrent => exact openCurrent_inv hi
  | readCurrent => exact readCurrent_inv hw hi
  | reconcile now => exact reconcile_inv hw hi

theorem initial_inv {store : Store} (h : lastSeqOf store = 0) : Inv w (initial store) := by
  constructor
  · exact ⟨zero_le _,fun _ => not_mem_nil,fun _ => by simp [initial, Segment.lines, rendered],
      fun _ => le_rfl,by simp [initial],by simp [initial],fun _ => rfl⟩
  · exact h.le
  · intro k line _ hlt
    exact absurd hlt (by rw [initial, h]; omega)
  · exact ⟨.inl (zero_le _),fun _ => zero_le _⟩

/-- In every run without a rename between the two opens and without a file beyond the limit,
the lines up to the cursor went through a pass. -/
theorem lines_to_cursor_passed (w : Setting) (hw : w.Proper) (store : Store)
    (hstore : lastSeqOf store = 0) (events : List Event)
    (h : ∀ before event, before ++ [event] <+: events →
      Undisturbed w (run (advance w) (initial store) before) event) :
    ∀ line ∈ w.log, line.seq ≤ lastSeqOf (run (advance w) (initial store) events).store →
      line ∈ (run (advance w) (initial store) events).passed := by
  intro line hl hle
  have hi := run_invariant_along (Undisturbed w) (Inv w)
    (initial_inv hstore) (advance_inv hw) events h
  obtain ⟨k,hk⟩ := mem_iff_getElem?.mp hl
  have hseq := hw.numbered k line hk
  exact hi.passed k line hk (by omega)

def sampleDecode (raw : Str) : Option (ℕ × ConsumedLine) := do
  let value ← readJson raw
  let version ← value["v"]!.asU64
  let seq ← value["seq"]!.asU64
  let time ← value["at"]!.asStr
  let event ← value["event"]!.asStr
  return (version, ⟨seq,time,event,value["plan_id"]!.text,value["plan_digest_hex"]!.text,
    value["action_index"]!.asU64.getD 0,value["outcome"]!.asStr,value["cleanup"]!.asStr⟩)

def sampleRender (line : ConsumedLine) : Str := PlanAuthority.canonicalBytes (.obj
  [("v", .number 1), ("seq", .number line.seq), ("at", .string line.time),
    ("event", .string line.event), ("plan_id", .string line.planId),
    ("plan_digest_hex", .string line.planDigestHex), ("action_index", .number line.actionIndex),
    ("outcome", line.outcome.elim .null .string), ("cleanup", line.cleanup.elim .null .string)])

def sampleSetting : Setting where
  path := str "/var/lib/permanu/runner/consumed.log"
  ownerUid := 0
  mode := 0o100640
  decode := sampleDecode
  render := sampleRender
  log := [logLine 1 "consumed" none, logLine 2 "result" (some "failed"), logLine 3 "op" none]

theorem sampleSetting_proper : sampleSetting.Proper := by
  constructor
  · decide
  · have h : ∀ line ∈ sampleSetting.log, 10 ∉ sampleSetting.render line ∧
        sampleSetting.render line ≠ [] ∧
        sampleSetting.decode (sampleSetting.render line) = some (1, line) ∧
        wellFormed (sampleSetting.render line) line = true := by
      decide +kernel
    intro line hl
    obtain ⟨hplain,hfilled,hdecoded,hformed⟩ := h line hl
    exact ⟨hplain,hfilled,hdecoded,hformed⟩
  · intro k line hk
    match k with
    | 0 => cases hk; rfl
    | 1 => cases hk; rfl
    | 2 => cases hk; rfl
    | n+3 => cases hk

def hidden : List Event :=
  [.create, .append, .openRotated, .append, .rename, .create, .append, .openCurrent, .readCurrent,
    .reconcile 10]

/-- The reader then sees the third line alone, and no later pass looks at the others. -/
theorem rename_between_opens_hides_lines :
    sampleSetting.Proper ∧ hidden.count .rename = 1 ∧
    (let s := run (advance sampleSetting) (initial (createdStore 0 none)) hidden
     lastSeqOf s.store = 3 ∧ s.passed = [logLine 3 "op" none]) ∧
    let s := run (advance sampleSetting) (initial (createdStore 0 none))
      (hidden ++ [.openRotated, .readRotated, .openCurrent, .readCurrent, .reconcile 20])
    ∃ line ∈ sampleSetting.log, line.seq ≤ lastSeqOf s.store ∧ line ∉ s.passed := by
  refine ⟨sampleSetting_proper,by decide,by decide +kernel,?_⟩
  exact ⟨logLine 2 "result" (some "failed"),by decide +kernel⟩

def followed : List Event :=
  [.create, .append, .openRotated, .openCurrent, .append, .rename, .create, .append, .readCurrent,
    .reconcile 10, .openRotated, .readRotated, .openCurrent, .readCurrent, .reconcile 20]

theorem rename_of_open_file_followed :
    let s := run (advance sampleSetting) (initial (createdStore 0 none)) followed
    lastSeqOf s.store = 3 ∧ s.passed = sampleSetting.log ∧
      ∀ line ∈ sampleSetting.log, line.seq ≤ lastSeqOf s.store → line ∈ s.passed := by
  have hstore : lastSeqOf (createdStore 0 none) = 0 := by decide
  have hpassed := lines_to_cursor_passed sampleSetting sampleSetting_proper (createdStore 0 none)
    hstore followed (along_of_take _ (by decide +kernel))
  have hend : lastSeqOf (run (advance sampleSetting) (initial (createdStore 0 none)) followed).store
      = 3 ∧ (run (advance sampleSetting) (initial (createdStore 0 none)) followed).passed =
        sampleSetting.log := by
    decide +kernel
  exact ⟨hend.1,hend.2,hpassed⟩

end Permanu.LogRotation
