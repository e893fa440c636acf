import PermanuAgent.LogQueries
import PermanuAgent.TelemetryStore
import PermanuAgent.PlanCrypto
import PermanuAgent.TableRows
import PermanuAgent.JsonValue

/-!
# Log lines across restarts

One stream of the runner carries the lines of all containers. For each container the agent
keeps the last second it has stored, the hashes of the lines stored in it, and the cursor
of the last line. A new connection replays lines from the cursor, or from the last second
of any line for a container without one; a line at or before the check is skipped.

The lines of a container are numbered in the order in which it emits them. The identity
of a container and the record made of a line are left out; a limit may drop a line.
-/

set_option autoImplicit false

namespace Permanu.LogIngest
open ByteText JsonValue PlanCrypto List OrderedMap Option StepRuns Function Value Nat
open LogQueries (parseNanos)

structure Check where
  sec : ℤ
  hashes : List Str
  cursor : Option Str
  deriving DecidableEq, Repr

def Check.fresh : Check := ⟨0,[],none⟩

structure StreamLine where
  containerId : Str
  projectId : Str
  serviceId : Str
  stream : Str
  line : Str
  cursor : Option Str
  «at» : Str
  deriving DecidableEq, Repr

structure Ingest where
  checks : OrderedMap Str Check
  lastSec : Option ℤ
  deriving DecidableEq

def nanosPerSecond : ℤ := 1000000000
def checkpointMaxAgeSecs : ℤ := 7 * 86400
def maxResume : ℕ := 1000
def maxLoaded : ℕ := 10000

def validContainerId (id : Str) : Bool :=
  id ≠ [] && decide (id.length ≤ 128) && id.all fun b => isAlphanumeric b || oneOf "_-." b

def dockerCursorOk (cursor : Str) : Bool :=
  decide (1 ≤ cursor.length ∧ cursor.length ≤ 64) && (parseNanos cursor).isSome

def lineHash (sha256 : Str → Digest) (stream line : Str) : Str :=
  hex ((sha256 (stream ++ [0] ++ line)).val.take 16)

def inI64 (n : ℤ) : Bool := decide (-2^63 ≤ n ∧ n < 2^63)

def StreamLine.cursorOk (line : StreamLine) : Option Str := line.cursor.filter dockerCursorOk

def StreamLine.ts (line : StreamLine) (nowNanos : ℤ) : ℤ :=
  (((line.cursorOk.bind parseNanos).or (parseNanos line.at)).filter inI64).getD nowNanos

def StreamLine.accepted (line : StreamLine) : Bool :=
  validContainerId line.containerId &&
    (line.stream = str "stdout" || line.stream = str "stderr") &&
    line.serviceId ≠ [] && TelemetryStore.validId line.projectId

def Check.skips (check : Check) (sec : ℤ) (hash : Str) : Bool :=
  decide (sec < check.sec ∨ (sec = check.sec ∧ hash ∈ check.hashes))

def Check.noted (check : Check) (sec : ℤ) (hash : Str) (cursor : Option Str) : Check where
  sec := if check.sec < sec then sec else check.sec
  hashes := (if check.sec < sec then [] else check.hashes).insert hash
  cursor := cursor.or check.cursor

def Ingest.saw (ingest : Ingest) (ts : ℤ) : Ingest :=
  { ingest with
    lastSec := some (match ingest.lastSec with
      | none => ts / nanosPerSecond
      | some last => max last (ts / nanosPerSecond)) }

def Ingest.setCheck (ingest : Ingest) (id : Str) (check : Check) : Ingest :=
  { ingest with checks := ingest.checks.insert ltText id check }

inductive Outcome where
  | refused
  | skipped
  | dropped
  | submitted
  deriving DecidableEq, Repr

/-- One log line; `allowed` is the answer of the rate limits. -/
def handle (sha256 : Str → Digest) (ingest : Ingest) (line : StreamLine) (nowNanos : ℤ)
    (allowed : Bool) : Ingest × Outcome :=
  if line.accepted then
    let ts := line.ts nowNanos
    let sec := ts / nanosPerSecond
    let hash := lineHash sha256 line.stream line.line
    let check := (ingest.checks.get? line.containerId).getD .fresh
    if check.skips sec hash then (ingest.setCheck line.containerId check,.skipped)
    else
      ((ingest.setCheck line.containerId (check.noted sec hash line.cursorOk)).saw ts,
        if allowed then .submitted else .dropped)
  else (ingest,.refused)

def Check.entry (check : Check) : Value :=
  .object ((match check.cursor with
      | some cursor => [(str "cursor",.string cursor)]
      | none => []) ++
    [(str "hashes",.array ((check.hashes.insertionSort fun a b => leText a b = true).map .string)),
      (str "sec",.number check.sec)])

def Ingest.retain (ingest : Ingest) (nowSecs : ℤ) : Ingest where
  checks :=
    { entries := ingest.checks.entries.filter fun entry =>
        decide (nowSecs - checkpointMaxAgeSecs ≤ entry.2.sec)
      unique := ingest.checks.unique.sublist (filter_sublist.map Prod.fst) }
  lastSec := ingest.lastSec

def Ingest.checkpoint (ingest : Ingest) : Value :=
  .object
    ([(str "logs",.object (ingest.checks.entries.map fun entry => (entry.1,entry.2.entry)))] ++
    (match ingest.lastSec with
      | some sec => [(str "since_sec",.number sec)]
      | none => []) ++
    [(str "units",.object []), (str "version",.number 1)])

def saveCheckpoint (ingest : Ingest) (nowSecs : ℤ) : Ingest × Value :=
  (ingest.retain nowSecs,(ingest.retain nowSecs).checkpoint)

def loadCheck (entry : Value) : Option Check :=
  entry["sec"]!.asI64.map fun sec =>
    ⟨sec,((entry["hashes"]!.items).filterMap Value.asStr).filter fun hash =>
      decide (hash.length = 32),
      entry["cursor"]!.asStr.filter dockerCursorOk⟩

def loadedChecks (logs : List (Str × Value)) : List (Str × Check) :=
  (logs.take maxLoaded).filterMap fun entry =>
    if validContainerId entry.1 then (loadCheck entry.2).map fun check => (entry.1,check) else none

def loadCheckpoint (value : Value) : Ingest :=
  match value["logs"]!.asObject with
  | none => ⟨OrderedMap.empty,none⟩
  | some logs =>
    let checks := OrderedMap.insertAll ltText (loadedChecks logs) OrderedMap.empty
    ⟨checks,value["since_sec"]!.asI64.or ((checks.entries.map fun entry => entry.2.sec).max?)⟩

def resume (ingest : Ingest) : List (Str × Str) :=
  ((((ingest.checks.entries.filterMap fun entry =>
      entry.2.cursor.map fun cursor => (entry.1,entry.2.sec,cursor)).insertionSort
    fun a b => b.2.1 < a.2.1 ∨ (a.2.1 = b.2.1 ∧ leText a.1 b.1 = true)).take
      maxResume).insertionSort
      fun a b => leText a.1 b.1 = true).map fun entry => (entry.1,entry.2.2)

def StreamLine.time (line : StreamLine) : ℤ := (line.cursor.bind parseNanos).getD 0

def StreamLine.sec (line : StreamLine) : ℤ := line.time / nanosPerSecond

def StreamLine.hash (sha256 : Str → Digest) (line : StreamLine) : Str :=
  lineHash sha256 line.stream line.line

def StreamLine.wellFormed (line : StreamLine) : Bool :=
  line.accepted && (line.cursor.any dockerCursorOk && inI64 line.time)

structure World where
  ingest : Ingest
  emitted : Str → List StreamLine
  /-- The next line of each container on the connection, and the furthest one so far. -/
  position : Str → ℕ
  reach : Str → ℕ
  /-- The lines that were not skipped, and whether they were submitted. -/
  results : List ((Str × ℕ) × Bool)

inductive Step where
  | emit (line : StreamLine)
  | deliver (id : Str) (nowNanos : ℤ) (allowed : Bool)
  | system (nanos : ℤ)
  | reconnect (starts : Str → ℕ)
  | save (nowSecs : ℤ)
  | reload (nowSecs : ℤ)

def resultOf (id : Str) (index : ℕ) : Outcome → List ((Str × ℕ) × Bool)
  | .submitted => [((id,index),true)]
  | .dropped => [((id,index),false)]
  | .skipped | .refused => []

def step (sha256 : Str → Digest) (w : World) : Step → World
  | .emit line =>
    let lines := w.emitted line.containerId ++ [line]
    { w with emitted := update w.emitted line.containerId lines }
  | .deliver id nowNanos allowed =>
    match (w.emitted id)[w.position id]? with
    | none => w
    | some line =>
      let handled := handle sha256 w.ingest line nowNanos allowed
      { w with
        ingest := handled.1
        position := update w.position id (w.position id + 1)
        reach := update w.reach id (max (w.reach id) (w.position id + 1))
        results := w.results ++ resultOf id (w.position id) handled.2 }
  | .system nanos => { w with ingest := w.ingest.saw nanos }
  | .reconnect starts => { w with position := starts }
  | .save nowSecs => { w with ingest := (saveCheckpoint w.ingest nowSecs).1 }
  | .reload nowSecs => { w with ingest := loadCheckpoint (saveCheckpoint w.ingest nowSecs).2 }

def start : World := ⟨⟨OrderedMap.empty,none⟩,fun _ => [],fun _ => 0,fun _ => 0,[]⟩

def handedOut (w : World) (id : Str) : ℕ :=
  match (resume w.ingest).lookup id with
  | some cursor =>
    (w.emitted id).findIdx fun line => decide ((parseNanos cursor).getD 0 ≤ line.time)
  | none =>
    match w.ingest.lastSec with
    | some sec => (w.emitted id).findIdx fun line => decide (sec ≤ line.sec)
    | none => 0

/-- Each line that the runner has delivered was submitted, or dropped by a limit, exactly once. -/
def ExactlyOnce (w : World) : Prop :=
  ∀ id index, w.results.countP (fun result => decide (result.1 = (id,index))) =
    if index < w.reach id then 1 else 0

/-- Two lines of a container that the check tells apart. -/
def Apart (sha256 : Str → Digest) (a b : StreamLine) : Prop :=
  a.sec ≤ b.sec ∧ (a.sec = b.sec → a.hash sha256 ≠ b.hash sha256)

/-- The seconds of a container do not go back and no two of its lines in one second have the same
hash; a container without a cursor is replayed from its first line that was not delivered; and no
check is forgotten by a checkpoint. -/
def Allowed (sha256 : Str → Digest) (w : World) : Step → Prop
  | .emit line => line.wellFormed = true ∧ 0 ≤ line.sec ∧
      ∀ earlier ∈ w.emitted line.containerId, Apart sha256 earlier line
  | .reconnect starts => ∀ id, starts id ≤ handedOut w id ∧
      ((resume w.ingest).lookup id = none → starts id ≤ w.reach id)
  | .save nowSecs => ∀ entry ∈ w.ingest.checks.entries,
      nowSecs - checkpointMaxAgeSecs ≤ entry.2.sec
  | .reload nowSecs => (∀ entry ∈ w.ingest.checks.entries,
      nowSecs - checkpointMaxAgeSecs ≤ entry.2.sec) ∧
      w.ingest.checks.entries.length ≤ maxLoaded
  | _ => True

structure CheckOk (sha256 : Str → Digest) (front : List StreamLine) (check : Check) : Prop where
  last : ∃ before line, front = before ++ [line] ∧ check.sec = line.sec ∧
    check.cursor = line.cursor
  hashes : ∀ hash, hash ∈ check.hashes ↔
    ∃ line ∈ front, line.sec = check.sec ∧ line.hash sha256 = hash

def CheckFor (sha256 : Str → Digest) (front : List StreamLine) : Option Check → Prop
  | none => front = []
  | some check => CheckOk sha256 front check

structure Track (sha256 : Str → Digest) (id : Str) (lines : List StreamLine)
    (position reach : ℕ) (results : List ((Str × ℕ) × Bool)) (check : Option Check) : Prop where
  formed : ∀ line ∈ lines, line.wellFormed = true ∧ line.containerId = id ∧ 0 ≤ line.sec
  order : lines.Pairwise (Apart sha256)
  position_le : position ≤ reach
  reach_le : reach ≤ lines.length
  once : ∀ index, results.countP (fun result => decide (result.1 = (id,index))) =
    if index < reach then 1 else 0
  covers : CheckFor sha256 (lines.take reach) check

def Tracks (sha256 : Str → Digest) (w : World) (id : Str) : Prop :=
  Track sha256 id (w.emitted id) (w.position id) (w.reach id) w.results (w.ingest.checks.get? id)

theorem wellFormed_cursor {line : StreamLine} (h : line.wellFormed = true) :
    ∃ cursor, line.cursor = some cursor ∧ dockerCursorOk cursor = true := by
  rw [StreamLine.wellFormed, Bool.and_eq_true, Bool.and_eq_true] at h
  exact (Option.any_eq_true _ _).1 h.2.1

theorem wellFormed_cursorOk {line : StreamLine} (h : line.wellFormed = true) :
    line.cursorOk = line.cursor := by
  obtain ⟨cursor,hcursor,hok⟩ := wellFormed_cursor h
  rw [StreamLine.cursorOk, hcursor, filter_some, if_pos hok]

theorem wellFormed_ts {line : StreamLine} (h : line.wellFormed = true) (nowNanos : ℤ) :
    line.ts nowNanos = line.time := by
  obtain ⟨cursor,hcursor,hok⟩ := wellFormed_cursor h
  have hrange : inI64 line.time = true := by
    rw [StreamLine.wellFormed, Bool.and_eq_true, Bool.and_eq_true] at h
    exact h.2.2
  rw [dockerCursorOk, Bool.and_eq_true] at hok
  obtain ⟨time,htime⟩ := isSome_iff_exists.1 hok.2
  rw [StreamLine.time, hcursor, bind_some, htime, getD_some] at hrange ⊢
  rw [StreamLine.ts, wellFormed_cursorOk h, hcursor, bind_some, htime, some_or,
    filter_some, if_pos hrange]
  rfl

theorem handle_eq {sha256 : Str → Digest} {line : StreamLine} (h : line.wellFormed = true)
    (ingest : Ingest) (nowNanos : ℤ) (allowed : Bool) :
    handle sha256 ingest line nowNanos allowed =
      if ((ingest.checks.get? line.containerId).getD .fresh).skips line.sec (line.hash sha256) then
        (ingest.setCheck line.containerId
          ((ingest.checks.get? line.containerId).getD .fresh),.skipped)
      else
        ((ingest.setCheck line.containerId
          (((ingest.checks.get? line.containerId).getD .fresh).noted
            line.sec (line.hash sha256) line.cursor)).saw line.time,
          if allowed then .submitted else .dropped) := by
  have haccepted : line.accepted = true := by
    rw [StreamLine.wellFormed, Bool.and_eq_true] at h
    exact h.1
  simp only [handle, haccepted, if_true, wellFormed_ts h, wellFormed_cursorOk h]
  rfl

theorem CheckOk.le {sha256 : Str → Digest} {front : List StreamLine} {check : Check}
    {line : StreamLine} (h : CheckOk sha256 front check) (horder : front.Pairwise (Apart sha256))
    (hline : line ∈ front) : line.sec ≤ check.sec := by
  obtain ⟨before,last,rfl,hsec,-⟩ := h.last
  rcases mem_append.1 hline with hin | hsame
  · exact ((pairwise_append.1 horder).2.2 line hin last mem_cons_self).1.trans hsec.ge
  · rw [mem_singleton.1 hsame, hsec]

theorem CheckOk.skips {sha256 : Str → Digest} {front : List StreamLine} {check : Check}
    {line : StreamLine} (h : CheckOk sha256 front check) (horder : front.Pairwise (Apart sha256))
    (hline : line ∈ front) : check.skips line.sec (line.hash sha256) = true := by
  rw [Check.skips, decide_eq_true_eq]
  rcases lt_or_eq_of_le (h.le horder hline) with hless | hsame
  · exact .inl hless
  · exact .inr ⟨hsame,(h.hashes _).2 ⟨line,hline,hsame,rfl⟩⟩

theorem CheckOk.accepts {sha256 : Str → Digest} {front : List StreamLine} {check : Check}
    {line : StreamLine} (h : CheckOk sha256 front check)
    (hnext : ∀ earlier ∈ front, Apart sha256 earlier line) :
    check.skips line.sec (line.hash sha256) = false := by
  obtain ⟨before,last,rfl,hsec,-⟩ := h.last
  rw [Check.skips, decide_eq_false_iff_not, not_or]
  have hlast := (hnext last (by simp)).1
  refine ⟨by omega,?_⟩
  rintro ⟨hsame,hhash⟩
  obtain ⟨earlier,hearlier,hsecond,hequal⟩ := (h.hashes _).1 hhash
  exact (hnext earlier hearlier).2 (hsecond.trans hsame.symm) hequal

theorem fresh_accepts {line : StreamLine} (hline : 0 ≤ line.sec) {hash : Str} :
    Check.fresh.skips line.sec hash = false := by
  rw [Check.skips, decide_eq_false_iff_not, not_or]
  exact ⟨Int.not_lt.2 hline,fun hin => (nomatch hin.2)⟩

theorem fresh_noted {sha256 : Str → Digest} {line : StreamLine} (hline : 0 ≤ line.sec) :
    CheckOk sha256 [line] (Check.fresh.noted line.sec (line.hash sha256) line.cursor) := by
  have hsec : (Check.fresh.noted line.sec (line.hash sha256) line.cursor).sec = line.sec := by
    show (if 0 < line.sec then line.sec else 0) = line.sec
    split <;> omega
  refine ⟨⟨[],line,rfl,hsec,or_none⟩,fun hash => ?_⟩
  rw [hsec]
  have hhashes : (Check.fresh.noted line.sec (line.hash sha256) line.cursor).hashes =
      [line.hash sha256] := by
    show (if 0 < line.sec then [] else []).insert (line.hash sha256) = _
    rw [ite_self]
    rfl
  rw [hhashes]
  simp [eq_comm]

theorem CheckOk.noted {sha256 : Str → Digest} {front : List StreamLine} {check : Check}
    {line : StreamLine} (h : CheckOk sha256 front check) (horder : front.Pairwise (Apart sha256))
    (hnext : ∀ earlier ∈ front, Apart sha256 earlier line) (hcursor : line.cursor.isSome = true) :
    CheckOk sha256 (front ++ [line]) (check.noted line.sec (line.hash sha256) line.cursor) := by
  obtain ⟨before,last,hfront,hlast,-⟩ := h.last
  have hle : check.sec ≤ line.sec := hlast.le.trans (hnext last (by simp [hfront])).1
  have hsec : (check.noted line.sec (line.hash sha256) line.cursor).sec = line.sec := by
    rw [Check.noted]
    dsimp only
    split <;> omega
  refine ⟨⟨front,line,rfl,hsec,or_of_isSome hcursor⟩,fun hash => ?_⟩
  rw [hsec, Check.noted]
  rw [mem_insert_iff]
  constructor
  · rintro (rfl | hold)
    · exact ⟨line,by simp,rfl,rfl⟩
    · split at hold
      · cases hold
      · obtain ⟨earlier,hearlier,hsecond,hequal⟩ := (h.hashes hash).1 hold
        exact ⟨earlier,mem_append_left _ hearlier,by omega,hequal⟩
  · rintro ⟨other,hother,hsecond,rfl⟩
    rcases mem_append.1 hother with hearlier | hsame
    · -- a line of this second was handled, so the second is not new
      have hold := h.le horder hearlier
      rw [if_neg (by omega)]
      exact .inr ((h.hashes _).2 ⟨other,hearlier,by omega,rfl⟩)
    · rw [mem_singleton.1 hsame]
      exact .inl rfl

def Check.sorted (check : Check) : Check :=
  { check with hashes := check.hashes.insertionSort fun a b => leText a b = true }

structure Check.Savable (check : Check) : Prop where
  sec : inI64 check.sec = true
  hashes : ∀ hash ∈ check.hashes, hash.length = 32
  cursor : ∀ cursor, check.cursor = some cursor → dockerCursorOk cursor = true

theorem Check.Savable.hashes_kept {check : Check} (h : check.Savable) :
    (((check.sorted.hashes.map Value.string).filterMap Value.asStr).filter
      fun hash => decide (hash.length = 32)) = check.sorted.hashes := by
  have htexts : (check.sorted.hashes.map Value.string).filterMap Value.asStr =
      check.sorted.hashes := by
    rw [filterMap_map]
    exact filterMap_some
  rw [htexts]
  refine filter_eq_self.2 fun hash hhash => ?_
  exact decide_eq_true (h.hashes hash ((mem_insertionSort _).1 hhash))

theorem loadCheck_entry {check : Check} (h : check.Savable) :
    loadCheck check.entry = some check.sorted := by
  have hsec : (Value.number check.sec).asI64 = some check.sec := by
    have hrange := of_decide_eq_true h.sec
    rw [Value.asI64, if_pos (by simpa using hrange)]
  have hhashes := h.hashes_kept
  cases hcursor : check.cursor with
  | none =>
    rw [Check.entry, hcursor]
    show (Value.number check.sec).asI64.map _ = _
    rw [hsec, map_some]
    refine congrArg some ?_
    show Check.mk check.sec (((check.sorted.hashes.map string).filterMap asStr).filter
      fun hash => decide (hash.length = 32)) none = _
    rw [hhashes, ← hcursor]
    rfl
  | some cursor =>
    rw [Check.entry, hcursor]
    show (Value.number check.sec).asI64.map _ = _
    rw [hsec, map_some]
    refine congrArg some ?_
    show Check.mk check.sec (((check.sorted.hashes.map string).filterMap asStr).filter
      fun hash => decide (hash.length = 32)) ((some cursor).filter dockerCursorOk) = _
    rw [hhashes, filter_some, if_pos (h.cursor cursor hcursor), ← hcursor]
    rfl

theorem length_lineHash {sha256 : Str → Digest} {stream text : Str} :
    (lineHash sha256 stream text).length = 32 := by
  have hhex : ∀ bytes : Str, (hex bytes).length = 2 * bytes.length := by
    intro bytes
    simp [hex, length_flatMap, mul_comm]
  rw [lineHash, hhex, length_take, (sha256 _).property]
  rfl

theorem CheckOk.savable {sha256 : Str → Digest} {front : List StreamLine} {check : Check}
    (h : CheckOk sha256 front check) (hformed : ∀ line ∈ front, line.wellFormed = true) :
    check.Savable := by
  obtain ⟨before,last,rfl,hsec,hcursor⟩ := h.last
  have hlast := hformed last (by simp)
  refine ⟨?_,fun hash hhash => ?_,fun cursor hfound => ?_⟩
  · rw [StreamLine.wellFormed, Bool.and_eq_true, Bool.and_eq_true] at hlast
    have hrange := of_decide_eq_true hlast.2.2
    rw [hsec, StreamLine.sec, nanosPerSecond]
    exact decide_eq_true ⟨by omega,by omega⟩
  · obtain ⟨line,-,-,rfl⟩ := (h.hashes hash).1 hhash
    exact length_lineHash
  · obtain ⟨own,hown,hok⟩ := wellFormed_cursor hlast
    rw [← hcursor, hfound] at hown
    exact Option.some.inj hown ▸ hok

theorem CheckOk.sorted {sha256 : Str → Digest} {front : List StreamLine} {check : Check}
    (h : CheckOk sha256 front check) : CheckOk sha256 front check.sorted :=
  ⟨h.last,fun hash => (mem_insertionSort _).trans (h.hashes hash)⟩

theorem retain_eq {nowSecs : ℤ} {ingest : Ingest} (h : ∀ entry ∈ ingest.checks.entries,
    nowSecs - checkpointMaxAgeSecs ≤ entry.2.sec) : ingest.retain nowSecs = ingest := by
  have hkept : (ingest.checks.entries.filter fun entry =>
      decide (nowSecs - checkpointMaxAgeSecs ≤ entry.2.sec)) = ingest.checks.entries :=
    filter_eq_self.2 fun entry hentry => decide_eq_true (h entry hentry)
  cases ingest
  rw [Ingest.retain, Ingest.mk.injEq]
  exact ⟨ext_entries hkept,rfl⟩

theorem loadedChecks_entries {entries : List (Str × Check)} (hlength : entries.length ≤ maxLoaded)
    (hsavable : ∀ entry ∈ entries, validContainerId entry.1 = true ∧ entry.2.Savable) :
    loadedChecks (entries.map fun entry => (entry.1,entry.2.entry)) =
      entries.map fun entry => (entry.1,entry.2.sorted) := by
  rw [loadedChecks, take_of_length_le (by rwa [length_map]), filterMap_map]
  rw [← filterMap_eq_map]
  refine filterMap_congr fun entry hentry => ?_
  obtain ⟨hid,hcheck⟩ := hsavable entry hentry
  show (if validContainerId entry.1 = true then _ else _) = _
  rw [if_pos hid, loadCheck_entry hcheck]
  rfl

/-- A reloaded checkpoint has the checks that were saved. -/
theorem reload_get? {nowSecs : ℤ} {ingest : Ingest} (hage : ∀ entry ∈ ingest.checks.entries,
      nowSecs - checkpointMaxAgeSecs ≤ entry.2.sec)
    (hlength : ingest.checks.entries.length ≤ maxLoaded)
    (hsavable : ∀ entry ∈ ingest.checks.entries,
      validContainerId entry.1 = true ∧ entry.2.Savable) (id : Str) :
    (loadCheckpoint (saveCheckpoint ingest nowSecs).2).checks.get? id =
      (ingest.checks.get? id).map Check.sorted := by
  have hchecks : (loadCheckpoint (saveCheckpoint ingest nowSecs).2).checks =
      OrderedMap.insertAll ltText (ingest.checks.entries.map fun entry => (entry.1,entry.2.sorted))
        OrderedMap.empty := by
    rw [saveCheckpoint, retain_eq hage, ← loadedChecks_entries hlength hsavable]
    rfl
  have hkeys : (ingest.checks.entries.map fun entry => (entry.1,entry.2.sorted)).map Prod.fst =
      ingest.checks.keys := map_map
  rw [hchecks]
  cases hfound : ingest.checks.get? id with
  | none =>
    rw [get?_insertAll_of_not_mem]
    · rfl
    · rw [hkeys]
      exact get?_eq_none.1 hfound
  | some check =>
    refine get?_insertAll_of_mem ltText ?_ ?_ _
    · rw [hkeys]
      exact ingest.checks.unique
    · exact mem_map.2 ⟨(id,check),get?_eq_some.1 hfound,rfl⟩

theorem Track.emit {sha256 : Str → Digest} {id : Str} {lines : List StreamLine} {position reach : ℕ}
    {results : List ((Str × ℕ) × Bool)} {check : Option Check} {line : StreamLine}
    (h : Track sha256 id lines position reach results check)
    (hline : line.wellFormed = true ∧ line.containerId = id ∧ 0 ≤ line.sec)
    (hapart : ∀ earlier ∈ lines, Apart sha256 earlier line) :
    Track sha256 id (lines ++ [line]) position reach results check := by
  refine ⟨?_,?_,h.position_le,?_,h.once,?_⟩
  · exact forall_mem_append.2 ⟨h.formed,forall_mem_singleton.2 hline⟩
  · refine pairwise_append.2 ⟨h.order,pairwise_singleton _ _,?_⟩
    intro earlier hearlier other hother
    rw [mem_singleton.1 hother]
    exact hapart earlier hearlier
  · rw [length_append]
    exact h.reach_le.trans (Nat.le_add_right _ _)
  · rw [take_append_of_le_length h.reach_le]
    exact h.covers

theorem Track.other {sha256 : Str → Digest} {id : Str} {lines : List StreamLine}
    {position reach : ℕ} {results : List ((Str × ℕ) × Bool)} {check : Option Check}
    (h : Track sha256 id lines position reach results check) {other : Str} (hother : id ≠ other)
    (index : ℕ) (outcome : Outcome) :
    Track sha256 id lines position reach (results ++ resultOf other index outcome) check := by
  have hnone : ∀ place, (resultOf other index outcome).countP
      (fun result => decide (result.1 = (id,place))) = 0 := by
    intro place
    cases outcome <;> simp [resultOf, Ne.symm hother]
  refine { h with once := fun place => ?_ }
  rw [countP_append, hnone, add_zero]
  exact h.once place

theorem Track.seek {sha256 : Str → Digest} {id : Str} {lines : List StreamLine} {position reach : ℕ}
    {results : List ((Str × ℕ) × Bool)} {check : Option Check}
    (h : Track sha256 id lines position reach results check) {start : ℕ} (hstart : start ≤ reach) :
    Track sha256 id lines start reach results check :=
  { h with position_le := hstart }

theorem Track.skips {sha256 : Str → Digest} {id : Str} {lines : List StreamLine}
    {position reach : ℕ} {results : List ((Str × ℕ) × Bool)} {check : Option Check}
    {line : StreamLine} (h : Track sha256 id lines position reach results check)
    (hline : lines[position]? = some line) (hagain : position < reach) :
    ∃ found, check = some found ∧ found.skips line.sec (line.hash sha256) = true := by
  have hfront : line ∈ lines.take reach := by
    obtain ⟨hlength,hget⟩ := List.getElem?_eq_some_iff.1 hline
    exact mem_take_iff_getElem.2 ⟨position,by omega,hget⟩
  have hcheck := h.covers
  cases check with
  | none =>
    rw [show lines.take reach = [] from hcheck] at hfront
    cases hfront
  | some found =>
    exact ⟨found,rfl,CheckOk.skips hcheck (h.order.sublist (take_sublist _ _)) hfront⟩

/-- The next line is not skipped, and the check covers it afterwards. -/
theorem Track.next {sha256 : Str → Digest} {id : Str} {lines : List StreamLine} {position reach : ℕ}
    {results : List ((Str × ℕ) × Bool)} {check : Option Check} {line : StreamLine}
    (h : Track sha256 id lines position reach results check) (hline : lines[reach]? = some line) :
    (check.getD .fresh).skips line.sec (line.hash sha256) = false ∧
      CheckOk sha256 (lines.take (reach + 1))
        ((check.getD .fresh).noted line.sec (line.hash sha256) line.cursor) := by
  obtain ⟨hformed,-,hsec⟩ := h.formed line (mem_of_getElem? hline)
  obtain ⟨hlength,hget⟩ := List.getElem?_eq_some_iff.1 hline
  have hnext : ∀ earlier ∈ lines.take reach, Apart sha256 earlier line := by
    intro earlier hearlier
    obtain ⟨i,hi,hearly⟩ := mem_take_iff_getElem.1 hearlier
    rw [← hearly, ← hget]
    exact pairwise_iff_getElem.1 h.order i reach _ hlength (by omega)
  have hcursor : line.cursor.isSome = true := by
    obtain ⟨cursor,hcursor,-⟩ := wellFormed_cursor hformed
    rw [hcursor]
    rfl
  have htake : lines.take (reach + 1) = lines.take reach ++ [line] := by
    rw [take_add_one, hline]
    rfl
  have hcheck := h.covers
  rw [htake]
  cases check with
  | none =>
    rw [show lines.take reach = [] from hcheck]
    exact ⟨fresh_accepts hsec,fresh_noted hsec⟩
  | some found =>
    exact ⟨CheckOk.accepts hcheck hnext,
      CheckOk.noted hcheck (h.order.sublist (take_sublist _ _)) hnext hcursor⟩

theorem Track.advance {sha256 : Str → Digest} {id : Str} {lines : List StreamLine}
    {position reach : ℕ} {results : List ((Str × ℕ) × Bool)} {check : Option Check}
    {line : StreamLine} (h : Track sha256 id lines position reach results check)
    (hline : lines[reach]? = some line) (submitted : Bool) :
    Track sha256 id lines (reach + 1) (reach + 1) (results ++ [((id,reach),submitted)])
      (some ((check.getD .fresh).noted line.sec (line.hash sha256) line.cursor)) := by
  obtain ⟨hlength,-⟩ := List.getElem?_eq_some_iff.1 hline
  refine ⟨h.formed,h.order,le_rfl,hlength,fun index => ?_,(h.next hline).2⟩
  rw [countP_append, h.once index]
  rcases lt_trichotomy index reach with hless | rfl | hmore
  · simp [hless, Nat.lt_succ_of_lt hless, Nat.ne_of_gt hless]
  · simp
  · simp [Nat.not_lt.2 hmore.le, show ¬ index < reach + 1 by omega, Nat.ne_of_lt hmore]

theorem Tracks.emit {sha256 : Str → Digest} {w : World} {id : Str} (h : Tracks sha256 w id)
    {line : StreamLine} (hline : Allowed sha256 w (.emit line)) :
    Tracks sha256 (step sha256 w (.emit line)) id := by
  obtain ⟨hformed,hsec,hapart⟩ := hline
  rw [Tracks, step]
  dsimp only
  by_cases hid : id = line.containerId
  · subst hid
    rw [update_self]
    exact Track.emit h ⟨hformed,rfl,hsec⟩ hapart
  · rw [update_of_ne hid]
    exact h

theorem saw_checks (ingest : Ingest) (ts : ℤ) : (ingest.saw ts).checks = ingest.checks := rfl

theorem Tracks.deliver_self {nowNanos : ℤ} {allowed : Bool} {sha256 : Str → Digest} {w : World}
    {id : Str} (h : Tracks sha256 w id) :
    Tracks sha256 (step sha256 w (.deliver id nowNanos allowed)) id := by
  rw [step]
  cases hline : (w.emitted id)[w.position id]? with
  | none => exact h
  | some line =>
    obtain ⟨hformed,hid,-⟩ := Track.formed h line (mem_of_getElem? hline)
    rw [Tracks]
    dsimp only
    rw [update_self, update_self, handle_eq hformed, hid]
    rcases lt_or_eq_of_le (Track.position_le h) with hagain | hnew
    · -- a replayed line
      obtain ⟨found,hfound,hskips⟩ := Track.skips h hline hagain
      rw [hfound, getD_some, if_pos hskips, max_eq_left hagain, Ingest.setCheck]
      rw [get?_insert_self, resultOf, append_nil, ← hfound]
      exact Track.seek h hagain
    · rw [hnew] at hline
      have hnext := Track.next h hline
      have hdone := Track.advance h hline allowed
      rw [hnext.1, if_neg (by simp), saw_checks, Ingest.setCheck, hnew,
        Nat.max_eq_right (Nat.le_succ _)]
      rw [get?_insert_self]
      cases allowed <;> exact hdone

theorem Tracks.deliver_other {nowNanos : ℤ} {allowed : Bool} {sha256 : Str → Digest} {w : World}
    {id : Str} (h : Tracks sha256 w id) {other : Str} (hother : id ≠ other)
    (hself : Tracks sha256 w other) :
    Tracks sha256 (step sha256 w (.deliver other nowNanos allowed)) id := by
  rw [step]
  cases hline : (w.emitted other)[w.position other]? with
  | none => exact h
  | some line =>
    obtain ⟨hformed,hid,-⟩ := Track.formed hself line (mem_of_getElem? hline)
    have hcheck : (handle sha256 w.ingest line nowNanos allowed).1.checks.get? id =
        w.ingest.checks.get? id := by
      rw [handle_eq hformed, hid]
      split <;> exact get?_insert_ne _ hother
    rw [Tracks]
    dsimp only
    rw [update_of_ne hother, update_of_ne hother, hcheck]
    exact Track.other h hother _ _

theorem resume_check {cursor id : Str} {ingest : Ingest}
    (h : (resume ingest).lookup id = some cursor) :
    ∃ check, ingest.checks.get? id = some check ∧ check.cursor = some cursor := by
  have hmem : (id,cursor) ∈ resume ingest := TableRows.mem_of_lookup h
  obtain ⟨⟨owner,sec,found⟩,hfound,hpair⟩ := mem_map.1 hmem
  cases hpair
  have hlisted := mem_of_mem_take ((mem_insertionSort _).1 hfound)
  obtain ⟨⟨key,check⟩,hentry,hcheck⟩ := mem_filterMap.1 ((mem_insertionSort _).1 hlisted)
  obtain ⟨own,hown,heq⟩ := map_eq_some_iff.1 hcheck
  cases heq
  exact ⟨check,get?_eq_some.2 hentry,hown⟩

/-- A connection starts at the last line that was handled, or before it. -/
theorem Tracks.handedOut_le {cursor : Str} {sha256 : Str → Digest} {w : World} {id : Str}
    (h : Tracks sha256 w id) (hresume : (resume w.ingest).lookup id = some cursor) :
    handedOut w id ≤ w.reach id := by
  obtain ⟨check,hcheck,hcursor⟩ := resume_check hresume
  have hcovers := Track.covers h
  rw [hcheck] at hcovers
  obtain ⟨before,last,hfront,-,hlast⟩ := CheckOk.last hcovers
  have hmem : last ∈ (w.emitted id).take (w.reach id) := by
    rw [hfront]
    exact mem_append_right _ mem_cons_self
  obtain ⟨place,hplace,hget⟩ := mem_take_iff_getElem.1 hmem
  have htime : (parseNanos cursor).getD 0 ≤ last.time := by
    rw [StreamLine.time, ← hlast, hcursor]
    exact le_rfl
  rw [handedOut, hresume]
  by_contra hless
  have hearly := not_of_lt_findIdx (lt_of_lt_of_le (by omega : place < w.reach id)
    (not_le.1 hless).le)
  rw [hget] at hearly
  exact absurd (decide_eq_true htime) (by simpa using hearly)

theorem Tracks.reconnect {sha256 : Str → Digest} {w : World} {id : Str} (h : Tracks sha256 w id)
    {starts : Str → ℕ} (hstarts : Allowed sha256 w (.reconnect starts)) :
    Tracks sha256 (step sha256 w (.reconnect starts)) id := by
  refine Track.seek h ?_
  obtain ⟨hhanded,hnone⟩ := hstarts id
  cases hresume : (resume w.ingest).lookup id with
  | none => exact hnone hresume
  | some cursor => exact hhanded.trans (h.handedOut_le hresume)

theorem Tracks.save {nowSecs : ℤ} {sha256 : Str → Digest} {w : World} {id : Str}
    (h : Tracks sha256 w id) (hage : Allowed sha256 w (.save nowSecs)) :
    Tracks sha256 (step sha256 w (.save nowSecs)) id := by
  rw [step, saveCheckpoint, retain_eq hage]
  exact h

theorem Track.savable {sha256 : Str → Digest} {id : Str} {lines : List StreamLine}
    {position reach : ℕ} {results : List ((Str × ℕ) × Bool)} {check : Check}
    (h : Track sha256 id lines position reach results (some check)) :
    validContainerId id = true ∧ check.Savable := by
  have hcovers : CheckOk sha256 (lines.take reach) check := h.covers
  refine ⟨?_,hcovers.savable fun line hline => (h.formed line (mem_of_mem_take hline)).1⟩
  obtain ⟨before,last,hfront,-⟩ := hcovers.last
  have hlast : last ∈ lines.take reach := by
    rw [hfront]
    exact mem_append_right _ mem_cons_self
  obtain ⟨hformed,hid,-⟩ := h.formed last (mem_of_mem_take hlast)
  simp only [StreamLine.wellFormed, StreamLine.accepted, Bool.and_eq_true] at hformed
  exact hid ▸ hformed.1.1.1.1

theorem Tracks.reload {nowSecs : ℤ} {sha256 : Str → Digest} {w : World} {id : Str}
    (h : ∀ other, Tracks sha256 w other) (hallowed : Allowed sha256 w (.reload nowSecs)) :
    Tracks sha256 (step sha256 w (.reload nowSecs)) id := by
  have hsavable : ∀ entry ∈ w.ingest.checks.entries,
      validContainerId entry.1 = true ∧ entry.2.Savable := by
    intro entry hentry
    have hentryTrack := h entry.1
    rw [Tracks, get?_eq_some.2 hentry] at hentryTrack
    exact hentryTrack.savable
  have hself := h id
  rw [Tracks] at hself ⊢
  rw [step]
  rw [reload_get? hallowed.1 hallowed.2 hsavable]
  cases hcheck : w.ingest.checks.get? id with
  | none =>
    rw [hcheck] at hself
    exact hself
  | some check =>
    rw [hcheck] at hself
    exact { hself with covers := CheckOk.sorted hself.covers }

theorem tracks_step {sha256 : Str → Digest} {w : World} {id : Str}
    (h : ∀ other, Tracks sha256 w other) {change : Step} (hallowed : Allowed sha256 w change) :
    Tracks sha256 (step sha256 w change) id := by
  cases change with
  | emit line => exact (h id).emit hallowed
  | deliver other nowNanos allowed =>
    by_cases hother : id = other
    · exact hother ▸ (h id).deliver_self
    · exact (h id).deliver_other hother (h other)
  | system nanos => exact h id
  | reconnect starts => exact (h id).reconnect hallowed
  | save nowSecs => exact (h id).save hallowed
  | reload nowSecs => exact Tracks.reload h hallowed

theorem start_tracks (sha256 : Str → Digest) (id : Str) : Tracks sha256 start id :=
  ⟨fun _ hline => (nomatch hline),List.Pairwise.nil,le_rfl,le_rfl,fun _ => rfl,rfl⟩

/-- When the seconds of a container do not go back, the lines of one second have different hashes,
the containers without a cursor are replayed from a line that was not delivered, and no checkpoint
forgets a check, every line that was delivered was submitted or dropped exactly once. -/
theorem lines_stored_exactly_once (sha256 : Str → Digest) (steps : List Step)
    (h : ∀ before op, before ++ [op] <+: steps →
      Allowed sha256 (run (step sha256) start before) op) :
    ExactlyOnce (run (step sha256) start steps) := by
  have hend : ∀ id, Tracks sha256 (run (step sha256) start steps) id :=
    run_invariant_along (Allowed sha256)
      (fun w => ∀ id, Tracks sha256 w id) (start_tracks sha256)
      (fun _ op hw hop _ => tracks_step hw hop) steps h
  exact fun id index => (hend id).once index

instance (sha256 : Str → Digest) (a b : StreamLine) : Decidable (Apart sha256 a b) :=
  inferInstanceAs (Decidable (_ ∧ (_ → _)))

instance (sha256 : Str → Digest) (w : World) (line : StreamLine) :
    Decidable (Allowed sha256 w (.emit line)) :=
  inferInstanceAs (Decidable (_ ∧ _ ∧ ∀ earlier ∈ w.emitted line.containerId, _))

instance (sha256 : Str → Digest) (w : World) (nowSecs : ℤ) :
    Decidable (Allowed sha256 w (.reload nowSecs)) :=
  inferInstanceAs (Decidable ((∀ entry ∈ w.ingest.checks.entries, _) ∧ _))

def sampleSha256 : Str → Digest :=
  PlanCrypto.Primitives.sha256 (tablePrimitives [
    (str "stdout" ++ [0] ++ str "a",
      digestOfNat 0x8966b1013376f197988efe6230da767e03bd2cf0f983824da240517a1f2eb8b4),
    (str "stdout" ++ [0] ++ str "b",
      digestOfNat 0x908cd2cbc3b67716bb580c12683adaedba55e8be7185018487b8da251c392f5e),
    (str "stderr" ++ [0] ++ str "c",
      digestOfNat 0x411a536d7dddd954c31f90940c182994cfd6833e2e5da0b83051f7a6f8e2f340)] [] [])

def sampleLine (id stream text cursor : String) : StreamLine :=
  ⟨str id,str "p1",str "s1",str stream,str text,some (str cursor),[]⟩

def replayedRun : List Step :=
  [.emit (sampleLine "c1" "stdout" "a" "2026-01-01T00:00:05.1Z"),
    .emit (sampleLine "c1" "stdout" "b" "2026-01-01T00:00:05.2Z"),
    .deliver (str "c1") 0 true,
    .reload 1767225610,
    .reconnect fun _ => 0,
    .deliver (str "c1") 0 true,
    .deliver (str "c1") 0 true,
    .emit (sampleLine "c1" "stderr" "c" "2026-01-01T00:00:06.3Z"),
    .deliver (str "c1") 0 true]

theorem replayedRun_allowed (i : ℕ) (hi : i < replayedRun.length) :
    Allowed sampleSha256 (run (step sampleSha256) start (replayedRun.take i))
      replayedRun[i] := by
  match i, hi with
  | 0, _ =>
    show Allowed sampleSha256 _ (.emit _)
    decide +kernel
  | 1, _ =>
    show Allowed sampleSha256 _ (.emit _)
    decide +kernel
  | 2, _ => trivial
  | 3, _ =>
    show Allowed sampleSha256 _ (.reload _)
    decide +kernel
  | 4, _ => exact fun _ => ⟨Nat.zero_le _,fun _ => Nat.zero_le _⟩
  | 5, _ => trivial
  | 6, _ => trivial
  | 7, _ =>
    show Allowed sampleSha256 _ (.emit _)
    decide +kernel
  | 8, _ => trivial

theorem replayed_lines_stored_exactly_once :
    (run (step sampleSha256) start replayedRun).results =
      [((str "c1",0),true), ((str "c1",1),true), ((str "c1",2),true)] ∧
    ExactlyOnce (run (step sampleSha256) start replayedRun) :=
  ⟨by decide +kernel,lines_stored_exactly_once sampleSha256 replayedRun
    (along_of_take _ replayedRun_allowed)⟩

def repeatedLine : List Step :=
  [.emit (sampleLine "c1" "stdout" "a" "2026-01-01T00:00:05.1Z"),
    .emit (sampleLine "c1" "stdout" "a" "2026-01-01T00:00:05.2Z"),
    .deliver (str "c1") 0 true, .deliver (str "c1") 0 true]

def olderStream : List Step :=
  [.emit (sampleLine "c1" "stdout" "a" "2026-01-01T00:00:05.1Z"),
    .emit (sampleLine "c1" "stderr" "c" "2026-01-01T00:00:04.9Z"),
    .deliver (str "c1") 0 true, .deliver (str "c1") 0 true]

def quietContainer : List Step :=
  [.emit (sampleLine "c1" "stdout" "a" "2026-01-01T00:00:05.1Z"), .deliver (str "c1") 0 true,
    .save (1767225605 + 8 * 86400), .reconnect fun _ => 0, .deliver (str "c1") 0 true]

def cutContainer : List Step :=
  [.emit (sampleLine "c1" "stdout" "a" "2026-01-01T00:00:05.1Z"),
    .emit (sampleLine "c2" "stdout" "b" "2026-01-01T00:00:06.1Z"), .deliver (str "c2") 0 true]

/-- Equal lines of one second and older lines of another stream are not stored. A line is stored
twice when the checkpoint has forgotten its container, and a line before `since` of a container
without a cursor is never delivered. -/
theorem lines_lost_and_repeated :
    ¬ ExactlyOnce (run (step sampleSha256) start repeatedLine) ∧
    ¬ ExactlyOnce (run (step sampleSha256) start olderStream) ∧
    ¬ ExactlyOnce (run (step sampleSha256) start quietContainer) ∧
    handedOut (run (step sampleSha256) start cutContainer) (str "c1") = 1 ∧
    ¬ ExactlyOnce (run (step sampleSha256) start (cutContainer ++
      [.reconnect fun id => if id = str "c1" then 1 else 0,
        .emit (sampleLine "c1" "stdout" "b" "2026-01-01T00:00:07.1Z"),
        .deliver (str "c1") 0 true])) := by
  refine ⟨fun h => ?_,fun h => ?_,fun h => ?_,by decide +kernel,fun h => ?_⟩
  · exact absurd (h (str "c1") 1) (by decide +kernel)
  · exact absurd (h (str "c1") 1) (by decide +kernel)
  · exact absurd (h (str "c1") 0) (by decide +kernel)
  · exact absurd (h (str "c1") 0) (by decide +kernel)

end Permanu.LogIngest
