import PermanuAgent.ByteText
import PermanuAgent.FrontMerge
import PermanuAgent.OrderedMap
import PermanuAgent.StepRuns
import Mathlib.Data.List.Sort
import Mathlib.Data.List.Dedup

/-!
# The telemetry store

Each kind of telemetry has one sequence of numbers and, per producer, a list
of segments: a data file of frames and an index of its blocks that a summary
closes. Records are appended to the open segment of their producer; eviction
deletes whole segments, the oldest first, by age and by size; opening the
store reads the segments back. A cursor names a record by its segment and its
number, and a scan merges the producers by their numbers.

A data file is the list of its frames, and a byte range of it is cut at the
lengths of the frames. File operations succeed.
-/

set_option autoImplicit false

namespace Permanu.TelemetryStore

open ByteText FrontMerge StepRuns

def segmentMaxBytesDefault : ℕ := 32 * 1024 * 1024
def blockBytes : ℕ := 64 * 1024
def frameHeader : ℕ := 21
def idxEntryBytes : ℕ := 33
def maxFrame : ℕ := 8 * 1024 * 1024
def dayNanos : ℤ := 86400 * 1000000000
def i64Max : ℤ := 9223372036854775807
def i64Min : ℤ := -9223372036854775808

inductive Kind where
  | logs | traces | metrics | analytics | http
  deriving DecidableEq, Repr

structure Retention where
  maxAgeDays : ℕ
  maxBytes : ℕ
  deriving DecidableEq, Repr

def Retention.valid (policy : Retention) : Bool :=
  1 ≤ policy.maxAgeDays && policy.maxAgeDays ≤ 3650 &&
    2 ^ 20 ≤ policy.maxBytes && policy.maxBytes ≤ 2 ^ 53 - 1

def Kind.defaultRetention : Kind → Retention
  | .logs => { maxAgeDays := 7, maxBytes := 2 ^ 30 }
  | .traces => { maxAgeDays := 3, maxBytes := 512 * 2 ^ 20 }
  | .metrics => { maxAgeDays := 15, maxBytes := 256 * 2 ^ 20 }
  | .analytics => { maxAgeDays := 30, maxBytes := 256 * 2 ^ 20 }
  | .http => { maxAgeDays := 7, maxBytes := 256 * 2 ^ 20 }

def validId (id : Str) : Bool :=
  !id.isEmpty && decide (id.length ≤ 64) &&
    id.all fun b => isAlphanumeric b || b == byte '-' || b == byte '_'

abbrev ProjectId := { id : Str // validId id = true }

inductive Producer where
  | system
  | project (id : ProjectId)
  | otlp (id : ProjectId)
  | otlpUnattributed
  deriving DecidableEq, Repr

def Producer.dirName : Producer → Str
  | .system => str "system"
  | .project id => str "project:" ++ id.val
  | .otlp id => str "otlp:" ++ id.val
  | .otlpUnattributed => str "otlp:unattributed"

def stripHead (head : Str) (name : Str) : Option Str :=
  if head.isPrefixOf name then some (name.drop head.length) else none

def Producer.parse (name : Str) : Option Producer :=
  if name = str "system" then some .system
  else if name = str "otlp:unattributed" then some .otlpUnattributed
  else
    match stripHead (str "project:") name with
    | some id => if h : validId id = true then some (.project ⟨id,h⟩) else none
    | none =>
      match stripHead (str "otlp:") name with
      | some id => if h : validId id = true then some (.otlp ⟨id,h⟩) else none
      | none => none

def Producer.isOtlp : Producer → Bool
  | .otlp _ | .otlpUnattributed => true
  | .system | .project _ => false

def Producer.lt : Producer → Producer → Bool
  | .system, .system => false
  | .system, _ => true
  | .project _, .system => false
  | .project a, .project b => ltText a.val b.val
  | .project _, _ => true
  | .otlp _, .system | .otlp _, .project _ => false
  | .otlp a, .otlp b => ltText a.val b.val
  | .otlp _, .otlpUnattributed => true
  | .otlpUnattributed, _ => false

structure Frame where
  seq : ℕ
  ts : ℤ
  tag : UInt8
  payload : List UInt8
  deriving DecidableEq, Repr

def Frame.bytes (frame : Frame) : ℕ := frameHeader + frame.payload.length

def framesBytes (frames : List Frame) : ℕ := (frames.map Frame.bytes).sum

/-- The entries of an index file: `(1, offset, first_seq, first_ts, 0)` and
`(2, records, last_seq, min_ts, max_ts)`. -/
inductive IdxEntry where
  | block (offset firstSeq : ℕ) (firstTs : ℤ)
  | summary (records lastSeq : ℕ) (minTs maxTs : ℤ)
  deriving DecidableEq, Repr

structure Segment where
  firstSeq : ℕ
  lastSeq : ℕ
  records : ℕ
  segBytes : ℕ
  idxBytes : ℕ
  minTs : ℤ
  maxTs : ℤ
  blocks : List (ℕ × ℕ)
  closed : Bool
  frames : List Frame
  index : List IdxEntry
  deriving DecidableEq, Repr

def Segment.bytes (segment : Segment) : ℕ := segment.segBytes + segment.idxBytes

structure OpenFiles where
  opened : ℤ
  blockFill : ℕ
  deriving DecidableEq, Repr

structure ProducerData where
  segments : List Segment
  openFiles : Option OpenFiles
  deriving DecidableEq, Repr

def ProducerData.bytes (data : ProducerData) : ℕ := (data.segments.map Segment.bytes).sum

abbrev Producers := OrderedMap Producer ProducerData

structure KindData where
  nextSeq : ℕ
  producers : Producers
  deriving DecidableEq

def putProducer (producer : Producer) (data : ProducerData) (producers : Producers) : Producers :=
  producers.insert Producer.lt producer data

structure StoreOptions where
  segmentMaxBytes : ℕ
  segmentMaxAge : ℤ
  deriving DecidableEq, Repr

/-- `open_segment` -/
def openSegment (first : ℕ) (now : ℤ) (data : ProducerData) : ProducerData where
  segments := data.segments ++
    [{ firstSeq := first, lastSeq := first, records := 0, segBytes := 0, idxBytes := 0,
       minTs := i64Max, maxTs := i64Min, blocks := [], closed := false, frames := [],
       index := [] }]
  openFiles := some { opened := now, blockFill := 0 }

def closeSegment (segment : Segment) : Segment :=
  { segment with
    idxBytes := segment.idxBytes + idxEntryBytes
    closed := true
    index := segment.index ++
      [.summary segment.records segment.lastSeq segment.minTs segment.maxTs] }

/-- `close_open` -/
def closeOpen (data : ProducerData) : ProducerData :=
  match data.openFiles with
  | none => data
  | some _ =>
    match data.segments.getLast? with
    | none => { data with openFiles := none }
    | some last =>
      { segments := data.segments.dropLast ++ [closeSegment last], openFiles := none }

/-- A time difference that `duration_since` gives, when the clock has not gone back. -/
def aged (now opened limit : ℤ) : Bool := opened ≤ now && limit ≤ now - opened

/-- Whether the open segment has to be closed before a frame of `frameLen` bytes. -/
def needsRotation (opts : StoreOptions) (data : ProducerData) (frameLen : ℕ) (now : ℤ) : Bool :=
  match data.openFiles, data.segments.getLast? with
  | some files, some segment =>
    decide (segment.segBytes + frameLen > opts.segmentMaxBytes) ||
      aged now files.opened opts.segmentMaxAge
  | _, _ => false

def newBlock (frame : Frame) (segment : Segment) : Segment :=
  { segment with
    blocks := segment.blocks ++ [(segment.segBytes,frame.seq)]
    idxBytes := segment.idxBytes + idxEntryBytes
    index := segment.index ++ [.block segment.segBytes frame.seq frame.ts] }

def startBlock (files : OpenFiles) (frame : Frame) (segment : Segment) : Segment × ℕ :=
  if files.blockFill ≥ blockBytes ∨ segment.blocks = [] then (newBlock frame segment,0)
  else (segment,files.blockFill)

def addFrame (frame : Frame) (segment : Segment) : Segment :=
  { segment with
    segBytes := segment.segBytes + frame.bytes
    records := segment.records + 1
    lastSeq := frame.seq
    minTs := min segment.minTs frame.ts
    maxTs := max segment.maxTs frame.ts
    frames := segment.frames ++ [frame] }

def writeFrame (frame : Frame) (data : ProducerData) : ProducerData :=
  match data.openFiles, data.segments.getLast? with
  | some files, some last =>
    let started := startBlock files frame last
    { segments := data.segments.dropLast ++ [addFrame frame started.1]
      openFiles := some { files with blockFill := started.2 + frame.bytes } }
  | _, _ => data

def openedFor (opts : StoreOptions) (next : ℕ) (frameLen : ℕ) (now : ℤ) (old : ProducerData) :
    ProducerData :=
  let rotated := if needsRotation opts old frameLen now then closeOpen old else old
  if rotated.openFiles.isSome then rotated else openSegment next now rotated

/-- `try_append`; `none` is a record too large. -/
def tryAppend (opts : StoreOptions) (data : KindData) (producer : Producer) (ts : ℤ)
    (tag : UInt8) (payload : List UInt8) (now : ℤ) : Option KindData :=
  let frame : Frame := { seq := data.nextSeq, ts := ts, tag := tag, payload := payload }
  if frame.bytes - 4 > maxFrame then none
  else
    let old := (data.producers.get? producer).getD { segments := [], openFiles := none }
    let opened := openedFor opts data.nextSeq frame.bytes now old
    some
      { nextSeq := data.nextSeq + 1
        producers := putProducer producer (writeFrame frame opened) data.producers }

def totalBytes (data : KindData) : ℕ := data.producers.total fun _ found => found.bytes

def sealOldest (data : ProducerData) : ProducerData :=
  match data.segments.head? with
  | some first => if first.closed then data else closeOpen data
  | none => data

/-- `delete_oldest`; `none` when the producer has no segment. -/
def deleteOldest (data : KindData) (producer : Producer) : Option KindData :=
  match data.producers.get? producer with
  | none => none
  | some old =>
    match (sealOldest old).segments with
    | [] => none
    | _ :: rest =>
      some
        { data with
          producers :=
            if rest = [] then data.producers.erase producer
            else putProducer producer { sealOldest old with segments := rest } data.producers }

def nanosOf (now : ℤ) : ℤ := max (-i64Max) (min now i64Max)

def cutoff (policy : Retention) (now : ℤ) : ℤ :=
  nanosOf now - min (policy.maxAgeDays * dayNanos) i64Max

def expired (limit : ℤ) (segment : Segment) : Bool :=
  segment.closed && decide (segment.records > 0) && decide (segment.maxTs < limit)

def ageStep (limit : ℤ) (producer : Producer) (data : KindData) : Option KindData :=
  match (data.producers.get? producer).bind fun old => old.segments.head? with
  | some first => if expired limit first then deleteOldest data producer else none
  | none => none

def segmentCount (data : KindData) : ℕ :=
  data.producers.total fun _ found => found.segments.length

def closeStale (opts : StoreOptions) (now : ℤ) (data : KindData) : KindData :=
  { data with
    producers := data.producers.mapValues fun _ found =>
      match found.openFiles with
      | some files => if aged now files.opened opts.segmentMaxAge then closeOpen found else found
      | none => found }

/-- The loops of `enforce` that delete what is too old. -/
def evictAge (limit : ℤ) (data : KindData) : KindData :=
  data.producers.keys.foldl
    (fun state producer => exhaust (ageStep limit producer) (segmentCount state) state) data

def systemBytes (data : KindData) : ℕ :=
  ((data.producers.get? .system).map ProducerData.bytes).getD 0

/-- The producers other than `system` that hold anything, with their bytes. -/
def others (data : KindData) : List (Producer × ℕ) :=
  ((data.producers.entries.filter fun entry => entry.1 ≠ .system).map fun entry =>
    (entry.1,entry.2.bytes)).filter fun entry => entry.2 > 0

/-- The last of the elements with the largest key, as `max_by_key` finds it. -/
def maxByKey {α : Type} (key : α → ℕ) : List α → Option α
  | [] => none
  | a :: rest =>
    match maxByKey key rest with
    | none => some a
    | some best => if key a ≤ key best then some best else some a

def reserved (maxBytes : ℕ) : ℕ := maxBytes / 4

def fairShare (maxBytes : ℕ) (data : KindData) : ℕ :=
  (maxBytes - reserved maxBytes) / (others data).length

def otlpBytes (data : KindData) : ℕ :=
  (((others data).filter fun entry => entry.1.isOtlp).map Prod.snd).sum

def pool (maxBytes : ℕ) (data : KindData) : List (Producer × ℕ) :=
  if otlpBytes data > maxBytes / 2 then (others data).filter fun entry => entry.1.isOtlp
  else others data

def victim (maxBytes : ℕ) (data : KindData) : Option Producer :=
  if systemBytes data > reserved maxBytes then some .system
  else if others data = [] then none
  else
    let share := fairShare maxBytes data
    (maxByKey (fun entry => entry.2 - share)
      ((pool maxBytes data).filter fun entry => entry.2 > share)).map Prod.fst

/-- One round of the loop of `evict_size`. -/
def evictStep (maxBytes : ℕ) (data : KindData) : Option KindData :=
  if totalBytes data > maxBytes / 10 * 9 then
    match victim maxBytes data with
    | none => none
    | some producer => deleteOldest data producer
  else none

def evictSize (maxBytes : ℕ) (data : KindData) : KindData :=
  if totalBytes data ≤ maxBytes then data
  else exhaust (evictStep maxBytes) (segmentCount data) data

/-- A kind before its size eviction in `enforce`. -/
def agedOut (opts : StoreOptions) (policy : Retention) (now : ℤ) (data : KindData) : KindData :=
  evictAge (cutoff policy now) (closeStale opts now data)

def enforceKind (opts : StoreOptions) (policy : Retention) (now : ℤ) (data : KindData) : KindData :=
  evictSize policy.maxBytes (agedOut opts policy now data)

abbrev SegmentFiles := ℕ × List Frame × List IdxEntry

def blocksOf (index : List IdxEntry) : List (ℕ × ℕ) :=
  index.filterMap fun entry =>
    match entry with
    | .block offset firstSeq _ => some (offset,firstSeq)
    | .summary _ _ _ _ => none

def summaryOf (index : List IdxEntry) : Option (ℕ × ℕ × ℤ × ℤ) :=
  index.foldl (fun found entry =>
    match entry with
    | .summary records lastSeq minTs maxTs => some (records,lastSeq,minTs,maxTs)
    | .block _ _ _ => found) none

def rebuildBlocks : List Frame → ℕ → ℕ → List (ℕ × ℕ)
  | [], _, _ => []
  | frame :: rest, offset, fill =>
    if fill ≥ blockBytes then
      (offset,frame.seq) :: rebuildBlocks rest (offset + frame.bytes) frame.bytes
    else rebuildBlocks rest (offset + frame.bytes) (fill + frame.bytes)

/-- `load_segment`; a segment without a summary is the open one of a crashed agent. -/
def loadSegment (files : SegmentFiles) : Option Segment :=
  let frames := files.2.1
  let index := files.2.2
  match summaryOf index with
  | some (records,lastSeq,minTs,maxTs) =>
    some
      { firstSeq := files.1, lastSeq := lastSeq, records := records,
        segBytes := framesBytes frames, idxBytes := index.length * idxEntryBytes,
        minTs := minTs, maxTs := maxTs, blocks := blocksOf index, closed := true,
        frames := frames, index := index }
  | none =>
    if frames = [] then none
    else
      let lastSeq := (frames.getLast?.map Frame.seq).getD 0
      let minTs := frames.foldl (fun least frame => min least frame.ts) i64Max
      let maxTs := frames.foldl (fun most frame => max most frame.ts) i64Min
      let blocks := rebuildBlocks frames 0 blockBytes
      let rebuilt := blocks.map (fun block => IdxEntry.block block.1 block.2 0) ++
        [.summary frames.length lastSeq minTs maxTs]
      some
        { firstSeq := files.1, lastSeq := lastSeq, records := frames.length,
          segBytes := framesBytes frames, idxBytes := rebuilt.length * idxEntryBytes,
          minTs := minTs, maxTs := maxTs, blocks := blocks, closed := true,
          frames := frames, index := rebuilt }

def directories (producers : Producers) : List (Str × List SegmentFiles) :=
  (producers.keys.map Producer.dirName).dedup.map fun name =>
    (name,(producers.entries.filter fun entry => entry.1.dirName = name).flatMap fun entry =>
      entry.2.segments.map fun segment => (segment.firstSeq,segment.frames,segment.index))

def loadDirectory (files : List SegmentFiles) : List Segment :=
  (files.insertionSort fun a b => a.1 ≤ b.1).filterMap loadSegment

/-- One directory of `load_kind`; a name that no producer has is passed over. -/
def loadProducer (data : KindData) (directory : Str × List SegmentFiles) : KindData :=
  match Producer.parse directory.1 with
  | none => data
  | some producer =>
    let segments := loadDirectory directory.2
    { nextSeq := segments.foldl (fun next segment => max next (segment.lastSeq + 1)) data.nextSeq
      producers :=
        if segments = [] then data.producers
        else putProducer producer { segments := segments, openFiles := none } data.producers }

/-- `load_kind` -/
def loadKind (disk : List (Str × List SegmentFiles)) : KindData :=
  disk.foldl loadProducer { nextSeq := 1, producers := OrderedMap.empty }

/-- `close_all`, for one kind. -/
def closeAllKind (data : KindData) : KindData :=
  { data with producers := data.producers.mapValues fun _ found => closeOpen found }

def reopenKind (data : KindData) : KindData :=
  loadKind (directories (closeAllKind data).producers)

structure RawRecord where
  seq : ℕ
  ts : ℤ
  tag : UInt8
  payload : List UInt8
  producer : Producer
  segment : ℕ
  deriving DecidableEq, Repr

structure Cursor where
  kind : Kind
  producer : Producer
  segment : ℕ
  seq : ℕ
  deriving DecidableEq, Repr

def RawRecord.cursor (record : RawRecord) (kind : Kind) : Cursor where
  kind := kind
  producer := record.producer
  segment := record.segment
  seq := record.seq

inductive Direction where
  | forward | backward
  deriving DecidableEq, Repr

structure ScanSpec where
  direction : Direction
  afterSeq : Option ℕ
  beforeSeq : Option ℕ
  fromTs : ℤ
  toTs : ℤ
  producers : Option (List Producer)
  deriving DecidableEq, Repr

/-- `cursor_live`, for the kind of the cursor. -/
def cursorLive (data : KindData) (cursor : Cursor) : Bool :=
  match data.producers.get? cursor.producer with
  | some found => found.segments.any fun segment =>
      segment.firstSeq = cursor.segment && decide (cursor.seq ≤ segment.lastSeq)
  | none => false

def wantedSegment (spec : ScanSpec) (minTs : ℤ) (segment : Segment) : Bool :=
  decide (max spec.fromTs minTs ≤ segment.maxTs) && decide (segment.minTs ≤ spec.toTs) &&
    (match spec.afterSeq with
      | some after => decide (segment.lastSeq > after)
      | none => true) &&
    (match spec.beforeSeq with
      | some before => decide (segment.firstSeq < before)
      | none => true)

def rposition {α : Type} (p : α → Bool) : List α → Option ℕ
  | [] => none
  | a :: rest =>
    match rposition p rest with
    | some i => some (i + 1)
    | none => if p a then some 0 else none

def blockRanges (readable : ℕ) : List (ℕ × ℕ) → List (ℕ × ℕ)
  | [] => []
  | [block] => [(block.1,readable)]
  | block :: next :: rest => (block.1,min next.1 readable) :: blockRanges readable (next :: rest)

/-- The frames of the data file from the byte `start` on that end by the byte `stop`. -/
def framesBetween (start stop : ℕ) : ℕ → List Frame → List Frame
  | _, [] => []
  | position, frame :: rest =>
    if position < start then framesBetween start stop (position + frame.bytes) rest
    else if position + frame.bytes ≤ stop then
      frame :: framesBetween start stop (position + frame.bytes) rest
    else []

def wantedFrame (spec : ScanSpec) (minTs : ℤ) (frame : Frame) : Bool :=
  (match spec.afterSeq with
    | some after => decide (frame.seq > after)
    | none => true) &&
  (match spec.beforeSeq with
    | some before => decide (frame.seq < before)
    | none => true) &&
  decide (spec.fromTs ≤ frame.ts) && decide (minTs ≤ frame.ts) && decide (frame.ts ≤ spec.toTs)

def readSegment (spec : ScanSpec) (minTs : ℤ) (segment : Segment) : List Frame :=
  let blocks := if segment.blocks = [] then [(0,segment.firstSeq)] else segment.blocks
  let ranges := blockRanges segment.segBytes blocks
  let read := fun range : ℕ × ℕ =>
    if range.2 ≤ range.1 then []
    else (framesBetween range.1 range.2 0 segment.frames).filter (wantedFrame spec minTs)
  match spec.direction with
  | .forward =>
    let skip := match spec.afterSeq with
      | some after => (rposition (fun block => block.2 ≤ after + 1) blocks).getD 0
      | none => 0
    (ranges.drop skip).flatMap read
  | .backward => ranges.reverse.flatMap fun range => (read range).reverse

def rawRecord (producer : Producer) (segment : ℕ) (frame : Frame) : RawRecord where
  seq := frame.seq
  ts := frame.ts
  tag := frame.tag
  payload := frame.payload
  producer := producer
  segment := segment

def readProducer (spec : ScanSpec) (minTs : ℤ) (entry : Producer × ProducerData) : List RawRecord :=
  let views := entry.2.segments.filter fun segment => segment.records > 0
  let ordered := match spec.direction with
    | .forward => views
    | .backward => views.reverse
  (ordered.filter (wantedSegment spec minTs)).flatMap fun segment =>
    (readSegment spec minTs segment).map (rawRecord entry.1 segment.firstSeq)

def scanRank (direction : Direction) (record : RawRecord) : ℤ :=
  match direction with
  | .forward => -(record.seq : ℤ)
  | .backward => record.seq

/-- A scan of a snapshot that has `minTs` as its oldest time. -/
def scan (spec : ScanSpec) (minTs : ℤ) (data : KindData) : List RawRecord :=
  merge (scanRank spec.direction)
    ((data.producers.entries.filter fun entry =>
      match spec.producers with
      | some wanted => decide (entry.1 ∈ wanted)
      | none => true).map (readProducer spec minTs))

structure GuardState where
  paused : Bool
  systemPaused : Bool
  freeBytes : ℕ
  totalBytes : ℕ
  deriving DecidableEq, Repr

structure Store where
  opts : StoreOptions
  retention : Kind → Retention
  kinds : Kind → KindData
  guard : GuardState

/-- `check_disk` with what the probe found, if it found anything. -/
def checkDisk (probe : Option (ℕ × ℕ)) (store : Store) : Store :=
  match probe with
  | none => store
  | some (free,total) =>
    let low := decide (free < total / 100 * 5) || decide (free < 2 ^ 30)
    let high := decide (free > total / 100 * 8) && decide (free > 2 ^ 30 + 2 ^ 30 / 2)
    { store with
      guard :=
        { paused := if low then true else if high then false else store.guard.paused
          systemPaused := decide (free < 256 * 2 ^ 20)
          freeBytes := free
          totalBytes := total } }

def setKind (store : Store) (kind : Kind) (data : KindData) : Store :=
  { store with kinds := Function.update store.kinds kind data }

/-- `append`; the store is left as it is when the disk guard or the size refuses the record. -/
def append (store : Store) (kind : Kind) (producer : Producer) (ts : ℤ) (tag : UInt8)
    (payload : List UInt8) (now : ℤ) : Store :=
  let paused := if producer = .system then store.guard.systemPaused else store.guard.paused
  if paused then store
  else
    match tryAppend store.opts (store.kinds kind) producer ts tag payload now with
    | none => store
    | some data => setKind store kind data

/-- `set_retention`; an invalid policy is refused. -/
def setRetention (store : Store) (kind : Kind) (policy : Retention) : Store :=
  if policy.valid then { store with retention := Function.update store.retention kind policy }
  else store

def enforce (store : Store) (now : ℤ) : Store :=
  { store with
    kinds := fun kind => enforceKind store.opts (store.retention kind) now (store.kinds kind) }

def closeAll (store : Store) : Store :=
  { store with kinds := fun kind => closeAllKind (store.kinds kind) }

def reopen (store : Store) : Store :=
  { store with
    kinds := fun kind => reopenKind (store.kinds kind)
    guard := { paused := false, systemPaused := false, freeBytes := 0, totalBytes := 0 } }

def emptyStore (opts : StoreOptions) (retention : Kind → Retention) : Store where
  opts := opts
  retention := retention
  kinds := fun _ => { nextSeq := 1, producers := OrderedMap.empty }
  guard := { paused := false, systemPaused := false, freeBytes := 0, totalBytes := 0 }

inductive Op where
  | append (kind : Kind) (producer : Producer) (ts : ℤ) (tag : UInt8) (payload : List UInt8)
      (now : ℤ)
  | enforce (now : ℤ)
  | closeAll
  | reopen
  | setRetention (kind : Kind) (policy : Retention)
  | checkDisk (probe : Option (ℕ × ℕ))

def step (store : Store) : Op → Store
  | .append kind producer ts tag payload now => append store kind producer ts tag payload now
  | .enforce now => enforce store now
  | .closeAll => closeAll store
  | .reopen => reopen store
  | .setRetention kind policy => setRetention store kind policy
  | .checkDisk probe => checkDisk probe store

end Permanu.TelemetryStore
