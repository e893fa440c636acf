import PermanuAgent.StepRuns
import PermanuAgent.ByteText
import Mathlib

/-!
# A spool on disk

A spool is a list of segment files, each a list of length-prefixed records.
Records enter at the last segment and leave at the head: an acknowledgement
removes as many head records as its batch had, and the byte budget drops whole
head segments. The code reads nothing of a payload but its length, so the
model is over any type of payloads with a length.
-/

set_option autoImplicit false

namespace Permanu.DiskSpool

open StepRuns List Prod

/-- `RECORD_HEADER_BYTES` -/
def recordHeaderBytes : ℕ := 8

structure SpoolConfig where
  maxBytes : ℕ
  maxSegmentBytes : ℕ
  deriving DecidableEq, Repr

structure Segment (α : Type) where
  sequence : ℕ
  bytes : ℕ
  records : ℕ
  payloads : List α
  deriving DecidableEq, Repr

structure SpoolState (α : Type) where
  segments : List (Segment α)
  bytes : ℕ
  records : ℕ
  nextSequence : ℕ
  droppedRecords : ℕ
  droppedBytes : ℕ
  deriving DecidableEq, Repr

/-- What `read_batch` hands out; its `SpoolAck` is the number of records. -/
structure SpoolBatch (α : Type) where
  records : List α
  ack : ℕ
  deriving DecidableEq, Repr

def recordDiskBytes {α : Type} (len : α → ℕ) (payload : α) : ℕ := len payload + recordHeaderBytes

/-- `scan_segment`, and what `rewrite_segment_records` returns as its first component. -/
def diskBytes {α : Type} (len : α → ℕ) (payloads : List α) : ℕ :=
  (payloads.map (recordDiskBytes len)).sum

/-- The loop of `enforce_budget` over the segments still there. -/
def dropHeads {α : Type} (maxBytes : ℕ) : List (Segment α) → SpoolState α → SpoolState α
  | [], state => { state with segments := [] }
  | segment :: rest, state =>
    if state.bytes > maxBytes then
      dropHeads maxBytes rest
        { state with
          segments := rest
          bytes := state.bytes - segment.bytes
          records := state.records - segment.records
          droppedBytes := state.droppedBytes + segment.bytes
          droppedRecords := state.droppedRecords + segment.records }
    else { state with segments := segment :: rest }

def enforceBudget {α : Type} (config : SpoolConfig) (state : SpoolState α) : SpoolState α :=
  dropHeads config.maxBytes state.segments state

/-- `load_state` over the segment files in the order of their sequence numbers. -/
def loadState {α : Type} (len : α → ℕ) (files : List (ℕ × List α)) : SpoolState α where
  segments := files.map fun file =>
    { sequence := file.1, bytes := diskBytes len file.2, records := file.2.length,
      payloads := file.2 }
  bytes := (files.map fun file => diskBytes len file.2).sum
  records := (files.map fun file => file.2.length).sum
  nextSequence := (files.getLast?.map fun file => file.1 + 1).getD 0
  droppedRecords := 0
  droppedBytes := 0

def openSpool {α : Type} (len : α → ℕ) (config : SpoolConfig) (files : List (ℕ × List α)) :
    Option (SpoolState α) :=
  if config.maxBytes = 0 then none else some (enforceBudget config (loadState len files))

/-- `writable_segment_index` with the record written to the segment it finds. -/
def writeRecord {α : Type} (len : α → ℕ) (config : SpoolConfig) (state : SpoolState α)
    (payload : α) : List (Segment α) × ℕ :=
  let recordBytes := recordDiskBytes len payload
  let segmentLimit := max config.maxSegmentBytes recordBytes
  let fresh : Segment α :=
    { sequence := state.nextSequence, bytes := recordBytes, records := 1, payloads := [payload] }
  match state.segments.getLast? with
  | some last =>
    if last.bytes + recordBytes ≤ segmentLimit then
      (state.segments.dropLast ++
        [{ last with
            bytes := last.bytes + recordBytes
            records := last.records + 1
            payloads := last.payloads ++ [payload] }], state.nextSequence)
    else (state.segments ++ [fresh], state.nextSequence + 1)
  | none => (state.segments ++ [fresh], state.nextSequence + 1)

/-- `append_bytes`; `none` is the record that exceeds `max_bytes`. -/
def appendBytes {α : Type} (len : α → ℕ) (config : SpoolConfig) (state : SpoolState α)
    (payload : α) : Option (SpoolState α) :=
  let recordBytes := recordDiskBytes len payload
  if recordBytes > config.maxBytes then none
  else
    let written := writeRecord len config state payload
    some (enforceBudget config
      { state with
        segments := written.1
        bytes := state.bytes + recordBytes
        records := state.records + 1
        nextSequence := written.2 })

/-- The two loops of `read_batch`, over the payloads of the segments in turn. -/
def readLoop {α : Type} (len : α → ℕ) (maxRecords maxPayloadBytes : ℕ) :
    List α → List α → ℕ → List α
  | [], records, _ => records
  | payload :: rest, records, payloadBytes =>
    if records ≠ [] ∧
        (records.length ≥ maxRecords ∨ payloadBytes + len payload > maxPayloadBytes) then
      records
    else if (records ++ [payload]).length ≥ maxRecords then records ++ [payload]
    else readLoop len maxRecords maxPayloadBytes rest (records ++ [payload])
      (payloadBytes + len payload)

def queued {α : Type} (state : SpoolState α) : List α := state.segments.flatMap Segment.payloads

def readBatch {α : Type} (len : α → ℕ) (state : SpoolState α) (maxRecords maxPayloadBytes : ℕ) :
    SpoolBatch α :=
  if maxRecords = 0 then { records := [], ack := 0 }
  else
    let records := readLoop len maxRecords maxPayloadBytes (queued state) [] 0
    { records := records, ack := records.length }

/-- The loop of `ack` over the segments still there. -/
def ackHeads {α : Type} (len : α → ℕ) : List (Segment α) → ℕ → SpoolState α → SpoolState α
  | [], _, state => { state with segments := [] }
  | segment :: rest, recordsToAck, state =>
    if recordsToAck = 0 then { state with segments := segment :: rest }
    else if recordsToAck ≥ segment.records then
      ackHeads len rest (recordsToAck - segment.records)
        { state with
          segments := rest
          bytes := state.bytes - segment.bytes
          records := state.records - segment.records }
    else
      let remaining := segment.payloads.drop recordsToAck
      { state with
        segments :=
          { segment with
            bytes := diskBytes len remaining
            records := remaining.length
            payloads := remaining } :: rest
        bytes := state.bytes - (segment.bytes - diskBytes len remaining)
        records := state.records - recordsToAck }

/-- `ack`; `none` is the acknowledgement of more records than are queued. -/
def ack {α : Type} (len : α → ℕ) (state : SpoolState α) (records : ℕ) : Option (SpoolState α) :=
  if records = 0 then some state
  else if records > state.records then none
  else some (ackHeads len state.segments records state)

@[simp] theorem diskBytes_append {α : Type} (len : α → ℕ) (left right : List α) :
    diskBytes len (left ++ right) = diskBytes len left + diskBytes len right := by
  simp [diskBytes]

structure Counted {α : Type} (len : α → ℕ) (state : SpoolState α) : Prop where
  segment : ∀ segment ∈ state.segments,
    segment.bytes = diskBytes len segment.payloads ∧ segment.records = segment.payloads.length
  bytes : state.bytes = diskBytes len (queued state)
  records : state.records = (queued state).length

/-- The state after `d` records have left at the head. -/
structure Drained {α : Type} (len : α → ℕ) (state after : SpoolState α) (d : ℕ) : Prop where
  counted : Counted len after
  queue : queued after = (queued state).drop d

theorem loadState_counted {α : Type} {len : α → ℕ} {files : List (ℕ × List α)} :
    Counted len (loadState len files) where
  segment := by
    intro segment hs
    obtain ⟨file,-,rfl⟩ := mem_map.mp hs
    exact ⟨rfl,rfl⟩
  bytes := by
    induction files with
    | nil => rfl
    | cons file files ih => simpa [loadState, queued, diskBytes] using ih
  records := by
    induction files with
    | nil => rfl
    | cons file files ih => simpa [loadState, queued] using ih

theorem loadState_queued {α : Type} (len : α → ℕ) (files : List (ℕ × List α)) :
    queued (loadState len files) = files.flatMap snd := by
  simp [queued, loadState, flatMap_map]

/-- A counted state whose head segment is removed with its counts. -/
theorem Counted.behead {α : Type} {len : α → ℕ} {state : SpoolState α} (h : Counted len state)
    {segment : Segment α} {rest : List (Segment α)} (hs : state.segments = segment :: rest)
    (after : SpoolState α) (hsegments : after.segments = rest)
    (hbytes : after.bytes = state.bytes - segment.bytes)
    (hrecords : after.records = state.records - segment.records) :
    Drained len state after segment.records := by
  have hhead := h.segment segment (by simp [hs])
  have hqueue : queued state = segment.payloads ++ queued after := by
    simp [queued, hs, hsegments]
  constructor
  · constructor
    · intro other ho
      exact h.segment other (by rw [hs]; exact mem_cons_of_mem _ (hsegments ▸ ho))
    · rw [hbytes, h.bytes, hqueue, diskBytes_append, hhead.1]
      omega
    · rw [hrecords, h.records, hqueue, length_append, hhead.2]
      omega
  · rw [hqueue, hhead.2, drop_left]

/-- The budget removes whole segments at the head, and counts every record it removes. -/
theorem dropHeads_drained {α : Type} {len : α → ℕ} {maxBytes : ℕ} {segments : List (Segment α)}
    (state : SpoolState α) (h : Counted len state) (hs : state.segments = segments) :
    ∃ d ≤ (queued state).length, Drained len state (dropHeads maxBytes segments state) d ∧
      (dropHeads maxBytes segments state).droppedRecords = state.droppedRecords + d := by
  induction segments generalizing state with
  | nil =>
    have hself : dropHeads maxBytes [] state = state := by simp [dropHeads, ← hs]
    rw [hself]
    exact ⟨0,by simp,⟨h,by simp⟩,rfl⟩
  | cons segment rest ih =>
    by_cases hover : state.bytes > maxBytes
    · rw [dropHeads, if_pos hover]
      have hhead := h.behead hs { state with
          segments := rest
          bytes := state.bytes - segment.bytes
          records := state.records - segment.records
          droppedBytes := state.droppedBytes + segment.bytes
          droppedRecords := state.droppedRecords + segment.records } rfl rfl rfl
      obtain ⟨d,hd,hrest,hcount⟩ := ih _ hhead.counted rfl
      have hlength := congrArg List.length hhead.queue
      have hrecords := (h.segment segment (by simp [hs])).2
      have hsize : segment.records ≤ (queued state).length := by
        simp [queued, hs, hrecords]
      refine ⟨segment.records + d,?_,⟨hrest.counted,?_⟩,?_⟩
      · rw [length_drop] at hlength
        omega
      · rw [hrest.queue, hhead.queue, drop_drop]
      · rw [hcount]
        exact Nat.add_assoc _ _ _
    · have hself : dropHeads maxBytes (segment :: rest) state = state := by
        rw [dropHeads, if_neg hover, ← hs]
      rw [hself]
      exact ⟨0,by simp,⟨h,by simp⟩,rfl⟩

theorem enforceBudget_within {α : Type} (config : SpoolConfig) (state : SpoolState α)
    (h : state.bytes ≤ config.maxBytes) : enforceBudget config state = state := by
  unfold enforceBudget
  cases hs : state.segments with
  | nil => simp [dropHeads, ← hs]
  | cons segment rest => rw [dropHeads, if_neg (by omega), ← hs]

/-- An acknowledgement of `n` records removes the `n` records at the head. -/
theorem ackHeads_drained {α : Type} {len : α → ℕ} {segments : List (Segment α)} (n : ℕ)
    (state : SpoolState α) (h : Counted len state) (hs : state.segments = segments) :
    Drained len state (ackHeads len segments n state) n ∧
      (ackHeads len segments n state).droppedRecords = state.droppedRecords := by
  induction segments generalizing n state with
  | nil =>
    have hself : ackHeads len [] n state = state := by simp [ackHeads, ← hs]
    rw [hself]
    exact ⟨⟨h,by simp [queued, hs]⟩,rfl⟩
  | cons segment rest ih =>
    have hhead := h.segment segment (by simp [hs])
    have hqueue : queued state = segment.payloads ++ rest.flatMap Segment.payloads := by
      simp [queued, hs]
    by_cases hzero : n = 0
    · have hself : ackHeads len (segment :: rest) n state = state := by
        rw [ackHeads, if_pos hzero, ← hs]
      rw [hself, hzero]
      exact ⟨⟨h,by simp⟩,rfl⟩
    by_cases hwhole : n ≥ segment.records
    · rw [ackHeads, if_neg hzero, if_pos hwhole]
      have hbehead := h.behead hs { state with
          segments := rest
          bytes := state.bytes - segment.bytes
          records := state.records - segment.records } rfl rfl rfl
      obtain ⟨hrest,hcount⟩ := ih (n - segment.records) _ hbehead.counted rfl
      refine ⟨⟨hrest.counted,?_⟩,hcount⟩
      rw [hrest.queue, hbehead.queue, drop_drop, Nat.add_sub_cancel' hwhole]
    · rw [ackHeads, if_neg hzero, if_neg hwhole]
      have hn : n ≤ segment.payloads.length := by omega
      have hcut := diskBytes_append len (segment.payloads.take n) (segment.payloads.drop n)
      rw [take_append_drop] at hcut
      refine ⟨⟨⟨?_,?_,?_⟩,?_⟩,rfl⟩
      · refine forall_mem_cons.mpr ⟨⟨rfl,rfl⟩,fun other ho => h.segment other ?_⟩
        rw [hs]
        exact mem_cons_of_mem _ ho
      · simp only [queued, flatMap_cons, diskBytes_append]
        rw [h.bytes, hqueue, diskBytes_append, hhead.1]
        omega
      · simp only [queued, flatMap_cons, length_append, length_drop]
        rw [h.records, hqueue, length_append]
        omega
      · show segment.payloads.drop n ++ rest.flatMap Segment.payloads = _
        rw [hqueue, drop_append_of_le_length hn]

theorem writeRecord_queued {α : Type} {len : α → ℕ} (config : SpoolConfig) (state : SpoolState α)
    {payload : α} :
    (writeRecord len config state payload).1.flatMap Segment.payloads =
      queued state ++ [payload] := by
  unfold writeRecord queued
  cases hlast : state.segments.getLast? with
  | none => simp
  | some last =>
    have hsplit := dropLast_append_getLast? last hlast
    dsimp only
    split_ifs
    · conv_rhs => rw [← hsplit]
      simp
    · simp

theorem writeRecord_segments {α : Type} {len : α → ℕ} (config : SpoolConfig) (state : SpoolState α)
    {payload : α} (h : Counted len state) : ∀ segment ∈ (writeRecord len config state payload).1,
      segment.bytes = diskBytes len segment.payloads ∧
        segment.records = segment.payloads.length := by
  have hfresh : recordDiskBytes len payload = diskBytes len [payload] := by simp [diskBytes]
  unfold writeRecord
  cases hlast : state.segments.getLast? with
  | none =>
    exact forall_mem_append.mpr ⟨h.segment,forall_mem_singleton.mpr ⟨hfresh,rfl⟩⟩
  | some last =>
    have hcounts := h.segment last (mem_of_getLast? hlast)
    dsimp only
    split_ifs
    · refine forall_mem_append.mpr ⟨fun segment hs => h.segment segment (dropLast_subset _ hs),?_⟩
      simp [hcounts, hfresh]
    · exact forall_mem_append.mpr ⟨h.segment,forall_mem_singleton.mpr ⟨hfresh,rfl⟩⟩

/-- The state of `append_bytes` between its write and the enforcement of the budget. -/
def written {α : Type} (len : α → ℕ) (config : SpoolConfig) (state : SpoolState α) (payload : α) :
    SpoolState α :=
  { state with
    segments := (writeRecord len config state payload).1
    bytes := state.bytes + recordDiskBytes len payload
    records := state.records + 1
    nextSequence := (writeRecord len config state payload).2 }

theorem appendBytes_eq {α : Type} {len : α → ℕ} (config : SpoolConfig) (state : SpoolState α)
    (payload : α) :
    appendBytes len config state payload =
      if recordDiskBytes len payload > config.maxBytes then none
      else some (enforceBudget config (written len config state payload)) := rfl

theorem written_queued {α : Type} {len : α → ℕ} (config : SpoolConfig) (state : SpoolState α)
    {payload : α} :
    queued (written len config state payload) = queued state ++ [payload] :=
  writeRecord_queued config state

theorem written_counted {α : Type} {len : α → ℕ} (config : SpoolConfig) (state : SpoolState α)
    (payload : α) (h : Counted len state) : Counted len (written len config state payload) where
  segment := writeRecord_segments config state h
  bytes := by
    rw [written_queued, diskBytes_append, ← h.bytes]
    simp [written, diskBytes]
  records := by
    rw [written_queued, length_append, ← h.records]
    rfl

theorem readLoop_isHead {α : Type} (len : α → ℕ) (maxRecords maxPayloadBytes : ℕ)
    (rest records : List α) (payloadBytes : ℕ) :
    readLoop len maxRecords maxPayloadBytes rest records payloadBytes <+: records ++ rest := by
  induction rest generalizing records payloadBytes with
  | nil => simp [readLoop]
  | cons payload rest ih =>
    unfold readLoop
    split_ifs
    · exact prefix_append _ _
    · rw [append_cons records payload rest]
      exact prefix_append _ _
    · rw [append_cons records payload rest]
      exact ih _ _

theorem readBatch_records {α : Type} {len : α → ℕ} {state : SpoolState α}
    {maxRecords maxPayloadBytes : ℕ} :
    (readBatch len state maxRecords maxPayloadBytes).records <+: queued state ∧
      (readBatch len state maxRecords maxPayloadBytes).ack =
        (readBatch len state maxRecords maxPayloadBytes).records.length := by
  unfold readBatch
  split_ifs
  · exact ⟨List.nil_prefix,rfl⟩
  · have hread := readLoop_isHead len maxRecords maxPayloadBytes (queued state) [] 0
    exact ⟨by simpa using hread,rfl⟩

abbrev Payload := List UInt8

abbrev Entry := Payload × ℕ

def entryLen (entry : Entry) : ℕ := entry.1.length

/-- The calls of the forwarder; an `ack` is that of the last batch read. -/
inductive Call where
  | append (payload : Payload)
  | read (maxRecords maxPayloadBytes : ℕ)
  | ack
  deriving DecidableEq, Repr

structure World where
  spool : SpoolState Entry
  appended : List Entry
  outstanding : Option (SpoolBatch Entry)
  delivered : List Entry
  dropped : List Entry
  deriving DecidableEq, Repr

/-- The records of `before` that are no longer among `after`. -/
def gone (before after : List Entry) : List Entry := before.filter fun entry => entry ∉ after

def number : ℕ → List (ℕ × List Payload) → List (ℕ × List Entry)
  | _, [] => []
  | n, file :: rest => (file.1,file.2.zipIdx n) :: number (n + file.2.length) rest

def opened (config : SpoolConfig) (files : List (ℕ × List Payload)) : Option World :=
  let found := number 0 files
  (openSpool entryLen config found).map fun spool =>
    { spool := spool
      appended := found.flatMap snd
      outstanding := none
      delivered := []
      dropped := gone (found.flatMap snd) (queued spool) }

def step (config : SpoolConfig) (world : World) : Call → World
  | .append payload =>
    let entry := (payload,world.appended.length)
    match appendBytes entryLen config world.spool entry with
    | none => world
    | some spool =>
      { world with
        spool := spool
        appended := world.appended ++ [entry]
        dropped := world.dropped ++ gone (queued world.spool ++ [entry]) (queued spool) }
  | .read maxRecords maxPayloadBytes =>
    { world with
      outstanding := some (readBatch entryLen world.spool maxRecords maxPayloadBytes) }
  | .ack =>
    match world.outstanding with
    | none => world
    | some batch =>
      match ack entryLen world.spool batch.ack with
      | none => world
      | some spool =>
        { world with
          spool := spool
          outstanding := none
          delivered := world.delivered ++ batch.records }

/-- Every appended record is queued, was delivered, or was dropped and counted. -/
structure Accounted (world : World) : Prop where
  order : queued world.spool <:+ world.appended
  fate : ∀ entry ∈ world.appended,
    entry ∈ queued world.spool ∨ entry ∈ world.delivered ∨ entry ∈ world.dropped
  counted : world.dropped.length = world.spool.droppedRecords

/-- The acknowledgement of the outstanding batch removes records of that batch only. -/
def AckExact (config : SpoolConfig) (world : World) : Prop :=
  ∀ batch, world.outstanding = some batch →
    ∀ entry ∈ queued world.spool, entry ∉ queued (step config world .ack).spool →
      entry ∈ batch.records

def WithinBudget (config : SpoolConfig) (world : World) : Call → Prop
  | .append payload =>
    world.outstanding = none ∨ payload.length + recordHeaderBytes > config.maxBytes ∨
      world.spool.bytes + (payload.length + recordHeaderBytes) ≤ config.maxBytes
  | .read _ _ => True
  | .ack => True

structure Steady (world : World) : Prop extends Accounted world where
  files : Counted entryLen world.spool
  places : world.appended.map snd = List.range world.appended.length
  head : ∀ batch, world.outstanding = some batch →
    batch.records <+: queued world.spool ∧ batch.ack = batch.records.length

theorem number_places (n : ℕ) (files : List (ℕ × List Payload)) :
    (number n files).flatMap snd = (files.flatMap snd).zipIdx n := by
  induction files generalizing n with
  | nil => rfl
  | cons file files ih => simp [number, ih, zipIdx_append]

/-- Of a list without repetitions, the records that left at the head are those cut off. -/
theorem gone_drop {entries : List Entry} (h : entries.Nodup) (d : ℕ) :
    gone entries (entries.drop d) = entries.take d := by
  have hdisjoint := disjoint_take_drop h (Nat.le_refl d)
  have hkept : (entries.drop d).filter (fun entry => entry ∉ entries.drop d) = [] := by
    simp
  have hcut : (entries.take d).filter (fun entry => entry ∉ entries.drop d) = entries.take d := by
    apply filter_eq_self.mpr
    intro entry he
    simpa using fun hin => hdisjoint he hin
  calc gone entries (entries.drop d)
      = (entries.take d ++ entries.drop d).filter (fun entry => entry ∉ entries.drop d) := by
        rw [take_append_drop]; rfl
    _ = entries.take d := by rw [filter_append, hkept, hcut, append_nil]

theorem nodup_of_places {entries : List Entry}
    (h : entries.map snd = List.range entries.length) : entries.Nodup := by
  apply List.Nodup.of_map snd
  rw [h]
  exact nodup_range

/-- The budget's part of an operation: what it removes it also counts. -/
theorem enforceBudget_accounted (config : SpoolConfig) {state : SpoolState Entry}
    (h : Counted entryLen state) (hnodup : (queued state).Nodup) :
    Counted entryLen (enforceBudget config state) ∧
      queued (enforceBudget config state) <:+ queued state ∧
      (gone (queued state) (queued (enforceBudget config state))).length + state.droppedRecords =
        (enforceBudget config state).droppedRecords := by
  obtain ⟨d,hd,hdrained,hcount⟩ := dropHeads_drained state h rfl
  have hqueue : queued (enforceBudget config state) = (queued state).drop d := hdrained.queue
  have hcounted : (enforceBudget config state).droppedRecords = state.droppedRecords + d := hcount
  refine ⟨hdrained.counted,?_,?_⟩
  · rw [hqueue]
    exact drop_suffix d _
  · rw [hqueue, gone_drop hnodup, length_take, hcounted]
    omega

theorem mem_or_gone {before : List Entry} {after : List Entry} {entry : Entry}
    (h : entry ∈ before) :
    entry ∈ after ∨ entry ∈ gone before after := by
  by_cases hin : entry ∈ after
  · exact .inl hin
  · exact .inr (mem_filter.mpr ⟨h,by simpa using hin⟩)

theorem opened_steady (config : SpoolConfig) {files : List (ℕ × List Payload)} {world : World}
    (h : opened config files = some world) : Steady world := by
  have hqueue := loadState_queued entryLen (number 0 files)
  have hplaces := number_places 0 files
  have hrange : ((number 0 files).flatMap snd).map snd =
      List.range ((number 0 files).flatMap snd).length := by
    rw [hplaces]
    simp [range_eq_range', zipIdx_map_snd]
  have hnodup : (queued (loadState entryLen (number 0 files))).Nodup := by
    rw [hqueue]
    exact nodup_of_places hrange
  obtain ⟨hcounted,hsuffix,hlength⟩ :=
    enforceBudget_accounted config loadState_counted hnodup
  rw [hqueue] at hsuffix hlength
  obtain ⟨spool,hspool,rfl⟩ := Option.map_eq_some_iff.mp h
  rw [openSpool] at hspool
  split_ifs at hspool
  rw [← Option.some.inj hspool]
  exact
    { order := hsuffix
      fate := by
        intro entry he
        exact (mem_or_gone he).imp_right .inr
      counted := hlength
      files := hcounted
      places := hrange
      head := by intro batch hb; cases hb }

theorem append_steady (config : SpoolConfig) (world : World) {payload : Payload} (h : Steady world)
    (hcall : WithinBudget config world (.append payload)) :
    Steady (step config world (.append payload)) := by
  simp only [step, appendBytes_eq]
  split_ifs with hlarge
  · exact h
  set entry : Entry := (payload,world.appended.length) with hentry
  set state := written entryLen config world.spool entry with hstate
  have hqueue : queued state = queued world.spool ++ [entry] := written_queued config _
  have hplaces : (world.appended ++ [entry]).map snd =
      List.range (world.appended ++ [entry]).length := by
    simp [h.places, hentry, range_succ]
  have hsub : queued state <:+ world.appended ++ [entry] := by
    obtain ⟨left,hleft⟩ := h.order
    exact ⟨left,by rw [hqueue, ← append_assoc, hleft]⟩
  have hnodup : (queued state).Nodup := (nodup_of_places hplaces).sublist hsub.sublist
  have hfiles := written_counted config world.spool entry h.files
  obtain ⟨hcounted,hsuffix,hlength⟩ := enforceBudget_accounted config hfiles hnodup
  exact
    { order := hsuffix.trans hsub
      fate := by
        intro other ho
        have hold : other ∈ queued state ∨ other ∈ world.delivered ∨ other ∈ world.dropped := by
          rw [hqueue, mem_append]
          rcases mem_append.mp ho with ho | ho
          · exact (h.fate other ho).imp_left .inl
          · exact .inl (.inr ho)
        rcases hold with hin | hdelivered | hdropped
        · rcases mem_or_gone hin with hin | hgone
          · exact .inl hin
          · exact .inr (.inr (mem_append_right _ (hqueue ▸ hgone)))
        · exact .inr (.inl hdelivered)
        · exact .inr (.inr (mem_append_left _ hdropped))
      counted := by
        rw [length_append, h.counted, ← hqueue, ← hlength]
        exact Nat.add_comm _ _
      files := hcounted
      places := hplaces
      head := by
        intro batch hb
        rcases hcall with hnone | hover | hfits
        · rw [hnone] at hb
          cases hb
        · exact absurd hover hlarge
        · have hwithin : enforceBudget config state = state :=
            enforceBudget_within config state hfits
          obtain ⟨hbatch,hack⟩ := h.head batch hb
          refine ⟨?_,hack⟩
          rw [hwithin, hqueue]
          exact hbatch.trans (prefix_append _ _) }

/-- The acknowledged records are the head of the queue, and nothing else leaves. -/
theorem ack_eq (world : World) (h : Steady world) {batch : SpoolBatch Entry}
    (hb : world.outstanding = some batch) :
    ∃ spool, ack entryLen world.spool batch.ack = some spool ∧ Counted entryLen spool ∧
      queued world.spool = batch.records ++ queued spool ∧
      spool.droppedRecords = world.spool.droppedRecords := by
  obtain ⟨hbatch,hack⟩ := h.head batch hb
  obtain ⟨tail,htail⟩ := hbatch
  by_cases hzero : batch.ack = 0
  · refine ⟨world.spool,by simp [ack, hzero],h.files,?_,rfl⟩
    have hempty : batch.records = [] := eq_nil_of_length_eq_zero (hack.symm.trans hzero)
    rw [hempty, nil_append]
  · have hfits : ¬ batch.ack > world.spool.records := by
      rw [h.files.records, ← htail, length_append]
      omega
    obtain ⟨hdrained,hcount⟩ :=
      ackHeads_drained batch.ack world.spool h.files rfl
    refine ⟨_,by simp only [ack, if_neg hzero, if_neg hfits],hdrained.counted,?_,hcount⟩
    rw [hdrained.queue, ← htail, hack, drop_left]

theorem ack_steady (config : SpoolConfig) (world : World) (h : Steady world) :
    Steady (step config world .ack) := by
  cases hb : world.outstanding with
  | none =>
    have hself : step config world .ack = world := by simp only [step, hb]
    rwa [hself]
  | some batch =>
    obtain ⟨spool,hspool,hcounted,hqueue,hdropped⟩ := ack_eq world h hb
    simp only [step, hb, hspool]
    exact
      { order := (suffix_append _ _).trans (hqueue ▸ h.order)
        fate := by
          intro entry he
          rcases h.fate entry he with hin | hdelivered | hdropped
          · rcases mem_append.mp (hqueue ▸ hin) with hin | hin
            · exact .inr (.inl (mem_append_right _ hin))
            · exact .inl hin
          · exact .inr (.inl (mem_append_left _ hdelivered))
          · exact .inr (.inr hdropped)
        counted := h.counted.trans hdropped.symm
        files := hcounted
        places := h.places
        head := by intro batch hb; cases hb }

theorem read_steady (config : SpoolConfig) (world : World) {maxRecords maxPayloadBytes : ℕ}
    (h : Steady world) : Steady (step config world (.read maxRecords maxPayloadBytes)) :=
  { h with
    head := by
      intro batch hb
      rw [← Option.some.inj hb]
      exact readBatch_records }

theorem step_steady (config : SpoolConfig) (world : World) (call : Call) (h : Steady world)
    (hcall : WithinBudget config world call) : Steady (step config world call) := by
  cases call with
  | append payload => exact append_steady config world h hcall
  | read maxRecords maxPayloadBytes => exact read_steady config world h
  | ack => exact ack_steady config world h

theorem Steady.ackExact {world : World} (h : Steady world) {config : SpoolConfig} :
    AckExact config world := by
  intro batch hb entry hin hout
  obtain ⟨spool,hspool,-,hqueue,-⟩ := ack_eq world h hb
  simp only [step, hb, hspool] at hout
  exact (mem_append.mp (hqueue ▸ hin)).resolve_right hout

/-- In every run in which no append goes over the budget while a batch is outstanding, every
record is accounted for and every acknowledgement is exact. -/
theorem spool_accounted (config : SpoolConfig) (files : List (ℕ × List Payload)) (start : World)
    (hopen : opened config files = some start) (calls : List Call)
    (h : ∀ before call, before ++ [call] <+: calls →
      WithinBudget config (run (step config) start before) call) :
    Accounted (run (step config) start calls) ∧
      AckExact config (run (step config) start calls) := by
  have hsteady : Steady (run (step config) start calls) :=
    run_invariant_along (WithinBudget config) Steady
      (opened_steady config hopen) (step_steady config) calls h
  exact ⟨hsteady.toAccounted,hsteady.ackExact⟩

def tight : SpoolConfig := { maxBytes := 30, maxSegmentBytes := 10 }

def fresh : World where
  spool := { segments := [], bytes := 0, records := 0, nextSequence := 0, droppedRecords := 0,
             droppedBytes := 0 }
  appended := []
  outstanding := none
  delivered := []
  dropped := []

theorem spool_accounted_acknowledged :
    let calls : List Call := [.append [97], .append [98], .read 1 100, .append [99], .ack]
    let world := run (step tight) fresh calls
    world.delivered = [([97],0)] ∧ queued world.spool = [([98],1), ([99],2)] ∧
      Accounted world ∧ AckExact tight world := by
  refine ⟨by decide,by decide,spool_accounted tight [] fresh (by decide) _ ?_⟩
  apply along_of_take
  intro i hi
  match i, hi with
  | 0, _ | 1, _ => exact .inl (by decide)
  | 2, _ | 4, _ => trivial
  | 3, _ => exact .inr (.inr (by decide))

def overtaken : List Call :=
  [.append [97], .append [98], .append [99], .read 1 100, .append [100], .ack]

/-- The second record is neither queued, nor delivered, nor counted as dropped. -/
theorem overtaken_loses_record :
    let world := run (step tight) fresh overtaken
    opened tight [] = some fresh ∧ ([98],1) ∈ world.appended ∧ ([98],1) ∉ queued world.spool ∧
      ([98],1) ∉ world.delivered ∧ ([98],1) ∉ world.dropped ∧
      world.spool.droppedRecords = 1 ∧ ¬ Accounted world := by
  refine ⟨by decide,by decide,by decide,by decide,by decide,by decide,fun h => ?_⟩
  have hfate := h.fate ([98],1) (by decide)
  revert hfate
  decide

end Permanu.DiskSpool
