import PermanuAgent.TelemetrySegments
import PermanuAgent.NumberedRows
import PermanuAgent.StepRuns

/-!
# Cursors of the telemetry log

The log of a kind is what was ever appended to it, in order. While numbers are
not used twice, a stored segment holds exactly the records of the log that name
it, so a cursor that finds its segment finds its record, and a forward scan
from it gives the stored part of the log behind the record.

A restart takes the next number from the segments that are left. Numbers stay
unique over restarts at which the last record of the kind is still stored.
-/

set_option autoImplicit false

namespace Permanu.TelemetryCursors

open ByteText FrontMerge TelemetryStore List OrderedMap StepRuns NumberedRows
open TelemetrySegments

def stored (data : KindData) : List RawRecord :=
  data.producers.entries.flatMap fun entry =>
    entry.2.segments.flatMap fun segment =>
      segment.frames.map (rawRecord entry.1 segment.firstSeq)

variable {data : KindData} {record : RawRecord}

theorem mem_stored :
    record ∈ stored data ↔ ∃ producer found, (producer,found) ∈ data.producers.entries ∧
      ∃ segment ∈ found.segments, ∃ frame ∈ segment.frames,
        rawRecord producer segment.firstSeq frame = record := by
  simp only [stored, mem_flatMap, mem_map, Prod.exists]

/-- A segment holds the records of the log that name it. -/
def Holds (log : List RawRecord) (producer : Producer) (segment : Segment) : Prop :=
  segment.frames.map (rawRecord producer segment.firstSeq) =
    log.filter fun record => record.producer = producer ∧ record.segment = segment.firstSeq

def Sealed (data : ProducerData) : Prop :=
  match data.openFiles with
  | none => ∀ segment ∈ data.segments, segment.closed = true
  | some _ => ∃ before last, data.segments = before ++ [last] ∧ last.closed = false ∧
      ∀ segment ∈ before, segment.closed = true

def Ordered (segments : List Segment) : Prop :=
  segments.Pairwise fun a b => a.lastSeq < b.firstSeq

structure ProducerOk (log : List RawRecord) (producer : Producer) (data : ProducerData) :
    Prop where
  sound : ∀ segment ∈ data.segments, Sound segment
  holds : ∀ segment ∈ data.segments, Holds log producer segment
  ordered : Ordered data.segments
  isSealed : Sealed data

variable {last segment : Segment} {before : List Segment} {files : OpenFiles} {after : KindData}
  {kind : Kind}

theorem Sound.first_le_last (h : Sound segment) :
    segment.firstSeq ≤ segment.lastSeq := by
  obtain ⟨frame,hframe,hseq⟩ := h.last_mem
  rw [← hseq]
  exact h.first frame hframe

theorem producerOk_empty {log : List RawRecord} {producer : Producer} :
    ProducerOk log producer { segments := [], openFiles := none } where
  sound := by simp
  holds := by simp
  ordered := List.Pairwise.nil
  isSealed := by simp [Sealed]

variable {log : List RawRecord} {producer : Producer}

def Earlier (log : List RawRecord) (producer : Producer) (before : List Segment) (first : ℕ) :
    Prop :=
  ∀ segment ∈ before, Sound segment ∧ Holds log producer segment ∧
    segment.closed = true ∧ segment.lastSeq < first

theorem producerOk_concat {files : Option OpenFiles}
    (hbefore : Earlier log producer before last.firstSeq) (hordered : Ordered before)
    (hsound : Sound last) (hholds : Holds log producer last)
    (hclosed : last.closed = files.isNone) :
    ProducerOk log producer { segments := before ++ [last], openFiles := files } where
  sound := forall_mem_append.mpr ⟨fun s hs => (hbefore s hs).1,
    forall_mem_singleton.mpr hsound⟩
  holds := forall_mem_append.mpr ⟨fun s hs => (hbefore s hs).2.1,
    forall_mem_singleton.mpr hholds⟩
  ordered := pairwise_append.mpr ⟨hordered,pairwise_singleton _ _,fun s hs =>
    forall_mem_singleton.mpr (hbefore s hs).2.2.2⟩
  isSealed := by
    have hearlier : ∀ s ∈ before, s.closed = true := fun s hs => (hbefore s hs).2.2.1
    cases files with
    | none => exact forall_mem_append.mpr ⟨hearlier,forall_mem_singleton.mpr hclosed⟩
    | some files => exact ⟨before,last,rfl,hclosed,hearlier⟩

theorem ProducerOk.open_last {data : ProducerData} (h : ProducerOk log producer data)
    (hfiles : data.openFiles = some files) :
    ∃ before last, data = { segments := before ++ [last], openFiles := some files } ∧
      Earlier log producer before last.firstSeq ∧ Ordered before ∧ Sound last ∧
      Holds log producer last ∧ last.closed = false := by
  obtain ⟨segments,openFiles⟩ := data
  cases hfiles
  obtain ⟨before,last,rfl,hopen,hclosed⟩ := h.isSealed
  obtain ⟨hsound,hlast⟩ := forall_mem_append.mp h.sound
  obtain ⟨hholds,hheld⟩ := forall_mem_append.mp h.holds
  obtain ⟨hordered,-,hless⟩ := pairwise_append.mp h.ordered
  have hmem : last ∈ [last] := mem_singleton.mpr rfl
  refine ⟨before,last,rfl,?_,hordered,hlast last hmem,hheld last hmem,hopen⟩
  intro segment hs
  exact ⟨hsound segment hs,hholds segment hs,hclosed segment hs,hless segment hs last hmem⟩

theorem closeOpen_ok {data : ProducerData} (h : ProducerOk log producer data) :
    ProducerOk log producer (closeOpen data) ∧ (closeOpen data).openFiles = none := by
  cases hfiles : data.openFiles with
  | none =>
    have hself : closeOpen data = data := by simp only [closeOpen, hfiles]
    rw [hself]
    exact ⟨h,hfiles⟩
  | some files =>
    obtain ⟨before,last,rfl,hbefore,hordered,hsound,hholds,-⟩ := h.open_last hfiles
    have hclose : closeOpen { segments := before ++ [last], openFiles := some files } =
        { segments := before ++ [closeSegment last], openFiles := none } := by
      simp [closeOpen]
    rw [hclose]
    exact ⟨producerOk_concat hbefore hordered (closeSegment_sound hsound) hholds rfl,rfl⟩

/-- A producer keeps its soundness when its first segment goes. -/
theorem ProducerOk.tail {data : ProducerData} (h : ProducerOk log producer data) {first : Segment}
    {rest : List Segment} (hsegments : data.segments = first :: rest) (hrest : rest ≠ []) :
    ProducerOk log producer { data with segments := rest } := by
  obtain ⟨segments,files⟩ := data
  cases hsegments
  refine ⟨(forall_mem_cons.mp h.sound).2,(forall_mem_cons.mp h.holds).2,
    (pairwise_cons.mp h.ordered).2,?_⟩
  have hsealed := h.isSealed
  cases files with
  | none => exact (forall_mem_cons.mp hsealed).2
  | some files =>
    obtain ⟨before,last,hsplit,hopen,hclosed⟩ := hsealed
    cases before with
    | nil =>
      cases hsplit
      exact absurd rfl hrest
    | cons head before =>
      cases hsplit
      exact ⟨before,last,rfl,hopen,(forall_mem_cons.mp hclosed).2⟩

theorem sealOldest_ok {data : ProducerData} (h : ProducerOk log producer data) :
    ProducerOk log producer (sealOldest data) := by
  unfold sealOldest
  cases data.segments.head? with
  | none => exact h
  | some first =>
    dsimp only
    split_ifs
    · exact h
    · exact (closeOpen_ok h).1

theorem Holds.other (h : Holds log producer segment)
    (hother : ¬ (record.producer = producer ∧ record.segment = segment.firstSeq)) :
    Holds (log ++ [record]) producer segment := by
  unfold Holds at h ⊢
  rw [filter_append, ← h, filter_singleton]
  simp [hother]

structure Ready (log : List RawRecord) (producer : Producer) (next : ℕ) (before : List Segment)
    (last : Segment) : Prop where
  earlier : Earlier log producer before last.firstSeq
  ordered : Ordered before
  consistent : Consistent last
  holds : Holds log producer last
  isOpen : last.closed = false
  new : ∀ other ∈ last.frames, other.seq < next
  first : last.firstSeq ≤ next

theorem writeFrame_ok {files : OpenFiles} (frame : Frame)
    (h : Ready log producer frame.seq before last) :
    ProducerOk (log ++ [rawRecord producer last.firstSeq frame]) producer
      (writeFrame frame { segments := before ++ [last], openFiles := some files }) ∧
    ∃ final, (writeFrame frame
      { segments := before ++ [last], openFiles := some files }).segments = before ++ [final] ∧
        final.firstSeq = last.firstSeq := by
  have hstarted := startBlock_started files frame h.consistent
  set started := (startBlock files frame last).1 with hdef
  have hwrite : writeFrame frame { segments := before ++ [last], openFiles := some files } =
      { segments := before ++ [addFrame frame started]
        openFiles := some
          { files with blockFill := (startBlock files frame last).2 + frame.bytes } } := by
    simp [writeFrame, hdef]
  have hsound := addFrame_sound hstarted h.consistent h.isOpen h.new h.first
  have hnumber : (addFrame frame started).firstSeq = last.firstSeq := hstarted.firstSeq
  rw [hwrite]
  refine ⟨producerOk_concat ?_ h.ordered hsound ?_ (hstarted.closed.trans h.isOpen),_,rfl,
    hnumber⟩
  · intro segment hs
    obtain ⟨hsegment,hheld,hclosed,hless⟩ := h.earlier segment hs
    refine ⟨hsegment,hheld.other ?_,hclosed,hnumber ▸ hless⟩
    rintro ⟨-,hsame⟩
    have hfirst := Sound.first_le_last hsegment
    have hname : last.firstSeq = segment.firstSeq := hsame
    omega
  · have hholds := h.holds
    unfold Holds at hholds ⊢
    rw [hnumber, filter_append, ← hholds]
    show (started.frames ++ [frame]).map _ = _
    rw [hstarted.frames, map_append]
    simp [rawRecord]

/-- A producer whose directory no other producer has. -/
def Plain (producer : Producer) : Prop :=
  producer.dirName = str "otlp:unattributed" → producer = .otlpUnattributed

structure KindOk (log : List RawRecord) (data : KindData) : Prop where
  numbers : log.map RawRecord.seq = List.range' 1 log.length
  next : data.nextSeq = log.length + 1
  named : ∀ record ∈ log, record.segment ≤ record.seq
  producers : ∀ producer found, (producer,found) ∈ data.producers.entries →
    Plain producer ∧ ProducerOk log producer found ∧ found.segments ≠ []

theorem kindOk_empty : KindOk [] { nextSeq := 1, producers := OrderedMap.empty } where
  numbers := rfl
  next := rfl
  named := by simp
  producers := by simp [OrderedMap.empty]

theorem KindOk.seq_lt (h : KindOk log data) (hr : record ∈ log) : record.seq < data.nextSeq := by
  have hmem : record.seq ∈ log.map RawRecord.seq := mem_map_of_mem hr
  rw [h.numbers, mem_range'] at hmem
  rw [h.next]
  omega

theorem KindOk.ascending (h : KindOk log data) : log.Pairwise fun a b => a.seq < b.seq := by
  have hrange : (log.map RawRecord.seq).Pairwise (· < ·) := by
    rw [h.numbers]
    exact pairwise_lt_range'
  exact pairwise_map.mp hrange

variable {found : ProducerData}

theorem ProducerOk.mem_log (h : ProducerOk log producer found)
    (hs : segment ∈ found.segments) {frame : Frame} (hf : frame ∈ segment.frames) :
    rawRecord producer segment.firstSeq frame ∈ log := by
  have hmem : rawRecord producer segment.firstSeq frame ∈
      segment.frames.map (rawRecord producer segment.firstSeq) := mem_map_of_mem hf
  rw [h.holds segment hs] at hmem
  exact (mem_filter.mp hmem).1

theorem KindOk.mem_log (h : KindOk log data) (hr : record ∈ stored data) : record ∈ log := by
  obtain ⟨producer,found,hfound,segment,hs,frame,hf,rfl⟩ := mem_stored.mp hr
  obtain ⟨-,hok,-⟩ := h.producers producer found hfound
  exact hok.mem_log hs hf

/-- A kind whose producers are all as before, or better. -/
theorem KindOk.of_producers (h : KindOk log data)
    (hnext : after.nextSeq = data.nextSeq)
    (hproducers : ∀ producer found, (producer,found) ∈ after.producers.entries →
      Plain producer ∧ ProducerOk log producer found ∧ found.segments ≠ []) : KindOk log after where
  numbers := h.numbers
  next := hnext.trans h.next
  named := h.named
  producers := hproducers

theorem deleteOldest_ok (h : KindOk log data)
    (hdelete : deleteOldest data producer = some after) : KindOk log after := by
  unfold deleteOldest at hdelete
  cases hget : data.producers.get? producer with
  | none => simp [hget] at hdelete
  | some old =>
    obtain ⟨hplain,hok,-⟩ := h.producers producer old (get?_eq_some.mp hget)
    have hsealed := sealOldest_ok hok
    cases hsegments : (sealOldest old).segments with
    | nil => simp [hget, hsegments] at hdelete
    | cons first rest =>
      simp only [hget, hsegments, Option.some.injEq] at hdelete
      rw [← hdelete]
      refine h.of_producers rfl ?_
      intro other found hfound
      split_ifs at hfound with hrest
      · exact h.producers other found (mem_erase.mp hfound).2
      · rcases mem_insert.mp hfound with ⟨rfl,rfl⟩ | ⟨-,hmem⟩
        · exact ⟨hplain,hsealed.tail hsegments hrest,hrest⟩
        · exact h.producers other found hmem

variable {limit now : ℤ} {maxBytes : ℕ} {opts : StoreOptions}

theorem ageStep_ok (s t : KindData) (h : KindOk log s)
    (hstep : ageStep limit producer s = some t) : KindOk log t := by
  unfold ageStep at hstep
  cases hfirst : (s.producers.get? producer).bind fun old => old.segments.head? with
  | none => simp [hfirst] at hstep
  | some first =>
    simp only [hfirst] at hstep
    split_ifs at hstep
    exact deleteOldest_ok h hstep

theorem evictStep_ok (s t : KindData) (h : KindOk log s)
    (hstep : evictStep maxBytes s = some t) : KindOk log t := by
  unfold evictStep at hstep
  split_ifs at hstep
  cases hvictim : victim maxBytes s with
  | none => simp [hvictim] at hstep
  | some producer => exact deleteOldest_ok h (by simpa [hvictim] using hstep)

theorem evictAge_ok (h : KindOk log data) : KindOk log (evictAge limit data) := by
  unfold evictAge
  generalize data.producers.keys = keys
  induction keys generalizing data with
  | nil => exact h
  | cons producer keys ih =>
    apply ih
    exact exhaust_invariant (KindOk log) h ageStep_ok

theorem evictSize_ok (h : KindOk log data) :
    KindOk log (evictSize maxBytes data) := by
  unfold evictSize
  split_ifs
  · exact h
  · exact exhaust_invariant (KindOk log) h evictStep_ok

theorem closeOpen_length (data : ProducerData) :
    (closeOpen data).segments.length = data.segments.length := by
  unfold closeOpen
  cases hfiles : data.openFiles with
  | none => rfl
  | some files =>
    cases hlast : data.segments.getLast? with
    | none => rfl
    | some last =>
      have hsplit := dropLast_append_getLast? last hlast
      have hlength := congrArg List.length hsplit
      simpa using hlength

theorem closeOpen_nonempty {data : ProducerData} (h : data.segments ≠ []) :
    (closeOpen data).segments ≠ [] := by
  intro hnil
  have hlength := closeOpen_length data
  rw [hnil] at hlength
  exact h (eq_nil_of_length_eq_zero hlength.symm)

theorem closeStale_ok (h : KindOk log data) :
    KindOk log (closeStale opts now data) := by
  refine h.of_producers rfl ?_
  intro producer found hfound
  obtain ⟨old,hold,rfl⟩ := mem_mapValues.mp hfound
  have hok := h.producers producer old hold
  cases old.openFiles with
  | none => exact hok
  | some files =>
    dsimp only
    split_ifs
    · exact ⟨hok.1,(closeOpen_ok hok.2.1).1,closeOpen_nonempty hok.2.2⟩
    · exact hok

theorem enforceKind_ok {policy : Retention} (h : KindOk log data) :
    KindOk log (enforceKind opts policy now data) :=
  evictSize_ok (evictAge_ok (closeStale_ok h))

def AllClosed (log : List RawRecord) (entries : List (Producer × ProducerData)) : Prop :=
  ∀ producer found, (producer,found) ∈ entries → Plain producer ∧ ProducerOk log producer found ∧
    found.segments ≠ [] ∧ found.openFiles = none

theorem closeAllKind_closed (h : KindOk log data) :
    AllClosed log (closeAllKind data).producers.entries := by
  intro producer found hfound
  obtain ⟨old,hold,rfl⟩ := mem_mapValues.mp hfound
  obtain ⟨hplain,hok,hsome⟩ := h.producers producer old hold
  exact ⟨hplain,(closeOpen_ok hok).1,closeOpen_nonempty hsome,(closeOpen_ok hok).2⟩

theorem closeAllKind_ok (h : KindOk log data) : KindOk log (closeAllKind data) := by
  refine h.of_producers rfl fun producer found hfound => ?_
  obtain ⟨hplain,hok,hsome,-⟩ := closeAllKind_closed h producer found hfound
  exact ⟨hplain,hok,hsome⟩

def newRecord (before after : KindData) (producer : Producer) (ts : ℤ) (tag : UInt8)
    (payload : List UInt8) : Option RawRecord :=
  if after.nextSeq = before.nextSeq then none
  else
    some
      { seq := before.nextSeq
        ts := ts
        tag := tag
        payload := payload
        producer := producer
        segment := (((after.producers.get? producer).bind fun found =>
          found.segments.getLast?).map Segment.firstSeq).getD 0 }

theorem KindOk.last_lt_next (h : KindOk log data) (hok : ProducerOk log producer found)
    (hs : segment ∈ found.segments) : segment.lastSeq < data.nextSeq := by
  obtain ⟨frame,hframe,hseq⟩ := (hok.sound segment hs).last_mem
  rw [← hseq]
  exact h.seq_lt (hok.mem_log hs hframe)

/-- No record of the log names a segment that is yet to be opened. -/
theorem KindOk.fresh (h : KindOk log data) :
    log.filter (fun record => record.producer = producer ∧ record.segment = data.nextSeq) = [] := by
  rw [filter_eq_nil_iff]
  intro record hr hmatch
  have hnamed := h.named record hr
  have hless := h.seq_lt hr
  simp only [decide_eq_true_eq] at hmatch
  omega

theorem openSegment_ready (h : KindOk log data) (hok : ProducerOk log producer found)
    (hfiles : found.openFiles = none) :
    ∃ last files, openSegment data.nextSeq now found =
        { segments := found.segments ++ [last], openFiles := some files } ∧
      Ready log producer data.nextSeq found.segments last := by
  refine ⟨_,_,rfl,?_⟩
  have hsealed := hok.isSealed
  unfold Sealed at hsealed
  rw [hfiles] at hsealed
  exact
    { earlier := fun segment hs => ⟨hok.sound segment hs,hok.holds segment hs,
        hsealed segment hs,h.last_lt_next hok hs⟩
      ordered := hok.ordered
      consistent :=
        { ascending := List.Pairwise.nil
          first := by simp
          times := by simp
          records := rfl
          segBytes := rfl
          idxBytes := rfl
          blocks := rfl
          summary := rfl
          blocked := ⟨[],by simp,rfl,rfl⟩ }
      holds := h.fresh.symm
      isOpen := rfl
      new := by simp
      first := Nat.le_refl _ }

theorem open_ready (h : KindOk log data) (hok : ProducerOk log producer found)
    (hfiles : found.openFiles = some files) :
    ∃ before last, found = { segments := before ++ [last], openFiles := some files } ∧
      Ready log producer data.nextSeq before last := by
  obtain ⟨before,last,rfl,hbefore,hordered,hsound,hholds,hopen⟩ := hok.open_last hfiles
  have hless := h.last_lt_next hok (show last ∈ before ++ [last] by simp)
  refine ⟨before,last,rfl,?_⟩
  exact
    { earlier := hbefore
      ordered := hordered
      consistent := hsound.toConsistent
      holds := hholds
      isOpen := hopen
      new := fun other ho => (hsound.le_last ho).trans_lt hless
      first := (Sound.first_le_last hsound).trans hless.le }

theorem ProducerOk.other (h : ProducerOk log producer found) (hne : record.producer ≠ producer) :
    ProducerOk (log ++ [record]) producer found where
  sound := h.sound
  holds := fun segment hs => (h.holds segment hs).other fun hsame => hne hsame.1
  ordered := h.ordered
  isSealed := h.isSealed

theorem openedFor_ready (h : KindOk log data) {old : ProducerData}
    (hok : ProducerOk log producer old) {frameLen : ℕ} :
    ∃ before last files, openedFor opts data.nextSeq frameLen now old =
        { segments := before ++ [last], openFiles := some files } ∧
      Ready log producer data.nextSeq before last := by
  unfold openedFor
  set rotated := if needsRotation opts old frameLen now then closeOpen old else old with hrotated
  have hrotatedok : ProducerOk log producer rotated := by
    rw [hrotated]
    split_ifs
    · exact (closeOpen_ok hok).1
    · exact hok
  cases hfiles : rotated.openFiles with
  | none =>
    obtain ⟨last,files,hopened,hready⟩ := openSegment_ready h hrotatedok hfiles
    exact ⟨rotated.segments,last,files,by simpa [hfiles] using hopened,hready⟩
  | some files =>
    obtain ⟨before,last,hopened,hready⟩ := open_ready h hrotatedok hfiles
    exact ⟨before,last,files,by simpa [hfiles] using hopened,hready⟩

theorem tryAppend_ok (h : KindOk log data) {ts : ℤ} {tag : UInt8} {payload : List UInt8}
    (hplain : Plain producer)
    (happend : tryAppend opts data producer ts tag payload now = some after) :
    KindOk (log ++ (newRecord data after producer ts tag payload).toList) after := by
  unfold tryAppend at happend
  dsimp only at happend
  split_ifs at happend with hlarge
  set frame : Frame := { seq := data.nextSeq, ts := ts, tag := tag, payload := payload }
    with hframe
  set old := (data.producers.get? producer).getD { segments := [], openFiles := none } with hold
  have holdok : ProducerOk log producer old := by
    rw [hold]
    cases hget : data.producers.get? producer with
    | none => exact producerOk_empty
    | some found => exact (h.producers producer found (get?_eq_some.mp hget)).2.1
  obtain ⟨before,last,files,hopened,hready⟩ := openedFor_ready h holdok
  rw [hopened, Option.some.injEq] at happend
  obtain ⟨hwritten,final,hfinal,hnumber⟩ := writeFrame_ok frame hready
  have hget : after.producers.get? producer =
      some (writeFrame frame { segments := before ++ [last], openFiles := some files }) := by
    rw [← happend]
    exact get?_insert_self _
  have hnext : after.nextSeq = data.nextSeq + 1 := by rw [← happend]
  have hrecord : newRecord data after producer ts tag payload =
      some (rawRecord producer last.firstSeq frame) := by
    rw [newRecord, if_neg (by omega), hget, Option.bind_some, hfinal]
    simp [hnumber, rawRecord, hframe]
  rw [hrecord, Option.toList_some]
  exact
    { numbers := by
        rw [map_append, h.numbers, length_append, length_singleton,
          range'_1_concat, Nat.add_comm 1 log.length, ← h.next]
        rfl
      next := by
        rw [hnext, h.next, length_append]
        rfl
      named := by
        exact forall_mem_append.mpr ⟨h.named,forall_mem_singleton.mpr hready.first⟩
      producers := by
        intro other found hfound
        rw [← happend] at hfound
        rcases mem_insert.mp hfound with ⟨rfl,rfl⟩ | ⟨hne,hmem⟩
        · refine ⟨hplain,hwritten,?_⟩
          rw [hfinal]
          simp
        · obtain ⟨hother,hok,hsome⟩ := h.producers other found hmem
          exact ⟨hother,hok.other (fun hsame => hne hsame.symm),hsome⟩ }

theorem str_project : str "project:" = [112, 114, 111, 106, 101, 99, 116, 58] := by decide
theorem str_otlp : str "otlp:" = [111, 116, 108, 112, 58] := by decide
theorem str_system : str "system" = [115, 121, 115, 116, 101, 109] := by decide
theorem str_unattributed : str "otlp:unattributed" =
    [111, 116, 108, 112, 58, 117, 110, 97, 116, 116, 114, 105, 98, 117, 116, 101, 100] := by decide

/-- A plain producer is found under the name of its directory. -/
theorem parse_dirName (h : Plain producer) : Producer.parse producer.dirName = some producer := by
  cases producer with
  | system | otlpUnattributed => decide
  | project id =>
    have hid : validId id.val = true := id.property
    simp [Producer.parse, Producer.dirName, stripHead, hid, str_project, str_system,
      str_unattributed]
  | otlp id =>
    have hid : validId id.val = true := id.property
    have hnone : Producer.dirName (.otlp id) ≠ str "otlp:unattributed" := by
      intro hsame
      cases h hsame
    rw [Producer.parse, if_neg (by simp [Producer.dirName, str_otlp, str_system]), if_neg hnone]
    simp [Producer.dirName, stripHead, hid, str_project, str_otlp]

theorem dirName_injective {a b : Producer} (ha : Plain a) (hb : Plain b)
    (h : a.dirName = b.dirName) : a = b := by
  have hparse := parse_dirName ha
  rw [h, parse_dirName hb] at hparse
  exact (Option.some.inj hparse).symm

def segmentFiles (segment : Segment) : SegmentFiles :=
  (segment.firstSeq,segment.frames,segment.index)

def directoryOf (entry : Producer × ProducerData) : Str × List SegmentFiles :=
  (entry.1.dirName,entry.2.segments.map segmentFiles)

theorem filter_unique {α β : Type} [DecidableEq β] (f : α → β) {elements : List α}
    (h : (elements.map f).Nodup) {a : α} (ha : a ∈ elements) :
    elements.filter (fun b => f b = f a) = [a] := by
  induction elements with
  | nil => cases ha
  | cons b rest ih =>
    rw [map_cons, nodup_cons] at h
    rcases mem_cons.mp ha with rfl | ha
    · rw [filter_cons_of_pos (by simp), List.cons.injEq]
      refine ⟨rfl,?_⟩
      rw [filter_eq_nil_iff]
      intro c hc hsame
      exact h.1 (mem_map.mpr ⟨c,hc,by simpa using hsame⟩)
    · have hne : f b ≠ f a := by
        intro hsame
        exact h.1 (hsame ▸ mem_map_of_mem ha)
      rw [filter_cons_of_neg (by simpa using hne)]
      exact ih h.2 ha

theorem directories_eq {producers : Producers}
    (h : ∀ producer found, (producer,found) ∈ producers.entries → Plain producer) :
    directories producers = producers.entries.map directoryOf := by
  have hnames : (producers.entries.map fun entry => entry.1.dirName).Nodup := by
    rw [nodup_map_iff_inj_on (List.Nodup.of_map _ producers.unique)]
    intro a ha b hb hsame
    have hkey : a.1 = b.1 := dirName_injective (h a.1 a.2 ha) (h b.1 b.2 hb) hsame
    exact inj_on_of_nodup_map producers.unique ha hb hkey
  have hkeys : producers.keys.map Producer.dirName =
      producers.entries.map fun entry => entry.1.dirName := by
    rw [OrderedMap.keys, map_map]
    rfl
  rw [directories, hkeys, hnames.dedup, map_map]
  apply map_congr_left
  intro entry hentry
  rw [Function.comp_apply, filter_unique _ hnames hentry, flatMap_singleton]
  rfl

theorem loadDirectory_eq (h : ProducerOk log producer found)
    (hclosed : ∀ s ∈ found.segments, s.closed = true) :
    loadDirectory (found.segments.map segmentFiles) = found.segments := by
  have hsorted : (found.segments.map segmentFiles).Pairwise fun a b => a.1 ≤ b.1 := by
    rw [pairwise_map]
    apply List.Pairwise.imp_of_mem _ h.ordered
    intro a b ha _ hless
    have hfirst := Sound.first_le_last (h.sound a ha)
    exact (hfirst.trans_lt hless).le
  rw [loadDirectory, List.Pairwise.insertionSort_eq hsorted, filterMap_map]
  have hload : ∀ s ∈ found.segments, (loadSegment ∘ segmentFiles) s = some s := by
    intro s hs
    exact loadSegment_sound (h.sound s hs) (hclosed s hs)
  revert hload
  generalize found.segments = segments
  intro hload
  induction segments with
  | nil => rfl
  | cons s rest ih =>
    rw [filterMap_cons_some (hload s mem_cons_self),
      ih fun t ht => hload t (mem_cons_of_mem _ ht)]

theorem loadProducer_eq (hplain : Plain producer)
    (hok : ProducerOk log producer found) (hsome : found.segments ≠ [])
    (hfiles : found.openFiles = none) :
    loadProducer data (directoryOf (producer,found)) =
      { nextSeq := found.segments.foldl (fun next segment => max next (segment.lastSeq + 1))
          data.nextSeq
        producers := putProducer producer found data.producers } := by
  have hsealed := hok.isSealed
  unfold Sealed at hsealed
  rw [hfiles] at hsealed
  have hload := loadDirectory_eq hok hsealed
  unfold loadProducer directoryOf
  simp only [parse_dirName hplain, hload, if_neg hsome]
  rw [← hfiles]

/-- What a restart finds: the producers there were, and the numbers they have used. -/
theorem loadProducers {entries : List (Producer × ProducerData)} (hall : AllClosed log entries)
    (hkeys : (entries.map Prod.fst).Nodup) (data : KindData)
    (hnew : ∀ entry ∈ entries, entry.1 ∉ data.producers.keys) :
    (∀ producer found,
      (producer,found) ∈ ((entries.map directoryOf).foldl loadProducer data).producers.entries ↔
        (producer,found) ∈ data.producers.entries ∨ (producer,found) ∈ entries) ∧
    ∀ bound, ((entries.map directoryOf).foldl loadProducer data).nextSeq ≤ bound ↔
      data.nextSeq ≤ bound ∧ ∀ entry ∈ entries, ∀ segment ∈ entry.2.segments,
        segment.lastSeq + 1 ≤ bound := by
  induction entries generalizing data with
  | nil => simp
  | cons entry rest ih =>
    rw [map_cons, nodup_cons] at hkeys
    obtain ⟨hplain,hok,hsome,hfiles⟩ := hall entry.1 entry.2 mem_cons_self
    rw [map_cons, foldl_cons, loadProducer_eq hplain hok hsome hfiles]
    have hrest : AllClosed log rest := fun p d hd => hall p d (mem_cons_of_mem _ hd)
    have hfresh := hnew entry mem_cons_self
    obtain ⟨hmem,hbound⟩ := ih hrest hkeys.2
      { nextSeq := entry.2.segments.foldl (fun next segment => max next (segment.lastSeq + 1))
          data.nextSeq
        producers := putProducer entry.1 entry.2 data.producers } (by
      intro other ho hin
      obtain ⟨found,hfound⟩ := OrderedMap.mem_keys.mp hin
      rcases mem_insert.mp hfound with ⟨hsame,-⟩ | ⟨-,hold⟩
      · exact hkeys.1 (mem_map.mpr ⟨other,ho,hsame⟩)
      · exact hnew other (mem_cons_of_mem _ ho) (OrderedMap.mem_keys.mpr ⟨found,hold⟩))
    constructor
    · intro producer found
      rw [hmem, mem_cons, putProducer, mem_insert]
      constructor
      · rintro ((⟨rfl,rfl⟩ | ⟨-,hold⟩) | hlater)
        · exact .inr (.inl rfl)
        · exact .inl hold
        · exact .inr (.inr hlater)
      · rintro (hold | (rfl | hlater))
        · refine .inl (.inr ⟨?_,hold⟩)
          rintro rfl
          exact hfresh (OrderedMap.mem_keys.mpr ⟨found,hold⟩)
        · exact .inl (.inl ⟨rfl,rfl⟩)
        · exact .inr hlater
    · intro bound
      rw [hbound, foldl_max_le]
      simp [and_assoc]

theorem closeOpen_records {data : ProducerData} :
    ((closeOpen data).segments.flatMap fun segment =>
      segment.frames.map (rawRecord producer segment.firstSeq)) =
      data.segments.flatMap fun segment =>
        segment.frames.map (rawRecord producer segment.firstSeq) := by
  unfold closeOpen
  cases data.openFiles with
  | none => rfl
  | some files =>
    cases hlast : data.segments.getLast? with
    | none => rfl
    | some last =>
      conv_rhs => rw [← dropLast_append_getLast? last hlast]
      rw [flatMap_append, flatMap_append]
      rfl

theorem stored_closeAllKind (data : KindData) : stored (closeAllKind data) = stored data := by
  unfold stored closeAllKind OrderedMap.mapValues
  rw [flatMap_map]
  apply flatMap_congr
  intro entry _
  exact closeOpen_records

/-- The last record of the kind is stored, if there ever was one. -/
def LastStored (data : KindData) : Prop :=
  data.nextSeq = 1 ∨ ∃ record ∈ stored data, record.seq + 1 = data.nextSeq

/-- A restart closes the segments and takes the next number from them. -/
theorem reopenKind_cases (h : KindOk log data) :
    (∀ producer found, (producer,found) ∈ (reopenKind data).producers.entries ↔
      (producer,found) ∈ (closeAllKind data).producers.entries) ∧
    ∀ bound, (reopenKind data).nextSeq ≤ bound ↔ 1 ≤ bound ∧
      ∀ entry ∈ (closeAllKind data).producers.entries, ∀ segment ∈ entry.2.segments,
        segment.lastSeq + 1 ≤ bound := by
  have hall := closeAllKind_closed h
  have hload := loadProducers hall (closeAllKind data).producers.unique
    { nextSeq := 1, producers := OrderedMap.empty } (by simp [OrderedMap.keys, OrderedMap.empty])
  rw [reopenKind, directories_eq fun p d hd => (hall p d hd).1]
  exact ⟨fun producer found =>
    (hload.1 producer found).trans (or_iff_right (by simp [OrderedMap.empty])),
    hload.2⟩

/-- A restart keeps the records that are numbered below its next number. -/
theorem reopenKind_ok (h : KindOk log data) :
    KindOk (log.take ((reopenKind data).nextSeq - 1)) (reopenKind data) := by
  have hclosed := closeAllKind_ok h
  obtain ⟨hmem,hbound⟩ := reopenKind_cases h
  obtain ⟨hone,hused⟩ := (hbound _).1 (Nat.le_refl _)
  have hle : (reopenKind data).nextSeq ≤ log.length + 1 := by
    rw [hbound, ← h.next]
    exact ⟨by rw [h.next]; omega,fun entry hentry segment hs =>
      hclosed.last_lt_next (hclosed.producers entry.1 entry.2 hentry).2.1 hs⟩
  have hlength : (log.take ((reopenKind data).nextSeq - 1)).length =
    (reopenKind data).nextSeq - 1 := by
    rw [length_take]
    omega
  refine ⟨?_,by omega,fun record hr => h.named record (mem_of_mem_take hr),?_⟩
  · rw [map_take, h.numbers, hlength, take_range'_of_length_ge (by omega)]
  · intro producer found hfound
    obtain ⟨hplain,hok,hsome⟩ := hclosed.producers producer found ((hmem _ _).1 hfound)
    have hkept : ∀ segment ∈ found.segments,
        Holds (log.take ((reopenKind data).nextSeq - 1)) producer segment := ?_
    · exact ⟨hplain,{ hok with holds := hkept },hsome⟩
    intro segment hs
    have hholds := hok.holds segment hs
    -- what is cut off is numbered above every stored record
    have hgone : (log.drop ((reopenKind data).nextSeq - 1)).filter (fun record =>
        record.producer = producer ∧ record.segment = segment.firstSeq) = [] := by
      rw [filter_eq_nil_iff]
      intro record hr hnames
      have hin : record ∈ segment.frames.map (rawRecord producer segment.firstSeq) := by
        rw [hholds]
        exact mem_filter.2 ⟨mem_of_mem_drop hr,hnames⟩
      obtain ⟨frame,hframe,rfl⟩ := mem_map.1 hin
      have hseq : frame.seq ∈ (log.drop ((reopenKind data).nextSeq - 1)).map RawRecord.seq :=
        mem_map_of_mem hr
      rw [map_drop, h.numbers, drop_range', mem_range'_1] at hseq
      have := (hok.sound segment hs).le_last hframe
      have := hused _ ((hmem _ _).1 hfound) segment hs
      omega
    unfold Holds at hholds ⊢
    rw [hholds, ← take_append_drop ((reopenKind data).nextSeq - 1) log, filter_append, hgone,
      append_nil, take_append_drop]

/-- Nothing is cut off at a restart at which the last record is stored. -/
theorem reopenKind_next (h : KindOk log data) (hlast : LastStored data) :
    log.length ≤ (reopenKind data).nextSeq - 1 := by
  obtain ⟨-,hbound⟩ := reopenKind_cases h
  obtain ⟨hone,hused⟩ := (hbound _).1 (Nat.le_refl (reopenKind data).nextSeq)
  have hnext := h.next
  rcases hlast with hfirst | ⟨record,hrecord,hseq⟩
  · omega
  · rw [← stored_closeAllKind, mem_stored] at hrecord
    obtain ⟨producer,found,hfound,segment,hs,frame,hf,rfl⟩ := hrecord
    have hsound := ((closeAllKind_ok h).producers producer found hfound).2.1.sound segment hs
    have hframe : frame.seq ≤ segment.lastSeq := hsound.le_last hf
    have := hused (producer,found) hfound segment hs
    have hnumber : frame.seq + 1 = data.nextSeq := hseq
    omega

def wantedRecord (spec : ScanSpec) (minTs : ℤ) (record : RawRecord) : Bool :=
  wantedFrame spec minTs
    { seq := record.seq, ts := record.ts, tag := record.tag, payload := record.payload }

def wantedProducer (spec : ScanSpec) (producer : Producer) : Bool :=
  match spec.producers with
  | some wanted => decide (producer ∈ wanted)
  | none => true

def producerRecords (entry : Producer × ProducerData) : List RawRecord :=
  entry.2.segments.flatMap fun segment => segment.frames.map (rawRecord entry.1 segment.firstSeq)

def wanted (spec : ScanSpec) (minTs : ℤ) (record : RawRecord) : Bool :=
  wantedProducer spec record.producer && wantedRecord spec minTs record

theorem mem_producerRecords {entry : Producer × ProducerData} (h : record ∈ producerRecords entry) :
    record.producer = entry.1 := by
  obtain ⟨segment,-,hmem⟩ := mem_flatMap.mp h
  obtain ⟨frame,-,rfl⟩ := mem_map.mp hmem
  rfl

section
variable (spec : ScanSpec) (minTs : ℤ)

/-- A reader gives the records of its producer that the bounds admit, in its direction. -/
theorem readProducer_eq (h : ProducerOk log producer found) :
    readProducer spec minTs (producer,found) = directed spec.direction
      ((producerRecords (producer,found)).filter (wantedRecord spec minTs)) := by
  have hviews : found.segments.filter (fun segment => segment.records > 0) = found.segments := by
    rw [filter_eq_self]
    intro segment hs
    have hsound := (h.sound segment hs)
    rw [hsound.records]
    exact decide_eq_true (length_pos_of_ne_nil hsound.nonempty)
  have hordered : readProducer spec minTs (producer,found) =
      ((directed spec.direction found.segments).filter (wantedSegment spec minTs)).flatMap
        fun segment =>
          (readSegment spec minTs segment).map (rawRecord producer segment.firstSeq) := by
    unfold readProducer
    simp only [hviews]
    cases spec.direction <;> rfl
  rw [hordered, directed_filter, producerRecords, filter_flatMap]
  refine Eq.trans (flatMap_congr fun segment hs => ?_) ((directed_flatMap _ _ fun segment =>
    (segment.frames.filter (wantedFrame spec minTs)).map
      (rawRecord producer segment.firstSeq)).trans
      (congrArg _ ?_))
  · have hmem := (mem_filter.1 ((directed_perm _ _).mem_iff.1 hs)).1
    rw [readSegment_eq (h.sound segment hmem), directed_map]
  · rw [flatMap_filter]
    refine flatMap_congr fun segment hs => ?_
    split_ifs with hwanted
    · rw [filter_map]
      rfl
    · have hnone := unwanted_segment (h.sound segment hs) hwanted
      rw [filter_map, show (segment.frames.filter (wantedRecord spec minTs ∘
        rawRecord producer segment.firstSeq)) = [] from hnone, map_nil]

theorem scan_perm (h : KindOk log data) :
    (scan spec minTs data).Perm ((stored data).filter (wanted spec minTs)) := by
  refine (merge_perm _).trans ?_
  rw [show stored data = data.producers.entries.flatMap producerRecords from rfl, filter_flatMap,
    ← flatMap_def]
  refine (List.Perm.of_eq (flatMap_filter _ _)).trans (Perm.flatMap_left _ fun entry hentry => ?_)
  have hread := readProducer_eq spec minTs (h.producers entry.1 entry.2 hentry).2.1
  split_ifs with hwanted
  · rw [hread]
    refine (directed_perm _ _).trans (List.Perm.of_eq (filter_congr fun record hrecord => ?_))
    rw [wanted, mem_producerRecords hrecord, show wantedProducer spec entry.1 = true from hwanted,
      Bool.true_and]
  · rw [filter_eq_nil_iff.2]
    intro record hrecord
    rw [wanted, mem_producerRecords hrecord, Bool.and_eq_true, not_and]
    exact fun hin => absurd hin hwanted

theorem producerRecords_ascending (h : ProducerOk log producer found) :
    (producerRecords (producer,found)).Pairwise fun a b => a.seq < b.seq := by
  unfold producerRecords
  rw [pairwise_flatMap]
  constructor
  · intro segment hs
    rw [pairwise_map]
    exact (h.sound segment hs).ascending
  · apply List.Pairwise.imp_of_mem _ h.ordered
    intro a b ha hb hless x hx y hy
    obtain ⟨left,hleft,rfl⟩ := mem_map.mp hx
    obtain ⟨right,hright,rfl⟩ := mem_map.mp hy
    have hlast := (h.sound a ha).le_last hleft
    have hfirst := (h.sound b hb).first right hright
    exact (hlast.trans_lt hless).trans_le hfirst

/-- Records in ascending order have descending ranks in either direction. -/
theorem directed_descending {records : List RawRecord}
    (h : records.Pairwise fun a b => a.seq < b.seq) :
    Descending (scanRank spec.direction) (directed spec.direction records) := by
  unfold Descending scanRank
  cases spec.direction with
  | forward => exact h.imp fun hless => by simpa using hless.le
  | backward => exact pairwise_reverse.2 (h.imp fun hless => by simpa using hless.le)

theorem stored_nodup (h : KindOk log data) : (stored data).Nodup := by
  show (data.producers.entries.flatMap producerRecords).Nodup
  rw [nodup_flatMap]
  constructor
  · intro entry hentry
    apply List.Pairwise.imp _ (producerRecords_ascending (h.producers _ _ hentry).2.1)
    rintro a b hless rfl
    exact Nat.lt_irrefl _ hless
  · have hkeys := pairwise_map.mp data.producers.unique
    apply hkeys.imp
    intro a b hne record ha hb
    exact hne ((mem_producerRecords ha).symm.trans (mem_producerRecords hb))

/-- A scan gives what is stored of the log within its bounds, in its direction. -/
theorem scan_eq (h : KindOk log data) :
    scan spec minTs data = directed spec.direction
      (log.filter fun record => decide (record ∈ stored data) && wanted spec minTs record) := by
  have hperm := scan_perm spec minTs h
  have hlog : log.Nodup := h.ascending.imp fun hless => by
    rintro rfl
    exact Nat.lt_irrefl _ hless
  have hsame : (scan spec minTs data).Perm (directed spec.direction
      (log.filter fun record => decide (record ∈ stored data) && wanted spec minTs record)) := by
    refine (hperm.trans ?_).trans (directed_perm _ _).symm
    rw [perm_ext_iff_of_nodup ((stored_nodup h).filter _) (hlog.filter _)]
    intro record
    simp only [mem_filter, Bool.and_eq_true, decide_eq_true_eq]
    exact ⟨fun hr => ⟨h.mem_log hr.1,hr⟩,And.right⟩
  refine List.Perm.eq_of_pairwise (fun a b ha hb hab hba => ?_)
    (merge_descending (scanRank spec.direction) ?_)
    (directed_descending spec (h.ascending.filter _)) hsame
  · have hnumbers : (log.map RawRecord.seq).Nodup := by
      rw [h.numbers]
      exact nodup_range'
    refine inj_on_of_nodup_map hnumbers (h.mem_log (mem_filter.1 (hperm.mem_iff.1 ha)).1)
      (mem_filter.1 ((directed_perm _ _).mem_iff.1 hb)).1 ?_
    cases hdirection : spec.direction <;> simp only [scanRank, hdirection] at hab hba <;> omega
  · intro reader hreader
    obtain ⟨entry,hentry,rfl⟩ := mem_map.mp hreader
    have hok := (h.producers entry.1 entry.2 (mem_filter.mp hentry).1).2.1
    rw [show readProducer spec minTs entry = _ from readProducer_eq spec minTs hok]
    exact directed_descending spec ((producerRecords_ascending hok).filter _)

end

/-- A forward scan gives what is stored of the log above a number. -/
theorem scan_above (h : KindOk log data) (after : ℕ) (fromTs toTs : ℤ)
    (producers : Option (List Producer)) (minTs : ℤ) :
    scan (forwardFrom after fromTs toTs producers) minTs data =
      (above RawRecord.seq after log).filter fun other =>
        decide (other ∈ stored data) &&
          (wantedProducer (forwardFrom after fromTs toTs producers) other.producer &&
            decide (fromTs ≤ other.ts ∧ minTs ≤ other.ts ∧ other.ts ≤ toTs)) := by
  rw [scan_eq _ _ h, above, filter_filter]
  refine filter_congr fun other _ => ?_
  rw [Bool.eq_iff_iff]
  simp only [wanted, wantedRecord, Bool.and_eq_true, decide_eq_true_eq, wantedFrame_iff,
    forwardFrom, Option.some.injEq, forall_eq', reduceCtorEq, false_implies, implies_true, true_and]
  tauto

/-- What lies above the number of a record is the log behind it. -/
theorem KindOk.above_record (h : KindOk log data) {before later : List RawRecord}
    (hlog : log = before ++ record :: later) :
    above RawRecord.seq record.seq log = later := by
  have hpairs := h.ascending
  rw [hlog, pairwise_append, pairwise_cons] at hpairs
  have hbefore : ∀ other ∈ before ++ [record], other.seq ≤ record.seq := by
    intro other ho
    rcases mem_append.1 ho with ho | ho
    · exact (hpairs.2.2 other ho record mem_cons_self).le
    · rw [mem_singleton.1 ho]
  rw [hlog, append_cons, above_append, above_none hbefore,
    above_all hpairs.2.1.1, nil_append]

structure World where
  store : Store
  log : Kind → List RawRecord

def appended (before after : Store) (kind : Kind) : Op → Option RawRecord
  | .append target producer ts tag payload _ =>
    if target = kind then newRecord (before.kinds kind) (after.kinds kind) producer ts tag payload
    else none
  | .enforce _ | .closeAll | .reopen | .setRetention _ _ | .checkDisk _ => none

def advance (world : World) (op : Op) : World :=
  let after := step world.store op
  { store := after
    log := fun kind => world.log kind ++ (appended world.store after kind op).toList }

def start (opts : StoreOptions) (retention : Kind → Retention) : World where
  store := emptyStore opts retention
  log := fun _ => []

/-- The numbers of a kind stay unique: its records come from producers with a directory of
their own, and the store is restarted while the last record of the kind is stored. -/
def Unambiguous (kind : Kind) (world : World) : Op → Prop
  | .append target producer _ _ _ _ => target = kind → Plain producer
  | .reopen => LastStored (world.store.kinds kind)
  | .enforce _ | .closeAll | .setRetention _ _ | .checkDisk _ => True

theorem append_kinds (store : Store) (target kind : Kind) (producer : Producer) (ts : ℤ)
    (tag : UInt8) (payload : List UInt8) (now : ℤ) :
    (append store target producer ts tag payload now).kinds kind = store.kinds kind ∨
      target = kind ∧ tryAppend store.opts (store.kinds kind) producer ts tag payload now =
        some ((append store target producer ts tag payload now).kinds kind) := by
  unfold append
  dsimp only
  generalize (if producer = .system then store.guard.systemPaused else store.guard.paused) = paused
  split
  · exact .inl rfl
  · cases happend : tryAppend store.opts (store.kinds target) producer ts tag payload now with
    | none => exact .inl rfl
    | some data =>
      by_cases htarget : target = kind
      · subst htarget
        exact .inr ⟨rfl,by simpa [setKind] using happend⟩
      · exact .inl (Function.update_of_ne (Ne.symm htarget) _ _)

/-- Every operation but a restart extends the log by what it appends. -/
theorem step_ok {store : Store} (h : KindOk log (store.kinds kind)) {op : Op} (hop : op ≠ .reopen)
    (hplain : ∀ target producer ts tag payload now,
      op = .append target producer ts tag payload now → target = kind → Plain producer) :
    KindOk (log ++ (appended store (step store op) kind op).toList)
      ((step store op).kinds kind) := by
  have hsame : ∀ after, KindOk log after → KindOk (log ++ []) after := by simp
  cases op with
  | append target producer ts tag payload now =>
    simp only [appended, step]
    rcases append_kinds store target kind producer ts tag payload now with hkept | ⟨rfl,happend⟩
    · rw [hkept, newRecord, if_pos rfl, ite_self]
      exact hsame _ h
    · rw [if_pos rfl]
      exact tryAppend_ok h
        (hplain target producer ts tag payload now rfl rfl) happend
  | enforce now => exact hsame _ (enforceKind_ok h)
  | closeAll => exact hsame _ (closeAllKind_ok h)
  | reopen => exact absurd rfl hop
  | setRetention target policy =>
    apply hsame
    simp only [step, setRetention]
    split_ifs <;> exact h
  | checkDisk probe => cases probe <;> exact hsame _ h

theorem advance_ok (world : World) (op : Op)
    (h : KindOk (world.log kind) (world.store.kinds kind)) (hop : Unambiguous kind world op) :
    KindOk ((advance world op).log kind) ((advance world op).store.kinds kind) := by
  by_cases hreopen : op = .reopen
  · subst hreopen
    have hok := reopenKind_ok h
    rw [take_of_length_le (reopenKind_next h hop)] at hok
    show KindOk (world.log kind ++ []) (reopenKind (world.store.kinds kind))
    rw [append_nil]
    exact hok
  · refine step_ok h hreopen fun target producer ts tag payload now hop' => ?_
    subst hop'
    exact hop

theorem advance_log (kind : Kind) (world : World) (ops : List Op) :
    world.log kind <+: (run advance world ops).log kind := by
  apply run_invariant advance (fun state => world.log kind <+: state.log kind)
  · exact prefix_refl _
  · intro state op hlog
    exact hlog.trans (prefix_append _ _)

/-- While the numbers of a kind stay unique, a cursor that is accepted names a record that is
still stored, and a forward scan from it gives what is stored of the log behind that record. -/
theorem cursor_sound (opts : StoreOptions) (retention : Kind → Retention) (kind : Kind)
    (ops later : List Op) (record : RawRecord)
    (h : ∀ before op, before ++ [op] <+: ops ++ later →
      Unambiguous kind (run advance (start opts retention) before) op)
    (hstored : record ∈
      stored ((run advance (start opts retention) ops).store.kinds kind))
    (hlive : cursorLive
      ((run advance (start opts retention) (ops ++ later)).store.kinds kind)
      (record.cursor kind) = true) :
    let world := run advance (start opts retention) (ops ++ later)
    let data := world.store.kinds kind
    record ∈ stored data ∧
      ∃ before behind, world.log kind = before ++ record :: behind ∧
        ∀ (fromTs toTs minTs : ℤ) (producers : Option (List Producer)),
          scan (forwardFrom record.seq fromTs toTs producers) minTs data =
            behind.filter fun other => decide (other ∈ stored data) &&
              (wantedProducer (forwardFrom record.seq fromTs toTs producers) other.producer &&
                decide (fromTs ≤ other.ts ∧ minTs ≤ other.ts ∧ other.ts ≤ toTs)) := by
  intro world data
  have hinvariant : ∀ calls, calls <+: ops ++ later →
      KindOk ((run advance (start opts retention) calls).log kind)
        ((run advance (start opts retention) calls).store.kinds kind) := by
    intro calls hcalls
    apply run_invariant_along (Unambiguous kind)
      (fun state => KindOk (state.log kind) (state.store.kinds kind)) kindOk_empty advance_ok
    intro before op hbefore
    exact h before op (hbefore.trans hcalls)
  have hearlier := hinvariant ops (prefix_append _ _)
  have hok : KindOk (world.log kind) data := hinvariant _ (prefix_refl _)
  have hlog : record ∈ world.log kind := by
    have hextended := advance_log kind (run advance (start opts retention) ops) later
    rw [← run_append] at hextended
    exact hextended.subset (hearlier.mem_log hstored)
  refine ⟨?_,?_⟩
  · have hsegment : ∃ found, data.producers.get? record.producer = some found ∧
        ∃ segment ∈ found.segments, segment.firstSeq = record.segment := by
      unfold cursorLive at hlive
      cases hget : data.producers.get? record.producer with
      | none => simp [RawRecord.cursor, data, world, hget] at hlive
      | some found =>
        refine ⟨found,rfl,?_⟩
        simp only [RawRecord.cursor, data, world] at hlive hget
        rw [hget] at hlive
        obtain ⟨segment,hs,hmatch⟩ := any_eq_true.mp hlive
        rw [Bool.and_eq_true] at hmatch
        exact ⟨segment,hs,of_decide_eq_true hmatch.1⟩
    obtain ⟨found,hget,segment,hs,hnumber⟩ := hsegment
    have hmem := get?_eq_some.mp hget
    have hholds := (hok.producers _ found hmem).2.1.holds segment hs
    have hin : record ∈ segment.frames.map (rawRecord record.producer segment.firstSeq) := by
      rw [hholds]
      exact mem_filter.mpr ⟨hlog,by simp [hnumber]⟩
    obtain ⟨frame,hframe,hrecord⟩ := mem_map.mp hin
    exact mem_stored.mpr ⟨_,found,hmem,segment,hs,frame,hframe,hrecord⟩
  · obtain ⟨before,behind,hsplit⟩ := append_of_mem hlog
    refine ⟨before,behind,hsplit,?_⟩
    intro fromTs toTs minTs producers
    rw [scan_above hok, hok.above_record hsplit]

def defaultOptions : StoreOptions where
  segmentMaxBytes := segmentMaxBytesDefault
  segmentMaxAge := 3600 * 1000000000

/-- A log record at time zero, and one of the same producer an hour later. -/
theorem cursor_sound_restarted :
    let ops : List Op := [.append .logs .system 0 1 [7] 0]
    let later : List Op := [.append .logs .system 1 1 [8] 3600000000000, .reopen]
    let world := run advance (start defaultOptions Kind.defaultRetention) (ops ++ later)
    let record := rawRecord .system 1 { seq := 1, ts := 0, tag := 1, payload := [7] }
    let next := rawRecord .system 2 { seq := 2, ts := 1, tag := 1, payload := [8] }
    scan (forwardFrom 1 0 10 none) 0 (world.store.kinds .logs) = [next] ∧
      record ∈ stored (world.store.kinds .logs) := by
  refine ⟨by decide,(cursor_sound defaultOptions Kind.defaultRetention .logs
    [.append .logs .system 0 1 [7] 0]
    [.append .logs .system 1 1 [8] 3600000000000, .reopen]
    (rawRecord .system 1 { seq := 1, ts := 0, tag := 1, payload := [7] }) ?_ (by decide)
    (by decide)).1⟩
  apply along_of_take
  intro i hi
  match i, hi with
  | 0, _ | 1, _ =>
    intro _ hname
    exact absurd hname (by decide)
  | 2, _ =>
    exact .inr ⟨rawRecord .system 2 { seq := 2, ts := 1, tag := 1, payload := [8] },
      by decide,by decide⟩

def reused : List Op :=
  [.append .logs .system 0 1 [7] 0, .enforce 691200000000000, .reopen,
   .append .logs .system 691200000000000 1 [8] 691200000000000]

/-- The number of the evicted record is given out again, and its cursor is accepted. -/
theorem reused_cursor_accepted :
    let record := rawRecord .system 1 { seq := 1, ts := 0, tag := 1, payload := [7] }
    let before := run advance (start defaultOptions Kind.defaultRetention)
      [.append .logs .system 0 1 [7] 0]
    let world := run advance (start defaultOptions Kind.defaultRetention) reused
    record ∈ stored (before.store.kinds .logs) ∧
      cursorLive (world.store.kinds .logs) (record.cursor .logs) = true ∧
      record ∉ stored (world.store.kinds .logs) ∧
      rawRecord .system 1 { seq := 1, ts := 691200000000000, tag := 1, payload := [8] } ∈
        stored (world.store.kinds .logs) := by
  decide

def PlainFor (kind : Kind) : Op → Prop
  | .append target producer _ _ _ _ => target = kind → Plain producer
  | .enforce _ | .closeAll | .reopen | .setRetention _ _ | .checkDisk _ => True

def follows : Direction → RawRecord → RawRecord → Prop
  | .forward, a, b => a.seq < b.seq
  | .backward, a, b => b.seq < a.seq

/-- A scan gives each stored record within its bounds once and in its order, as it was appended,
and a forward scan resumed after one of its records gives the rest. -/
structure ScanExact (ops : List Op) (kind : Kind) (data : KindData) (spec : ScanSpec) (minTs : ℤ) :
    Prop where
  unchanged : ∀ record ∈ stored data, ∃ now,
    Op.append kind record.producer record.ts record.tag record.payload now ∈ ops
  exact : ∀ record, record ∈ scan spec minTs data ↔
    record ∈ stored data ∧ wanted spec minTs record = true
  ordered : (scan spec minTs data).Pairwise (follows spec.direction)
  resumed : spec.direction = .forward → ∀ before record rest,
    scan spec minTs data = before ++ record :: rest →
      scan { spec with afterSeq := some record.seq } minTs data = rest

/-- Some log fits a kind along every run, and its records were appended. -/
theorem run_ok (opts : StoreOptions) (retention : Kind → Retention) {ops : List Op}
    (h : ∀ op ∈ ops, PlainFor kind op) :
    ∃ log, KindOk log ((run step (emptyStore opts retention) ops).kinds kind) ∧
      ∀ record ∈ log, ∃ now,
        Op.append kind record.producer record.ts record.tag record.payload now ∈ ops := by
  induction ops using List.reverseRecOn with
  | nil => exact ⟨[],kindOk_empty,by simp⟩
  | append_singleton ops op ih =>
    rw [forall_mem_append, forall_mem_singleton] at h
    obtain ⟨log,hok,hlog⟩ := ih h.1
    rw [run_concat]
    have hold : ∀ record ∈ log, ∃ now, Op.append kind record.producer record.ts record.tag
        record.payload now ∈ ops ++ [op] := fun record hr =>
      (hlog record hr).imp fun now hnow => mem_append_left _ hnow
    by_cases hreopen : op = .reopen
    · subst hreopen
      exact ⟨_,reopenKind_ok hok,fun record hr => hold record (mem_of_mem_take hr)⟩
    · refine ⟨_,step_ok hok hreopen fun target producer ts tag payload now hop => ?_,
        forall_mem_append.2 ⟨hold,fun record hr => ?_⟩⟩
      · rw [hop] at h
        exact h.2
      · rw [Option.mem_toList] at hr
        cases op with
        | append target producer ts tag payload now =>
          simp only [appended, newRecord] at hr
          split_ifs at hr with htarget
          obtain rfl := Option.some.inj hr
          exact ⟨now,by simp [htarget]⟩
        | enforce _ | closeAll | reopen | setRetention _ _ | checkDisk _ => cases hr

/-- While the producers of a kind have directories of their own, scans are exact. -/
theorem scans_exact (opts : StoreOptions) (retention : Kind → Retention) (kind : Kind)
    (ops : List Op) (h : ∀ op ∈ ops, PlainFor kind op) (spec : ScanSpec) (minTs : ℤ) :
    ScanExact ops kind ((run step (emptyStore opts retention) ops).kinds kind) spec minTs := by
  obtain ⟨log,hok,hlog⟩ := run_ok opts retention h
  have hperm := scan_perm spec minTs hok
  refine ⟨fun record hr => hlog record (hok.mem_log hr),fun record => ?_,?_,?_⟩
  · rw [hperm.mem_iff, mem_filter]
  · rw [scan_eq spec minTs hok]
    cases spec.direction with
    | forward => exact hok.ascending.filter _
    | backward => exact pairwise_reverse.2 (hok.ascending.filter _)
  · intro hforward before record rest hscan
    have hpairs : (before ++ record :: rest).Pairwise fun a b => a.seq < b.seq := by
      rw [← hscan, scan_eq spec minTs hok, hforward]
      exact hok.ascending.filter _
    have hrecord : wanted spec minTs record = true :=
      (mem_filter.1 (hperm.mem_iff.1 (by rw [hscan]; simp))).2
    -- the records behind are those of the scan with a higher number
    have hlater : ∀ other, wanted { spec with afterSeq := some record.seq } minTs other =
        (decide (record.seq < other.seq) && wanted spec minTs other) := by
      intro other
      rw [Bool.eq_iff_iff]
      simp only [wanted, wantedRecord, wantedProducer, Bool.and_eq_true, wantedFrame_iff,
        decide_eq_true_eq, Option.some.injEq, forall_eq'] at hrecord ⊢
      constructor
      · rintro ⟨hproducer,hless,hrest⟩
        exact ⟨hless,hproducer,fun after ha => (hrecord.2.1 after ha).trans hless,hrest⟩
      · rintro ⟨hless,hproducer,-,hrest⟩
        exact ⟨hproducer,hless,hrest⟩
    have hfiltered : scan { spec with afterSeq := some record.seq } minTs
        ((run step (emptyStore opts retention) ops).kinds kind) =
        (scan spec minTs ((run step (emptyStore opts retention) ops).kinds kind)).filter
          fun other => decide (record.seq < other.seq) := by
      rw [scan_eq _ _ hok, scan_eq spec minTs hok, directed_filter, filter_filter]
      refine congrArg (directed spec.direction) (filter_congr fun other _ => ?_)
      rw [hlater]
      exact Bool.and_left_comm _ _ _
    rw [pairwise_append, pairwise_cons] at hpairs
    rw [hfiltered, hscan, append_cons, filter_append, filter_eq_nil_iff.2, nil_append,
      filter_eq_self.2]
    · exact fun other ho => decide_eq_true (hpairs.2.1.1 other ho)
    · intro other ho
      rcases mem_append.1 ho with ho | ho
      · simpa using (hpairs.2.2 other ho record mem_cons_self).le
      · simp [mem_singleton.1 ho]

/-- A backward scan over a rotation by age and a restart. -/
theorem scans_exact_rotated :
    ScanExact
      [.append .logs .system 0 1 [7] 0, .append .logs .system 1 1 [8] 3600000000000, .reopen]
      .logs ((run step (emptyStore defaultOptions Kind.defaultRetention)
        [.append .logs .system 0 1 [7] 0, .append .logs .system 1 1 [8] 3600000000000,
          .reopen]).kinds .logs) ⟨.backward,none,none,0,10,none⟩ 0 := by
  refine scans_exact _ _ _ _ ?_ _ _
  simp [PlainFor, Plain, Producer.dirName, str_system, str_unattributed]

def shadowId : ProjectId := ⟨str "unattributed",by decide⟩

def sharedOps : List Op :=
  [.append .logs (.otlp shadowId) 0 1 [7] 0, .append .logs .otlpUnattributed 0 1 [8] 0,
   .append .logs (.otlp shadowId) 0 1 [9] 0, .reopen]

/-- After the restart the segments overlap in one producer, and a scan is out of order. -/
theorem shared_directory_unordered :
    ¬ ScanExact sharedOps .logs ((run step
      (emptyStore defaultOptions Kind.defaultRetention) sharedOps).kinds .logs)
      ⟨.forward,none,none,0,10,none⟩ 0 := by
  intro h
  have hordered : (_ : List ℕ).Pairwise (· < ·) := pairwise_map.2 h.ordered
  revert hordered
  decide

end Permanu.TelemetryCursors
