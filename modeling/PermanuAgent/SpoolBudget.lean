import PermanuAgent.DiskSpool

/-!
# The budget of the spool

The budget drops whole segments at the head until the rest fits. The record just
written is in the last segment, so it stays exactly when that segment fits alone,
which a segment limit above the budget does not ensure. Whatever is dropped, the
counters account for every record that was appended.
-/

set_option autoImplicit false

namespace Permanu.DiskSpool

open StepRuns List

/-- A spool with the records appended to it and those its acknowledgements removed. -/
structure Ledger where
  spool : SpoolState Entry
  appended : List Entry
  acknowledged : List Entry
  deriving DecidableEq

inductive Use where
  | append (payload : Payload)
  | ack (records : ℕ)

def Ledger.empty : Ledger := ⟨fresh.spool,[],[]⟩

section
variable (config : SpoolConfig)

def Ledger.step (ledger : Ledger) : Use → Ledger
  | .append payload =>
    let entry := (payload,ledger.appended.length)
    match appendBytes entryLen config ledger.spool entry with
    | none => ledger
    | some spool => { ledger with spool := spool, appended := ledger.appended ++ [entry] }
  | .ack records =>
    match ack entryLen ledger.spool records with
    | none => ledger
    | some spool =>
      { ledger with
        spool := spool
        acknowledged := ledger.acknowledged ++ (queued ledger.spool).take records }

/-- The newest record is queued last within the budget, and every record is counted once. -/
structure NewestKept (ledger : Ledger) (entry : Entry) : Prop where
  within : ledger.spool.bytes ≤ config.maxBytes
  newest : (queued ledger.spool).getLast? = some entry
  order : queued ledger.spool <:+ ledger.appended.filter fun e => e ∉ ledger.acknowledged
  count : ledger.spool.records + ledger.spool.droppedRecords + ledger.acknowledged.length =
    ledger.appended.length

/-- The last segment, if it takes the record, stays within the budget. -/
def Roomy (spool : SpoolState Entry) (payload : Payload) : Prop :=
  ∀ last ∈ spool.segments.getLast?,
    last.bytes + (payload.length + recordHeaderBytes) ≤
        max config.maxSegmentBytes (payload.length + recordHeaderBytes) →
      last.bytes + (payload.length + recordHeaderBytes) ≤ config.maxBytes

variable {state : SpoolState Entry}

theorem Counted.segment_le (h : Counted entryLen state) {segment : Segment Entry}
    (hs : segment ∈ state.segments) : segment.bytes ≤ state.bytes := by
  obtain ⟨front,back,hsplit⟩ := append_of_mem hs
  rw [h.bytes, (h.segment segment hs).1, queued, hsplit, flatMap_append, flatMap_cons,
    diskBytes_append, diskBytes_append]
  omega

/-- The last segment stays when it fits alone, and is dropped with all before it otherwise. -/
theorem dropHeads_last {front : List (Segment Entry)} {last : Segment Entry}
    (h : Counted entryLen state) (hs : state.segments = front ++ [last]) :
    (dropHeads config.maxBytes (front ++ [last]) state).bytes ≤ config.maxBytes ∧
      if last.bytes ≤ config.maxBytes then
        ∃ kept, (dropHeads config.maxBytes (front ++ [last]) state).segments = kept ++ [last]
      else (dropHeads config.maxBytes (front ++ [last]) state).segments = [] := by
  induction front generalizing state with
  | nil =>
    have hbytes : state.bytes = last.bytes := by
      rw [h.bytes, queued, hs, nil_append, flatMap_singleton, (h.segment last (by simp [hs])).1]
    rw [nil_append, dropHeads, hbytes]
    by_cases hfits : last.bytes ≤ config.maxBytes
    · rw [if_neg (Nat.not_lt.2 hfits), if_pos hfits]
      exact ⟨hbytes ▸ hfits,[],rfl⟩
    · rw [if_pos (Nat.not_le.1 hfits), if_neg hfits]
      exact ⟨by simp [dropHeads],rfl⟩
  | cons segment front ih =>
    rw [cons_append, dropHeads]
    by_cases hover : state.bytes > config.maxBytes
    · rw [if_pos hover]
      exact ih (h.behead hs _ rfl rfl rfl).counted rfl
    · have hle := h.segment_le (show last ∈ state.segments by simp [hs])
      rw [if_neg hover, if_pos (by omega)]
      exact ⟨Nat.not_lt.1 hover,segment :: front,rfl⟩

theorem written_last {entry : Entry} : ∃ front last,
    (written entryLen config state entry).segments = front ++ [last] ∧
      last.payloads.getLast? = some entry ∧
      (recordDiskBytes entryLen entry ≤ config.maxBytes →
        (last.bytes ≤ config.maxBytes ↔ Roomy config state entry.1)) := by
  unfold written writeRecord Roomy
  cases hlast : state.segments.getLast? with
  | none => exact ⟨state.segments,_,rfl,rfl,fun hfits => by simpa using hfits⟩
  | some last =>
    simp only [Option.mem_some_iff, forall_eq']
    split_ifs with hreuse
    · refine ⟨state.segments.dropLast,_,rfl,by simp,fun _ => ⟨fun hle _ => hle,fun h => h hreuse⟩⟩
    · exact ⟨state.segments,_,rfl,rfl,fun hfits =>
        ⟨fun _ huse => absurd huse hreuse,fun _ => hfits⟩⟩

structure Balanced (ledger : Ledger) : Prop where
  files : Counted entryLen ledger.spool
  places : ledger.appended.map Prod.snd = List.range ledger.appended.length
  queue : queued ledger.spool <:+ ledger.appended
  known : ledger.acknowledged ⊆ ledger.appended
  apart : ∀ entry ∈ queued ledger.spool, entry ∉ ledger.acknowledged
  count : (queued ledger.spool).length + ledger.spool.droppedRecords +
    ledger.acknowledged.length = ledger.appended.length

variable {ledger : Ledger}

/-- An append that succeeds writes its record and enforces the budget. -/
theorem Ledger.append_eq (ledger : Ledger) {payload : Payload}
    (h : payload.length + recordHeaderBytes ≤ config.maxBytes) :
    ledger.step config (.append payload) =
      { ledger with
        spool := enforceBudget config
          (written entryLen config ledger.spool (payload,ledger.appended.length))
        appended := ledger.appended ++ [(payload,ledger.appended.length)] } := by
  have hfits : ¬ recordDiskBytes entryLen (payload,ledger.appended.length) > config.maxBytes :=
    Nat.not_lt.2 h
  rw [Ledger.step, appendBytes_eq, if_neg hfits]

theorem Balanced.append (h : Balanced ledger) (payload : Payload) :
    Balanced (ledger.step config (.append payload)) := by
  by_cases hlarge : payload.length + recordHeaderBytes ≤ config.maxBytes
  · rw [Ledger.append_eq config ledger hlarge]
    set entry : Entry := (payload,ledger.appended.length) with hentry
    have hnew : entry ∉ ledger.appended := by
      intro hin
      have := mem_map_of_mem (f := Prod.snd) hin
      rw [h.places, mem_range] at this
      exact Nat.lt_irrefl _ this
    obtain ⟨d,hd,hdrained,hcount⟩ := dropHeads_drained _
      (written_counted config ledger.spool entry h.files) rfl
    rw [written_queued] at hd
    have hqueue := hdrained.queue
    rw [written_queued] at hqueue
    have hsub : (queued ledger.spool ++ [entry]).drop d <:+ ledger.appended ++ [entry] := by
      obtain ⟨left,hleft⟩ := h.queue
      exact (drop_suffix d _).trans ⟨left,by rw [← append_assoc, hleft]⟩
    refine ⟨hdrained.counted,by simp [h.places, hentry, range_succ],hqueue ▸ hsub,
      fun e he => mem_append_left _ (h.known he),fun e he hin => ?_,?_⟩
    · rcases mem_append.1 (mem_of_mem_drop (hqueue ▸ he)) with hold | hlast
      · exact h.apart e hold hin
      · exact hnew (mem_singleton.1 hlast ▸ h.known hin)
    · have hold := h.count
      have hdropped :
        (enforceBudget config (written entryLen config ledger.spool entry)).droppedRecords =
          ledger.spool.droppedRecords + d := hcount
      have hlength :
        (queued (enforceBudget config (written entryLen config ledger.spool entry))).length =
          (queued ledger.spool).length + 1 - d := by
        rw [show queued (enforceBudget _ _) = _ from hqueue, length_drop, length_append]
        rfl
      rw [length_append] at hd ⊢
      simp only [length_singleton] at hd ⊢
      omega
  · have hover : recordDiskBytes entryLen (payload,ledger.appended.length) > config.maxBytes :=
      Nat.not_le.1 hlarge
    rwa [Ledger.step, appendBytes_eq, if_pos hover]

theorem Balanced.ack (h : Balanced ledger) {records : ℕ} :
    Balanced (ledger.step config (.ack records)) := by
  rw [Ledger.step, DiskSpool.ack]
  split_ifs with hzero hmany
  · simpa [hzero] using h
  · exact h
  · obtain ⟨hdrained,hdropped⟩ := ackHeads_drained records ledger.spool h.files rfl
    have hnodup : (queued ledger.spool).Nodup :=
      (nodup_of_places h.places).sublist h.queue.sublist
    refine ⟨hdrained.counted,h.places,hdrained.queue ▸ (drop_suffix _ _).trans h.queue,
      append_subset.2 ⟨h.known,fun e he => h.queue.subset (mem_of_mem_take he)⟩,
        fun e he hin => ?_,?_⟩
    · rw [hdrained.queue] at he
      rcases mem_append.1 hin with hold | htaken
      · exact h.apart e (mem_of_mem_drop he) hold
      · exact disjoint_take_drop hnodup (Nat.le_refl _) htaken he
    · have hold := h.count
      simp only [hdrained.queue, hdropped, length_append, length_take, length_drop]
      omega

theorem run_balanced {uses : List Use} : Balanced (run (Ledger.step config) Ledger.empty uses) := by
  apply run_invariant (Ledger.step config) Balanced
  · exact ⟨⟨by simp [Ledger.empty, fresh],rfl,rfl⟩,rfl,nil_suffix,by simp [Ledger.empty],
      by simp [Ledger.empty],rfl⟩
  · intro ledger use h
    cases use with
    | append payload => exact h.append config payload
    | ack records => exact h.ack config

end

/-- Whatever is appended and acknowledged, the spool holds the newest records and counts its
bytes, and every record is queued, counted as dropped or acknowledged, none of them twice. -/
theorem spool_keeps_account (config : SpoolConfig) (uses : List Use) :
    let ledger := run (Ledger.step config) Ledger.empty uses
    Counted entryLen ledger.spool ∧ queued ledger.spool <:+ ledger.appended ∧
      ledger.acknowledged ⊆ ledger.appended ∧
      (∀ entry ∈ queued ledger.spool, entry ∉ ledger.acknowledged) ∧
      (queued ledger.spool).length + ledger.spool.droppedRecords + ledger.acknowledged.length =
        ledger.appended.length := by
  intro ledger
  obtain ⟨files,-,queue,known,apart,count⟩ : Balanced ledger := run_balanced config
  exact ⟨files,queue,known,apart,count⟩

/-- An append keeps its record exactly when the segment it goes to stays within the budget. -/
theorem newestKept_iff (config : SpoolConfig) (uses : List Use) (payload : Payload)
    (hfits : payload.length + recordHeaderBytes ≤ config.maxBytes) :
    let before := run (Ledger.step config) Ledger.empty uses
    NewestKept config (before.step config (.append payload)) (payload,before.appended.length) ↔
      Roomy config before.spool payload := by
  intro before
  have hbefore : Balanced before := run_balanced config
  have hafter := hbefore.append config payload
  obtain ⟨front,last,hsegments,hnewest,hroomy⟩ :=
    written_last config
  have hcounted :=
    written_counted config before.spool (payload,before.appended.length) hbefore.files
  obtain ⟨hwithin,hlast⟩ := dropHeads_last config hcounted hsegments
  rw [← hroomy hfits]
  have hstep := Ledger.append_eq config before hfits
  have hspool : (before.step config (.append payload)).spool =
      dropHeads config.maxBytes (front ++ [last]) (written entryLen config before.spool
        (payload,before.appended.length)) := by
    rw [hstep, ← hsegments]
    rfl
  constructor
  · intro hkept
    by_contra hover
    rw [if_neg hover] at hlast
    have := hkept.newest
    rw [hspool, queued, hlast] at this
    cases this
  · intro hle
    rw [if_pos hle] at hlast
    obtain ⟨kept,hkept⟩ := hlast
    obtain ⟨left,hleft⟩ := hafter.queue
    refine ⟨hspool ▸ hwithin,?_,?_,by rw [hafter.files.records]; exact hafter.count⟩
    · rw [hspool, queued, hkept, flatMap_append, flatMap_singleton, getLast?_append, hnewest]
      rfl
    · refine ⟨left.filter fun e => e ∉ (before.step config (.append payload)).acknowledged,?_⟩
      have hkept := filter_eq_self.2 fun e he => decide_eq_true (hafter.apart e he)
      conv_rhs => rw [← hleft, filter_append, hkept]

theorem newestKept_iff_tight : let before := run (Ledger.step tight) Ledger.empty [.append [97]]
    NewestKept tight (before.step tight (.append [98])) ([98],before.appended.length) ↔
      Roomy tight before.spool [98] :=
  newestKept_iff tight [.append [97]] [98] (by decide)

def wide : SpoolConfig := { maxBytes := 30, maxSegmentBytes := 100 }

/-- The fourth record goes to the one segment, which the budget then drops with the record. -/
theorem newest_dropped : ¬ NewestKept wide
    (run (Ledger.step wide) Ledger.empty [.append [97], .append [98], .append [99], .append [100]])
    ([100],3) := by
  intro h
  exact absurd h.newest (by decide)

end Permanu.DiskSpool
