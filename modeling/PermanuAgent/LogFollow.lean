import PermanuAgent.TelemetryCursors

/-!
# Following the telemetry log

The telemetry writer appends records under the store's lock and publishes the new head
on a watch channel before it lets go. A query with `follow` scans a snapshot for its
history and then, each time the head changes, a new snapshot above the last number it
has seen. It takes the head for the end of the snapshot; a record that is published
between the two is never scanned. The records of a snapshot are its log in the order of
the numbers; nothing is evicted and no scan runs out of time.
-/

set_option autoImplicit false

namespace Permanu.LogFollow
open NumberedRows List StepRuns Option TelemetryCursors
open TelemetryStore (RawRecord Producer ScanSpec Kind KindData)

/-- A query with `follow`: what a record is read as if the filter keeps it, and its bounds. -/
structure LogPlan (ρ : Type) where
  decodeLog : RawRecord → Option ρ
  fromTs : ℤ
  toTs : ℤ
  producers : Option (List Producer)
  tail : ℕ
  limit : ℕ
  cursor : Option ℕ

structure Item (ρ : Type) where
  record : ρ
  seq : ℕ
  deriving DecidableEq, Repr

inductive StatusKind where
  | truncated
  | caughtUp
  | dropped
  | keepalive
  deriving DecidableEq, Repr

inductive Frame (ρ : Type) where
  | record (item : Item ρ)
  | status (kind : StatusKind) (cursor : Option ℕ) (dropped : ℕ)
  deriving DecidableEq, Repr

def LogPlan.inBounds {ρ : Type} (plan : LogPlan ρ) (record : RawRecord) : Bool :=
  (match plan.producers with
    | some wanted => decide (record.producer ∈ wanted)
    | none => true) && decide (plan.fromTs ≤ record.ts) && decide (record.ts ≤ plan.toTs)

def LogPlan.item {ρ : Type} (plan : LogPlan ρ) (record : RawRecord) : Option (Item ρ) :=
  if plan.inBounds record then (plan.decodeLog record).map fun log => ⟨log,record.seq⟩ else none

def collect {ρ : Type} (plan : LogPlan ρ) : ℕ → List RawRecord → List (Item ρ) × Bool
  | _, [] => ([],false)
  | limit, record :: rest =>
    match plan.item record with
    | none => collect plan limit rest
    | some item =>
      match limit with
      | 0 => ([],true)
      | limit + 1 => (item :: (collect plan limit rest).1,(collect plan limit rest).2)

/-- `tail` applies without a cursor. -/
def LogPlan.tailMode {ρ : Type} (plan : LogPlan ρ) : Bool :=
  decide (0 < plan.tail) && plan.cursor.isNone

def history {ρ : Type} (plan : LogPlan ρ) (snapshot : List RawRecord) : List (Item ρ) × Bool :=
  if plan.tailMode then ((collect plan (min plan.tail plan.limit) snapshot.reverse).1.reverse,false)
  else
    collect plan plan.limit
      (match plan.cursor with
        | some cursor => above RawRecord.seq cursor snapshot
        | none => snapshot)

def lastSeq (log : List RawRecord) : ℕ := lastNumber RawRecord.seq 0 log

def newest {ρ : Type} (items : List (Item ρ)) : Option ℕ := (items.map Item.seq).max?

inductive Follower where
  | starting
  | subscribed
  | scanned (snapshot : List RawRecord)
  | waiting
  | woken
  | rescanned (snapshot : List RawRecord)
  deriving DecidableEq, Repr

structure World (ρ : Type) where
  log : List RawRecord
  locked : Bool
  /-- The watch channel: the published head, and how often one was published. -/
  head : ℕ
  version : ℕ
  follower : Follower
  seen : ℕ
  after : ℕ
  lastCursor : Option ℕ
  inWindow : ℕ
  dropped : ℕ
  historyFrames : List (Frame ρ)
  frames : List (Frame ρ)
  base : Option ℕ
  deriving DecidableEq, Repr

def followPerSecond : ℕ := 2000

structure Batch (ρ : Type) where
  inWindow : ℕ
  lastCursor : Option ℕ
  out : List (Item ρ)
  dropped : ℕ

/-- One record of a scan; `elapsed` says that the second of the rate limit is over. -/
def Batch.add {ρ : Type} (batch : Batch ρ) (item : Item ρ) (elapsed : Bool) : Batch ρ :=
  let inWindow := if elapsed then 0 else batch.inWindow
  if followPerSecond ≤ inWindow then
    { batch with inWindow := inWindow, dropped := batch.dropped + 1 }
  else
    { batch with inWindow := inWindow + 1, lastCursor := some item.seq, out := batch.out ++ [item] }

def Batch.addAll {ρ : Type} (elapsed : ℕ → Bool) : ℕ → List (Item ρ) → Batch ρ → Batch ρ
  | _, [], batch => batch
  | n, item :: rest, batch => Batch.addAll elapsed (n + 1) rest (batch.add item (elapsed n))

inductive Step where
  /-- The writer appends a record; its number is the next one. -/
  | append (record : RawRecord)
  | publish
  | subscribe
  | snapshot
  | resume
  | wake
  | keepalive
  | advance (elapsed : ℕ → Bool)

def resume {ρ : Type} (plan : LogPlan ρ) (w : World ρ) (snapshot : List RawRecord) : World ρ :=
  let got := history plan snapshot
  let lastCursor := (got.1.getLast?.map Item.seq).or plan.cursor
  let found := (newest got.1).or plan.cursor
  { w with
    follower := .waiting
    after := found.getD w.head
    base := some (found.getD (lastSeq snapshot))
    lastCursor := lastCursor
    historyFrames := got.1.map Frame.record ++
      (if got.2 then [.status .truncated lastCursor 0] else []) ++
        [.status .caughtUp lastCursor 0] }

def advance {ρ : Type} (plan : LogPlan ρ) (w : World ρ) (snapshot : List RawRecord)
    (elapsed : ℕ → Bool) : World ρ :=
  let items := (above RawRecord.seq w.after snapshot).filterMap plan.item
  let batch := Batch.addAll elapsed 0 items ⟨w.inWindow,w.lastCursor,[],w.dropped⟩
  { w with
    follower := .waiting
    seen := w.version
    after := items.foldl (fun highest item => max highest item.seq) (max w.after w.head)
    inWindow := batch.inWindow
    dropped := 0
    lastCursor := batch.lastCursor
    frames := w.frames ++ batch.out.map Frame.record ++
      (if 0 < batch.dropped then [.status .dropped batch.lastCursor batch.dropped] else []) }

def step {ρ : Type} (plan : LogPlan ρ) (w : World ρ) : Step → World ρ
  | .append record =>
    { w with log := w.log ++ [{ record with seq := lastSeq w.log + 1 }], locked := true }
  | .publish =>
    if w.locked then
      { w with locked := false, head := lastSeq w.log, version := w.version + 1 }
    else w
  | .subscribe =>
    match w.follower with
    | .starting => { w with follower := .subscribed, seen := w.version }
    | _ => w
  | .snapshot =>
    -- the snapshot waits for the writer
    if w.locked then w
    else
      match w.follower with
      | .subscribed => { w with follower := .scanned w.log }
      | .woken => { w with follower := .rescanned w.log }
      | _ => w
  | .resume =>
    match w.follower with
    | .scanned snapshot => resume plan w snapshot
    | _ => w
  | .wake =>
    match w.follower with
    | .waiting => if w.seen = w.version then w else { w with follower := .woken, seen := w.version }
    | _ => w
  | .keepalive =>
    match w.follower with
    | .waiting =>
      if 0 < w.dropped then
        { w with
          dropped := 0
          frames := w.frames ++ [.status .dropped w.lastCursor w.dropped] }
      else { w with frames := w.frames ++ [.status .keepalive w.lastCursor 0] }
    | _ => w
  | .advance elapsed =>
    match w.follower with
    | .rescanned snapshot => advance plan w snapshot elapsed
    | _ => w

def start {ρ : Type} (log : List RawRecord) : World ρ :=
  ⟨log,false,lastSeq log,0,.starting,0,0,none,0,0,[],[],none⟩

def recordOf {ρ : Type} : Frame ρ → Option (Item ρ)
  | .record item => some item
  | .status _ _ _ => none

def droppedOf {ρ : Type} : Frame ρ → ℕ
  | .record _ => 0
  | .status _ _ dropped => dropped

def World.delivered {ρ : Type} (w : World ρ) : List (Item ρ) := w.frames.filterMap recordOf

def World.counted {ρ : Type} (w : World ρ) : ℕ := (w.frames.map droppedOf).sum

def expected {ρ : Type} (plan : LogPlan ρ) (base : ℕ) (log : List RawRecord) : List (Item ρ) :=
  (above RawRecord.seq base log).filterMap plan.item

/-- Nothing is published between a snapshot and the reading of the head, and the limit does
not cut the history. -/
def Allowed {ρ : Type} (plan : LogPlan ρ) (w : World ρ) : Step → Prop
  | .resume =>
    match w.follower with
    | .scanned snapshot => (history plan snapshot).2 = false ∧
        ((history plan snapshot).1 = [] → plan.cursor = none → w.head = lastSeq snapshot)
    | _ => True
  | .advance _ =>
    match w.follower with
    | .rescanned snapshot => w.head = lastSeq snapshot
    | _ => True
  | _ => True

/-- Each record of a scan is delivered in its place or counted. -/
theorem Batch.addAll_account {ρ : Type} (elapsed : ℕ → Bool) (n : ℕ) {items : List (Item ρ)}
    (batch : Batch ρ) : ∃ out, (Batch.addAll elapsed n items batch).out = batch.out ++ out ∧
      out.Sublist items ∧
      out.length + (Batch.addAll elapsed n items batch).dropped = items.length + batch.dropped := by
  induction items generalizing n batch with
  | nil => exact ⟨[],by simp [Batch.addAll],by simp,by simp [Batch.addAll]⟩
  | cons item rest ih =>
    obtain ⟨out,hout,hsub,htotal⟩ := ih (n + 1) (batch.add item (elapsed n))
    rw [Batch.addAll, hout]
    by_cases hfull : followPerSecond ≤ if elapsed n then 0 else batch.inWindow
    · have hadd : (batch.add item (elapsed n)).out = batch.out ∧
          (batch.add item (elapsed n)).dropped = batch.dropped + 1 := by
        simp [Batch.add, hfull]
      refine ⟨out,by rw [hadd.1],hsub.cons _,?_⟩
      rw [htotal, hadd.2, length_cons]
      omega
    · have hadd : (batch.add item (elapsed n)).out = batch.out ++ [item] ∧
          (batch.add item (elapsed n)).dropped = batch.dropped := by
        simp [Batch.add, hfull]
      refine ⟨item :: out,by rw [hadd.1]; simp,hsub.cons_cons _,?_⟩
      rw [length_cons, length_cons]
      omega

/-- A scan that the limit does not cut returns every record that it keeps. -/
theorem collect_all {ρ : Type} {plan : LogPlan ρ} (limit : ℕ) {records : List RawRecord}
    (h : (collect plan limit records).2 = false) :
    (collect plan limit records).1 = records.filterMap plan.item := by
  induction records generalizing limit with
  | nil => rfl
  | cons record rest ih =>
    rw [collect] at h ⊢
    cases hitem : plan.item record with
    | none =>
      simp only [hitem] at h ⊢
      rw [ih limit h, filterMap_cons_none hitem]
    | some item =>
      cases limit with
      | zero => simp [hitem] at h
      | succ limit =>
        simp only [hitem] at h ⊢
        rw [ih limit h, filterMap_cons_some hitem]

theorem collect_front {ρ : Type} (plan : LogPlan ρ) (limit : ℕ) (records : List RawRecord) :
    (collect plan limit records).1 = (records.filterMap plan.item).take limit := by
  induction records generalizing limit with
  | nil => simp [collect]
  | cons record rest ih =>
    rw [collect]
    cases hitem : plan.item record with
    | none => rw [filterMap_cons_none hitem]; exact ih limit
    | some item =>
      rw [filterMap_cons_some hitem]
      cases limit with
      | zero => rfl
      | succ limit => rw [take_succ_cons, ← ih limit]

theorem item_seq {ρ : Type} {plan : LogPlan ρ} {record : RawRecord} {item : Item ρ}
    (h : plan.item record = some item) : item.seq = record.seq := by
  rw [LogPlan.item] at h
  split at h
  · obtain ⟨log,-,rfl⟩ := map_eq_some_iff.1 h
    rfl
  · cases h

theorem le_lastSeq {log : List RawRecord} {record : RawRecord} (h : Ascending RawRecord.seq log)
    (hrecord : record ∈ log) :
    record.seq ≤ lastSeq log := le_lastNumber h record hrecord

theorem newest_le {ρ : Type} {item : Item ρ} {items : List (Item ρ)} (h : item ∈ items) :
    ∃ n, newest items = some n ∧ item.seq ≤ n := by
  cases hnewest : newest items with
  | none => simp [newest, map_eq_nil_iff] at hnewest; simp [hnewest] at h
  | some n =>
    refine ⟨n,rfl,?_⟩
    exact (max?_eq_some_iff.1 hnewest).2 item.seq (mem_map_of_mem h)

theorem newest_none {ρ : Type} {items : List (Item ρ)} (h : newest items = none) : items = [] := by
  simpa [newest] using h

/-- No record of a snapshot lies above its newest one of a tail. -/
theorem tail_reaches {ρ : Type} {plan : LogPlan ρ} {record : RawRecord} {item : Item ρ}
    {snapshot : List RawRecord} {count : ℕ} (h : Ascending RawRecord.seq snapshot)
    (hrecord : record ∈ snapshot) (hitem : plan.item record = some item) :
    record.seq ≤
      (newest (collect plan count snapshot.reverse).1.reverse).getD (lastSeq snapshot) := by
  rw [collect_front, filterMap_reverse]
  cases hnewest : newest ((snapshot.filterMap plan.item).reverse.take count).reverse with
  | none => exact le_lastSeq h hrecord
  | some n =>
    have hin : item ∈ snapshot.filterMap plan.item := mem_filterMap.2 ⟨record,hrecord,hitem⟩
    obtain ⟨front,last,hlast⟩ :=
      (eq_nil_or_concat' (snapshot.filterMap plan.item)).resolve_left (ne_nil_of_mem hin)
    have hcount : count ≠ 0 := by
      rintro rfl
      simp [newest] at hnewest
    -- the last match of the snapshot is in the tail, and no match is above it
    have hpairs : (snapshot.filterMap plan.item).Pairwise fun a b => a.seq < b.seq := by
      apply List.Pairwise.filterMap _ _ h
      intro a b hless x hx y hy
      rw [item_seq hx, item_seq hy]
      exact hless
    have htail : last ∈ ((snapshot.filterMap plan.item).reverse.take count).reverse := by
      obtain ⟨count,rfl⟩ := Nat.exists_eq_succ_of_ne_zero hcount
      simp [hlast]
    obtain ⟨m,hm,hle⟩ := newest_le htail
    rw [hnewest] at hm
    cases hm
    rw [← item_seq hitem]
    refine le_trans ?_ hle
    rw [hlast] at hin hpairs
    rcases mem_append.1 hin with hfront | hsame
    · exact le_of_lt ((pairwise_append.1 hpairs).2.2 item hfront last mem_cons_self)
    · rw [mem_singleton.1 hsame]

/-- Every matching record of the snapshot lies at or below the newest record of a history that
the limit did not cut, or the cursor, or the head. -/
theorem history_reaches {ρ : Type} {plan : LogPlan ρ} {record : RawRecord} {item : Item ρ}
    {snapshot : List RawRecord} (h : Ascending RawRecord.seq snapshot)
    (hcut : (history plan snapshot).2 = false) (hrecord : record ∈ snapshot)
    (hitem : plan.item record = some item) :
    record.seq ≤ ((newest (history plan snapshot).1).or plan.cursor).getD (lastSeq snapshot) := by
  rw [history] at hcut ⊢
  by_cases hmode : plan.tailMode = true
  · have hcursor : plan.cursor = none := by
      rw [LogPlan.tailMode, Bool.and_eq_true] at hmode
      simpa using hmode.2
    rw [if_pos hmode, hcursor, or_none]
    exact tail_reaches h hrecord hitem
  · rw [if_neg hmode] at hcut ⊢
    rw [collect_all _ hcut]
    cases hcursor : plan.cursor with
    | none =>
      obtain ⟨n,hn,hle⟩ := newest_le (mem_filterMap.2 ⟨record,hrecord,hitem⟩)
      simp only [hn, some_or, getD_some]
      exact (item_seq hitem).ge.trans hle
    | some cursor =>
      by_cases habove : cursor < record.seq
      · obtain ⟨n,hn,hle⟩ := newest_le
          (mem_filterMap.2 ⟨record,mem_above.2 ⟨hrecord,habove⟩,hitem⟩)
        simp only [hn, some_or, getD_some]
        exact (item_seq hitem).ge.trans hle
      · -- a record at or below the cursor is below all that were delivered
        cases hnewest : newest ((above RawRecord.seq cursor snapshot).filterMap plan.item) with
        | none => exact Nat.le_of_not_lt habove
        | some n =>
          obtain ⟨other,hother,rfl⟩ := mem_map.1 (max?_eq_some_iff.1 hnewest).1
          obtain ⟨row,hrow,hread⟩ := mem_filterMap.1 hother
          have := (mem_above.1 hrow).2
          simp only [some_or, getD_some, item_seq hread]
          omega

def passed {ρ : Type} (plan : LogPlan ρ) (log : List RawRecord) (base after : ℕ) : List (Item ρ) :=
  (above RawRecord.seq base (through RawRecord.seq after log)).filterMap plan.item

/-- Each record that was passed was delivered, in order, or counted. -/
structure Account {ρ : Type} (plan : LogPlan ρ) (log : List RawRecord) (base after : ℕ)
    (frames : List (Frame ρ)) (dropped : ℕ) : Prop where
  base_le : base ≤ after
  reached : after = base ∨ after ≤ lastSeq log
  inOrder : (frames.filterMap recordOf).Sublist (passed plan log base after)
  total : (frames.filterMap recordOf).length + ((frames.map droppedOf).sum + dropped) =
    (passed plan log base after).length

def World.Accounted {ρ : Type} (plan : LogPlan ρ) (w : World ρ) : Prop :=
  ∃ base, w.base = some base ∧ Account plan w.log base w.after w.frames w.dropped

def Caught {ρ : Type} (plan : LogPlan ρ) (log : List RawRecord) (after head : ℕ) : Prop :=
  ∀ record ∈ log, after < record.seq → record.seq ≤ head → plan.item record = none

def World.Idle {ρ : Type} (w : World ρ) : Prop := w.frames = [] ∧ w.dropped = 0 ∧ w.base = none

def PhaseOk {ρ : Type} (plan : LogPlan ρ) (w : World ρ) : Follower → Prop
  | .starting => w.Idle
  | .subscribed => w.Idle
  | .scanned snapshot =>
    w.Idle ∧ snapshot <+: w.log ∧ (w.seen = w.version → w.head = lastSeq snapshot)
  | .waiting => w.Accounted plan ∧ (w.seen = w.version → Caught plan w.log w.after w.head)
  | .woken => w.Accounted plan
  | .rescanned snapshot => w.Accounted plan ∧ snapshot <+: w.log

structure Follows {ρ : Type} (plan : LogPlan ρ) (w : World ρ) : Prop where
  ascending : Ascending RawRecord.seq w.log
  positive : ∀ record ∈ w.log, 0 < record.seq
  /-- Between two steps every dropped record is in a frame. -/
  sent : w.dropped = 0
  head_le : w.head ≤ lastSeq w.log
  head_eq : w.locked = false → w.head = lastSeq w.log
  seen_le : w.seen ≤ w.version
  phase : PhaseOk plan w w.follower

theorem passed_append {ρ : Type} {log : List RawRecord} {record : RawRecord} {base after : ℕ}
    (plan : LogPlan ρ) (hafter : after = base ∨ after ≤ lastSeq log)
    (hrecord : lastSeq log < record.seq) :
    passed plan (log ++ [record]) base after = passed plan log base after := by
  have hnone : above RawRecord.seq base (through RawRecord.seq after [record]) = [] := by
    apply above_none
    intro row hrow
    obtain ⟨hin,hle⟩ := mem_through.1 hrow
    rw [mem_singleton.1 hin] at hle ⊢
    omega
  rw [passed, passed, through, filter_append, ← through, ← through, above_append, hnone,
    append_nil]

theorem ascending_append {log : List RawRecord} {record : RawRecord}
    (h : Ascending RawRecord.seq log) (hrecord : lastSeq log < record.seq) :
    Ascending RawRecord.seq (log ++ [record]) := by
  refine pairwise_append.2 ⟨h,pairwise_singleton _ _,?_⟩
  intro row hrow other hother
  rw [mem_singleton.1 hother]
  exact lt_of_le_of_lt (le_lastSeq h hrow) hrecord

theorem lastSeq_concat (log : List RawRecord) (record : RawRecord) :
    lastSeq (log ++ [record]) = record.seq := by
  rw [lastSeq, lastNumber_append]
  rfl

theorem Follows.snapshot_eq {ρ : Type} {plan : LogPlan ρ} {w : World ρ} (h : Follows plan w)
    {snapshot : List RawRecord} (hfront : snapshot <+: w.log) :
    through RawRecord.seq (lastSeq snapshot) w.log = snapshot :=
  through_front h.ascending h.positive hfront

theorem World.Accounted.append {ρ : Type} {record : RawRecord} {plan : LogPlan ρ} {w : World ρ}
    (h : w.Accounted plan) (hrecord : record.seq = lastSeq w.log + 1) :
    World.Accounted plan { w with log := w.log ++ [record], locked := true } := by
  obtain ⟨base,hbase,ha⟩ := h
  have hpassed := passed_append plan ha.reached (show lastSeq w.log < record.seq by omega)
  refine ⟨base,hbase,ha.base_le,?_,?_,?_⟩
  · rcases ha.reached with hsame | hle
    · exact .inl hsame
    · refine .inr (hle.trans ?_)
      rw [lastSeq_concat]
      omega
  · rw [hpassed]
    exact ha.inOrder
  · rw [hpassed]
    exact ha.total

theorem Follows.append {ρ : Type} {record : RawRecord} {plan : LogPlan ρ} {w : World ρ}
    (h : Follows plan w) (hrecord : record.seq = lastSeq w.log + 1) :
    Follows plan { w with log := w.log ++ [record], locked := true } := by
  have hhead := h.head_le
  refine ⟨ascending_append h.ascending (by omega),?_,h.sent,?_,fun hlocked => (nomatch hlocked),
    h.seen_le,?_⟩
  · exact forall_mem_append.2 ⟨h.positive,forall_mem_singleton.2 (by omega)⟩
  · rw [lastSeq_concat]
    exact hhead.trans (by omega)
  · have hphase := h.phase
    cases hfollower : w.follower with rw [hfollower] at hphase
    | starting | subscribed => exact hphase
    | scanned snapshot =>
      obtain ⟨hidle,hfront,hsame⟩ := hphase
      exact ⟨hidle,hfront.trans (prefix_append _ _),hsame⟩
    | waiting =>
      refine ⟨hphase.1.append hrecord,fun hseen row hrow hafter hle => ?_⟩
      -- the new record is above the head
      rcases mem_append.1 hrow with hin | hsame
      · exact hphase.2 hseen row hin hafter hle
      · rw [mem_singleton.1 hsame] at hle
        exact absurd (show record.seq ≤ w.head from hle) (by omega)
    | woken => exact World.Accounted.append hphase hrecord
    | rescanned snapshot =>
      exact ⟨hphase.1.append hrecord,hphase.2.trans (prefix_append _ _)⟩

theorem Follows.publish {ρ : Type} {plan : LogPlan ρ} {w : World ρ} (h : Follows plan w) :
    Follows plan { w with locked := false, head := lastSeq w.log, version := w.version + 1 } := by
  have hseen := h.seen_le
  have hunseen : w.seen ≠ w.version + 1 := by omega
  refine ⟨h.ascending,h.positive,h.sent,le_rfl,fun _ => rfl,hseen.trans (Nat.le_succ _),?_⟩
  have hphase := h.phase
  cases hfollower : w.follower with rw [hfollower] at hphase
  | starting | subscribed => exact hphase
  | scanned snapshot => exact ⟨hphase.1,hphase.2.1,fun hsame => absurd hsame hunseen⟩
  | waiting => exact ⟨hphase.1,fun hsame => absurd hsame hunseen⟩
  | woken | rescanned snapshot => exact hphase

theorem Follows.subscribe {ρ : Type} {plan : LogPlan ρ} {w : World ρ} (h : Follows plan w)
    (hfollower : w.follower = .starting) :
    Follows plan { w with follower := .subscribed, seen := w.version } := by
  have hphase := h.phase
  rw [hfollower] at hphase
  exact ⟨h.ascending,h.positive,h.sent,h.head_le,h.head_eq,le_rfl,hphase⟩

theorem Follows.snapshot {ρ : Type} {plan : LogPlan ρ} {w : World ρ} (h : Follows plan w)
    (hlocked : w.locked = false) (hfollower : w.follower = .subscribed) :
    Follows plan { w with follower := .scanned w.log } := by
  have hphase := h.phase
  rw [hfollower] at hphase
  exact ⟨h.ascending,h.positive,h.sent,h.head_le,h.head_eq,h.seen_le,hphase,prefix_refl _,
    fun _ => h.head_eq hlocked⟩

theorem Follows.resnapshot {ρ : Type} {plan : LogPlan ρ} {w : World ρ} (h : Follows plan w)
    (hfollower : w.follower = .woken) :
    Follows plan { w with follower := .rescanned w.log } := by
  have hphase := h.phase
  rw [hfollower] at hphase
  exact ⟨h.ascending,h.positive,h.sent,h.head_le,h.head_eq,h.seen_le,hphase,prefix_refl _⟩

theorem Follows.wake {ρ : Type} {plan : LogPlan ρ} {w : World ρ} (h : Follows plan w)
    (hfollower : w.follower = .waiting) :
    Follows plan { w with follower := .woken, seen := w.version } := by
  have hphase := h.phase
  rw [hfollower] at hphase
  exact ⟨h.ascending,h.positive,h.sent,h.head_le,h.head_eq,le_rfl,hphase.1⟩

/-- A status frame moves what was dropped into the count. -/
theorem Account.status {ρ : Type} {log : List RawRecord} {base after : ℕ} {frames : List (Frame ρ)}
    {plan : LogPlan ρ} {dropped : ℕ} (h : Account plan log base after frames dropped)
    {kind : StatusKind} {cursor : Option ℕ} :
    Account plan log base after (frames ++ [.status kind cursor dropped]) 0 := by
  have hrecords : (frames ++ [Frame.status kind cursor dropped]).filterMap recordOf =
      frames.filterMap recordOf := by
    rw [filterMap_append]
    exact append_nil _
  refine ⟨h.base_le,h.reached,?_,?_⟩
  · rw [hrecords]
    exact h.inOrder
  · have htotal := h.total
    rw [hrecords, map_append, sum_append]
    simpa [droppedOf] using htotal

theorem Follows.status {ρ : Type} {plan : LogPlan ρ} {w : World ρ} (h : Follows plan w)
    (hfollower : w.follower = .waiting) {kind : StatusKind} :
    Follows plan
      { w with dropped := 0, frames := w.frames ++ [.status kind w.lastCursor w.dropped] } := by
  have hphase := h.phase
  refine ⟨h.ascending,h.positive,rfl,h.head_le,h.head_eq,h.seen_le,?_⟩
  rw [hfollower] at hphase ⊢
  obtain ⟨⟨base,hbase,ha⟩,hcaught⟩ := hphase
  exact ⟨⟨base,hbase,ha.status⟩,hcaught⟩

theorem Follows.resume {ρ : Type} {plan : LogPlan ρ} {w : World ρ} (h : Follows plan w)
    {snapshot : List RawRecord} (hfollower : w.follower = .scanned snapshot)
    (hallowed : Allowed plan w .resume) :
    Follows plan (resume plan w snapshot) := by
  have hphase := h.phase
  rw [hfollower] at hphase
  obtain ⟨⟨hframes,hdropped,-⟩,hfront,hhead⟩ := hphase
  obtain ⟨hcut,hempty⟩ : (history plan snapshot).2 = false ∧
      ((history plan snapshot).1 = [] → plan.cursor = none → w.head = lastSeq snapshot) := by
    simpa only [Allowed, hfollower] using hallowed
  -- the position is the base, also when there was neither a record nor a cursor
  have hafter : ((newest (history plan snapshot).1).or plan.cursor).getD w.head =
      ((newest (history plan snapshot).1).or plan.cursor).getD (lastSeq snapshot) := by
    cases hfound : (newest (history plan snapshot).1).or plan.cursor with
    | some n => rfl
    | none =>
      rw [or_eq_none_iff] at hfound
      exact hempty (newest_none hfound.1) hfound.2
  refine ⟨h.ascending,h.positive,h.sent,h.head_le,h.head_eq,h.seen_le,
    ⟨_,rfl,hafter.ge,.inl hafter,?_,?_⟩,?_⟩
  · show (w.frames.filterMap recordOf).Sublist _
    rw [hframes]
    exact nil_sublist _
  · have hnone : passed plan w.log
        (((newest (history plan snapshot).1).or plan.cursor).getD (lastSeq snapshot))
        (((newest (history plan snapshot).1).or plan.cursor).getD w.head) = [] := by
      rw [hafter, passed, above_none, filterMap_nil]
      exact fun row hrow => (mem_through.1 hrow).2
    show (w.frames.filterMap recordOf).length + ((w.frames.map droppedOf).sum + w.dropped) = _
    rw [hframes, hdropped]
    exact (congrArg List.length hnone).symm
  · -- a record up to the head is in the snapshot, and the history has reached it
    intro hseen row hrow hrowafter hrowhead
    have hin : row ∈ snapshot := by
      rw [← h.snapshot_eq hfront, mem_through, ← hhead hseen]
      exact ⟨hrow,hrowhead⟩
    cases hitem : plan.item row with
    | none => rfl
    | some item =>
      have hreach := history_reaches (h.ascending.sublist hfront.sublist) hcut hin hitem
      rw [← hafter] at hreach
      exact absurd hrowafter (not_lt.2 hreach)

theorem passed_split {ρ : Type} {log : List RawRecord} {base after : ℕ} (plan : LogPlan ρ)
    (h : Ascending RawRecord.seq log) (hbase : base ≤ after) (head : ℕ) :
    passed plan log base (max after head) =
      passed plan log base after ++ passed plan log after head := by
  rw [passed, above_through_split h hbase (le_max_left after head), filterMap_append]
  congr 1
  rcases le_total after head with hle | hle
  · rw [max_eq_right hle]
    rfl
  · have hnone : ∀ high ≤ after, above RawRecord.seq after (through RawRecord.seq high log) = [] :=
      fun high hhigh => above_none fun row hrow => (mem_through.1 hrow).2.trans hhigh
    rw [passed, hnone _ (Nat.max_le.2 ⟨le_rfl,hle⟩), hnone _ hle]

theorem Account.advance {ρ : Type} {log : List RawRecord} {base after : ℕ} {frames : List (Frame ρ)}
    {plan : LogPlan ρ} {head dropped : ℕ} (h : Account plan log base after frames dropped)
    (hascending : Ascending RawRecord.seq log) (hhead : head ≤ lastSeq log) {out : List (Item ρ)}
    (hout : out.Sublist (passed plan log after head)) {missed : ℕ}
    (htotal : out.length + missed = (passed plan log after head).length + dropped) :
    Account plan log base (max after head) (frames ++ out.map Frame.record) missed := by
  have hrecords : (frames ++ out.map Frame.record).filterMap recordOf =
      frames.filterMap recordOf ++ out := by
    rw [filterMap_append, filterMap_map]
    exact congrArg _ (filterMap_some)
  have hcount : ((frames ++ out.map Frame.record).map droppedOf).sum =
      (frames.map droppedOf).sum := by
    simp [Function.comp_def, droppedOf]
  have hsplit := passed_split plan hascending h.base_le head
  refine ⟨h.base_le.trans (le_max_left _ _),?_,?_,?_⟩
  · have := h.reached
    omega
  · rw [hrecords, hsplit]
    exact h.inOrder.append hout
  · have hbefore := h.total
    rw [hrecords, hcount, hsplit, length_append, length_append]
    omega

theorem Follows.advance {ρ : Type} {plan : LogPlan ρ} {w : World ρ} (h : Follows plan w)
    {snapshot : List RawRecord} (hfollower : w.follower = .rescanned snapshot) (elapsed : ℕ → Bool)
    (hhead : w.head = lastSeq snapshot) : Follows plan (advance plan w snapshot elapsed) := by
  have hphase := h.phase
  rw [hfollower] at hphase
  obtain ⟨⟨base,hbase,ha⟩,hfront⟩ := hphase
  have hitems : (above RawRecord.seq w.after snapshot).filterMap plan.item =
      passed plan w.log w.after w.head := by
    rw [passed, hhead, h.snapshot_eq hfront]
  obtain ⟨out,hout,hsub,htotal⟩ :=
    Batch.addAll_account elapsed 0 ⟨w.inWindow,w.lastCursor,[],w.dropped⟩
  have hposition : (passed plan w.log w.after w.head).foldl
      (fun highest item => max highest item.seq) (max w.after w.head) = max w.after w.head := by
    refine le_antisymm (foldl_max_le.2 ⟨le_rfl,fun item hitem => ?_⟩) (foldl_max_le.1 le_rfl).1
    obtain ⟨row,hrow,hread⟩ := mem_filterMap.1 hitem
    rw [item_seq hread]
    exact (mem_through.1 (mem_above.1 hrow).1).2.trans (le_max_right _ _)
  have hnext := ha.advance h.ascending h.head_le hsub htotal
  simp only [LogFollow.advance, hitems, hposition, hout, nil_append]
  refine ⟨h.ascending,h.positive,rfl,h.head_le,h.head_eq,le_rfl,⟨base,hbase,?_⟩,?_⟩
  · split
    · exact hnext.status
    · next hnone => simpa [Nat.eq_zero_of_not_pos hnone] using hnext
  · intro _ row _ hafter hle
    exact absurd (hafter.trans_le hle) (not_lt.2 (le_max_right _ _))

theorem Follows.step {ρ : Type} {plan : LogPlan ρ} {w : World ρ} (h : Follows plan w) {op : Step}
    (hop : Allowed plan w op) :
    Follows plan (step plan w op) := by
  cases op with
  | append record => exact h.append rfl
  | publish =>
    rw [LogFollow.step]
    split
    · exact h.publish
    · exact h
  | subscribe =>
    rw [LogFollow.step]
    split
    · next hfollower => exact h.subscribe hfollower
    · exact h
  | snapshot =>
    rw [LogFollow.step]
    split
    · exact h
    · next hlocked =>
      split
      · next hfollower => exact h.snapshot (Bool.eq_false_of_not_eq_true hlocked) hfollower
      · next hfollower => exact h.resnapshot hfollower
      · exact h
  | resume =>
    rw [LogFollow.step]
    split
    · next snapshot hfollower => exact h.resume hfollower hop
    · exact h
  | wake =>
    rw [LogFollow.step]
    split
    · next hfollower =>
      split
      · exact h
      · exact h.wake hfollower
    · exact h
  | keepalive =>
    rw [LogFollow.step]
    split
    · next hfollower =>
      split
      · exact h.status hfollower
      · next hnone =>
        have hzero := Nat.eq_zero_of_not_pos hnone
        simpa [hzero] using h.status hfollower
    · exact h
  | advance elapsed =>
    rw [LogFollow.step]
    split
    · next snapshot hfollower =>
      exact h.advance hfollower elapsed (by simpa only [Allowed, hfollower] using hop)
    · exact h

theorem Follows.account {ρ : Type} {base : ℕ} {plan : LogPlan ρ} {w : World ρ} (h : Follows plan w)
    (hbase : w.base = some base) :
    Account plan w.log base w.after w.frames w.dropped := by
  have hidle : ¬ w.Idle := by
    rintro ⟨-,-,hnone⟩
    rw [hnone] at hbase
    cases hbase
  have haccounted : w.Accounted plan := by
    have hphase := h.phase
    cases hfollower : w.follower with
    | starting | subscribed => rw [hfollower] at hphase; exact absurd hphase hidle
    | scanned snapshot => rw [hfollower] at hphase; exact absurd hphase.1 hidle
    | waiting | rescanned snapshot => rw [hfollower] at hphase; exact hphase.1
    | woken => rwa [hfollower] at hphase
  obtain ⟨found,hfound,ha⟩ := haccounted
  rw [hbase] at hfound
  cases hfound
  exact ha

/-- The matching records are those that were passed and those that are to come. -/
theorem Follows.expected_eq {ρ : Type} {base : ℕ} {plan : LogPlan ρ} {w : World ρ}
    (h : Follows plan w) (hbase : base ≤ w.after) :
    expected plan base w.log =
      passed plan w.log base w.after ++ passed plan w.log w.after (lastSeq w.log) := by
  rw [← passed_split plan h.ascending hbase, passed, through_all, expected]
  exact fun row hrow => (le_lastSeq h.ascending hrow).trans (le_max_right _ _)

theorem Follows.inOrder {ρ : Type} {base : ℕ} {plan : LogPlan ρ} {w : World ρ} (h : Follows plan w)
    (hbase : w.base = some base) :
    w.delivered.Sublist (expected plan base w.log) ∧
      w.delivered.length + w.counted ≤ (expected plan base w.log).length := by
  have ha := h.account hbase
  rw [h.expected_eq ha.base_le]
  constructor
  · exact ha.inOrder.trans (sublist_append_left _ _)
  · have htotal := ha.total
    rw [length_append, ← htotal, World.delivered, World.counted]
    omega

instance (plan : LogPlan UInt8) (w : World UInt8) : (op : Step) → Decidable (Allowed plan w op)
  | .resume =>
    match hfollower : w.follower with
    | .scanned snapshot => decidable_of_iff ((history plan snapshot).2 = false ∧
        ((history plan snapshot).1 = [] → plan.cursor = none → w.head = lastSeq snapshot))
        (by rw [Allowed, hfollower])
    | .starting | .subscribed | .waiting | .woken | .rescanned _ =>
      isTrue (by rw [Allowed, hfollower]; trivial)
  | .advance _ =>
    match hfollower : w.follower with
    | .rescanned snapshot => decidable_of_iff (w.head = lastSeq snapshot)
        (by rw [Allowed, hfollower])
    | .starting | .subscribed | .waiting | .woken | .scanned _ =>
      isTrue (by rw [Allowed, hfollower]; trivial)
  | .append _ | .publish | .subscribe | .snapshot | .wake | .keepalive => isTrue trivial

end Permanu.LogFollow
