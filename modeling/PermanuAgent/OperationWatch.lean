import PermanuAgent.ByteText
import PermanuAgent.NumberedRows
import PermanuAgent.StepRuns

/-!
# Watching an operation

Every event of an operation is inserted into a table, which numbers it, and then sent to
the watchers; another task may insert and send in between. A watcher subscribes, reads
the table above the number it is given and follows what is sent, dropping what is not
above the last number it delivered. Events that are sent in another order than they were
numbered are dropped that way.
-/

set_option autoImplicit false

namespace Permanu.OperationWatch
open ByteText NumberedRows List StepRuns

structure OperationEvent (β : Type) where
  operationId : Str
  seq : ℕ
  payload : β
  deriving DecidableEq, Repr

/-- A call of `WatchOperation`, and which payloads say that the operation has finished. -/
structure Call (β : Type) where
  operationId : Str
  afterSeq : UInt64
  isFinished : β → Bool

inductive Watcher (β : Type) where
  | idle
  | subscribed
  | replaying (rest : List (OperationEvent β)) (last : ℕ)
  | following (last : ℕ)
  | finished
  /-- The stream ended with the error `CURSOR_EXPIRED`. -/
  | expired
  | stopped
  deriving DecidableEq, Repr

structure World (β : Type) where
  table : List (OperationEvent β)
  unsent : List (OperationEvent β)
  queue : List (OperationEvent β)
  lagged : Bool
  watcher : Watcher β
  delivered : List (OperationEvent β)
  deriving DecidableEq, Repr

variable {β : Type}

def rowsOf (operationId : Str) (events : List (OperationEvent β)) : List (OperationEvent β) :=
  events.filter fun event => decide (event.operationId = operationId)

/-- `COALESCE(MAX(seq), 0) + 1`. -/
def nextSeq (table : List (OperationEvent β)) (operationId : Str) : ℕ :=
  (rowsOf operationId table).foldl (fun highest event => max highest event.seq) 0 + 1

/-- `as i64`. -/
def asI64 (n : UInt64) : ℤ := if n.toNat < 2^63 then n.toNat else n.toNat - 2^64

def operationEventsAfter (table : List (OperationEvent β)) (operationId : Str) (afterSeq : UInt64) :
    List (OperationEvent β) :=
  (table.filter fun event =>
    decide (event.operationId = operationId) && decide (asI64 afterSeq < event.seq)).insertionSort
      fun a b => a.seq ≤ b.seq

def capacity : ℕ := 1024

def World.push (w : World β) (event : OperationEvent β) : World β :=
  match w.watcher with
  | .subscribed | .replaying _ _ | .following _ =>
    if w.queue.length < capacity then { w with queue := w.queue ++ [event] }
    else { w with queue := w.queue.tail ++ [event], lagged := true }
  | _ => w

section
variable (call : Call β) (w : World β)

def World.deliver (event : OperationEvent β) (next : Watcher β) : World β :=
  { w with
    delivered := w.delivered ++ [event]
    watcher := if call.isFinished event.payload then .finished else next }

inductive Step (β : Type) where
  | insert (operationId : Str) (payload : β)
  | send (k : ℕ)
  | subscribe
  | replay
  | deliver
  | receive
  | close
  deriving DecidableEq, Repr

def step : Step β → World β
  | .insert operationId payload =>
    let event : OperationEvent β := ⟨operationId,nextSeq w.table operationId,payload⟩
    { w with table := w.table ++ [event], unsent := w.unsent ++ [event] }
  | .send k =>
    match w.unsent[k]? with
    | none => w
    | some event => { w with unsent := w.unsent.eraseIdx k }.push event
  | .subscribe =>
    match w.watcher with
    | .idle => { w with watcher := .subscribed, queue := [], lagged := false }
    | _ => w
  | .replay =>
    match w.watcher with
    | .subscribed =>
      let events := operationEventsAfter w.table call.operationId call.afterSeq
      { w with watcher := .replaying events call.afterSeq.toNat }
    | _ => w
  | .deliver =>
    match w.watcher with
    | .replaying (event :: rest) _ => w.deliver call event (.replaying rest event.seq)
    | .replaying [] last => { w with watcher := .following last }
    | _ => w
  | .receive =>
    match w.watcher with
    | .following last =>
      if w.lagged then { w with watcher := .expired }
      else
        match w.queue with
        | [] => w
        | event :: rest =>
          if event.operationId = call.operationId ∧ last < event.seq then
            { w with queue := rest }.deliver call event (.following event.seq)
          else { w with queue := rest }
    | _ => w
  | .close =>
    match w.watcher with
    | .finished | .expired => w
    | _ => { w with watcher := .stopped }

def start : World β := ⟨[],[],[],false,.idle,[]⟩

def shown : List (OperationEvent β) :=
  upTo (fun event => call.isFinished event.payload)
    (above OperationEvent.seq call.afterSeq.toNat (rowsOf call.operationId w.table))

def covered : Watcher β → Option ℕ
  | .replaying rest last => some (lastNumber OperationEvent.seq last rest)
  | .following last => some last
  | _ => none

/-- The number given is one of a signed integer; once the table was read, an event of the
operation is sent only after the earlier ones that were not read. -/
def Allowed : Step β → Prop
  | .replay => call.afterSeq.toNat < 2^63
  | .send k => ∀ event ∈ w.unsent[k]?, event.operationId = call.operationId →
      ∀ last ∈ covered w.watcher, ∀ earlier ∈ w.unsent.take k,
        earlier.operationId = call.operationId → earlier.seq ≤ last
  | _ => True

def wanted : List (OperationEvent β) :=
  above OperationEvent.seq call.afterSeq.toNat (rowsOf call.operationId w.table)

def Following (front : List (OperationEvent β)) : Prop :=
  front <+: wanted call w ∧
  (w.lagged = false →
    above OperationEvent.seq (lastNumber OperationEvent.seq call.afterSeq.toNat front)
        (rowsOf call.operationId w.table) =
      above OperationEvent.seq (lastNumber OperationEvent.seq call.afterSeq.toNat front)
        (rowsOf call.operationId (w.queue ++ w.unsent)))

/-- No delivered event says that the operation has finished. -/
def Unfinished (events : List (OperationEvent β)) : Prop :=
  ∀ event ∈ events, call.isFinished event.payload = false

def Delivered : Watcher β → Prop
  | .idle | .subscribed => w.delivered = []
  | .replaying rest last => Following call w (w.delivered ++ rest) ∧
      last = lastNumber OperationEvent.seq call.afterSeq.toNat w.delivered ∧
      Unfinished call w.delivered
  | .following last => Following call w w.delivered ∧
      last = lastNumber OperationEvent.seq call.afterSeq.toNat w.delivered ∧
      Unfinished call w.delivered
  | .finished => w.delivered <+: wanted call w ∧ ∃ front event, w.delivered = front ++ [event] ∧
      Unfinished call front ∧ call.isFinished event.payload = true
  | .expired | .stopped => w.delivered <+: wanted call w ∧ Unfinished call w.delivered

end

structure Tracks (call : Call β) (w : World β) : Prop where
  ascending : Ascending OperationEvent.seq (rowsOf call.operationId w.table)
  unsent : ∀ event ∈ w.unsent, event ∈ w.table
  queue : ∀ event ∈ w.queue, event ∈ w.table
  delivered : Delivered call w w.watcher

variable {call : Call β} {w w' : World β}

@[simp] theorem rowsOf_append (operationId : Str) (front back : List (OperationEvent β)) :
    rowsOf operationId (front ++ back) = rowsOf operationId front ++ rowsOf operationId back :=
  filter_append ..

theorem lt_nextSeq {table : List (OperationEvent β)} {operationId : Str} :
    ∀ row ∈ rowsOf operationId table, row.seq < nextSeq table operationId :=
  fun row hrow => Nat.lt_succ_of_le ((foldl_max_le.1 le_rfl).2 row hrow)

variable {watcher : Watcher β}

/-- A world with the same deliveries and more rows, in which what follows is kept. -/
theorem Delivered.frame (h : Delivered call w watcher)
    (same : w'.delivered = w.delivered) (rows : wanted call w <+: wanted call w')
    (follows : ∀ front,
      covered watcher = some (lastNumber OperationEvent.seq call.afterSeq.toNat front) →
      Following call w front → Following call w' front) : Delivered call w' watcher := by
  cases watcher with
  | idle | subscribed => exact same.trans h
  | replaying rest last =>
    obtain ⟨hfollows,hlast,hunfinished⟩ := h
    refine ⟨?_,by rw [same]; exact hlast,by rw [same]; exact hunfinished⟩
    rw [same]
    refine follows _ ?_ hfollows
    rw [lastNumber_append, ← hlast]
    rfl
  | following last =>
    obtain ⟨hfollows,hlast,hunfinished⟩ := h
    refine ⟨?_,by rw [same]; exact hlast,by rw [same]; exact hunfinished⟩
    rw [same]
    exact follows _ (congrArg some hlast) hfollows
  | finished | expired | stopped =>
    rw [Delivered, same]
    exact ⟨h.1.trans rows,h.2⟩

/-- What was delivered is a front of the rows, and only the end says finished. -/
theorem Delivered.front (h : Delivered call w watcher) :
    w.delivered <+: wanted call w ∧ (watcher ≠ .finished → Unfinished call w.delivered) := by
  have hnone : w.delivered = [] →
      w.delivered <+: wanted call w ∧ (watcher ≠ .finished → Unfinished call w.delivered) := by
    intro hempty
    rw [hempty]
    exact ⟨List.nil_prefix,fun _ _ hevent => nomatch hevent⟩
  cases watcher with
  | idle | subscribed => exact hnone h
  | replaying rest last => exact ⟨(prefix_append _ _).trans h.1.1,fun _ => h.2.2⟩
  | following last => exact ⟨h.1.1,fun _ => h.2.2⟩
  | finished => exact ⟨h.1,fun hnot => absurd rfl hnot⟩
  | expired | stopped => exact ⟨h.1,fun _ => h.2⟩

variable {front : List (OperationEvent β)}

theorem Following.insert (h : Following call w front) {event : OperationEvent β} :
    Following call { w with table := w.table ++ [event], unsent := w.unsent ++ [event] } front := by
  refine ⟨h.1.trans ?_,fun hlagged => ?_⟩
  · simp only [wanted, rowsOf_append, above_append]
    exact prefix_append _ _
  · have heq := h.2 hlagged
    simp only [rowsOf_append, above_append] at heq ⊢
    rw [heq, append_assoc]

theorem Tracks.insert (h : Tracks call w) {operationId : Str} {payload : β} :
    Tracks call (step call w (.insert operationId payload)) := by
  set event : OperationEvent β := ⟨operationId,nextSeq w.table operationId,payload⟩ with hevent
  have hbegins : wanted call w <+: wanted call (step call w (.insert operationId payload)) := by
    simp only [wanted, step, rowsOf_append, above_append]
    exact prefix_append _ _
  refine ⟨?_,?_,fun other hother => mem_append_left _ (h.queue other hother),?_⟩
  · simp only [step, rowsOf_append]
    by_cases hop : operationId = call.operationId
    · have hrows : rowsOf call.operationId [event] = [event] := by simp [rowsOf, hevent, hop]
      rw [← hevent, hrows]
      refine pairwise_append.2 ⟨h.ascending,pairwise_singleton _ _,?_⟩
      intro row hrow other hother
      rw [mem_singleton.1 hother, hevent]
      subst hop
      exact lt_nextSeq row hrow
    · have hrows : rowsOf call.operationId [event] = [] := by simp [rowsOf, hevent, hop]
      rw [← hevent, hrows, append_nil]
      exact h.ascending
  · exact append_subset.2 ⟨subset_append_of_subset_left _ h.unsent,subset_append_right _ _⟩
  · exact h.delivered.frame rfl hbegins fun front _ hfollows => hfollows.insert

variable {event : OperationEvent β}

theorem unsent_split {k : ℕ} (h : w.unsent[k]? = some event) :
    w.unsent = w.unsent.take k ++ event :: w.unsent.drop (k + 1) ∧
      w.unsent.eraseIdx k = w.unsent.take k ++ w.unsent.drop (k + 1) := by
  obtain ⟨hk,rfl⟩ := List.getElem?_eq_some_iff.1 h
  exact ⟨by simp,eraseIdx_eq_take_drop_succ _ _⟩

/-- An event is sent in its turn: the earlier ones that are unsent were read. -/
theorem Following.send {earlier later : List (OperationEvent β)}
    (h : Following call w front) (hunsent : w.unsent = earlier ++ event :: later)
    (hread : event.operationId = call.operationId → ∀ other ∈ earlier,
      other.operationId = call.operationId →
      other.seq ≤ lastNumber OperationEvent.seq call.afterSeq.toNat front) :
    Following call { w with unsent := earlier ++ later, queue := w.queue ++ [event] } front := by
  refine ⟨h.1,fun hlagged => ?_⟩
  have heq := h.2 hlagged
  rw [hunsent] at heq
  rw [heq]
  simp only [rowsOf_append, above_append, append_assoc]
  rw [show event :: later = [event] ++ later from rfl, rowsOf_append, above_append]
  by_cases hop : event.operationId = call.operationId
  · have hnone : above OperationEvent.seq
        (lastNumber OperationEvent.seq call.afterSeq.toNat front)
        (rowsOf call.operationId earlier) = [] := above_none fun other hother => by
      have hmem := mem_filter.1 hother
      exact hread hop other hmem.1 (by simpa using hmem.2)
    rw [hnone]
    rfl
  · have hrows : rowsOf call.operationId [event] = [] := by simp [rowsOf, hop]
    rw [hrows]
    rfl

/-- A receiver that has lagged keeps its deliveries only. -/
theorem Following.lag (h : Following call w front) {queue unsent : List (OperationEvent β)} :
    Following call { w with queue := queue, unsent := unsent, lagged := true } front :=
  ⟨h.1,fun hlagged => nomatch hlagged⟩

theorem push_cases :
    (w.push event = w ∧ covered w.watcher = none) ∨
    w.push event = { w with queue := w.queue ++ [event] } ∨
    w.push event = { w with queue := w.queue.tail ++ [event], lagged := true } := by
  unfold World.push
  cases hwatcher : w.watcher with
  | idle | finished | expired | stopped => exact .inl ⟨rfl,rfl⟩
  | _ =>
    simp only
    split
    · exact .inr (.inl rfl)
    · exact .inr (.inr rfl)

theorem Tracks.send (h : Tracks call w) {k : ℕ} (hop : Allowed call w (.send k)) :
    Tracks call (step call w (.send k)) := by
  simp only [step]
  cases hk : w.unsent[k]? with
  | none => exact h
  | some event =>
    obtain ⟨hsplit,herase⟩ := unsent_split hk
    have hmem : event ∈ w.table := h.unsent event (mem_of_getElem? hk)
    have hless : ∀ other ∈ w.unsent.eraseIdx k, other ∈ w.table := fun other hother =>
      h.unsent other (mem_of_mem_eraseIdx hother)
    simp only
    rcases push_cases with
      ⟨hsame,hnone⟩ | hsent | hlag
    · rw [hsame]
      refine ⟨h.ascending,hless,h.queue,?_⟩
      refine h.delivered.frame rfl (prefix_refl _) fun front hcovered _ => ?_
      rw [show covered w.watcher = none from hnone] at hcovered
      cases hcovered
    · rw [hsent]
      refine ⟨h.ascending,hless,?_,?_⟩
      · exact forall_mem_append.2 ⟨h.queue,forall_mem_singleton.2 hmem⟩
      · refine h.delivered.frame rfl (prefix_refl _) fun front hcovered hfollows => ?_
        have hturn := hfollows.send hsplit fun hwatched other hother hsame =>
          hop event hk hwatched _ hcovered other hother hsame
        rw [← herase] at hturn
        exact hturn
    · rw [hlag]
      refine ⟨h.ascending,hless,?_,?_⟩
      · exact forall_mem_append.2
          ⟨fun other hother => h.queue other (mem_of_mem_tail hother),forall_mem_singleton.2 hmem⟩
      · exact h.delivered.frame rfl (prefix_refl _) fun front _ hfollows => hfollows.lag

/-- The table above the number, once more in its order. -/
theorem operationEventsAfter_eq (h : Ascending OperationEvent.seq (rowsOf call.operationId w.table))
    (hafter : call.afterSeq.toNat < 2^63) :
    operationEventsAfter w.table call.operationId call.afterSeq = wanted call w := by
  have hfilter : (w.table.filter fun event => decide (event.operationId = call.operationId) &&
      decide (asI64 call.afterSeq < event.seq)) = wanted call w := by
    rw [wanted, above, rowsOf, filter_filter]
    apply filter_congr
    intro event _
    rw [asI64, if_pos hafter, Bool.and_comm]
    simp
  rw [operationEventsAfter, hfilter]
  apply List.Pairwise.insertionSort_eq
  exact (h.above call.afterSeq.toNat).imp fun hlt => le_of_lt hlt

theorem Tracks.replay (h : Tracks call w) (hop : Allowed call w .replay) :
    Tracks call (step call w .replay) := by
  simp only [step]
  cases hwatcher : w.watcher with
  | subscribed =>
    rw [operationEventsAfter_eq h.ascending hop]
    have hempty : w.delivered = [] := by
      have hold := h.delivered
      rw [hwatcher] at hold
      exact hold
    refine ⟨h.ascending,h.unsent,h.queue,?_⟩
    refine ⟨⟨?_,fun _ => ?_⟩,?_,?_⟩
    · simp only [hempty, nil_append]
      exact prefix_refl _
    · -- nothing of the table, and so nothing that waits, is above its last number
      simp only [hempty, nil_append, wanted]
      have hnone : above OperationEvent.seq (lastNumber OperationEvent.seq call.afterSeq.toNat
          (above OperationEvent.seq call.afterSeq.toNat (rowsOf call.operationId w.table)))
          (rowsOf call.operationId w.table) = [] := above_lastNumber h.ascending
      rw [hnone, above_none]
      intro event hevent
      have hmem := mem_filter.1 hevent
      have htable : event ∈ w.table := by
        rcases mem_append.1 hmem.1 with hqueue | hunsent
        · exact h.queue event hqueue
        · exact h.unsent event hunsent
      by_contra hover
      have habove : event ∈ above OperationEvent.seq (lastNumber OperationEvent.seq
          call.afterSeq.toNat (above OperationEvent.seq call.afterSeq.toNat
            (rowsOf call.operationId w.table))) (rowsOf call.operationId w.table) :=
        mem_above.2 ⟨mem_filter.2 ⟨htable,hmem.2⟩,by omega⟩
      rw [hnone] at habove
      cases habove
    · simp only [hempty]
      rfl
    · simp only [hempty]
      exact fun _ hevent => nomatch hevent
  | _ => exact h

theorem Tracks.deliver_one {next : Watcher β} (h : Tracks call w)
    (hunfinished : Unfinished call w.delivered) (hbegins : w.delivered ++ [event] <+: wanted call w)
    (hnext : call.isFinished event.payload = false →
      Delivered call (w.deliver call event next) next) :
    Tracks call (w.deliver call event next) := by
  refine ⟨h.ascending,h.unsent,h.queue,?_⟩
  cases hfinished : call.isFinished event.payload with
  | true =>
    have hwatcher : (w.deliver call event next).watcher = .finished := by
      simp [World.deliver, hfinished]
    rw [hwatcher]
    exact ⟨hbegins,w.delivered,event,rfl,hunfinished,hfinished⟩
  | false =>
    have hwatcher : (w.deliver call event next).watcher = next := by
      simp [World.deliver, hfinished]
    rw [hwatcher]
    exact hnext hfinished

theorem Unfinished.append {events : List (OperationEvent β)}
    (h : Unfinished call events) (hevent : call.isFinished event.payload = false) :
    Unfinished call (events ++ [event]) := by
  exact forall_mem_append.2 ⟨h,forall_mem_singleton.2 hevent⟩

theorem Tracks.deliver (h : Tracks call w) : Tracks call (step call w .deliver) := by
  simp only [step]
  have hold := h.delivered
  split
  · next event rest last hwatcher =>
    rw [hwatcher] at hold
    obtain ⟨hfollows,hlast,hunfinished⟩ := hold
    have hmore : w.delivered ++ event :: rest = w.delivered ++ [event] ++ rest := by simp
    refine h.deliver_one hunfinished ?_ fun hnot => ⟨?_,?_,hunfinished.append hnot⟩
    · refine List.IsPrefix.trans ?_ hfollows.1
      rw [hmore]
      exact prefix_append _ _
    · rw [hmore] at hfollows
      exact hfollows
    · show event.seq = lastNumber _ _ (w.delivered ++ [event])
      rw [lastNumber_append]
      rfl
  · next last hwatcher =>
    rw [hwatcher] at hold
    rw [Delivered, append_nil] at hold
    exact ⟨h.ascending,h.unsent,h.queue,hold⟩
  · exact h

/-- The first event that waits and is above the last number is the next row. -/
theorem Following.next {rest : List (OperationEvent β)} (h : Following call w w.delivered)
    (hascending : Ascending OperationEvent.seq (rowsOf call.operationId w.table))
    (hlagged : w.lagged = false) (hqueue : w.queue = event :: rest)
    (hop : event.operationId = call.operationId)
    (habove : lastNumber OperationEvent.seq call.afterSeq.toNat w.delivered < event.seq) :
    Following call { w with queue := rest } (w.delivered ++ [event]) := by
  have hrows : rowsOf call.operationId (event :: rest ++ w.unsent) =
      event :: rowsOf call.operationId (rest ++ w.unsent) := by simp [rowsOf, hop]
  have heq := h.2 hlagged
  rw [hqueue, hrows, above, above, filter_cons, if_pos (by simpa using habove)] at heq
  change above _ _ _ = event :: above _ _ _ at heq
  obtain ⟨back,hback⟩ := h.1
  have hleft := rest_above hascending hback.symm
  rw [heq] at hleft
  have hwanted : wanted call w = (w.delivered ++ [event]) ++ above OperationEvent.seq
      (lastNumber OperationEvent.seq call.afterSeq.toNat w.delivered)
      (rowsOf call.operationId (rest ++ w.unsent)) := by
    rw [← hback, hleft]
    simp
  refine ⟨⟨_,hwanted.symm⟩,fun _ => ?_⟩
  -- what is left is above the event's number, in the table and among what waits
  have hafter := rest_above hascending hwanted
  rw [← hafter, lastNumber_append]
  show above _ _ _ = above _ event.seq _
  rw [← above_above (le_of_lt habove), hafter,
    lastNumber_append]
  exact (above_all fun row hrow => (mem_above.1 hrow).2).symm

theorem Tracks.receive (h : Tracks call w) : Tracks call (step call w .receive) := by
  simp only [step]
  have hold := h.delivered
  split
  · next last hwatcher =>
    rw [hwatcher] at hold
    obtain ⟨hfollows,hlast,hunfinished⟩ := hold
    split
    · exact ⟨h.ascending,h.unsent,h.queue,hfollows.1,hunfinished⟩
    · next hlagged =>
      have hlagged : w.lagged = false := by simpa using hlagged
      split
      · exact h
      · next event rest hqueue =>
        have hrest : ∀ other ∈ rest, other ∈ w.table := fun other hother =>
          h.queue other (by rw [hqueue]; exact mem_cons_of_mem _ hother)
        split
        · next hmatch =>
          have hnext := hfollows.next h.ascending hlagged hqueue hmatch.1 (hlast ▸ hmatch.2)
          have hw : Tracks call { w with queue := rest, watcher := .stopped } :=
            ⟨h.ascending,h.unsent,hrest,hfollows.1,hunfinished⟩
          refine Tracks.deliver_one (w := { w with queue := rest, watcher := .stopped }) hw
            hunfinished hnext.1 fun hnot => ⟨hnext,?_,hunfinished.append hnot⟩
          show event.seq = lastNumber _ _ (w.delivered ++ [event])
          rw [lastNumber_append]
          rfl
        · next hskip =>
          refine ⟨h.ascending,h.unsent,hrest,?_⟩
          rw [hwatcher]
          refine ⟨⟨hfollows.1,fun hno => ?_⟩,hlast,hunfinished⟩
          rw [hfollows.2 hno, hqueue]
          by_cases hop : event.operationId = call.operationId
          · have hle : ¬ last < event.seq := fun hlt => hskip ⟨hop,hlt⟩
            rw [hlast] at hle
            simp [rowsOf, above, hop, hle]
          · simp [rowsOf, hop]
  · exact h

theorem Tracks.step {op : Step β} (h : Tracks call w) (hop : Allowed call w op) :
    Tracks call (step call w op) := by
  cases op with
  | insert operationId payload => exact h.insert
  | send k => exact h.send hop
  | subscribe =>
    have hold := h.delivered
    simp only [OperationWatch.step]
    split
    · next hwatcher =>
      rw [hwatcher] at hold
      exact ⟨h.ascending,h.unsent,fun _ hevent => (nomatch hevent),hold⟩
    · exact h
  | replay => exact h.replay hop
  | deliver => exact h.deliver
  | receive => exact h.receive
  | close =>
    have hold := h.delivered
    simp only [OperationWatch.step]
    split
    · exact h
    · exact h
    · next hopen _ => exact ⟨h.ascending,h.unsent,h.queue,hold.front.1,hold.front.2 hopen⟩

theorem start_tracks : Tracks call start :=
  ⟨.nil,fun _ h => (nomatch h),fun _ h => (nomatch h),rfl⟩

/-- What was delivered begins what should be shown; once finished it is all of it. -/
theorem Tracks.shown (h : Tracks call w) :
    w.delivered <+: shown call w ∧ (w.watcher = .finished → w.delivered = shown call w) := by
  have hold := h.delivered
  obtain ⟨hfront,hunfinished⟩ := hold.front
  by_cases hfinished : w.watcher = .finished
  · rw [hfinished] at hold
    obtain ⟨⟨back,hback⟩,front,event,hdelivered,hbefore,hlast⟩ := hold
    have hshown : OperationWatch.shown call w = w.delivered := by
      rw [OperationWatch.shown, ← wanted, ← hback, hdelivered, append_assoc]
      exact upTo_stopped hbefore hlast
    rw [hshown]
    exact ⟨prefix_refl _,fun _ => rfl⟩
  · obtain ⟨back,hback⟩ := hfront
    have hshown : OperationWatch.shown call w =
        w.delivered ++ upTo (fun event => call.isFinished event.payload) back := by
      rw [OperationWatch.shown, ← wanted, ← hback]
      exact upTo_append (hunfinished hfinished) back
    rw [hshown]
    exact ⟨prefix_append _ _,fun hno => absurd hno hfinished⟩

/-- In a run in which the call's number is below 2^63 and the events of its operation are sent
in the order of their numbers once the table was read, the stream never skips an event: it has
delivered a front of the recorded events above the number, in ascending order and up to the
finished one; all of them once it ended with the finished event, or when nothing waits to be
sent or received. -/
theorem watch_shows_history (call : Call β) (steps : List (Step β))
    (h : ∀ before op, before ++ [op] <+: steps →
      Allowed call (run (step call) start before) op) :
    Ascending OperationEvent.seq (run (step call) start steps).delivered ∧
    (run (step call) start steps).delivered <+:
      shown call (run (step call) start steps) ∧
    ((run (step call) start steps).watcher = .finished →
      (run (step call) start steps).delivered =
        shown call (run (step call) start steps)) ∧
    (∀ last, (run (step call) start steps).watcher = .following last →
      (run (step call) start steps).lagged = false →
      (run (step call) start steps).queue = [] →
      rowsOf call.operationId (run (step call) start steps).unsent = [] →
      (run (step call) start steps).delivered =
        shown call (run (step call) start steps)) := by
  have hend : Tracks call (run (step call) start steps) :=
    run_invariant_along (Allowed call) (Tracks call)
      start_tracks (fun _ _ hw hop => hw.step hop) steps h
  refine ⟨?_,hend.shown.1,hend.shown.2,?_⟩
  · exact List.Pairwise.sublist hend.delivered.front.1.sublist (hend.ascending.above _)
  · intro last hwatcher hlagged hqueue hunsent
    have hold := hend.delivered
    rw [hwatcher] at hold
    obtain ⟨⟨⟨back,hback⟩,hwaiting⟩,-,hunfinished⟩ := hold
    -- nothing waits, so no row is left above the last number
    have hleft := rest_above hend.ascending hback.symm
    rw [hwaiting hlagged, rowsOf_append, hqueue, hunsent] at hleft
    rw [shown, ← wanted, ← hback, hleft]
    simp only [rowsOf, filter_nil, append_nil, above]
    exact (upTo_all hunfinished).symm

def sampleCall (afterSeq : UInt64) : Call Bool := ⟨str "op",afterSeq,fun finished => finished⟩

instance (call : Call β) (w : World β) : (op : Step β) → Decidable (Allowed call w op)
  | .insert _ _ => isTrue trivial
  | .send k => inferInstanceAs (Decidable (∀ event ∈ w.unsent[k]?,
      event.operationId = call.operationId → ∀ last ∈ covered w.watcher,
      ∀ earlier ∈ w.unsent.take k, earlier.operationId = call.operationId → earlier.seq ≤ last))
  | .subscribe => isTrue trivial
  | .replay => inferInstanceAs (Decidable (call.afterSeq.toNat < 2^63))
  | .deliver => isTrue trivial
  | .receive => isTrue trivial
  | .close => isTrue trivial

/-- The first event is inserted before the table is read and sent after it, the second one
finishes the operation. -/
def inOrder : List (Step Bool) :=
  [.subscribe, .insert (str "op") false, .replay, .insert (str "other") false,
    .insert (str "op") true, .send 0, .send 1, .send 0, .deliver, .deliver, .receive, .receive]

theorem watch_shows_finished_operation :
    (run (step (sampleCall 0)) start inOrder).watcher = .finished ∧
    (run (step (sampleCall 0)) start inOrder).delivered =
      shown (sampleCall 0) (run (step (sampleCall 0)) start inOrder) :=
  ⟨by decide +kernel,(watch_shows_history (sampleCall 0) inOrder
    (along_of_take _ (by decide +kernel))).2.2.1 (by decide +kernel)⟩

/-- Two tasks insert events 1 and 2 and send 2 before 1: the watcher delivers 2, drops 1 and
goes on. A call above 2^63 is read as a negative number and shows an event that is not above
the number it was given. -/
theorem late_event_is_skipped :
    ((run (step (sampleCall 0)) start
        [.subscribe, .replay, .deliver, .insert (str "op") false, .insert (str "op") false,
          .send 1, .send 0, .receive, .receive]).watcher = .following 2 ∧
      (run (step (sampleCall 0)) start
        [.subscribe, .replay, .deliver, .insert (str "op") false, .insert (str "op") false,
          .send 1, .send 0, .receive, .receive]).delivered = [⟨str "op",2,false⟩] ∧
      shown (sampleCall 0) (run (step (sampleCall 0)) start
        [.subscribe, .replay, .deliver, .insert (str "op") false, .insert (str "op") false,
          .send 1, .send 0, .receive, .receive]) = [⟨str "op",1,false⟩, ⟨str "op",2,false⟩]) ∧
    ((run (step (sampleCall 9223372036854775808)) start
        [.insert (str "op") false, .subscribe, .replay, .deliver]).delivered =
          [⟨str "op",1,false⟩] ∧
      shown (sampleCall 9223372036854775808) (run
        (step (sampleCall 9223372036854775808)) start
        [.insert (str "op") false, .subscribe, .replay, .deliver]) = []) := by
  decide +kernel

end Permanu.OperationWatch
