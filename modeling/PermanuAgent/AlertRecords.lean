import PermanuAgent.OpsStore
import Mathlib.Data.List.Perm.Basic

/-!
# The record of an alert

An alert is one record of the schedulers' store. A notification task appends its
delivery result to the record and the evaluator marks it resolved; both load the
record, change their copy and put it back, and only the load and the put are atomic.
A task that loads while another one holds a copy writes the other's change away.
-/

set_option autoImplicit false

namespace Permanu.AlertRecords
open ByteText OpsStore List Option StepRuns

inductive AlertState where
  | unspecified
  | ok
  | pending
  | firing
  | resolved
  | noData
  | muted
  deriving DecidableEq, Repr

inductive AlertSeverity where
  | unspecified
  | info
  | warning
  | critical
  deriving DecidableEq, Repr

def AlertSeverity.number : AlertSeverity → ℤ
  | .unspecified => 0
  | .info => 1
  | .warning => 2
  | .critical => 3

structure DeliveryResult where
  channelId : Str
  ok : Bool
  httpStatus : ℤ
  error : Str
  attemptedAt : Option ℤ
  attempts : ℕ
  deriving DecidableEq, Repr

/-- An alert as it is stored; `ν` are the values a rule compares. -/
structure AlertEvent (ν : Type) where
  id : Str
  ruleId : Str
  ruleName : Str
  severity : AlertSeverity
  state : AlertState
  summary : Str
  labels : List (Str × Str)
  value : ν
  startedAt : Option ℤ
  resolvedAt : Option ℤ
  deliveries : List DeliveryResult
  source : Str
  subjectId : Str
  deriving DecidableEq, Repr

variable {ν : Type}

def AlertEvent.subject (event : AlertEvent ν) : Str :=
  if event.ruleId.isEmpty then event.subjectId else event.ruleId

def loadEvent (ops : Store (AlertEvent ν)) (id : Str) : Option (AlertEvent ν) :=
  (tryGet ops .alertEvent id).map Row.body

def putEvent (len : AlertEvent ν → ℕ) (ops : Store (AlertEvent ν)) (event : AlertEvent ν)
    (time : ℤ) : Store (AlertEvent ν) :=
  kept ops (writeRecord len ops .alertEvent event.id event.subject event.source
    event.severity.number time event)

def storeEvent (len : AlertEvent ν → ℕ) (clock : ℤ) (ops : Store (AlertEvent ν))
    (event : AlertEvent ν) : Store (AlertEvent ν) :=
  putEvent len ops event (event.startedAt.getD clock)

def AlertEvent.delivered (event : AlertEvent ν) (result : DeliveryResult) : AlertEvent ν :=
  { event with deliveries := event.deliveries ++ [result] }

def AlertEvent.resolvedBy (event : AlertEvent ν) (now : ℤ) : AlertEvent ν :=
  { event with state := .resolved, resolvedAt := some now }

/-- The record with one id put in its place, seen through another test of the key. -/
theorem sameRecord_replaced {β : Type} (kind : RecordKind) {other : Str} (id : Str)
    (g : Row β → Row β) (hg : ∀ row, (g row).kind = kind ∧ (g row).id = id) :
    (sameRecord kind other ∘ fun row => if sameRecord kind id row then g row else row) =
      sameRecord kind other := by
  funext row
  by_cases hrow : sameRecord kind id row = true
  · obtain ⟨hkind,hid⟩ : row.kind = kind ∧ row.id = id := by simpa [sameRecord] using hrow
    simp [sameRecord, hg row, hkind, hid]
  · simp [hrow]

variable {event : AlertEvent ν} {len : AlertEvent ν → ℕ}

theorem loadEvent_putEvent (h : len event ≤ maxRecordBytes)
    (ops : Store (AlertEvent ν)) (time : ℤ) (id : Str) :
    loadEvent (putEvent len ops event time) id =
      if id = event.id then some event else loadEvent ops id := by
  unfold putEvent writeRecord
  rw [if_neg (by omega)]
  by_cases hany : ops.records.any (sameRecord .alertEvent event.id)
  · rw [if_pos hany]
    simp only [kept, loadEvent, tryGet, find?_map, Option.map_map]
    rw [sameRecord_replaced .alertEvent event.id _ fun _ => ⟨rfl,rfl⟩]
    by_cases hid : id = event.id
    · subst hid
      obtain ⟨found,hfound⟩ : ∃ found,
          ops.records.find? (sameRecord .alertEvent event.id) = some found := by
        rw [← isSome_iff_exists, find?_isSome]
        simpa using hany
      simp [hfound, find?_some hfound]
    · rw [if_neg hid]
      cases hfound : ops.records.find? (sameRecord .alertEvent id) with
      | none => rfl
      | some found =>
        have hsame := find?_some hfound
        have hother : sameRecord .alertEvent event.id found = false := by
          simp only [sameRecord, Bool.and_eq_true, beq_iff_eq] at hsame
          simp [sameRecord, hsame.2, hid]
        simp [hother]
  · rw [if_neg hany]
    simp only [kept, loadEvent, tryGet, find?_append]
    have hnone : ops.records.find? (sameRecord .alertEvent event.id) = none := by
      rw [find?_eq_none]
      intro row hrow hsame
      exact hany (any_eq_true.2 ⟨row,hrow,hsame⟩)
    by_cases hid : id = event.id
    · subst hid
      simp [hnone, sameRecord]
    · have hne : event.id ≠ id := Ne.symm hid
      simp [hid, sameRecord, hne]

theorem putEvent_large (h : maxRecordBytes < len event)
    (ops : Store (AlertEvent ν)) (time : ℤ) : putEvent len ops event time = ops := by
  simp [putEvent, writeRecord, h, kept]

/-- A put writes the event under its id or, over the size limit, nothing. -/
theorem putEvent_cases (len : AlertEvent ν → ℕ) {ops : Store (AlertEvent ν)} {time : ℤ} :
    putEvent len ops event time = ops ∨
      ∀ id, loadEvent (putEvent len ops event time) id =
        if id = event.id then some event else loadEvent ops id := by
  rcases Nat.lt_or_ge maxRecordBytes (len event) with h | h
  · exact .inl (putEvent_large h ops time)
  · exact .inr (loadEvent_putEvent h ops time)

inductive Task where
  | recordDelivery (eventId : Str) (result : DeliveryResult)
  | resolve (eventId : Str) (now : ℤ)
  deriving DecidableEq, Repr

def Task.eventId : Task → Str
  | .recordDelivery id _ => id
  | .resolve id _ => id

def Task.update (event : AlertEvent ν) : Task → AlertEvent ν
  | .recordDelivery _ result => event.delivered result
  | .resolve _ now => event.resolvedBy now

def Task.write (len : AlertEvent ν → ℕ) (clock : ℤ) (ops : Store (AlertEvent ν))
    (event : AlertEvent ν) : Task → Store (AlertEvent ν)
  | .recordDelivery id result =>
    putEvent len ops ((Task.recordDelivery id result).update event) (event.startedAt.getD 0)
  | .resolve id now => storeEvent len clock ops ((Task.resolve id now).update event)

inductive Phase (ν : Type) where
  | ready
  | holding (event : AlertEvent ν)
  | done
  deriving DecidableEq, Repr

structure World (ν : Type) where
  ops : Store (AlertEvent ν)
  tasks : List (Task × Phase ν)
  deriving DecidableEq, Repr

inductive Step (ν : Type) where
  | openEvent (event : AlertEvent ν) (clock : ℤ)
  | spawn (task : Task)
  | load (k : ℕ)
  | put (k : ℕ) (clock : ℤ)
  deriving DecidableEq, Repr

def start : World ν := ⟨emptyStore,[]⟩

def AlertEvent.opened (event : AlertEvent ν) : AlertEvent ν :=
  { event with state := .firing, resolvedAt := none, deliveries := [] }

def World.uses (w : World ν) (id : Str) : Bool :=
  (loadEvent w.ops id).isSome || w.tasks.any fun task => task.1.eventId == id

def step (len : AlertEvent ν → ℕ) (w : World ν) : Step ν → World ν
  | .openEvent event clock =>
    -- a new id is one that nothing uses yet
    if w.uses event.id then w else { w with ops := storeEvent len clock w.ops event.opened }
  | .spawn task => { w with tasks := w.tasks ++ [(task,.ready)] }
  | .load k =>
    match w.tasks[k]? with
    | some (task,.ready) =>
      match loadEvent w.ops task.eventId with
      | some event => { w with tasks := w.tasks.set k (task,.holding event) }
      | none => { w with tasks := w.tasks.set k (task,.done) }
    | _ => w
  | .put k clock =>
    match w.tasks[k]? with
    | some (task,.holding event) =>
      ⟨task.write len clock w.ops event,w.tasks.set k (task,.done)⟩
    | _ => w

def Phase.held : Phase ν → Bool
  | .holding _ => true
  | _ => false

def Phase.finished : Phase ν → Bool
  | .done => true
  | _ => false

/-- No other task holds a copy of the event when one is loaded, and a record with its new
delivery stays within the size limit. -/
def Allowed (len : AlertEvent ν → ℕ) (w : World ν) : Step ν → Prop
  | .load k => ∀ loading ∈ w.tasks[k]?, ∀ other ∈ w.tasks,
      other.1.eventId = loading.1.eventId → other.2.held = false
  | .put k _ => ∀ putting ∈ w.tasks[k]?,
      match putting with
      | (.recordDelivery _ result,.holding event) => len (event.delivered result) ≤ maxRecordBytes
      | _ => True
  | _ => True

instance (len : AlertEvent ν → ℕ) (w : World ν) : (op : Step ν) → Decidable (Allowed len w op)
  | .openEvent _ _ => isTrue trivial
  | .spawn _ => isTrue trivial
  | .load k => inferInstanceAs (Decidable (∀ loading ∈ w.tasks[k]?, ∀ other ∈ w.tasks,
      other.1.eventId = loading.1.eventId → other.2.held = false))
  | .put k _ =>
    match hk : w.tasks[k]? with
    | some (.recordDelivery _ result,.holding event) =>
      decidable_of_iff (len (event.delivered result) ≤ maxRecordBytes) (by simp [Allowed, hk])
    | some (.recordDelivery _ _,.ready) => isTrue (by simp [Allowed, hk])
    | some (.recordDelivery _ _,.done) => isTrue (by simp [Allowed, hk])
    | some (.resolve _ _,_) => isTrue (by simp [Allowed, hk])
    | none => isTrue (by simp [Allowed, hk])

def results (tasks : List (Task × Phase ν)) (id : Str) : List DeliveryResult :=
  tasks.filterMap fun task =>
    match task.1 with
    | .recordDelivery eventId result => if eventId = id then some result else none
    | .resolve _ _ => none

/-- Two tasks that do not both hold a copy of one event. -/
def Apart (a b : Task × Phase ν) : Prop :=
  a.1.eventId = b.1.eventId → a.2.held = false ∨ b.2.held = false

theorem Apart.symm {a b : Task × Phase ν} (h : Apart a b) : Apart b a :=
  fun same => (h same.symm).symm

/-- Every held copy is the stored event, and the stored deliveries are those of the tasks
that are done. -/
structure Consistent (w : World ν) : Prop where
  named : ∀ id event, loadEvent w.ops id = some event → event.id = id
  current : ∀ task ∈ w.tasks, ∀ event, task.2 = .holding event →
    loadEvent w.ops task.1.eventId = some event
  apart : w.tasks.Pairwise Apart
  delivered : ∀ id event, loadEvent w.ops id = some event →
    event.deliveries.Perm (results (w.tasks.filter fun task => task.2.finished) id)

@[simp] theorem results_append (l r : List (Task × Phase ν)) (id : Str) :
    results (l ++ r) id = results l id ++ results r id := filterMap_append

def Task.result (id : Str) : Task → List DeliveryResult
  | .recordDelivery eventId result => if eventId = id then [result] else []
  | .resolve _ _ => []

theorem results_cons (task : Task × Phase ν) (rest : List (Task × Phase ν)) (id : Str) :
    results (task :: rest) id = task.1.result id ++ results rest id := by
  obtain ⟨task,phase⟩ := task
  cases task with
  | recordDelivery eventId result =>
    by_cases h : eventId = id <;> simp [results, Task.result, h]
  | resolve eventId now => simp [results, Task.result]

variable {tasks : List (Task × Phase ν)} {id : Str}

theorem results_other (h : ∀ task ∈ tasks, task.1.eventId ≠ id) : results tasks id = [] := by
  induction tasks with
  | nil => rfl
  | cons task rest ih =>
    have hrest := ih fun other hother => h other (mem_cons_of_mem task hother)
    have htask := h task mem_cons_self
    rw [results_cons, hrest]
    cases hcase : task.1 with
    | recordDelivery eventId result =>
      rw [hcase] at htask
      simp [Task.result, show eventId ≠ id from htask]
    | resolve eventId now => rfl

/-- The task at an index, with the tasks before and after it. -/
theorem split_at {k : ℕ} {task : Task × Phase ν} (h : tasks[k]? = some task) :
    ∃ l r, tasks = l ++ task :: r ∧ ∀ next, tasks.set k next = l ++ next :: r := by
  obtain ⟨hk,rfl⟩ := List.getElem?_eq_some_iff.1 h
  refine ⟨tasks.take k,tasks.drop (k + 1),by simp,fun next => ?_⟩
  rw [set_eq_take_append_cons_drop, if_pos hk]

theorem start_consistent : Consistent (start : World ν) :=
  ⟨fun _ _ h => (nomatch h),fun _ h => (nomatch h),.nil,fun _ _ h => (nomatch h)⟩

variable {w : World ν}

/-- A new id gets the new event, or the store stays as it was. -/
theorem storeEvent_opened (len : AlertEvent ν → ℕ) (clock : ℤ) (ops : Store (AlertEvent ν))
    (event : AlertEvent ν) :
    storeEvent len clock ops event.opened = ops ∨
      ∀ id, loadEvent (storeEvent len clock ops event.opened) id =
        if id = event.id then some event.opened else loadEvent ops id :=
  putEvent_cases len

theorem Consistent.openEvent (h : Consistent w) {clock : ℤ}
    (hnew : w.uses event.id = false) :
    Consistent { w with ops := storeEvent len clock w.ops event.opened } := by
  rcases storeEvent_opened len clock w.ops event with hsame | hput
  · rw [hsame]
    exact h
  · obtain ⟨hfree,hunused⟩ : loadEvent w.ops event.id = none ∧
        ∀ task ∈ w.tasks, task.1.eventId ≠ event.id := by
      simpa [World.uses, isSome_iff_ne_none] using hnew
    refine ⟨fun id stored hload => ?_,fun task htask copy hcopy => ?_,h.apart,
      fun id stored hload => ?_⟩
    · simp only [hput] at hload
      split at hload
      · next hid =>
        cases hload
        exact hid.symm
      · exact h.named id stored hload
    · simp only [hput]
      rw [if_neg (hunused task htask)]
      exact h.current task htask copy hcopy
    · simp only [hput] at hload
      split at hload
      · next hid =>
        cases hload
        subst hid
        rw [results_other fun task htask => hunused task (mem_of_mem_filter htask)]
        exact .nil
      · exact h.delivered id stored hload

theorem Consistent.spawn (h : Consistent w) {task : Task} :
    Consistent { w with tasks := w.tasks ++ [(task,.ready)] } := by
  refine ⟨h.named,fun other hother copy hcopy => ?_,?_,fun id stored hload => ?_⟩
  · rcases mem_append.1 hother with hold | hnew
    · exact h.current other hold copy hcopy
    · cases mem_singleton.1 hnew
      cases hcopy
  · refine pairwise_append.2 ⟨h.apart,pairwise_singleton _ _,?_⟩
    intro a _ b hb _
    cases mem_singleton.1 hb
    exact .inr rfl
  · simpa [Phase.finished] using h.delivered id stored hload

variable {l r : List (Task × Phase ν)} {task : Task}

variable {phase : Phase ν} {op : Step ν}

/-- Replaces one task whose old and new phase the others' copies do not depend on. -/
theorem Consistent.pairwise (h : Consistent w)
    (htasks : w.tasks = l ++ (task,phase) :: r) {next : Phase ν}
    (hnext : next.held = false ∨ ∀ other ∈ l ++ r, other.1.eventId = task.eventId →
      other.2.held = false) : (l ++ (task,next) :: r).Pairwise Apart := by
  have happart := h.apart
  rw [htasks, pairwise_middle Apart.symm, pairwise_cons] at happart
  refine (pairwise_middle Apart.symm).2 (pairwise_cons.2 ⟨?_,happart.2⟩)
  intro other hother same
  rcases hnext with hnext | hothers
  · exact .inl hnext
  · exact .inr (hothers other hother same.symm)

theorem mem_rest (htasks : w.tasks = l ++ (task,phase) :: r) :
    ∀ other ∈ l ++ r, other ∈ w.tasks := by
  intro other hother
  rw [htasks]
  exact perm_middle.mem_iff.2 (mem_cons_of_mem _ hother)

theorem Consistent.current_rest (h : Consistent w) (htasks : w.tasks = l ++ (task,phase) :: r) :
    ∀ other ∈ l ++ (task,.done) :: r, ∀ copy, other.2 = .holding copy →
      loadEvent w.ops other.1.eventId = some copy := by
  intro other hother copy hcopy
  rcases mem_cons.1 (perm_middle.mem_iff.1 hother) with rfl | hold
  · cases hcopy
  · exact h.current other (mem_rest htasks other hold) copy hcopy

theorem Consistent.hold (h : Consistent w) (htasks : w.tasks = l ++ (task,.ready) :: r)
    (hload : loadEvent w.ops task.eventId = some event)
    (hfree : ∀ other ∈ w.tasks, other.1.eventId = task.eventId → other.2.held = false) :
    Consistent { w with tasks := l ++ (task,.holding event) :: r } := by
  have hrest := mem_rest htasks
  refine ⟨h.named,fun other hother copy hcopy => ?_,
    h.pairwise htasks (.inr fun other hother => hfree other (hrest other hother)),
    fun id stored hstored => ?_⟩
  · rcases mem_cons.1 (perm_middle.mem_iff.1 hother) with rfl | hold
    · cases hcopy
      exact hload
    · exact h.current other (hrest other hold) copy hcopy
  · have hold := h.delivered id stored hstored
    rw [htasks] at hold
    simpa [filter_append, filter_cons, Phase.finished] using hold

/-- The results of the finished tasks once one more of them is. -/
theorem results_finish :
    (results ((l ++ (task,.done) :: r).filter fun task => task.2.finished) id).Perm
      (results ((l ++ r).filter fun task => task.2.finished) id ++ task.result id) := by
  simp only [filter_append, filter_cons, Phase.finished, results_append, if_true]
  rw [results_cons, append_assoc]
  exact (perm_append_comm).append_left _

theorem results_unfinished (h : phase.finished = false) (id : Str) :
    results ((l ++ (task,phase) :: r).filter fun task => task.2.finished) id =
      results ((l ++ r).filter fun task => task.2.finished) id := by
  simp [filter_append, h]

theorem Task.result_other (h : task.eventId ≠ id) : task.result id = [] := by
  cases task with
  | recordDelivery eventId result => exact if_neg h
  | resolve eventId now => rfl

theorem Consistent.missed (h : Consistent w) (htasks : w.tasks = l ++ (task,.ready) :: r)
    (hload : loadEvent w.ops task.eventId = none) :
    Consistent { w with tasks := l ++ (task,.done) :: r } := by
  refine ⟨h.named,h.current_rest htasks,h.pairwise htasks (.inl rfl),fun id stored hstored => ?_⟩
  have hid : task.eventId ≠ id := by
    rintro rfl
    rw [hload] at hstored
    cases hstored
  have hold := h.delivered id stored hstored
  rw [htasks, results_unfinished rfl] at hold
  refine hold.trans (results_finish.trans ?_).symm
  rw [Task.result_other hid, append_nil]

theorem Task.update_id (task : Task) (event : AlertEvent ν) :
    (task.update event).id = event.id := by
  cases task <;> rfl

theorem Task.update_deliveries (task : Task) (event : AlertEvent ν) :
    (task.update event).deliveries = event.deliveries ++ task.result task.eventId := by
  cases task with
  | recordDelivery eventId result =>
    simp [Task.update, AlertEvent.delivered, Task.result, Task.eventId]
  | resolve eventId now => simp [Task.update, AlertEvent.resolvedBy, Task.result]

/-- A put writes the updated copy; only one that resolves may be over the size limit. -/
theorem Task.write_cases (task : Task) (clock : ℤ) (ops : Store (AlertEvent ν))
    (hfits : ∀ id result, task = .recordDelivery id result →
      len (event.delivered result) ≤ maxRecordBytes) :
    (task.write len clock ops event = ops ∧ ∀ id, task.result id = []) ∨
      ∀ id, loadEvent (task.write len clock ops event) id =
        if id = event.id then some (task.update event) else loadEvent ops id := by
  cases task with
  | recordDelivery eventId result =>
    exact .inr (loadEvent_putEvent (hfits eventId result rfl) ops _)
  | resolve eventId now =>
    rcases putEvent_cases len with hs | hp
    · exact .inl ⟨hs,fun _ => rfl⟩
    · exact .inr hp

theorem Consistent.put (h : Consistent w) (htasks : w.tasks = l ++ (task,.holding event) :: r)
    {clock : ℤ} (hfits : ∀ id result, task = .recordDelivery id result →
      len (event.delivered result) ≤ maxRecordBytes) :
    Consistent ⟨task.write len clock w.ops event,l ++ (task,.done) :: r⟩ := by
  have hmem : (task,.holding event) ∈ w.tasks := by simp [htasks]
  have hstored := h.current _ hmem event rfl
  have hid : event.id = task.eventId := h.named _ _ hstored
  -- the other tasks hold no copy of this event
  have hothers : ∀ other ∈ l ++ r, ∀ copy, other.2 = .holding copy →
      other.1.eventId ≠ task.eventId := by
    intro other hother copy hcopy same
    have happart := h.apart
    rw [htasks, pairwise_middle Apart.symm, pairwise_cons] at happart
    rcases happart.1 other hother same.symm with hheld | hheld
    · cases hheld
    · rw [hcopy] at hheld
      cases hheld
  rcases task.write_cases clock w.ops hfits with ⟨hsame,hnone⟩ | hput
  · rw [hsame]
    refine ⟨h.named,h.current_rest htasks,h.pairwise htasks (.inl rfl),fun id stored hload => ?_⟩
    have hold := h.delivered id stored hload
    rw [htasks, results_unfinished rfl] at hold
    refine hold.trans (results_finish.trans ?_).symm
    rw [hnone, append_nil]
  · refine ⟨fun id stored hload => ?_,fun other hother copy hcopy => ?_,
      h.pairwise htasks (.inl rfl),fun id stored hload => ?_⟩
    · simp only [hput] at hload
      split at hload
      · next same =>
        cases hload
        rw [task.update_id, same]
      · exact h.named id stored hload
    · rcases mem_cons.1 (perm_middle.mem_iff.1 hother) with rfl | hold
      · cases hcopy
      · simp only [hput]
        rw [if_neg (by rw [hid]; exact hothers other hold copy hcopy)]
        exact h.current_rest htasks other hother copy hcopy
    · simp only [hput] at hload
      refine .trans ?_ results_finish.symm
      split at hload
      · next same =>
        cases hload
        have hold := h.delivered _ _ hstored
        rw [htasks, results_unfinished rfl] at hold
        rw [task.update_deliveries, same, hid]
        exact hold.append_right _
      · next other =>
        have hold := h.delivered id stored hload
        rw [htasks, results_unfinished rfl] at hold
        rw [Task.result_other (by rw [← hid]; exact Ne.symm other), append_nil]
        exact hold

theorem Consistent.step (h : Consistent w) (hop : Allowed len w op) :
    Consistent (step len w op) := by
  cases op with
  | openEvent event clock =>
    simp only [AlertRecords.step]
    split
    · exact h
    · next hnew => exact h.openEvent (by simpa using hnew)
  | spawn task => exact h.spawn
  | load k =>
    simp only [AlertRecords.step]
    split
    · next task hk =>
      obtain ⟨l,r,htasks,hset⟩ := split_at hk
      cases hload : loadEvent w.ops task.eventId with
      | some event =>
        simp only [hset]
        exact h.hold htasks hload fun other hother => hop _ hk other hother
      | none =>
        simp only [hset]
        exact h.missed htasks hload
    · exact h
  | put k clock =>
    simp only [AlertRecords.step]
    split
    · next task event hk =>
      obtain ⟨l,r,htasks,hset⟩ := split_at hk
      rw [hset]
      refine h.put htasks ?_
      rintro id result rfl
      exact hop _ hk
    · exact h

/-- The event is stored as resolved. -/
def Resolved (w : World ν) (id : Str) : Prop :=
  ∃ event, loadEvent w.ops id = some event ∧ event.state = .resolved

instance (w : World ν) (id : Str) : Decidable (Resolved w id) :=
  decidable_of_iff (∃ event ∈ loadEvent w.ops id, event.state = .resolved) Iff.rfl

theorem Task.update_resolved (task : Task) (h : event.state = .resolved) :
    (task.update event).state = .resolved := by
  cases task with
  | recordDelivery eventId result => exact h
  | resolve eventId now => rfl

theorem Resolved.step (hw : Consistent w) (hop : Allowed len w op)
    (h : Resolved w id) : Resolved (step len w op) id := by
  obtain ⟨event,hload,hstate⟩ := h
  cases op with
  | openEvent new clock =>
    simp only [AlertRecords.step]
    split
    · exact ⟨event,hload,hstate⟩
    · next hnew =>
      refine ⟨event,?_,hstate⟩
      rcases storeEvent_opened len clock w.ops new with hsame | hput
      · simpa only [hsame] using hload
      · simp only [hput]
        rw [if_neg, hload]
        rintro rfl
        simp [World.uses, hload] at hnew
  | spawn task => exact ⟨event,hload,hstate⟩
  | load k =>
    refine ⟨event,?_,hstate⟩
    simp only [AlertRecords.step]
    split
    · split <;> exact hload
    · exact hload
  | put k clock =>
    simp only [AlertRecords.step]
    split
    · next task copy hk =>
      have hcopy := hw.current _ (mem_of_getElem? hk) copy rfl
      have hfits : ∀ id result, task = .recordDelivery id result →
          len (copy.delivered result) ≤ maxRecordBytes := by
        rintro id result rfl
        exact hop _ hk
      rcases task.write_cases clock w.ops hfits with ⟨hsame,-⟩ | hput
      · exact ⟨event,by simpa only [hsame] using hload,hstate⟩
      · by_cases hid : id = copy.id
        · -- the copy is the stored event, which is resolved
          have hcid : copy.id = task.eventId := hw.named _ _ hcopy
          rw [hid, hcid, hcopy] at hload
          cases hload
          exact ⟨_,by rw [hput, if_pos hid],task.update_resolved hstate⟩
        · exact ⟨event,by rw [hput, if_neg hid, hload],hstate⟩
    · exact ⟨event,hload,hstate⟩

/-- In a run in which no task loads an alert that another one holds, and no delivery makes a
record too large, a resolved alert stays resolved; once every task is done, the deliveries of
an alert are the results of its tasks. -/
theorem updates_kept (len : AlertEvent ν → ℕ) (before after : List (Step ν))
    (h : ∀ done op, done ++ [op] <+: before ++ after →
      Allowed len (run (step len) start done) op) :
    (∀ id, Resolved (run (step len) start before) id →
      Resolved (run (step len) start (before ++ after)) id) ∧
    ((∀ task ∈ (run (step len) start (before ++ after)).tasks, task.2 = .done) →
      ∀ id event, loadEvent (run (step len) start (before ++ after)).ops id = some event →
        event.deliveries.Perm
          (results (run (step len) start (before ++ after)).tasks id)) := by
  have hbefore : Consistent (run (step len) start before) :=
    run_invariant_along (Allowed len) Consistent start_consistent
      (fun _ _ hw hop => hw.step hop) before
      fun done op hdone => h done op (hdone.trans (prefix_append before after))
  have hafter : ∀ done op, done ++ [op] <+: after →
      Allowed len (run (step len) (run (step len) start before) done) op := by
    intro done op hdone
    rw [← run_append]
    apply h
    rw [append_assoc]
    exact (prefix_append_right_inj before).2 hdone
  constructor
  · intro id hid
    rw [run_append]
    have hend := run_invariant_along (Allowed len)
      (fun w => Consistent w ∧ Resolved w id) ⟨hbefore,hid⟩
      (fun _ _ hw hop => ⟨hw.1.step hop,hw.2.step hw.1 hop⟩) after hafter
    exact hend.2
  · intro hdone id event hload
    rw [run_append] at hdone hload ⊢
    have hend := run_invariant_along (Allowed len) Consistent hbefore
      (fun _ _ hw hop => hw.step hop) after hafter
    have hdelivered := hend.delivered id event hload
    rwa [filter_eq_self.2 fun task htask => by rw [hdone task htask]; rfl] at hdelivered

def sampleEvent : AlertEvent ℤ where
  id := str "0197b2f0-0000-7000-8000-000000000001"
  ruleId := str "0197b2f0-0000-7000-8000-0000000000aa"
  ruleName := str "memory"
  severity := .critical
  state := .firing
  summary := str "memory: value 97"
  labels := []
  value := 97
  startedAt := some 1750000000
  resolvedAt := none
  deliveries := []
  source := str "rule"
  subjectId := []

def sampleLen (event : AlertEvent ℤ) : ℕ := 160 + 64 * event.deliveries.length

def sampleResult (channel : String) : DeliveryResult :=
  ⟨str channel,true,200,[],some 1750000001,1⟩

def sampleTasks : List (Step ℤ) :=
  [.openEvent sampleEvent 1750000000,
    .spawn (.recordDelivery sampleEvent.id (sampleResult "ops")),
    .spawn (.recordDelivery sampleEvent.id (sampleResult "oncall")),
    .spawn (.resolve sampleEvent.id 1750000060)]

def inTurn : List (Step ℤ) :=
  sampleTasks ++ [.load 0, .put 0 1750000060, .load 2, .put 2 1750000060]

theorem updates_kept_in_turn :
    (∀ id, Resolved (run (step sampleLen) start inTurn) id →
      Resolved (run (step sampleLen) start (inTurn ++ [.load 1, .put 1 1750000061])) id) ∧
    ((∀ task ∈ (run (step sampleLen) start
        (inTurn ++ [.load 1, .put 1 1750000061])).tasks, task.2 = .done) →
      ∀ id event, loadEvent (run (step sampleLen) start
        (inTurn ++ [.load 1, .put 1 1750000061])).ops id = some event →
        event.deliveries.Perm (results (run (step sampleLen) start
          (inTurn ++ [.load 1, .put 1 1750000061])).tasks id)) :=
  updates_kept sampleLen _ _ (along_of_take _ (by decide +kernel))

def overlapping : List (Step ℤ) :=
  sampleTasks ++ [.load 0, .load 1, .put 0 1750000060, .load 2, .put 2 1750000060]

/-- The second delivery puts its copy back after the alert was resolved: the alert fires
again and the first delivery is gone. -/
theorem late_put_undoes_resolve :
    Resolved (run (step sampleLen) start overlapping) sampleEvent.id ∧
    ¬ Resolved (run (step sampleLen) start (overlapping ++ [.put 1 1750000061]))
      sampleEvent.id ∧
    (∀ task ∈ (run (step sampleLen) start (overlapping ++ [.put 1 1750000061])).tasks,
      task.2 = .done) ∧
    (loadEvent (run (step sampleLen) start (overlapping ++ [.put 1 1750000061])).ops
      sampleEvent.id).map AlertEvent.deliveries = some [sampleResult "oncall"] ∧
    results (run (step sampleLen) start (overlapping ++ [.put 1 1750000061])).tasks
      sampleEvent.id = [sampleResult "ops", sampleResult "oncall"] := by
  decide +kernel

end Permanu.AlertRecords
