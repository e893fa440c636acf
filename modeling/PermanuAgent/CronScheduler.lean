import PermanuAgent.CronJobs

/-!
# The cron scheduler

A scheduled attempt and its retries are one chain. The scheduler keeps the active
chains, the number of containers that run, the chains that wait for a container and,
for each job that queues, the one chain that waits for the job. Manual runs take
capacity through reservations and count as chains until their action ends.

Every call of the scheduler is one step. What it reads from the admission store, the
consumed log and the clock is the view of the step; attempts that were dispatched are
kept until their answer comes in. Ids are drawn from a given sequence without
repetition, and hash maps are walked in a given order of their keys. The admission
store is always readable.
-/

set_option autoImplicit false

namespace Permanu.CronScheduler
open ByteText JsonValue PlanText PlanActions OrderedMap
open AdmissionDefinitions OpsStore CronJobs
open RunnerRequests (PlanRef RunnerFailure)

def maxRunning : ℕ := 8
def maxAllowedChains : ℕ := 4

def missedCountLimit : ℕ := 100000

def downtimeSeconds : ℤ := 120

def cronKinds : List String :=
  ["cron.create", "cron.update", "cron.delete", "cron.pause", "cron.resume", "cron.run"]

structure Chain where
  cronId : Str
  run : CronRun
  retryAt : Option ℤ
  waiting : Bool
  deriving DecidableEq, Repr

structure State where
  jobs : Jobs
  chains : OrderedMap Str Chain
  running : ℕ
  manualReservations : OrderedMap Str ManualCronReservation
  manualSubmitting : List Str
  recovering : List Str
  slots : List Str
  /-- For a job that queues, the chain waiting for the active one to end. -/
  queued : OrderedMap Str Str
  deriving DecidableEq

def emptyState : State :=
  ⟨empty,empty,0,empty,[],[],[],empty⟩

structure Call where
  job : JobDef
  chainId : Str
  run : CronRun
  deriving DecidableEq, Repr

inductive Use where
  | attempt
  | manual (planId : Str)
  | missed
  | skipped
  deriving DecidableEq, Repr

structure Grant where
  cronId : Str
  use : Use
  deriving DecidableEq, Repr

structure World where
  state : State
  ops : Store CronRun
  calls : List Call
  issued : List Grant
  failures : ℕ
  deriving DecidableEq

def start : World := ⟨emptyState,emptyStore,[],[],0⟩

structure AdmissionRecord where
  planId : Str
  planDigestHex : Str
  operationId : Str
  deriving DecidableEq, Repr

structure RunLog where
  runLines : List Value
  results : List Value
  deriving DecidableEq, Repr

structure View where
  actions : List AdmittedAction
  admissions : List AdmissionRecord
  log : Option RunLog
  now : ℤ
  deriving DecidableEq, Repr

def View.admitted (view : View) (kinds : List String) : List AdmittedAction :=
  view.actions.filter fun action => kindIn kinds action.kind

def View.admission (view : View) (planId : Str) : Option AdmissionRecord :=
  view.admissions.find? fun record => record.planId = planId

structure Env where
  len : CronRun → ℕ
  newId : ℕ → Str
  newId_injective : Function.Injective newId
  /-- The next fire time of a schedule in a time zone, if both are known. -/
  calendar : Str → Str → Option (ℤ → Option ℤ)
  order : Str → Str → Bool

variable (env : Env) (view : View) (w : World) (action : AdmittedAction)

def World.failed (w : World) : World := { w with failures := w.failures + 1 }

def save (now : ℤ) (run : CronRun) (slot : Str) (w : World) : World × Bool :=
  match writeRecord env.len w.ops .cronRun run.id run.cronId slot run.status.code
      ((run.scheduledFor.or run.startedAt).getD now) run with
  | .ok ops => ({ w with ops := ops },true)
  | .error _ => (w.failed,false)

def record (now : ℤ) (run : CronRun) (w : World) : World × Bool := save env now run (slotOf run) w

def validRow (row : Row CronRun) : Bool :=
  decide (env.len row.body ≤ maxRecordBytes) && row.body.id == row.id
    && row.body.cronId == row.subject && row.body.status.code == row.status

def list (keep : Row CronRun → Bool) (limit : ℕ) (w : World) : World × List (Row CronRun) :=
  let rows := (w.ops.records.reverse.filter fun row => row.kind == .cronRun && keep row).take limit
  if rows.all (validRow env) then (w,rows) else (w.failed,[])

def openRuns (w : World) : World × List (Row CronRun) :=
  list env
    (fun row => decide (row.status ∈ [RunStatus.running.code, RunStatus.pending.code])) 10000 w

def World.lookedUp (w : World) (run : CronRun) : World :=
  match scheduledIntent w.ops .cronRun run.id with
  | .error _ => w.failed
  | .ok _ => w

def World.floorRead (w : World) : World :=
  match slotFloor w.ops with
  | .error _ => w.failed
  | .ok _ => w

def fresh (w : World) : Str := env.newId w.issued.length

def World.issue (w : World) (cronId : Str) (use : Use) : World :=
  { w with issued := w.issued ++ [⟨cronId,use⟩] }

def matchesRun (plan : PlanRef) (scheduledFor : Option ℤ) (attempt : ℕ) (row : Value) : Bool :=
  row["plan_id"]! == .string plan.planId && row["plan_digest_hex"]! == .string plan.planDigestHex
    && row["action_index"]!.asU64 == some plan.actionIndex
    && row["attempt"]!.asU64 == some attempt
    && (match row["scheduled_for"]! with
      | .null => scheduledFor.isNone
      | value => value.asStr.bind timestamp == scheduledFor)

def agreedId (found : Option Str) : List Value → Option Str
  | [] => found
  | line::rest =>
    match runnerRunIdOf line with
    | none => none
    | some id => if found.any fun old => old != id then none else agreedId (some id) rest

def findRunnerRunId (lines : List Value) (plan : PlanRef) (scheduledFor : Option ℤ) (attempt : ℕ) :
    Option Str :=
  agreedId none (lines.filter (matchesRun plan scheduledFor attempt))

def loggedId (run : CronRun) : Option Str := do
  let log ← view.log
  let authority ← runAuthority view.admitted w.ops run
  findRunnerRunId log.runLines authority run.scheduledFor run.attempt

def loggedResult (id : Str) : Option Value := do
  let log ← view.log
  log.results.reverse.find? fun row => row["run_id"]! == .string id

def activeChains (state : State) (cronId : Str) : ℕ :=
  (state.chains.entries.countP fun entry =>
      entry.2.cronId == cronId && state.queued.get? cronId != some entry.1)
    + state.manualReservations.entries.countP fun entry => entry.2.cronId == cronId

def World.setChain (id : Str) (chain : Chain) : World :=
  { w with state := { w.state with chains := w.state.chains.insert env.order id chain } }

def World.updateChain (id : Str) (change : Chain → Chain) : World :=
  match w.state.chains.get? id with
  | none => w
  | some chain => w.setChain env id (change chain)

def World.dropChain (id : Str) : World :=
  { w with state := { w.state with chains := w.state.chains.erase id } }

def World.pushSlot (id : Str) : World :=
  { w with state := { w.state with slots := w.state.slots ++ [id] } }

def World.unpopSlot (id : Str) : World :=
  { w with state := { w.state with slots := id :: w.state.slots } }

def World.runs : World :=
  { w with state := { w.state with running := w.state.running + 1 } }

def World.stops : World :=
  { w with state := { w.state with running := w.state.running - 1 } }

def World.holds (id : Str) : World :=
  { w with state := { w.state with recovering := id :: w.state.recovering.filter (· != id) } }

def World.unholds (id : Str) : World :=
  { w with state := { w.state with recovering := w.state.recovering.filter (· != id) } }

def World.promote (cronId next : Str) : World :=
  { w with state := { w.state with
    queued := w.state.queued.erase cronId
    slots := w.state.slots ++ [next] } }

def endChain (cronId chainId : Str) (w : World) : World :=
  let w := w.dropChain chainId
  if activeChains w.state cronId = 0 then
    match w.state.queued.get? cronId with
    | none => w
    | some next => w.promote cronId next
  else w

def begun (now : ℤ) (run : CronRun) : CronRun :=
  { run with status := .running, startedAt := some now }

def launch (job : JobDef) (chainId : Str) (run : CronRun) (w : World) : World :=
  let run := begun view.now run
  match putScheduledRecord env.len w.ops .cronRun run.id run.cronId run.status.code
      (run.scheduledFor.getD view.now) run (launchSchedule job run) with
  | .error _ =>
    (w.failed.stops.updateChain env chainId fun chain =>
      { chain with waiting := true }).unpopSlot chainId
  | .ok ops =>
    let w : World := { w with ops := ops, calls := w.calls ++ [⟨job,chainId,run⟩] }
    w.updateChain env chainId fun chain => { chain with run := run }

inductive Round where
  | again
  | done

def cancelWaiting (chainId : Str) (chain : Chain) (w : World) : World × Round :=
  let run := { chain.run with
    status := .cancelled
    error := str "the job was deleted before the run started"
    finishedAt := some view.now }
  match record env view.now run w with
  | (w,false) => (w.unpopSlot chainId,.done)
  | (w,true) => (w.dropChain chainId,.again)

def startWaiting (chainId : Str) (chain : Chain) (w : World) : World × Round :=
  if (w.state.jobs.get? chain.cronId).isNone then cancelWaiting env view chainId chain w
  else if !chain.waiting then (w,.again)
  else
    match originalJob view.admitted w.ops chain.run with
    | none => ((w.lookedUp chain.run).unpopSlot chainId,.done)
    | some job =>
      (launch env view job chainId chain.run
        (w.setChain env chainId { chain with waiting := false }).runs,.again)

def fillRound : World × Round :=
  if maxRunning ≤ w.state.running + w.state.manualReservations.entries.length then (w,.done)
  else
    match w.state.slots with
    | [] => (w,.done)
    | chainId::rest =>
      let w : World := { w with state := { w.state with slots := rest } }
      match w.state.chains.get? chainId with
      | none => (w,.again)
      | some chain => startWaiting env view chainId chain w

def fillRounds : ℕ → World → World
  | 0, w => w
  | fuel+1, w =>
    match fillRound env view w with
    | (w,.again) => fillRounds fuel w
    | (w,.done) => w

/-- Starts waiting chains while fewer than eight containers run. Every round takes a chain
out of the line, unless its record is refused: the source then tries again without end. -/
def fillSlots (w : World) : World := fillRounds env view (w.state.slots.length + 1) w

def skips (state : State) (job : JobDef) : Bool :=
  match job.overlap with
  | .skip => 0 < activeChains state job.cronId
  | .queue => 0 < activeChains state job.cronId && (state.queued.get? job.cronId).isSome
  | .allow => maxAllowedChains ≤ activeChains state job.cronId

def startChain (job : JobDef) (run : CronRun) (w : World) : World :=
  match record env view.now run w with
  | (w,false) => w
  | (w,true) =>
    if skips w.state job then
      (record env view.now { run with
        status := .skippedOverlap
        finishedAt := some view.now
        error := str "overlap: a run of this job is still active" } w).1
    else
      let queues := job.overlap == .queue && 0 < activeChains w.state job.cronId
      let w := w.setChain env run.id ⟨job.cronId,run,none,true⟩
      if queues then
        let w := { w with state := { w.state with
          queued := w.state.queued.insert env.order job.cronId run.id } }
        (record env view.now run w).1
      else fillSlots env view (record env view.now run (w.pushSlot run.id)).1

def scheduledRun (id : Str) (job : JobDef) (scheduledFor : ℤ) : CronRun :=
  { newRun id job.cronId 1 .schedule .pending job.plan.planId with
    scheduledFor := some scheduledFor }

def startScheduled (job : JobDef) (scheduledFor : ℤ) (w : World) : World :=
  if hasSlot w.ops .cronRun job.cronId (formatTimestamp scheduledFor) then w.floorRead
  else
    let run := scheduledRun (fresh env w) job scheduledFor
    let w := w.issue job.cronId .attempt
    match claimScheduled env.len w.ops .cronRun run.id run.cronId run.status.code scheduledFor run
        ⟨job.plan,formatTimestamp scheduledFor,run.attempt⟩ with
    | .error _ => w.failed
    | .ok (_,false) => w
    | .ok (ops,true) => startChain env view job run { w with ops := ops }

/-- The fire times after `cursor` up to `until_`, at most `limit` of them, and how many
there are. -/
def fireTimes (next : ℤ → Option ℤ) (until_ : ℤ) (limit : ℕ) : ℕ → ℤ → List ℤ × ℕ
  | 0, _ => ([],0)
  | count+1, cursor =>
    match next cursor with
    | none => ([],0)
    | some time =>
      if until_ < time then ([],0)
      else
        let (times,rest) := fireTimes next until_ (limit-1) count time
        (if limit = 0 then times else time :: times,rest+1)

/-- The last fire time at or before `now`, from `latest` on. -/
def latestBefore (next : ℤ → Option ℤ) (now : ℤ) : ℕ → ℤ → ℤ
  | 0, latest => latest
  | fuel+1, latest =>
    match next latest with
    | none => latest
    | some time => if now < time then latest else latestBefore next now fuel time

def missedRun (id : Str) (job : JobDef) (scheduledFor : ℤ) (count : ℕ) (now : ℤ) : CronRun :=
  { newRun id job.cronId 1 .schedule .missed job.plan.planId with
    scheduledFor := some scheduledFor
    finishedAt := some now
    missedCount := count
    error := str "the agent was not running at " ++ decimal count ++ str " scheduled time(s)" }

def recordMissed (job : JobDef) (scheduledFor : ℤ) (count : ℕ) (w : World) : World :=
  (record env view.now (missedRun (fresh env w) job scheduledFor count view.now)
    (w.issue job.cronId .missed)).1

def recordGap (job : JobDef) (first : ℤ) (missed : ℕ) (w : World) : World :=
  if missed = 0 then w
  else if hasSlot w.ops .cronRun job.cronId (formatTimestamp first) then w.floorRead
  else recordMissed env view job first missed w

def fireLate (job : JobDef) (next : ℤ → Option ℤ) (first : ℤ) (count : ℕ) (w : World) : World :=
  let latest := latestBefore next view.now (view.now - first).toNat first
  if view.now - latest ≤ downtimeSeconds then
    startScheduled env view job latest (recordGap env view job first (count-1) w)
  else recordGap env view job first count w

def fireDue (since : ℤ) (downtime : Bool) (w : World) (job : JobDef) : World :=
  match env.calendar job.scheduleText job.timezoneName with
  | none => w
  | some next =>
    let since := max since job.activeFrom
    if !downtime then
      (fireTimes next view.now 16 16 since).1.foldl
        (fun w time => startScheduled env view job time w) w
    else
      match fireTimes next view.now 1 missedCountLimit since with
      | ([],_) => w
      | (first::_,count) => fireLate env view job next first count w

def answeredRun (call : Call) (result : Except RunnerFailure Value) (w : World) : CronRun × Bool :=
  -- the runner's id may have been learned while the attempt was in flight
  let known := ((w.state.chains.get? call.chainId).map fun chain => chain.run.runnerRunId).getD []
  let named := { call.run with
    runnerRunId := if call.run.runnerRunId = [] then known else call.run.runnerRunId }
  let (ended,retryable) := applyResult named result
  let retry := retryable && (w.state.jobs.get? call.job.cronId).isSome
    && decide (ended.attempt ≤ call.job.retries)
  ({ ended with
    finishedAt := some view.now
    nextRetryAt := if retry then some (view.now + backoff ended.attempt)
      else ended.nextRetryAt },retry)

def finish (call : Call) (result : Except RunnerFailure Value) (w : World) : World :=
  let (run,retry) := answeredRun view call result w
  match record env view.now run w with
  | (w,false) => w.holds call.chainId
  | (w,true) =>
    fillSlots env view <|
      if retry then
        w.stops.updateChain env call.chainId fun chain =>
          { chain with retryAt := some (view.now + backoff run.attempt), run := run }
      else endChain call.job.cronId call.chainId w.stops

def retryRun (id : Str) (job : JobDef) (previous : CronRun) : CronRun :=
  { newRun id job.cronId (previous.attempt + 1) .retry .pending job.plan.planId with
    scheduledFor := previous.scheduledFor }

def retryOne (w : World) (entry : Str × Chain) : World :=
  if (w.state.jobs.get? entry.2.cronId).any JobDef.enabled then
    match originalJob view.admitted w.ops entry.2.run with
    | none => w.lookedUp entry.2.run
    | some job =>
      let run := retryRun (fresh env w) job entry.2.run
      match record env view.now run (w.issue job.cronId .attempt) with
      | (w,false) => w
      | (w,true) =>
        let w := w.updateChain env entry.1 fun chain =>
          { chain with retryAt := none, waiting := true, run := run }
        (record env view.now run (w.pushSlot entry.1)).1
  else w.dropChain entry.1

def retriesDue (w : World) : World :=
  let due := w.state.chains.entries.filter fun entry =>
    entry.2.retryAt.any fun time => decide (time ≤ view.now)
  fillSlots env view (due.foldl (retryOne env view) w)

def manualSlot (planId : Str) : Str := str "manual:" ++ planId

def manualRun (id : Str) (action : AdmittedAction) : CronRun :=
  { newRun id action.params["cron_id"]!.text 1 .manual .pending action.planId with
    startedAt := timestamp action.admittedAt
    operationId := action.operationId }

def ofAction (row : Value) : Bool :=
  row["plan_id"]! == .string action.planId
    && row["plan_digest_hex"]! == .string action.planDigestHex
    && row["action_index"]!.asU64 == some action.actionIndex

def manualStarted : Bool :=
  view.log.any fun log => log.runLines.any fun row =>
    ofAction action row && row["scheduled_for"]!.isNull

def manualResult : Option Value :=
  view.log.bind fun log => log.results.reverse.find? (ofAction action)

def openManual (run : CronRun) (cronId : Str) (w : World) : World :=
  if (w.state.chains.get? run.id).isSome then w
  else w.runs.setChain env run.id ⟨cronId,run,none,false⟩

def endedManual (run : CronRun) : CronRun :=
  let status : RunStatus :=
    match action.outcome with
    | some .succeeded => .succeeded
    | some .cancelled => .cancelled
    | _ => .failed
  let run := { run with status := status }
  let run := if action.outcome = some .cancelled then run
    else match manualResult view action with
      | none => run
      | some line => (applyResult run (.ok line)).1
  { run with finishedAt := some (((action.finishedAt.bind timestamp)).getD view.now) }

def World.giveBack (w : World) (id : Str) : World :=
  if (w.state.chains.get? id).isSome then (w.dropChain id).stops else w

def closeManual (cronId id : Str) (w : World) : World :=
  let w := w.giveBack id
  if (w.state.jobs.get? cronId).isSome then endChain cronId id w else w

/-- The run of an admitted `cron.run`, opened or ended as its action is. -/
def settleManual (cronId : Str) (run : CronRun) (w : World) : World :=
  let slot := manualSlot action.planId
  if action.outcome.isNone then
    if run.status = .pending then
      let run := begun view.now run
      match save env view.now run slot w with
      | (w,false) => w
      | (w,true) => openManual env run cronId w
    else openManual env run cronId w
  else
    let run := endedManual view action run
    match save env view.now run slot w with
    | (w,false) => w
    | (w,true) => closeManual cronId run.id w

abbrev Unfinished := List ((Str × Str) × Row CronRun)

def existingManual (cronId slot : Str) (recorded : Option (Row CronRun)) (w : World) :
    World × Option (Row CronRun) :=
  match recorded with
  | some row => (w,some row)
  | none =>
    let (w,rows) := list env (fun row => row.subject == cronId) 50 w
    (w,rows.find? fun row => row.slot == slot)

def settleExisting (cronId : Str) (existing : Option (Row CronRun)) (w : World) : World :=
  match existing with
  | some row =>
    if row.body.status.isFinal then w else settleManual env view action cronId row.body w
  | none =>
    if action.outcome.isNone && !manualStarted view action then w
    else
      settleManual env view action cronId (manualRun (fresh env w) action)
        (w.issue cronId (.manual action.planId))

def settleAction (acc : World × Unfinished) (action : AdmittedAction) : World × Unfinished :=
  let cronId := action.params["cron_id"]!.text
  let slot := manualSlot action.planId
  let recorded := acc.2.lookup (cronId,slot)
  let rest := acc.2.filter fun entry => entry.1 != (cronId,slot)
  -- the age only bounds creating history for admissions without a record
  let recent := (timestamp action.admittedAt).any fun time => decide (view.now - 7200 ≤ time)
  if recorded.isNone && !recent then (acc.1,rest)
  else
    let (w,existing) := existingManual env cronId slot recorded acc.1
    (settleExisting env view action cronId existing w,rest)

def reconcileManual : World :=
  let (w,rows) := openRuns env w
  let unfinished := ((rows.filter fun row => row.body.trigger == .manual).map fun row =>
    ((row.subject,row.slot),row)).reverse
  fillSlots env view ((view.admitted ["cron.run"]).foldl (settleAction env view) (w,unfinished)).1

def committedRun (store : Store CronRun) (run : CronRun) : CronRun :=
  match store.records.find? fun row =>
      row.kind == .cronRun && row.subject == run.cronId && row.slot == manualSlot run.planId with
  | none => run
  | some row =>
    let recorded := row.body
    let recorded := if recorded.operationId = [] then
      { recorded with operationId := run.operationId } else recorded
    if recorded.status = .pending then
      { recorded with status := run.status, startedAt := run.startedAt } else recorded

def removeReservation (planId : Str) (store : Store CronRun) : Store CronRun :=
  { store with manualReservations := store.manualReservations.filter fun r => r.planId != planId }

def commitManualRun (run : CronRun) (w : World) : Option (World × CronRun) :=
  let recorded := committedRun w.ops run
  match writeRecord env.len w.ops .cronRun recorded.id recorded.cronId (manualSlot run.planId)
      recorded.status.code (recorded.startedAt.getD 0) recorded with
  | .error _ => none
  | .ok ops => some ({ w with ops := removeReservation run.planId ops },recorded)

def World.unreserve (planId : Str) : World :=
  { w with state := { w.state with
    manualReservations := w.state.manualReservations.erase planId } }

def World.unsubmit (planId : Str) : World :=
  { w with state := { w.state with
    manualSubmitting := w.state.manualSubmitting.filter (· != planId) } }

def recordManual (cronId planId operationId : Str) (w : World) : World × Bool :=
  match w.state.manualReservations.get? planId with
  | some reservation =>
    if reservation.cronId ≠ cronId then (w,false)
    else commit reservation.runId w
  | none => commit (fresh env w) (w.issue cronId (.manual planId))
where
  commit (id : Str) (w : World) : World × Bool :=
    let run := { newRun id cronId 1 .manual .running planId with
      startedAt := some view.now
      operationId := operationId }
    match commitManualRun env run w with
    | none => (w.failed,false)
    | some (w,recorded) =>
      let w := (w.unreserve planId).unsubmit planId
      if recorded.status.isFinal then (w,true) else (openManual env recorded cronId w,true)

def World.remember (reservation : ManualCronReservation) : World :=
  if (w.state.manualReservations.get? reservation.planId).isSome then w
  else
    { w with state := { w.state with
      manualReservations :=
        w.state.manualReservations.insert env.order reservation.planId reservation } }

def World.dropReservation (planId : Str) : World :=
  World.unreserve { w with ops := removeReservation planId w.ops } planId

/-- One stored reservation: admitted it becomes a run, expired it is dropped. The answer
is whether the next one follows. -/
def refreshOne (reservation : ManualCronReservation) (w : World) : World × Bool :=
  let w := w.remember env reservation
  match view.admission reservation.planId with
  | some admission =>
    if admission.planDigestHex = reservation.digestHex then
      recordManual env view reservation.cronId reservation.planId admission.operationId w
    else (w,true)
  | none =>
    if reservation.expiresAt < view.now ∧ reservation.planId ∉ w.state.manualSubmitting then
      (w.dropReservation reservation.planId,true)
    else (w,true)

def refreshAll : List ManualCronReservation → World → World × Bool
  | [], w => (w,true)
  | reservation::rest, w =>
    match refreshOne env view reservation w with
    | (w,true) => refreshAll rest w
    | (w,false) => (w,false)

def storedReservations (store : Store CronRun) : List ManualCronReservation :=
  (store.manualReservations.insertionSort fun a b => a.planId ≤ b.planId).take 256

def refreshManualReservations : World × Bool :=
  refreshAll env view (storedReservations w.ops) w

def reconciliationText : Str := str "Execution outcome requires reconciliation after restart"

def recoverEnded (slot : Str) (run : CronRun) (w : World) : World :=
  match save env view.now run slot w with
  | (w,false) => w
  | (w,true) =>
    let w := if w.state.recovering.contains run.id then (w.unholds run.id).stops else w
    w.dropChain run.id

def recoverHeld (slot : Str) (run : CronRun) (w : World) : World :=
  match save env view.now run slot w with
  | (w,false) => w
  | (w,true) =>
    let w := if w.state.recovering.contains run.id then w else (w.holds run.id).runs
    w.setChain env run.id ⟨run.cronId,run,none,false⟩

/-- A run without an end that no chain of its id stands for: it ends as the log says, or it
is held as a chain whose outcome is unknown. -/
def recoverRow (row : Row CronRun) : World :=
  let run := row.body
  if run.trigger = .manual then w
  else if (w.state.chains.get? run.id).isSome && !w.state.recovering.contains run.id then w
  else
    let id := loggedId view w run
    let w := if view.log.isSome then w.lookedUp run else w
    let run := { run with runnerRunId := id.getD run.runnerRunId }
    match id.bind (loggedResult view) with
    | some answer =>
      recoverEnded env view row.slot
        { (applyResult run (.ok answer)).1 with finishedAt := some view.now } w
    | none => recoverHeld env view row.slot { run with error := reconciliationText } w

def recover : World :=
  let (w,rows) := openRuns env (refreshManualReservations env view w).1
  rows.foldl (recoverRow env view) w

def reload : World :=
  { w with state := { w.state with jobs := loadJobs (view.admitted cronKinds) } }

def noteRunnerId (entry : Str × CronRun) : World :=
  match loggedId view w entry.2 with
  | none => w.lookedUp entry.2
  | some id =>
    let run := { entry.2 with runnerRunId := id }
    let w := w.updateChain env entry.1 fun chain => { chain with run := run }
    let slot := if run.trigger = .manual then manualSlot run.planId else slotOf run
    (save env view.now run slot w).1

def noteRunnerIds : World :=
  let missing := w.state.chains.entries.filter fun entry =>
    entry.2.run.status == .running && entry.2.run.runnerRunId == [] && entry.2.run.planId != []
  if view.log.isNone then w
  else (missing.map fun entry => (entry.1,entry.2.run)).foldl (noteRunnerId env view) w

def checkpointOf : Option ℤ :=
  match tryMeta w.ops Checkpoint.cron.key with
  | none => some view.now
  | some value => parseI64 value

def fireJobs (checkpoint : ℤ) (w : World) : World :=
  ((w.state.jobs.entries.map Prod.snd).filter JobDef.enabled).foldl
    (fireDue env view (min checkpoint view.now)
      (decide (downtimeSeconds < view.now - checkpoint))) w

def firePass (before : ℕ) (checkpoint : ℤ) (w : World) : World :=
  let w := reconcileManual env view (retriesDue env view (fireJobs env view checkpoint w))
  let w := noteRunnerIds env view w
  if w.failures ≠ before then w
  else { w with ops := trySetMeta w.ops Checkpoint.cron.key (decimalInt view.now) }

def tick : World :=
  let before := w.failures
  let w := recover env view (reload view w)
  if w.failures ≠ before then w
  else
    match checkpointOf view w with
    | none => w
    | some checkpoint =>
      let w := reconcileManual env view w
      if w.failures ≠ before then w else firePass env view before checkpoint w

def limitOf (job : JobDef) : ℕ := if job.overlap = .allow then maxAllowedChains else 1

/-- A manual run that passes the limits is recorded. Its own chain or reservation is not
counted against it. -/
def admitManual (cronId : Str) (admission : AdmissionRecord) (job : JobDef) (w : World) :
    World × Bool :=
  let own := w.state.chains.entries.countP fun entry =>
    entry.2.cronId == cronId && entry.2.run.planId == admission.planId
  let reserved := if (w.state.manualReservations.get? admission.planId).any
    (fun r => r.cronId == cronId) then 1 else 0
  if limitOf job ≤ activeChains w.state cronId - (own + reserved) then (w,false)
  else if maxRunning ≤
      w.state.running + w.state.manualReservations.entries.length - (own + reserved) then (w,false)
  else recordManual env view cronId admission.planId admission.operationId w

def beginAdmittedManual (cronId : Str) (admission : AdmissionRecord) (w : World) : World × Bool :=
  match refreshManualReservations env view (reload view w) with
  | (w,false) => (w,false)
  | (w,true) =>
    let w := reconcileManual env view w
    match w.state.jobs.get? cronId with
    | none => (w,false)
    | some job => admitManual env view cronId admission job w

def World.submit (planId : Str) : World :=
  { w with state := { w.state with manualSubmitting := planId :: w.state.manualSubmitting } }

def storeReservation (reservation : ManualCronReservation) (w : World) : World × Bool :=
  if w.ops.manualReservations.any fun r => r.planId == reservation.planId then (w.failed,false)
  else
    let ops := { w.ops with manualReservations := w.ops.manualReservations ++ [reservation] }
    let state := { w.state with
      manualReservations :=
        w.state.manualReservations.insert env.order reservation.planId reservation }
    ({ w with ops := ops, state := state }.submit reservation.planId,true)

def reserveNew (cronId planId digestHex : Str) (expiresAt : ℤ) (w : World) : World × Bool :=
  match w.state.jobs.get? cronId with
  | none => (w,false)
  | some job =>
    if limitOf job ≤ activeChains w.state cronId then (w,false)
    else if maxRunning ≤ w.state.running + w.state.manualReservations.entries.length then (w,false)
    else
      storeReservation env ⟨planId,cronId,digestHex,expiresAt,fresh env w⟩
        (w.issue cronId (.manual planId))

def reserveManual (cronId planId digestHex : Str) (expiresAt : ℤ) (w : World) : World × Bool :=
  match refreshManualReservations env view (reload view w) with
  | (w,false) => (w,false)
  | (w,true) =>
    if planId ∈ w.state.manualSubmitting then (w,false)
    else
      match w.state.manualReservations.get? planId with
      | some existing =>
        if existing.cronId ≠ cronId ∨ existing.digestHex ≠ digestHex
            ∨ existing.expiresAt ≠ expiresAt then (w,false)
        else (w.submit planId,true)
      | none => reserveNew env cronId planId digestHex expiresAt w

def releaseUnadmittedManual (planId : Str) (w : World) : World :=
  let w := w.unsubmit planId
  if (view.admission planId).isNone then w.dropReservation planId else w

def recordSkippedManual (cronId reason : Str) (w : World) : World :=
  let run := { newRun (fresh env w) cronId 1 .manual .skippedOverlap [] with
    startedAt := some view.now
    finishedAt := some view.now
    error := reason }
  (save env view.now run [] (w.issue cronId .skipped)).1

inductive Op where
  | tick (view : View)
  | finish (view : View) (index : ℕ) (result : Except RunnerFailure Value)
  | jobs (view : View)
  | beginAdmittedManual (view : View) (cronId : Str) (admission : AdmissionRecord)
  | finishAdmittedManual (view : View)
  | reserveManual (view : View) (cronId planId digestHex : Str) (expiresAt : ℤ)
  | releaseUnadmittedManual (view : View) (planId : Str)
  | recordManual (view : View) (cronId planId operationId : Str)
  | recordSkippedManual (view : View) (cronId reason : Str)
  | prune (now : Int64)

variable (strftime : Str → Option ℤ)

def step (w : World) : Op → World
  | .tick view => tick env view w
  | .finish view index result =>
    match w.calls[index]? with
    | none => w
    | some call => finish env view call result { w with calls := w.calls.eraseIdx index }
  | .jobs view => reload view w
  | .beginAdmittedManual view cronId admission =>
    (beginAdmittedManual env view cronId admission w).1
  | .finishAdmittedManual view => reconcileManual env view w
  | .reserveManual view cronId planId digestHex expiresAt =>
    (reserveManual env view cronId planId digestHex expiresAt w).1
  | .releaseUnadmittedManual view planId => releaseUnadmittedManual view planId w
  | .recordManual view cronId planId operationId =>
    (recordManual env view cronId planId operationId w).1
  | .recordSkippedManual view cronId reason => recordSkippedManual env view cronId reason w
  | .prune now =>
    match tryPrune strftime w.ops now with
    | .error _ => w.failed
    | .ok ops => { w with ops := ops }

def after (ops : List Op) : World := StepRuns.run (step env strftime) start ops

end Permanu.CronScheduler
