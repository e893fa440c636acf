import PermanuAgent.OpsStore
import PermanuAgent.OrderedMap

/-!
# Cron jobs and their runs

A cron job is read from the recorded actions that create, change, pause, resume and
delete it. Each attempt of a job is one run in the schedulers' store, bound to the
action that defined the job when it was dispatched. The definition of an attempt is
found again through that binding.
-/

set_option autoImplicit false

namespace Permanu.CronJobs
open ByteText JsonValue PlanText PlanVerify PlanActions
open AdmissionDefinitions ScheduleBinding OpsStore
open RunnerRequests (PlanRef RunnerFailure)

inductive Overlap where
  | skip
  | queue
  | allow
  deriving DecidableEq, Repr

def Overlap.parse (text : Str) : Overlap :=
  if text = str "queue" then .queue else if text = str "allow" then .allow else .skip

structure JobDef where
  cronId : Str
  scope : SignedScope
  scheduleText : Str
  timezoneName : Str
  retries : ℕ
  overlap : Overlap
  plan : PlanRef
  enabled : Bool
  activeFrom : ℤ
  deriving DecidableEq, Repr

def appliedAt (action : AdmittedAction) : ℤ :=
  ((action.finishedAt.bind timestamp).or (timestamp action.admittedAt)).getD 0

def maxU32 : ℕ := 4294967295

def planRef (action : AdmittedAction) : PlanRef :=
  ⟨action.planId,action.planDigestHex,min action.actionIndex maxU32⟩

def numberParam (params : Value) (name : String) : ℕ :=
  ((params[name]!.asU64).filter fun n => n ≤ maxU32).getD 0

abbrev Jobs := OrderedMap Str JobDef

def definedJob (cronId : Str) (action : AdmittedAction) (previous : Option JobDef) : JobDef where
  cronId := cronId
  scope := action.scope
  scheduleText := action.params["schedule"]!.text
  timezoneName := action.params["timezone"]!.text
  retries := numberParam action.params "retries"
  overlap := Overlap.parse action.params["overlap"]!.text
  plan := planRef action
  enabled := previous.all JobDef.enabled
  activeFrom := appliedAt action

def applyAction (jobs : Jobs) (action : AdmittedAction) : Jobs :=
  match action.params["cron_id"]!.asStr with
  | none => jobs
  | some cronId =>
    if kindIn ["cron.create", "cron.update"] action.kind then
      if (jobs.get? cronId).any fun job => job.scope != action.scope then jobs
      else jobs.insert ltText cronId (definedJob cronId action (jobs.get? cronId))
    else if action.kind = str "cron.delete" then jobs.erase cronId
    else if action.kind = str "cron.pause" then
      jobs.mapValues fun id job => if id = cronId then { job with enabled := false } else job
    else if action.kind = str "cron.resume" then
      jobs.mapValues fun id job =>
        if id = cronId then
          { job with enabled := true, activeFrom := max job.activeFrom (appliedAt action) }
        else job
    else jobs

def loadJobs (actions : List AdmittedAction) : Jobs :=
  (actions.reverse.filter AdmittedAction.succeeded).foldl applyAction OrderedMap.empty

def backoff (attempt : ℕ) : ℤ := min (10 * 2^(min (attempt-1) 10)) 600

inductive RunStatus where
  | pending
  | running
  | succeeded
  | failed
  | timedOut
  | skippedOverlap
  | cancelled
  | missed
  deriving DecidableEq, Repr

def RunStatus.code : RunStatus → ℤ
  | .pending => 1
  | .running => 2
  | .succeeded => 3
  | .failed => 4
  | .timedOut => 5
  | .skippedOverlap => 6
  | .cancelled => 7
  | .missed => 8

def RunStatus.isFinal : RunStatus → Bool
  | .pending | .running => false
  | _ => true

inductive Trigger where
  | schedule
  | manual
  | retry
  deriving DecidableEq, Repr

structure CronRun where
  id : Str
  cronId : Str
  attempt : ℕ
  trigger : Trigger
  status : RunStatus
  scheduledFor : Option ℤ
  startedAt : Option ℤ
  finishedAt : Option ℤ
  exitCode : ℤ
  error : Str
  outputBytes : ℕ
  operationId : Str
  missedCount : ℕ
  nextRetryAt : Option ℤ
  containerName : Str
  planId : Str
  runnerRunId : Str
  deriving DecidableEq, Repr

def newRun (id cronId : Str) (attempt : ℕ) (trigger : Trigger) (status : RunStatus) (planId : Str) :
    CronRun :=
  ⟨id,cronId,attempt,trigger,status,none,none,none,0,[],0,[],0,none,[],planId,[]⟩

def runnerRunIdOf (row : Value) : Option Str := row["run_id"]!.asStr.filter uuid7

def inI32 (n : ℤ) : Option ℤ := if -2147483648 ≤ n ∧ n ≤ 2147483647 then some n else none

def outcomeStatus (outcome : Str) : RunStatus × Bool :=
  if outcome = str "succeeded" then (.succeeded,false)
  else if outcome = str "failed" then (.failed,true)
  else if outcome = str "timeout" then (.timedOut,true)
  else if outcome = str "cancelled" then (.cancelled,false)
  else if outcome = str "skipped" then (.skippedOverlap,false)
  else (.failed,false)

def maxNameChars : ℕ := 128

def applyResult (run : CronRun) : Except RunnerFailure Value → CronRun × Bool
  | .ok answer =>
    let (status,retryable) := outcomeStatus (answer["outcome"]!.asStr.getD (str "succeeded"))
    ({ run with
      runnerRunId := (runnerRunIdOf answer).getD run.runnerRunId
      exitCode := (answer["exit_code"]!.asI64.bind inI32).getD 0
      outputBytes := answer["output_bytes"]!.asU64.getD 0
      containerName := (answer["container_name"]!.asStr.map fun name =>
        (((chars name).getD []).take maxNameChars).flatMap encodeChar).getD run.containerName
      status := status },retryable)
  | .error failure =>
    ({ run with
      status := .failed
      error := failure.code ++ str ": " ++ failure.message },false)

def slotOf (run : CronRun) : Str := (run.scheduledFor.map formatTimestamp).getD []

def launchSchedule (job : JobDef) (run : CronRun) : ScheduleRef := ⟨job.plan,slotOf run,run.attempt⟩

section Authority
variable (admitted : List String → List AdmittedAction) (ops : Store CronRun)

/-- The admitted action a run was dispatched under. A run without a binding names its
action by its plan, if the plan has one action for the job. -/
def runAuthority (run : CronRun) : Option PlanRef :=
  match scheduledIntent ops .cronRun run.id with
  | .error _ => none
  | .ok (some intent) => if intent.plan.planId = run.planId then some intent.plan else none
  | .ok none =>
    match (admitted ["cron.create", "cron.update", "cron.run"]).filter fun action =>
        action.planId == run.planId && action.params["cron_id"]! == .string run.cronId with
    | [action] => some (planRef action)
    | _ => none

def originalJob (run : CronRun) : Option JobDef :=
  match runAuthority admitted ops run with
  | none => none
  | some authority =>
    match (admitted ["cron.create", "cron.update"]).find? fun action =>
      planRef action = authority with
    | none => none
    | some action => (loadJobs [action]).get? run.cronId

end Authority

end Permanu.CronJobs
