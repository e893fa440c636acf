import PermanuAgent.AdmissionStore

/-!
# Definitions read from the admitted actions

The scope of a service or a cron job, the backup policies of a resource, the
protection of an environment and the current cron jobs are all read from the
stored envelopes of admitted plans and the outcomes of their actions, never
from a request.
-/

set_option autoImplicit false

namespace Permanu.AdmissionDefinitions
open ByteText JsonValue PlanJcs PlanActions PlanVerify
open ResultSteps TableRows AdmissionStore

structure AdmittedAction where
  planId : Str
  planDigestHex : Str
  actionIndex : ℕ
  admissionSeq : ℕ
  admittedAt : Str
  operationId : Str
  kind : Str
  params : Value
  scope : SignedScope
  outcome : Option Outcome
  finishedAt : Option Str
  deriving DecidableEq, Repr

def AdmittedAction.succeeded (a : AdmittedAction) : Bool := a.outcome == some .succeeded

def AdmittedAction.void (a : AdmittedAction) : Bool := a.outcome.isSome && !a.succeeded

/-- Newest admission first and, within one plan, the last action first. -/
def newerFirst (a b : AdmissionRow × ActionRow) : Prop :=
  b.1.admissionSeq < a.1.admissionSeq ∨
    b.1.admissionSeq = a.1.admissionSeq ∧ b.2.actionIndex ≤ a.2.actionIndex

instance : DecidableRel newerFirst := fun _ _ => inferInstanceAs (Decidable (_ ∨ _ ∧ _))

def readAction (row : AdmissionRow × ActionRow) : Option AdmittedAction :=
  match parseStrict row.1.signedPlanJson maxSignedPlanBytes with
  | none => none
  | some envelope =>
    let action := ((envelope["plan"]!)["actions"]!)[row.2.actionIndex]!
    if action["kind"]! = .string row.2.kind then
      some ⟨row.1.planId,row.1.planDigestHex,row.2.actionIndex,row.1.admissionSeq,
        row.1.admittedAt,row.1.operationId,row.2.kind,action["params"]!,row.1.signedScope,
        row.2.outcome,row.2.finishedAt⟩
    else none

section
variable (store : Store)

def joinedActions (kinds : List String) : List (AdmissionRow × ActionRow) :=
  (store.actions.filter fun x => kindIn kinds x.kind).filterMap fun x =>
    (store.admission x.planId).map (·, x)

def admittedActions (kinds : List String) : List AdmittedAction :=
  ((joinedActions store kinds).insertionSort newerFirst).filterMap readAction

/-- The definitions of one object, newest first, down to the newest applied one, without
those that ended without effect. -/
def currentAndPending : List AdmittedAction → List AdmittedAction
  | [] => []
  | action::rest =>
    if action.void then currentAndPending rest
    else if action.succeeded then [action]
    else action :: currentAndPending rest

def serviceScope (serviceId : Str) : Option SignedScope :=
  let admissions := (store.specs.filter fun s => s.serviceId == serviceId).filterMap
    fun s => store.admission s.admittedPlanId
  ((admissions.insertionSort fun a b => b.admissionSeq ≤ a.admissionSeq).head?).map
    AdmissionRow.signedScope

def cronScope (cronId : Str) : Option SignedScope :=
  ((admittedActions store ["cron.create"]).reverse.find?
    fun action => action.params["cron_id"]! == .string cronId).map AdmittedAction.scope

def backupPolicies (resourceId : Str) : List Value :=
  let history := (admittedActions store ["backup.policy.set", "backup.policy.delete"]).filter
    fun action => action.params["resource_id"]! == .string resourceId
  ((currentAndPending history).filter fun action => action.kind == str "backup.policy.set").map
    AdmittedAction.params

def environmentProtected (projectId environment : Str) : Bool :=
  let history := (admittedActions store ["env.protection.set"]).filter
    fun action => action.scope.1 == projectId && action.scope.2.1 == environment
  (currentAndPending history).any fun action => action.params["protected"]! == .bool true

def maxCronJobs : ℕ := 256

def insertText (s : Str) (set : List Str) : List Str := if set.contains s then set else set ++ [s]
def removeText (s : Str) (set : List Str) : List Str := set.filter (· != s)

def currentCronIds : List Str :=
  ((admittedActions store ["cron.create", "cron.delete"]).reverse.filter fun a => !a.void).foldl
    (fun ids action =>
      let id := action.params["cron_id"]!.text
      if action.kind = str "cron.create" then insertText id ids else removeText id ids) []

def hasSpec (id : Value) : Bool := (serviceScope store id.text).isSome

def policyDestinations : List (Str × Value) :=
  ((admittedActions store ["backup.policy.set", "backup.policy.delete"]).reverse.filter
    fun a => !a.void).foldl
    (fun policies policy =>
      let resource := policy.params["resource_id"]!.text
      if policy.kind = str "backup.policy.set" then
        upsert Prod.fst (resource, policy.params["destination_ref"]!) policies
      else policies.filter fun entry => entry.1 != resource) []

def destinationInUse (reference : Value) : Bool :=
  (policyDestinations store).any fun entry => entry.2 == reference

structure CronState where
  jobs : List Str
  manualJobs : List Str
  deriving DecidableEq, Repr

def backupNameKinds : List String :=
  ["backup.run", "backup.verify", "backup.delete", "backup.policy.set", "backup.policy.delete"]

def restoreOk (before : List Value) (params : Value) : Bool :=
  let target := params["resource_id"]!
  let deployedHere := before.any fun a =>
    a["kind"]!.is "deploy" && (a["params"]!)["service_id"]! == target
  let source := (params.get? (str "source_resource_id")).getD target
  (deployedHere || hasSpec store target) && hasSpec store source

def definitionStep (before : List Value) (s : CronState) (action : Value) : Policy CronState :=
  let params := action["params"]!
  let cronId := params["cron_id"]!.text
  let kind := action["kind"]!.text
  if kind = str "cron.create" then do
    ensure (hasSpec store params["service_id"]! && !s.jobs.contains cronId
      && s.jobs.length < maxCronJobs) .execPrecondition
    return { s with jobs := insertText cronId s.jobs }
  else if kind = str "cron.update" then do
    ensure (hasSpec store params["service_id"]! && s.jobs.contains cronId) .execPrecondition
    return s
  else if kind = str "cron.delete" then do
    ensure (s.jobs.contains cronId) .execPrecondition
    return { s with jobs := removeText cronId s.jobs }
  else if kind = str "cron.run" then do
    ensure (!s.manualJobs.contains cronId && s.jobs.contains cronId) .execPrecondition
    return { s with manualJobs := insertText cronId s.manualJobs }
  else if kindIn ["cron.pause", "cron.resume"] kind then do
    ensure (s.jobs.contains cronId) .execPrecondition
    return s
  else if kind = str "restore" then do
    ensure (restoreOk store before params) .execPrecondition
    return s
  else if kindIn backupNameKinds kind then do
    ensure (hasSpec store params["resource_id"]!) .execPrecondition
    return s
  else if kind = str "backup.destination.delete" then do
    ensure (!destinationInUse store params["destination_ref"]!) .execPrecondition
    return s
  else return s

def definitionSteps : List Value → CronState → List Value → Policy Unit
  | _, _, [] => .ok ()
  | before, s, action::rest => do
    let next ← definitionStep store before s action
    definitionSteps (before ++ [action]) next rest

def definitionPreconditions (p : Value) : Policy Unit :=
  let jobs := if (kindsOf p).any (startsWith · "cron.") then currentCronIds store else []
  definitionSteps store [] ⟨jobs,[]⟩ p["actions"]!.items

end

end Permanu.AdmissionDefinitions
