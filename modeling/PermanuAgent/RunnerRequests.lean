import PermanuAgent.AdmissionPasses
import PermanuAgent.AdmissionOutcomes

/-!
# Runner requests

Admitted plans are carried out through the runner. The kind of an action says which ops the
executor sends for it, and a request names the action of a stored plan.
-/

set_option autoImplicit false

namespace Permanu.RunnerRequests
open ByteText JsonValue PlanActions AdmissionStore

inductive Exec where
  | agent
  | input
  | deploy
  | ops (names : List String)
  | definition
  | shell
  | notImplemented
  deriving DecidableEq, Repr

def definitionKinds : List String :=
  ["cron.create", "cron.update", "cron.delete", "cron.pause", "cron.resume", "backup.policy.set",
    "backup.policy.delete", "backup.destination.set", "backup.destination.delete",
    "recovery_recipient.set", "env.protection.set", "repo.credential.set",
    "repo.credential.delete", "rule.revoke"]

def execOf (kind : Str) (params : Value) : Exec :=
  if kindIn ["server.add", "rule.create", "service.elevate", "telemetry.retention.set"] kind then
    .agent
  else if kind = str "deploy" then .deploy
  else if kind = str "rollback" then .ops ["rollback_release"]
  else if kindIn ["restart", "scale"] kind then .ops ["restart_release"]
  else if kindIn ["service.delete", "environment.delete", "project.delete"] kind then
    .ops ["delete_runtime"]
  else if kind = str "operation.cancel" then .ops ["cancel_running", "cancel_execution"]
  else if kind = str "webhook.host.set" then .ops ["set_webhook_route"]
  else if kind = str "server.accounts.migrate" then .ops ["migrate_accounts"]
  else if kind = str "agent.update" then .ops ["stage_artifact_verify", "update_agent"]
  else if kind = str "component.update" &&
      params["component"]!.asStr.any (kindIn ["dwaar", "runner", "permanu-env"]) then
    .ops ["stage_artifact_verify", "install_artifact"]
  else if kindIn ["key.add", "key.revoke", "release_key.add", "release_key.revoke"] kind then
    .ops ["update_trusted_keys"]
  else if kind = str "cron.run" then .ops ["run_cron"]
  else if kind = str "backup.run" then .ops ["backup_run"]
  else if kind = str "backup.verify" then .ops ["backup_verify"]
  else if kind = str "backup.delete" then .ops ["backup_delete"]
  else if kind = str "restore" then .ops ["restore_backup"]
  else if kind = str "db.upgrade" && (params.get? (str "spec_digest_hex")).isSome then
    .ops ["upgrade_database"]
  else if kind = str "shell.open" then .shell
  else if startsWith kind "alert." then .agent
  else if kindIn definitionKinds kind then .definition
  else if kindIn AdmissionAdmit.inputKinds kind then .input
  else .notImplemented

/-- The ops of a deploy with its failure path and the retention behind it. -/
def deployOps : List String :=
  ["prepare_release", "verify_health", "activate_release", "prune_releases", "rollback_release",
    "cleanup_candidate"]

def Exec.runnerOps : Exec → List String
  | .deploy => deployOps
  | .ops names => names
  | .agent | .input | .definition | .shell | .notImplemented => []

/-- An op that the executor sends for an action of some kind. -/
structure RunnerOp where
  name : String
  sent : ∃ kind params, name ∈ (execOf kind params).runnerOps
  deriving DecidableEq, Repr

theorem not_mem_runnerOps_ite {c : Prop} [Decidable c] {name : String} {a b : Exec}
    (ha : name ∉ a.runnerOps) (hb : name ∉ b.runnerOps) :
    name ∉ (if c then a else b).runnerOps := by
  split
  · exact ha
  · exact hb

theorem shellOpen_not_sent (kind : Str) (params : Value) :
    "shell_open" ∉ (execOf kind params).runnerOps := by
  unfold execOf
  repeat' apply not_mem_runnerOps_ite
  all_goals decide

theorem RunnerOp.name_ne_shellOpen (op : RunnerOp) : op.name ≠ "shell_open" := by
  obtain ⟨kind,params,hsent⟩ := op.sent
  intro h
  rw [h] at hsent
  exact shellOpen_not_sent kind params hsent

structure PlanRef where
  planId : Str
  planDigestHex : Str
  actionIndex : ℕ
  deriving DecidableEq, Repr

inductive Request where
  | bindPlan (plan : PlanRef)
  | runOp (op : RunnerOp) (plan : PlanRef)
  deriving DecidableEq, Repr

def Request.plan : Request → PlanRef
  | .bindPlan plan => plan
  | .runOp _ plan => plan

structure RunnerFailure where
  code : Str
  message : Str
  failureCode : Option Str
  state : Option Str
  deriving DecidableEq, Repr

def transport (message : String) : RunnerFailure := ⟨str "E_INTERNAL",str message,none,none⟩

def timedOutText : String := "runner timed out"

/-- How a runner call ends: `elapsed` is the end of the time its caller gives it. -/
inductive Answer where
  | ok
  | failed (failure : RunnerFailure)
  | elapsed
  deriving DecidableEq, Repr

def Answer.result : Answer → Except RunnerFailure Unit
  | .ok => .ok ()
  | .failed failure => .error failure
  | .elapsed => .error (transport timedOutText)

def planReasons : List (String × String) :=
  [("E_PARSE", "PLAN_MALFORMED"), ("E_VERSION", "PLAN_VERSION"),
    ("E_SPEC_MISMATCH", "SPEC_MISMATCH"), ("E_TARGET", "PLAN_WRONG_SERVER"),
    ("E_AUTHOR", "PLAN_AUTHORITY"), ("E_SIG_ALG", "SIGNATURE_INVALID"),
    ("E_KEY_UNKNOWN", "KEY_UNTRUSTED"), ("E_KEY_REVOKED", "KEY_REVOKED"),
    ("E_SIG_INVALID", "SIGNATURE_INVALID"), ("E_RULE_UNKNOWN", "RULE_UNKNOWN"),
    ("E_RULE_REVOKED", "RULE_REJECTED"), ("E_LIFETIME", "PLAN_EXPIRED"),
    ("E_NOT_YET_VALID", "PLAN_NOT_YET_VALID"), ("E_EXPIRED", "PLAN_EXPIRED"),
    ("E_REPLAY", "PLAN_REPLAYED"), ("E_BASE_MISMATCH", "BASE_MISMATCH"),
    ("E_FORCE_FORBIDDEN", "FORCE_FORBIDDEN"), ("E_TOUCH_ID_REQUIRED", "TOUCH_ID_REQUIRED"),
    ("E_KIND_FORBIDDEN", "ACTION_NOT_PERMITTED"), ("E_KEY_SCOPE", "KEY_SCOPE"),
    ("E_RULE_WINDOW", "RULE_REJECTED"), ("E_RULE_SCOPE", "RULE_SCOPE"),
    ("E_RULE_LIMIT", "RULE_REJECTED"), ("E_RULE_EVIDENCE", "RULE_REJECTED"),
    ("E_RULE_SPEC", "RULE_REJECTED"), ("E_BOOTSTRAP", "BOOTSTRAP_REJECTED"),
    ("E_EXEC_PRECONDITION", "EXEC_PRECONDITION"), ("trust_store_invalid", "TRUST_STORE_INVALID"),
    ("STORE_QUARANTINED", "STORE_QUARANTINED"), ("E_INTERNAL", "INTERNAL"),
    ("E_PLAN_REQUIRED", "INTERNAL"), ("E_PLAN_NOT_ADMITTED", "PLAN_NOT_ADMITTED"),
    ("E_PLAN_WINDOW", "PLAN_WINDOW"), ("E_PLAN_ACTION", "INTERNAL"),
    ("E_PLAN_ARGS", "INTERNAL"), ("E_PLAN_CONSUMED", "PLAN_CONSUMED"),
    ("E_SCOPE_MISMATCH", "SCOPE_MISMATCH"),
    ("E_ROLLBACK_TARGET_UNKNOWN", "ROLLBACK_TARGET_UNKNOWN"),
    ("E_NOT_SUPPORTED_YET", "NOT_SUPPORTED_YET"), ("E_CANCELLED", "CANCELLED"),
    ("E_SHELL_LIMIT", "LIMIT_EXCEEDED"), ("CHANNEL_MISSING", "CHANNEL_MISSING")]

def planReason (code : Str) : Option String :=
  (planReasons.find? fun entry => code == str entry.1).map Prod.snd

def describe (failure : RunnerFailure) : Str :=
  str "ERROR_REASON_" ++ str ((planReason failure.code).getD "INTERNAL") ++ str " (" ++ failure.code
    ++ str "): " ++ failure.message

def actionsOf (store : Store) (planId : Str) : List ActionRow :=
  (store.actions.filter fun r => r.planId == planId).insertionSort
    fun a b => a.actionIndex ≤ b.actionIndex

def planRef (record : AdmissionRow) (action : ActionRow) : PlanRef :=
  ⟨record.planId,record.planDigestHex,action.actionIndex⟩

end Permanu.RunnerRequests
