import PermanuAgent.PlanVerify
import PermanuAgent.TableRows

/-!
# The tables of the admission store

One structure for each table, with the columns of the schema, and the store as
the tables together. A column that may be null is an option and an outcome that
is not set yet is none. Times are stored as text and compared as text.
-/

set_option autoImplicit false

namespace Permanu.AdmissionStore
open ByteText PlanVerify PlanText

inductive Outcome where
  | succeeded
  | failed
  | rolledBack
  | cancelled
  | expired
  deriving DecidableEq, Repr

def Outcome.text : Outcome → String
  | .succeeded => "succeeded"
  | .failed => "failed"
  | .rolledBack => "rolled_back"
  | .cancelled => "cancelled"
  | .expired => "expired"

def outcomes : List Outcome := [.succeeded, .failed, .rolledBack, .cancelled, .expired]

def outcomeOf (s : Str) : Option Outcome := outcomes.find? fun o => str o.text == s

structure Meta where
  storeCreatedAt : Str
  schemaVersion : ℕ
  quarantineEndsAt : Option Str
  deriving DecidableEq, Repr

structure SeenRow where
  nonce : Str
  planId : Str
  planDigestHex : Str
  expiresAt : Str
  deriving DecidableEq, Repr

structure AdmissionRow where
  planId : Str
  planDigestHex : Str
  signedPlanJson : Str
  submitter : Submitter
  operationId : Str
  admittedAt : Str
  finishedAt : Option Str
  outcome : Option Outcome
  admissionSeq : ℕ
  nonce : Str
  authorKind : Str
  signerKeyIds : List Str
  actionKinds : List Str
  projectId : Str
  environment : Str
  headBeforeHex : Str
  headAfterHex : Str
  ruleId : Option Str
  deliveryId : Option Str
  expiresAt : Str
  environmentId : Str
  deriving DecidableEq, Repr

structure ActionRow where
  planId : Str
  actionIndex : ℕ
  kind : Str
  consumedAt : Option Str
  finishedAt : Option Str
  outcome : Option Outcome
  consumedSeq : Option ℕ
  resultSeq : Option ℕ
  deploymentId : Option Str
  deriving DecidableEq, Repr

structure SpecRow where
  specDigestHex : Str
  serviceId : Str
  specJcs : Str
  admittedPlanId : Str
  admittedAt : Str
  elevated : Bool
  deriving DecidableEq, Repr

structure HeadRow where
  projectId : Str
  environment : Str
  headDigestHex : Str
  planId : Str
  updatedAt : Str
  deriving DecidableEq, Repr

/-- A standing rule. A plan that revokes it is noted at admission, the time of the
revocation when the runner reports it. -/
structure RuleRow where
  rule : Str
  ruleDigestHex : Str
  createdByKeyId : Str
  createdPlanId : Str
  revokedAt : Option Str
  ruleId : Str
  revokedPlanId : Option Str
  deriving DecidableEq, Repr

structure RuleInvocationRow where
  ruleId : Str
  planId : Str
  admittedAt : Str
  deriving DecidableEq, Repr

inductive DeliveryStatus where
  | pending
  | building
  | deployed
  | ignored
  | stale
  | failed
  | expired
  deriving DecidableEq, Repr

structure DeliveryRow where
  deliveryId : Str
  provider : Str
  event : Str
  bodyDigestHex : Str
  repo : Str
  ref : Str
  commitSha : Str
  commitTime : Str
  environments : List Str
  receivedAt : Str
  expiresAt : Str
  status : DeliveryStatus
  deriving DecidableEq, Repr

inductive RejectReason where
  | signature
  | malformed
  deriving DecidableEq, Repr

structure RejectedRow where
  bodyDigestHex : Str
  bodyBytes : ℕ
  projectId : Str
  provider : Str
  receivedAt : Str
  reason : RejectReason
  deriving DecidableEq, Repr

structure ConsumptionRow where
  deliveryId : Str
  ruleId : Str
  planId : Str
  consumedAt : Str
  deriving DecidableEq, Repr

structure BuildRow where
  buildId : Str
  serviceId : Str
  commitSha : Str
  imageDigestHex : Str
  deliveryId : Str
  builtAt : Str
  deriving DecidableEq, Repr

structure SealedRow where
  ciphertextDigestHex : Str
  planId : Str
  ciphertext : Str
  actionIndex : ℕ
  projectId : Str
  environment : Str
  serviceId : Str
  name : Str
  deriving DecidableEq, Repr

structure Cursor where
  lastSeq : ℕ
  logInode : Option ℕ
  logOffset : ℕ
  reconciledAt : Str
  deriving DecidableEq, Repr

structure ServiceSpecRow where
  serviceId : Str
  specDigestHex : Str
  planId : Str
  admittedAt : Str
  deriving DecidableEq, Repr

structure DeployedRow where
  serviceId : Str
  ref : Str
  commitSha : Str
  commitTime : Str
  planId : Str
  deriving DecidableEq, Repr

structure Store where
  info : Meta
  seen : List SeenRow
  admissions : List AdmissionRow
  actions : List ActionRow
  specs : List SpecRow
  heads : List HeadRow
  rules : List RuleRow
  ruleInvocations : List RuleInvocationRow
  deliveries : List DeliveryRow
  rejected : List RejectedRow
  consumptions : List ConsumptionRow
  builds : List BuildRow
  sealedSecrets : List SealedRow
  cursor : Option Cursor
  serviceSpecs : List ServiceSpecRow
  deployedCommits : List DeployedRow
  deriving DecidableEq, Repr

def schemaVersion : ℕ := 3

def createdStore (now : ℤ) (quarantineEndsAt : Option ℤ) : Store where
  info := ⟨formatTimestamp now,schemaVersion,quarantineEndsAt.map formatTimestamp⟩
  seen := []
  admissions := []
  actions := []
  specs := []
  heads := []
  rules := []
  ruleInvocations := []
  deliveries := []
  rejected := []
  consumptions := []
  builds := []
  sealedSecrets := []
  cursor := none
  serviceSpecs := []
  deployedCommits := []

def Store.quarantineEndsAt (store : Store) : Option ℤ :=
  store.info.quarantineEndsAt.bind timestamp

def SpecRow.key (r : SpecRow) : Str := r.specDigestHex
def HeadRow.key (r : HeadRow) : Str × Str := (r.projectId, r.environment)
def ServiceSpecRow.key (r : ServiceSpecRow) : Str := r.serviceId
def DeployedRow.key (r : DeployedRow) : Str × Str := (r.serviceId, r.ref)
def AdmissionRow.scope (r : AdmissionRow) : Str × Str := (r.projectId, r.environment)
def AdmissionRow.signedScope (r : AdmissionRow) : SignedScope :=
  (r.projectId, r.environment, r.environmentId)

def Store.admission (store : Store) (planId : Str) : Option AdmissionRow :=
  TableRows.rowOf AdmissionRow.planId planId store.admissions

def AdmissionRow.core (r : AdmissionRow) : AdmissionRow :=
  { r with finishedAt := none, outcome := none }

def ActionRow.core (r : ActionRow) : ActionRow :=
  { r with
    consumedAt := none
    finishedAt := none
    outcome := none
    consumedSeq := none
    resultSeq := none }

def RuleRow.core (r : RuleRow) : RuleRow := { r with revokedAt := none, revokedPlanId := none }

end Permanu.AdmissionStore
