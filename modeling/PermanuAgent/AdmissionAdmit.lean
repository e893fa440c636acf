import PermanuAgent.AdmissionDefinitions

/-!
# The admission of a plan

One transaction: the plan is verified against the store, the execution
preconditions are checked, and the admission is written. Any error leaves the
store as it was. What the transaction reads beside the store is part of its
input: the clock, the random bytes of the operation id and the start times of
the runner's builds.
-/

set_option autoImplicit false

namespace Permanu.AdmissionAdmit
open ByteText JsonValue PlanJcs PlanText PlanCrypto
open PlanSpec PlanActions PlanTrust PlanVerify
open ResultSteps TableRows AdmissionStore AdmissionDefinitions

structure AlertSpecs where
  /-- False only for a valid event rule of a kind that is never evaluated. -/
  eventKindEvaluated : Str → Bool
  channelIds : Str → Option (List Str)

structure AdmitInput where
  envelope : Str
  specs : List Str
  sealedSecrets : List Str
  submitter : Submitter
  now : ℤ
  random : Str
  buildStarts : List (Str × ℤ)
  deriving DecidableEq, Repr

structure Admission where
  planId : Str
  planDigestHex : Str
  operationId : Str
  admittedAt : Str
  deduplicated : Bool
  deploymentIds : List (Option Str)
  deriving DecidableEq, Repr

section
variable (store : Store)

def storedRule (ruleId : Str) : Policy (Option RuleRecord) :=
  match rowOf RuleRow.ruleId ruleId store.rules with
  | none => .ok none
  | some row => do
    let rule ← okOr (parseStrict row.rule (64 * 1024)) .internal
    return some ⟨rule,row.ruleDigestHex,row.createdByKeyId,
      row.revokedAt.isSome || row.revokedPlanId.isSome⟩

def verifiedStatus : DeliveryStatus → Bool
  | .pending | .building | .deployed | .failed => true
  | .ignored | .stale | .expired => false

def storedDelivery (deliveryId : Str) : Option DeliveryRecord :=
  (rowOf DeliveryRow.deliveryId deliveryId store.deliveries).map fun row =>
    ⟨row.bodyDigestHex,row.repo,row.ref,row.commitSha,row.commitTime,row.receivedAt,
      verifiedStatus row.status,
      (store.consumptions.filter fun used => used.deliveryId == deliveryId).map
        ConsumptionRow.ruleId,
      row.environments⟩

def specText (digest : Str) : Option Str :=
  (rowOf SpecRow.key digest store.specs).map SpecRow.specJcs

def currentSpecText (serviceId : Str) : Option Str :=
  (rowOf ServiceSpecRow.key serviceId store.serviceSpecs).bind
    fun row => specText store row.specDigestHex

def lastAdmittedSpec (serviceId : Str) : Policy (Option Value) :=
  match currentSpecText store serviceId with
  | none => .ok none
  | some text => (okOr (parseStrict text maxSpecBytes) .internal).map some

def buildOf (serviceId commitSha : Str) : Option BuildRow :=
  store.builds.find? fun b => b.serviceId == serviceId && b.commitSha == commitSha

def headOf (projectId environment : Str) : Str :=
  ((rowOf HeadRow.key (projectId, environment) store.heads).map
    HeadRow.headDigestHex).getD genesisHead

def seenBefore (nonce planId : Str) : Bool :=
  store.seen.any (fun r => r.nonce == nonce || r.planId == planId)
    || store.admissions.any fun r => r.nonce == nonce || r.planId == planId

def admissionUnder (planId digestHex : Str) : Option AdmissionRow :=
  (store.admission planId).filter fun r => r.planDigestHex == digestHex

def invocationsLastHour (now : ℤ) (ruleId : Str) : ℕ :=
  store.ruleInvocations.countP fun r =>
    r.ruleId == ruleId && ltText (formatTimestamp (now - 3600)) r.admittedAt

def txContext (trust : TrustStore) (input : AdmitInput) : PolicyContext where
  now := input.now
  trust := trust
  admissionDigest planId := .ok ((store.admission planId).map AdmissionRow.planDigestHex)
  admissionSignerKeyIds planId digestHex :=
    .ok ((admissionUnder store planId digestHex).map AdmissionRow.signerKeyIds)
  seen nonce planId := .ok (seenBefore store nonce planId)
  head projectId environment := .ok (headOf store projectId environment)
  rule := storedRule store
  ruleInvocationsLastHour ruleId := .ok (invocationsLastHour store input.now ruleId)
  delivery deliveryId := .ok (storedDelivery store deliveryId)
  lastAdmittedSpec := lastAdmittedSpec store
  buildImage serviceId commitSha :=
    .ok ((buildOf store serviceId commitSha).map BuildRow.imageDigestHex)
  buildWindow serviceId commitSha :=
    .ok (match buildOf store serviceId commitSha with
      | some build => (input.buildStarts.lookup build.buildId, timestamp build.builtAt)
      | none => (none, none))
  deployedCommit serviceId ref :=
    .ok ((rowOf DeployedRow.key (serviceId, ref) store.deployedCommits).map
      fun row => (row.commitSha, row.commitTime))
  admissionScope planId digestHex :=
    .ok ((admissionUnder store planId digestHex).map AdmissionRow.signedScope)
  serviceScope serviceId := .ok (serviceScope store serviceId)
  cronScope cronId := .ok (cronScope store cronId)
  backupPolicies resourceId := .ok (backupPolicies store resourceId)
  environmentProtected projectId environment :=
    .ok (environmentProtected store projectId environment)

end

variable (prim : Primitives) (alerts : AlertSpecs)

def maxSealedSecrets : ℕ := 64
def maxSealedSecretBytes : ℕ := 64 * 1024
def ageHeader : String := "age-encryption.org/v1\n"

def sealedDigest (action : Value) : Option Str :=
  let kind := action["kind"]!.text
  if kind = str "secret.set" then (action["params"]!)["ciphertext_digest_hex"]!.asStr
  else if kindIn ["alert.channel.create", "alert.channel.update", "backup.destination.set",
      "repo.credential.set"] kind then
    (action["params"]!)["credential_ciphertext_digest_hex"]!.asStr
  else none

def supplySealed : List (Str × Str) → List Str → Policy (List (Str × Str))
  | supplied, [] => .ok supplied
  | supplied, ciphertext::rest => do
    ensure (ciphertext.length ≤ maxSealedSecretBytes && startsWith ciphertext ageHeader)
      .execPrecondition
    let digest := hex (prim.sha256 ciphertext).val
    ensure (!(supplied.map Prod.fst).contains digest) .execPrecondition
    supplySealed (supplied ++ [(digest, ciphertext)]) rest

def checkSealed (actions : List Value) (sealedSecrets : List Str) : Policy (List (Str × Str)) := do
  ensure (sealedSecrets.length ≤ maxSealedSecrets) .execPrecondition
  let supplied ← supplySealed prim [] sealedSecrets
  ensure (sameSet (supplied.map Prod.fst) (actions.filterMap sealedDigest)) .execPrecondition
  return supplied

def inputKinds : List String :=
  ["env.set", "secret.set", "secret.unset", "domain.add", "domain.remove", "domain.switch"]

section
variable (store : Store)

def currentSpecs (scope : Str × Str) : List (Str × Str) :=
  store.serviceSpecs.filterMap fun row => do
    let text ← specText store row.specDigestHex
    let admission ← store.admission row.planId
    if admission.scope = scope then some (row.serviceId, text) else none

def parseSpecTexts : List (Str × Str) → Policy (List (Str × Value))
  | [] => .ok []
  | (service, text)::rest => do
    let v ← okOr (parseStrict text maxSpecBytes) .internal
    let parsed ← parseSpecTexts rest
    return (service, v) :: parsed

def overrideSpec (known : List (Str × Value)) (entry : Str × Value × Str) : List (Str × Value) :=
  match entry.2.1["service_id"]!.asStr with
  | some service => upsert Prod.fst (service, entry.2.1) known
  | none => known

def byDigest (specs : Specs) : Specs := specs.insertionSort fun a b => leText a.1 b.1

def overrideSpecs (specs : List (Str × Value)) (planSpecs : Specs) : List (Str × Value) :=
  (byDigest planSpecs).foldl overrideSpec specs

def bindsSecret (name : Str) (v : Value) : Bool :=
  v["env"]!.asObject.any fun members =>
    members.any fun m => m.2["kind"]!.is "secret" && m.2["ref"]! == .string name

def affectedServices (specs : List (Str × Value)) (params : Value) : List Str :=
  match params["service_id"]!.asStr with
  | some service => [service]
  | none => (specs.filter fun entry => bindsSecret params["name"]!.text entry.2).map Prod.fst

def composedBy (later : List Value) (service : Str) : Bool :=
  later.any fun a => a["kind"]!.asStr.any (kindIn ["deploy", "restart"])
    && (a["params"]!)["service_id"]! == .string service

def checkInputs (specs : List (Str × Value)) : List Value → Policy Unit
  | [] => .ok ()
  | action::later =>
    if kindIn inputKinds action["kind"]!.text then do
      ensure ((affectedServices specs action["params"]!).all (composedBy later)) .execPrecondition
      checkInputs specs later
    else checkInputs specs later

def checkInputComposition (v : VerifiedPlan) : Policy Unit :=
  let actions := v.plan["actions"]!.items
  if actions.any fun a => kindIn inputKinds a["kind"]!.text then do
    let specs ← parseSpecTexts (currentSpecs store (planScope v.plan))
    checkInputs (overrideSpecs specs v.specs) actions
  else .ok ()

def channelKinds : List String :=
  ["alert.channel.create", "alert.channel.update", "alert.channel.delete"]

def alertRuleKinds : List String := ["alert.rule.create", "alert.rule.update"]

def holdChannel (held : List Str) (kind channel : Str) : List Str :=
  if kind = str "alert.channel.delete" then removeText channel held else insertText channel held

def checkChannels (held : List Str) : List Value → Policy Unit
  | [] => .ok ()
  | action::rest =>
    let kind := action["kind"]!.text
    let params := action["params"]!
    if kindIn channelKinds kind then
      checkChannels (holdChannel held kind params["channel_id"]!.text) rest
    else if kindIn alertRuleKinds kind then do
      let channels ← okOr (alerts.channelIds params["spec"]!.text) .execPrecondition
      ensure (channels.all held.contains) .channelMissing
      checkChannels held rest
    else checkChannels held rest

def checkChannelsHeld (actions : List Value) : Policy Unit :=
  if actions.any fun a => kindIn alertRuleKinds a["kind"]!.text then
    let held := ((admittedActions store channelKinds).reverse.filter fun a => !a.void).foldl
      (fun held a => holdChannel held a.kind a.params["channel_id"]!.text) []
    checkChannels alerts held actions
  else .ok ()

def checkCancel (params : Value) : Policy Unit :=
  ensure ((store.admission params["plan_id"]!.text).any fun r =>
    params["plan_digest_hex"]! == .string r.planDigestHex) .execPrecondition

def changeTrust (trust : TrustStore) (change : TrustChange) : Policy TrustStore :=
  match applyChange prim (some trust) change trust.mode with
  | .error _ => .error .execPrecondition
  | .ok document =>
    match validateTrust prim document trust.mode with
    | .error _ => .error .execPrecondition
    | .ok changed => .ok changed

def preconditionStep (trust : TrustStore) (action : Value) : Policy TrustStore :=
  let params := action["params"]!
  let kind := action["kind"]!.text
  if kind = str "key.add" then changeTrust prim trust (.addKey params["entry"]!)
  else if kind = str "key.revoke" then changeTrust prim trust (.revoke params["revocation"]!)
  else if kind = str "rule.revoke" then do
    let found ← storedRule store params["rule_id"]!.text
    let rule ← okOr found .execPrecondition
    ensure (!rule.revoked && params["rule_digest_hex"]! == .string rule.ruleDigestHex)
      .execPrecondition
    return trust
  else if kind = str "rule.create" then do
    let found ← storedRule store (params["rule"]!)["id"]!.text
    ensure found.isNone .execPrecondition
    return trust
  else if kind = str "operation.cancel" then do
    checkCancel store params
    return trust
  else if kindIn alertRuleKinds kind then do
    ensure (alerts.eventKindEvaluated params["spec"]!.text) .execPrecondition
    return trust
  else if kind = str "deploy" then do
    ensure (!store.actions.any fun x =>
      params["deployment_id"]!.asStr.isSome && x.deploymentId == params["deployment_id"]!.asStr)
      .execPrecondition
    return trust
  else if kind = str "restart" then do
    ensure ((rowOf ServiceSpecRow.key params["service_id"]!.text store.serviceSpecs).map
      ServiceSpecRow.specDigestHex == params["spec_digest_hex"]!.asStr) .execPrecondition
    return trust
  else return trust

def preconditionSteps : TrustStore → List Value → Policy Unit
  | _, [] => .ok ()
  | trust, action::rest => do
    let changed ← preconditionStep prim alerts store trust action
    preconditionSteps changed rest

def executionPreconditions (trust : TrustStore) (v : VerifiedPlan)
    (sealedSecrets : List Str) : Policy (List (Str × Str)) := do
  let actions := v.plan["actions"]!.items
  let supplied ← checkSealed prim actions sealedSecrets
  checkInputComposition store v
  checkChannelsHeld alerts store actions
  definitionPreconditions store v.plan
  preconditionSteps prim alerts store trust actions
  return supplied

end

end Permanu.AdmissionAdmit
