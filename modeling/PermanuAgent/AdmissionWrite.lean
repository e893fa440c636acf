import PermanuAgent.AdmissionAdmit

/-!
# The statements of an admission

The statements of the admission transaction in their order: the reservation,
the admission and its actions, the specs, what each action makes current, the
new head of the scope, the invocation of a rule and the sealed secrets.
-/

set_option autoImplicit false

namespace Permanu.AdmissionWrite
open ByteText JsonValue PlanJcs PlanText PlanCrypto
open PlanSpec PlanActions PlanTrust PlanVerify
open ResultSteps TableRows AdmissionStore AdmissionAdmit

def newUuid7 (unixMs : ℕ) (random : Str) : Str :=
  let b := fun i => random.getD i 0
  let digits := hex (bigEndian 6 (unixMs % 2^48) ++
    [(b 6 &&& 0x0f) ||| 0x70, b 7, (b 8 &&& 0x3f) ||| 0x80] ++ (List.range 7).map (b <| 9 + ·))
  digits.take 8 ++ str "-" ++ (digits.drop 8).take 4 ++ str "-" ++ (digits.drop 12).take 4
    ++ str "-" ++ (digits.drop 16).take 4 ++ str "-" ++ digits.drop 20

variable (prim : Primitives)

def reserve (now : ℤ) (row : SeenRow) (store : Store) : Policy Store := do
  let kept := deleteWhere
    (fun r => ltText r.expiresAt (formatTimestamp (now - skewSeconds))) store.seen
  let seen ← okOr (insertNew (fun r => r.nonce == row.nonce || r.planId == row.planId) row kept)
    .replay
  return { store with seen := seen }

def nextSeq (store : Store) : ℕ := (store.admissions.map AdmissionRow.admissionSeq).foldr max 0 + 1

section
variable (v : VerifiedPlan)

def seenRow : SeenRow :=
  ⟨v.plan["nonce"]!.text,v.plan["id"]!.text,v.digestHex,v.plan["expires_at"]!.text⟩

def admissionRow (store : Store) (v : VerifiedPlan) (input : AdmitInput) : AdmissionRow :=
  let p := v.plan
  let headBefore := headOf store p["project_id"]!.text p["environment"]!.text
  { planId := p["id"]!.text
    planDigestHex := v.digestHex
    signedPlanJson := input.envelope
    submitter := input.submitter
    operationId := newUuid7 (input.now.toNat * 1000) input.random
    admittedAt := formatTimestamp input.now
    finishedAt := none
    outcome := none
    admissionSeq := nextSeq store
    nonce := p["nonce"]!.text
    authorKind := (p["author"]!)["kind"]!.text
    signerKeyIds := v.signerKeyIds
    actionKinds := kindsOf p
    projectId := p["project_id"]!.text
    environment := p["environment"]!.text
    headBeforeHex := headBefore
    headAfterHex := nextHead prim headBefore v.digestHex
    ruleId := (p["invocation"]!)["rule_id"]!.asStr
    deliveryId := ((p["invocation"]!)["evidence"]!)["delivery_id"]!.asStr
    expiresAt := p["expires_at"]!.text
    environmentId := p["environment_id"]!.text }

def authorKinds : List String := ["user", "agent-draft", "rule"]

def insertAdmission (row : AdmissionRow) (store : Store) : Policy Store := do
  ensure (kindIn authorKinds row.authorKind) .replay
  let admissions ← okOr (insertNew (fun r => r.planId == row.planId
    || r.operationId == row.operationId || r.admissionSeq == row.admissionSeq
    || r.nonce == row.nonce) row store.admissions) .replay
  return { store with admissions := admissions }

def signedDeploymentId (kind : Str) (params : Value) : Option Str :=
  if kind = str "deploy" then params["deployment_id"]!.asStr
  else if kind = str "rollback" then rollbackTarget params
  else none

def actionRows (p : Value) : List ActionRow :=
  (kindsOf p).mapIdx fun index kind =>
    { planId := p["id"]!.text
      actionIndex := index
      kind := kind
      consumedAt := none
      finishedAt := none
      outcome := none
      consumedSeq := none
      resultSeq := none
      deploymentId := signedDeploymentId kind ((p["actions"]!)[index]!)["params"]! }

def insertActions (p : Value) (store : Store) : Policy Store := do
  let actions ← okOr (insertAllNew
    (fun row r => r.planId == row.planId && r.actionIndex == row.actionIndex) (actionRows p)
    store.actions) .internal
  return { store with actions := actions }

def specRow (admittedAt : Str) (entry : Str × (Value × Str)) : SpecRow :=
  ⟨entry.1,entry.2.1["service_id"]!.text,entry.2.2,v.plan["id"]!.text,admittedAt,
    specElevated entry.2.1⟩

def insertSpecs (admittedAt : Str) (specs : List SpecRow) : List SpecRow :=
  v.specs.foldl (fun rows entry => insertIgnore SpecRow.key (specRow v admittedAt entry) rows) specs

def lastSpecKinds : List String := ["deploy", "rollback", "scale"]

def makesCurrent (action : Value) : Bool :=
  kindIn lastSpecKinds action["kind"]!.text || isUpgradeSpec action

def serviceSpecRow (p : Value) (admittedAt : Str) (action : Value) : ServiceSpecRow :=
  ⟨(pinnedService action).text,(action["params"]!)["spec_digest_hex"]!.text,p["id"]!.text,
    admittedAt⟩

def setCurrent (p : Value) (admittedAt : Str) (action : Value) (store : Store) : Policy Store :=
  if makesCurrent action then do
    let row := serviceSpecRow p admittedAt action
    -- The digest refers to a stored spec.
    ensure (rowOf SpecRow.key row.specDigestHex store.specs).isSome .internal
    return { store with serviceSpecs := upsert ServiceSpecRow.key row store.serviceSpecs }
  else return store

def deployedRow (p action : Value) : DeployedRow :=
  let evidence := (p["invocation"]!)["evidence"]!
  ⟨(action["params"]!)["service_id"]!.text,evidence["ref"]!.text,evidence["commit_sha"]!.text,
    evidence["commit_time"]!.text,p["id"]!.text⟩

def setDeployed (p action : Value) (rows : List DeployedRow) : List DeployedRow :=
  if isDeploy action && !p["invocation"]!.isNull then
    upsert DeployedRow.key (deployedRow p action) rows
  else rows

def creatorKeyId : Option Str :=
  (v.signers.find? fun s => s["role"]!.is "owner" && !s["presence"]!.is "none").bind
    fun s => s["key_id"]!.asStr

def createRule (rule : Value) (rules : List RuleRow) : Policy (List RuleRow) := do
  let text ← okOr (canonicalize rule) .parse
  let digest := digestHex prim rulePrefix text
  let creator ← okOr (creatorKeyId v) .touchIdRequired
  okOr (insertNew (fun r => r.ruleDigestHex == digest || r.ruleId == rule["id"]!.text)
    ⟨text,digest,creator,v.plan["id"]!.text,none,rule["id"]!.text,none⟩ rules) .execPrecondition

def revocable (ruleId digest : Str) (r : RuleRow) : Bool :=
  r.ruleId == ruleId && r.ruleDigestHex == digest && r.revokedAt.isNone && r.revokedPlanId.isNone

def markRevoked (planId ruleId digest : Str) (rules : List RuleRow) : Policy (List RuleRow) := do
  ensure (rules.countP (revocable ruleId digest) == 1) .execPrecondition
  return updateWhere (revocable ruleId digest)
    (fun r => { r with revokedPlanId := some planId }) rules

def ruleEffect (action : Value) (rules : List RuleRow) : Policy (List RuleRow) :=
  let params := action["params"]!
  if action["kind"]!.is "rule.create" then createRule prim v params["rule"]! rules
  else if action["kind"]!.is "rule.revoke" then
    markRevoked v.plan["id"]!.text params["rule_id"]!.text params["rule_digest_hex"]!.text rules
  else .ok rules

def applyAction (admittedAt : Str) (action : Value) (store : Store) :
    Policy Store := do
  let current ← setCurrent v.plan admittedAt action store
  let rules ← ruleEffect prim v action current.rules
  return { current with
    deployedCommits := setDeployed v.plan action current.deployedCommits
    rules := rules }

def applyActions (admittedAt : Str) : List Value → Store → Policy Store
  | [], store => .ok store
  | action::rest, store => do
    let applied ← applyAction prim v admittedAt action store
    applyActions admittedAt rest applied

end

def setHead (row : AdmissionRow) (heads : List HeadRow) : List HeadRow :=
  upsert HeadRow.key
    ⟨row.projectId,row.environment,row.headAfterHex,row.planId,row.admittedAt⟩ heads

def recordInvocation (now : ℤ) (row : AdmissionRow) (store : Store) : Policy Store :=
  match row.ruleId, row.deliveryId with
  | some ruleId, some deliveryId => do
    let kept := deleteWhere
      (fun r => leText r.admittedAt (formatTimestamp (now - 3600))) store.ruleInvocations
    let invocations ← okOr (insertNew (fun r => r.ruleId == ruleId && r.planId == row.planId)
      ⟨ruleId,row.planId,row.admittedAt⟩ kept) .internal
    ensure (store.deliveries.any fun d => d.deliveryId == deliveryId) .ruleEvidence
    let consumptions ← okOr (insertNew (fun r => r.deliveryId == deliveryId && r.ruleId == ruleId)
      ⟨deliveryId,ruleId,row.planId,row.admittedAt⟩ store.consumptions) .ruleEvidence
    return { store with ruleInvocations := invocations, consumptions := consumptions }
  | _, _ => .ok store

/-- The row of a ciphertext: under the first action that signs its digest, in the
scope of the plan if it is a secret. -/
def sealedRow (row : AdmissionRow) (actions : List Value) (entry : Str × Str) :
    Policy SealedRow := do
  let index ← okOr (actions.findIdx? fun a => sealedDigest a == some entry.1) .execPrecondition
  let action := actions.getD index .null
  let params := action["params"]!
  return if action["kind"]!.is "secret.set" then
    ⟨entry.1,row.planId,entry.2,index,row.projectId,row.environment,params["service_id"]!.text,
      params["name"]!.text⟩
  else ⟨entry.1,row.planId,entry.2,index,[],[],[],[]⟩

def storeSealed (row : AdmissionRow) (actions : List Value) :
    List (Str × Str) → List SealedRow → Policy (List SealedRow)
  | [], rows => .ok rows
  | entry::rest, rows => do
    let new ← sealedRow row actions entry
    storeSealed row actions rest (insertIgnore SealedRow.ciphertextDigestHex new rows)

def admissionOf (row : AdmissionRow) (rows : List ActionRow) : Admission :=
  ⟨row.planId,row.planDigestHex,row.operationId,row.admittedAt,false,
    rows.map ActionRow.deploymentId⟩

def writeAdmission (store : Store) (v : VerifiedPlan) (input : AdmitInput)
    (supplied : List (Str × Str)) : Policy (Store × Admission) := do
  let actions := v.plan["actions"]!.items
  let row := admissionRow prim store v input
  ensure (chars input.envelope).isSome .parse
  let reserved ← reserve input.now (seenRow v) store
  let admitted ← insertAdmission row reserved
  let listed ← insertActions v.plan admitted
  let applied ← applyActions prim v row.admittedAt actions
    { listed with specs := insertSpecs v row.admittedAt listed.specs }
  let invoked ← recordInvocation input.now row
    { applied with heads := setHead row applied.heads }
  let secrets ← storeSealed row actions supplied invoked.sealedSecrets
  return ({ invoked with sealedSecrets := secrets }, admissionOf row (actionRows v.plan))

variable (alerts : AlertSpecs)

def checkQuarantine (store : Store) (now : ℤ) : Policy Unit :=
  ensure (!store.quarantineEndsAt.any (now < ·)) .storeQuarantined

def admitPlan (store : Store) (trust : TrustStore) (input : AdmitInput) :
    Policy (Store × Admission) := do
  checkQuarantine store input.now
  let verdict ← verifySignedPlan prim input.envelope input.specs input.submitter
    (txContext store trust input)
  match verdict with
  | .deduped planId digestHex => do
    let row ← okOr (store.admission planId) .internal
    return (store, ⟨planId,digestHex,row.operationId,row.admittedAt,true,[]⟩)
  | .admitted v => do
    let supplied ← executionPreconditions prim alerts store trust v input.sealedSecrets
    writeAdmission prim store v input supplied

def verifyOnly (store : Store) (trust : TrustStore) (input : AdmitInput) : Policy Verdict := do
  checkQuarantine store input.now
  let verdict ← verifySignedPlan prim input.envelope input.specs input.submitter
    (txContext store trust input)
  match verdict with
  | .deduped planId digestHex => return .deduped planId digestHex
  | .admitted v => do
    let _ ← executionPreconditions prim alerts store trust v input.sealedSecrets
    return .admitted v

end Permanu.AdmissionWrite
