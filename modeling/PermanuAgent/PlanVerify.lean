import PermanuAgent.PlanTrust

/-!
# The checks of a plan

The ordered checks of an envelope against the server's own state: strict parse
and schema, spec binding, target, author, signatures or rule, time, replay,
base, touch, roles and scopes, names, and the limits of a rule. The first
failing check decides the error. Everything the server knows is read through
the policy context.
-/

set_option autoImplicit false

namespace Permanu.PlanVerify
open ByteText JsonValue PlanSchema PlanSpec PlanActions
open PlanCrypto PlanJcs PlanTrust ResultSteps

inductive PlanCode where
  | parse
  | version
  | specMismatch
  | target
  | author
  | sigAlg
  | keyUnknown
  | keyRevoked
  | sigInvalid
  | ruleUnknown
  | ruleRevoked
  | lifetime
  | notYetValid
  | expired
  | replay
  | baseMismatch
  | forceForbidden
  | touchIdRequired
  | kindForbidden
  | keyScope
  | ruleWindow
  | ruleScope
  | ruleLimit
  | ruleEvidence
  | ruleSpec
  | bootstrap
  | execPrecondition
  | trustStoreInvalid
  | storeQuarantined
  | internal
  | scopeMismatch
  | channelMissing
  deriving DecidableEq, Repr

def maxSignedPlanBytes : ℕ := 64 * 1024
def maxSpecBytes : ℕ := 16 * 1024
def maxSpecs : ℕ := 64
def skewSeconds : ℤ := 120
def maxLifetimeSeconds : ℤ := 900
def webhookTtlSeconds : ℤ := 900
def genesisHead : Str := List.replicate 64 (byte '0')

def tidKinds : List String :=
  ["agent.update", "component.update", "secret.set", "secret.unset", "restore", "server.add",
    "shell.open", "rule.create", "rule.revoke", "key.add", "key.revoke", "service.elevate",
    "service.delete", "environment.delete", "project.delete", "server.remove",
    "server.accounts.migrate", "volume.delete", "bucket.delete", "bucket.credentials.rotate",
    "backup.delete", "recovery_recipient.set", "backup.destination.set", "env.protection.set",
    "release_key.add", "release_key.revoke", "repo.credential.set", "repo.credential.delete"]

def ownerOnlyPresence : List String :=
  ["db.upgrade", "backup.policy.delete", "backup.destination.delete", "webhook.host.set"]

def ciKinds : List String := ["deploy", "rollback", "restart", "operation.cancel"]
def ruleEligible : List String := ["deploy", "scale"]

def roleAllows (role kind : Str) : Bool :=
  if role = str "owner" then true
  else if role = str "deployer" then !kindIn tidKinds kind && !kindIn ownerOnlyPresence kind
  else if role = str "ci" then kindIn ciKinds kind
  else false

inductive Submitter where
  | client
  | agentWebhook
  deriving DecidableEq, Repr

structure RuleRecord where
  rule : Value
  ruleDigestHex : Str
  createdByKeyId : Str
  revoked : Bool
  deriving DecidableEq, Repr

structure DeliveryRecord where
  bodyDigestHex : Str
  repo : Str
  ref : Str
  commitSha : Str
  commitTime : Str
  receivedAt : Str
  verified : Bool
  consumedByRuleIds : List Str
  environments : List Str
  deriving DecidableEq, Repr

abbrev SignedScope := Str × Str × Str

abbrev Policy (α : Type) := Except PlanCode α

structure PolicyContext where
  now : ℤ
  trust : TrustStore
  admissionDigest : Str → Policy (Option Str)
  admissionSignerKeyIds : Str → Str → Policy (Option (List Str))
  seen : Str → Str → Policy Bool
  head : Str → Str → Policy Str
  rule : Str → Policy (Option RuleRecord)
  ruleInvocationsLastHour : Str → Policy ℕ
  delivery : Str → Policy (Option DeliveryRecord)
  lastAdmittedSpec : Str → Policy (Option Value)
  buildImage : Str → Str → Policy (Option Str)
  buildWindow : Str → Str → Policy (Option ℤ × Option ℤ)
  deployedCommit : Str → Str → Policy (Option (Str × Str))
  admissionScope : Str → Str → Policy (Option SignedScope)
  serviceScope : Str → Policy (Option SignedScope)
  cronScope : Str → Policy (Option SignedScope)
  backupPolicies : Str → Policy (List Value)
  environmentProtected : Str → Str → Policy Bool

abbrev Specs := List (Str × (Value × Str))

structure VerifiedPlan where
  plan : Value
  digestHex : Str
  /-- The trusted-key entries of the signers, in signature order. -/
  signers : List Value
  specs : Specs
  deriving DecidableEq, Repr

inductive Verdict where
  | admitted (verified : VerifiedPlan)
  | deduped (planId digestHex : Str)
  deriving DecidableEq, Repr

def VerifiedPlan.signerKeyIds (v : VerifiedPlan) : List Str :=
  v.signers.filterMap fun s => s["key_id"]!.asStr

def planScope (p : Value) : Str × Str := (p["project_id"]!.text, p["environment"]!.text)

def signedScope (p : Value) : SignedScope :=
  (p["project_id"]!.text, p["environment"]!.text, p["environment_id"]!.text)

def parseSpec (prim : Primitives) (specText : Str) : Option (Value × Str) :=
  match parseStrict specText maxSpecBytes with
  | none => none
  | some v =>
    if check PlanSpec.spec v && canonicalize v == some specText then
      some (v, digestHex prim specPrefix specText)
    else none

def collectSpecs (prim : Primitives) : Specs → List Str → Option Specs
  | specs, [] => some specs
  | specs, specText::rest =>
    match parseSpec prim specText with
    | none => none
    | some (v, digest) =>
      if (specs.lookup digest).isSome then none
      else collectSpecs prim (specs ++ [(digest, (v, specText))]) rest

def elevations (p : Value) : List Str :=
  (p["actions"]!.items.filter fun a => a["kind"]!.is "service.elevate").filterMap
    fun a => (a["params"]!)["spec_digest_hex"]!.asStr

def isUpgradeSpec (action : Value) : Bool :=
  action["kind"]!.is "db.upgrade" && action["params"]!.has "spec_digest_hex"

def pinsSpec (action : Value) : Bool :=
  action["kind"]!.asStr.any (kindIn specKinds) || isUpgradeSpec action

def pinnedService (action : Value) : Value :=
  if isUpgradeSpec action then (action["params"]!)["resource_id"]!
    else (action["params"]!)["service_id"]!

/-- The digest an action pins, which must be one of the given specs, of its own
service, with the replicas it asks for and elevated only with an elevation. -/
def bindAction (specs : Specs) (elevated : List Str) (action : Value) : Option Str :=
  match (action["params"]!)["spec_digest_hex"]!.asStr with
  | none => none
  | some digest =>
    match specs.lookup digest with
    | none => none
    | some (v, _) =>
      if v["service_id"]! ≠ pinnedService action
          || (action["kind"]!.is "scale" && v["replicas"]! != (action["params"]!)["replicas"]!)
          || (!action["kind"]!.is "service.elevate" && specElevated v && !elevated.contains digest)
      then none else some digest

def bindActions (specs : Specs) (elevated : List Str) : List Value → Option (List Str)
  | [] => some []
  | action::rest =>
    if action["kind"]!.asStr.isNone then none
    else if !pinsSpec action then bindActions specs elevated rest
    else do
      let digest ← bindAction specs elevated action
      let wanted ← bindActions specs elevated rest
      return digest :: wanted

def bindSpecs (prim : Primitives) (p : Value) (specTexts : List Str) : Option Specs :=
  if maxSpecs < specTexts.length then none
  else do
    let specs ← collectSpecs prim [] specTexts
    let actions ← p["actions"]!.asArray
    let wanted ← bindActions specs (elevations p) actions
    if sameSet (specs.map Prod.fst) wanted then return specs else none

def parseEnvelope (prim : Primitives) (text : Str) : Policy (Value × List Value) :=
  match parseStrict text maxSignedPlanBytes with
  | none => .error .parse
  | some envelope =>
    if !envelope.asObject.any (·.length == 2) || envelope["plan"]!.asObject.isNone
        || !envelope.has "signatures" then .error .parse
    else
      let p := envelope["plan"]!
      if p["version"]!.asI64 ≠ some 1 then .error .version
      else match envelope["signatures"]!.asArray with
        | none => .error .parse
        | some signatures =>
          if !validatePlan prim p || 4 < signatures.length || !signatures.all (check signature)
              || !decide (signatures.map (fun sig => sig["key_id"]!)).Nodup then .error .parse
          else .ok (p, signatures)

def planDigestHex (prim : Primitives) (p : Value) : Policy Str := do
  let canonical ← okOr (canonicalize p) .parse
  return digestHex prim planPrefix canonical

def nextHead (prim : Primitives) (headHex planDigestHex : Str) : Str :=
  hex (prim.sha256 (str "permanu-state-v1\n" ++ headHex ++ [10] ++ planDigestHex)).val

def timestampOf (v : Value) : Policy ℤ := okOr (v.asStr.bind PlanText.timestamp) .parse

def checkTime (p : Value) (now : ℤ) : Policy Unit := do
  let created ← timestampOf p["created_at"]!
  let expires ← timestampOf p["expires_at"]!
  ensure (0 < expires - created && expires - created ≤ maxLifetimeSeconds) .lifetime
  ensure (!decide (created > now + skewSeconds)) .notYetValid
  ensure (!decide (now > expires + skewSeconds)) .expired

def verifySignature (prim : Primitives) (signature : Value) (digest : Digest) (trust : TrustStore) :
    Policy Value := do
  let keyId := signature["key_id"]!.text
  ensure (signature["alg"]!.is "ES256-raw") .sigAlg
  let key ← okOr ((trust.keys.lookup keyId).filter fun _ => !trust.isTestKey keyId) .keyUnknown
  ensure (!trust.revoked.contains keyId) .keyRevoked
  let raw ← okOr (signature["sig"]!.asStr.bind b64urlDecode) .parse
  ensure (key.publicKey.verifyPrehash prim digest raw) .sigInvalid
  return key.entry

def verifySignatures (prim : Primitives) (digest : Digest) (trust : TrustStore) :
    List Value → Policy (List Value)
  | [] => .ok []
  | signature::rest => do
    let signer ← verifySignature prim signature digest trust
    let signers ← verifySignatures prim digest trust rest
    return signer :: signers

def ruleDigest (prim : Primitives) (rule : Value) : Option Str :=
  (canonicalize rule).map (digestHex prim rulePrefix)

def verifyRule (prim : Primitives) (invocation : Value) (ctx : PolicyContext) :
    Policy RuleRecord := do
  let ruleId := invocation["rule_id"]!.text
  let claimed := invocation["rule_digest_hex"]!.text
  let record ← okOr (← ctx.rule ruleId) .ruleUnknown
  ensure (record.rule["id"]! == .string ruleId && record.ruleDigestHex == claimed
    && ruleDigest prim record.rule == some claimed) .ruleUnknown
  ensure (!record.revoked && !ctx.trust.compromised.contains record.createdByKeyId) .ruleRevoked
  return record

def isRulePlan (p : Value) : Bool := (p["author"]!)["kind"]!.text == str "rule"

/-- A rule plan arrives unsigned from the webhook with its invocation; any other
plan is signed and has none. -/
def authorityOk (p : Value) (signatures : List Value) (submitter : Submitter) : Bool :=
  let hasInvocation := !p["invocation"]!.isNull
  if isRulePlan p then signatures.isEmpty && hasInvocation && submitter == .agentWebhook
  else !signatures.isEmpty && !hasInvocation

def planRule (prim : Primitives) (p : Value) (ctx : PolicyContext) : Policy (Option RuleRecord) :=
  if isRulePlan p then (verifyRule prim p["invocation"]! ctx).map some else .ok none

def checkReplay (p : Value) (digestHex : Str) (ctx : PolicyContext) : Policy Bool := do
  let planId := p["id"]!.text
  if (← ctx.admissionDigest planId) = some digestHex then return true
  else if (← ctx.seen p["nonce"]!.text planId) || (← ctx.admissionDigest planId).isSome then
    .error .replay
  else return false

def ownerSigned (signers : List Value) : Bool := signers.any fun s => s["role"]!.is "owner"

def ownerTouched (signers : List Value) : Bool :=
  signers.any fun s => s["role"]!.is "owner" && !s["presence"]!.is "none"

def checkBase (p : Value) (signers : List Value) (ctx : PolicyContext) : Policy Unit :=
  if (p["base"]!)["force"]! = .bool true then
    ensure (!isRulePlan p && ownerSigned signers) .forceForbidden
  else do
    let head ← ctx.head p["project_id"]!.text p["environment"]!.text
    ensure ((p["base"]!)["heads"]!.get ctx.trust.serverId == .string head) .baseMismatch

def keepFields : List String := ["keep_daily", "keep_weekly", "keep_monthly"]

def narrows (params current : Value) : Bool :=
  keepFields.any (fun keep => params[keep]!.asI64.getD 0 < current[keep]!.asI64.getD 0)
    || params["destination_ref"]! != current["destination_ref"]!

def policyNarrowsFrom (ctx : PolicyContext) : List Value → Policy Bool
  | [] => .ok false
  | action::rest =>
    if !action["kind"]!.is "backup.policy.set" then policyNarrowsFrom ctx rest
    else do
      let current ← ctx.backupPolicies (action["params"]!)["resource_id"]!.text
      if current.any (narrows action["params"]!) then return true
      else policyNarrowsFrom ctx rest

def policyNarrows (p : Value) (ctx : PolicyContext) : Policy Bool :=
  policyNarrowsFrom ctx p["actions"]!.items

def touchNeeded (p : Value) (ctx : PolicyContext) : Policy Bool :=
  if (kindsOf p).any (kindIn tidKinds) then .ok true else policyNarrows p ctx

def checkTouch (p : Value) (signers : List Value) (ctx : PolicyContext) : Policy Unit := do
  let needed ← touchNeeded p ctx
  ensure (!needed || (!isRulePlan p && ownerTouched signers)) .touchIdRequired

def scopeContains (scope : Value) (field : String) (v : Value) : Bool :=
  scope[field]!.items.contains v

def scopeCovers (signer p : Value) : Bool :=
  let scope := signer["scope"]!
  if scope.isNull then true
  else if p["project_id"]!.isNull then scope["server_level"]! == .bool true
  else scopeContains scope "project_ids" p["project_id"]!
    && scopeContains scope "environments" p["environment"]!

def ruleAllowsKind (record : RuleRecord) (kind : Str) : Bool :=
  record.rule["allowed_kinds"]!.items.contains (.string kind) && kindIn ruleEligible kind

def cancelScopeOk (p : Value) (ctx : PolicyContext) : Policy Unit := do
  let params := ((p["actions"]!)[0]!)["params"]!
  let cancelled ← ctx.admissionScope params["plan_id"]!.text params["plan_digest_hex"]!.text
  ensure (cancelled.all (· == signedScope p)) .scopeMismatch

def cancelSigners (p : Value) (allowed : List Value) (ctx : PolicyContext) : Policy (List Value) :=
  if allowed.any fun s => s["role"]!.is "ci" then do
    let params := ((p["actions"]!)[0]!)["params"]!
    let cancelled ← ctx.admissionSignerKeyIds params["plan_id"]!.text
      params["plan_digest_hex"]!.text
    return allowed.filter fun s =>
      !s["role"]!.is "ci" || cancelled.any fun ids => s["key_id"]!.asStr.any ids.contains
  else .ok allowed

def allowedSigners (p : Value) (signers : List Value) (ctx : PolicyContext) (kind : Str) :
    Policy (List Value) :=
  let allowed := signers.filter fun s => roleAllows s["role"]!.text kind
  if kind = str "operation.cancel" then do
    cancelScopeOk p ctx
    cancelSigners p allowed ctx
  else .ok allowed

def checkKind (p : Value) (signers : List Value) (rule : Option RuleRecord) (ctx : PolicyContext)
    (kind : Str) : Policy Unit :=
  match rule with
  | some record => ensure (ruleAllowsKind record kind) .kindForbidden
  | none => do
    let allowed ← allowedSigners p signers ctx kind
    ensure (!allowed.isEmpty) .kindForbidden
    ensure (allowed.any (scopeCovers · p)) .keyScope

def checkKinds (p : Value) (signers : List Value) (rule : Option RuleRecord) (ctx : PolicyContext) :
    List Str → Policy Unit
  | [] => .ok ()
  | kind::rest => do
    checkKind p signers rule ctx kind
    checkKinds p signers rule ctx rest

def serviceParamKinds : List (String × String) :=
  [("cron.create", "service_id"), ("cron.update", "service_id"), ("backup.run", "resource_id"),
    ("backup.verify", "resource_id"), ("backup.policy.set", "resource_id"),
    ("backup.policy.delete", "resource_id"), ("backup.delete", "resource_id"),
    ("restore", "resource_id")]

def cronIdKinds : List String :=
  ["cron.update", "cron.delete", "cron.pause", "cron.resume", "cron.run"]

def sameScope (scope : SignedScope) (found : Option SignedScope) : Bool := found.all (· == scope)

def actionNamesInScope (scope : SignedScope) (ctx : PolicyContext) (action : Value) :
    Policy Bool := do
  let kind := action["kind"]!.text
  let params := action["params"]!
  let service ← match serviceParamKinds.find? fun entry => kind == str entry.1 with
    | some (_, field) => (ctx.serviceScope params[field]!.text).map (sameScope scope)
    | none => pure true
  if !service then return false
  let source ← match params["source_resource_id"]!.asStr with
    | some source =>
      if kind = str "restore" then (ctx.serviceScope source).map (sameScope scope) else pure true
    | none => pure true
  if !source then return false
  if kindIn cronIdKinds kind then (ctx.cronScope params["cron_id"]!.text).map (sameScope scope)
  else return true

def namesInScopeFrom (scope : SignedScope) (ctx : PolicyContext) : List Value → Policy Bool
  | [] => .ok true
  | action::rest => do
    if ← actionNamesInScope scope ctx action then namesInScopeFrom scope ctx rest else return false

def namesInScope (p : Value) (ctx : PolicyContext) : Policy Bool :=
  namesInScopeFrom (signedScope p) ctx p["actions"]!.items

def refMatches (ref pattern : Str) : Bool :=
  ref == pattern || (endsWith pattern "/*" && (stripSuffix pattern "*").any fun pre =>
    pre.isPrefixOf ref && pre.length < ref.length)

def stringIn (set : Value) (v : Value) : Bool := set.items.contains v

def ruleScopeOk (p : Value) (rule : Value) : Bool :=
  let invocation := p["invocation"]!
  let evidence := invocation["evidence"]!
  let scope := rule["scope"]!
  invocation["trigger"]! == rule["trigger"]!
    && p["project_id"]! == scope["project_id"]!
    && p["environment"]! == scope["environment"]!
    && p["targets"]!.items.length == 1
    && p["targets"]!.items.all (stringIn scope["server_ids"]!)
    && p["service_ids"]!.items.all (stringIn scope["service_ids"]!)
    && evidence["repo"]! == scope["repo"]!
    && scope["branch_patterns"]!.items.any fun pattern =>
      refMatches evidence["ref"]!.text pattern.text

def pinnedSpec (specs : Specs) (action : Value) : Policy Value :=
  okOr ((specs.lookup (action["params"]!)["spec_digest_hex"]!.text).map Prod.fst) .ruleSpec

def checkReplicas (limits : Value) (specs : Specs) : List Value → Policy Unit
  | [] => .ok ()
  | action::rest => do
    let v ← pinnedSpec specs action
    ensure (limits["max_replicas"]!.asI64.all fun most =>
      v["replicas"]!.asI64.getD (2^63 - 1) ≤ most)
      .ruleLimit
    checkReplicas limits specs rest

def deliveryMatches (evidence : Value) (ruleId environment : Str) (d : DeliveryRecord) : Bool :=
  !d.consumedByRuleIds.contains ruleId
    && d.environments.contains environment
    && evidence["body_digest_hex"]! == .string d.bodyDigestHex
    && evidence["repo"]! == .string d.repo
    && evidence["ref"]! == .string d.ref
    && evidence["commit_sha"]! == .string d.commitSha
    && evidence["commit_time"]! == .string d.commitTime
    && evidence["received_at"]! == .string d.receivedAt

def buildFresh (received now : ℤ) : Option ℤ × Option ℤ → Bool
  | (some started, some built) =>
    started ≤ received + webhookTtlSeconds && now ≤ built + webhookTtlSeconds
  | _ => false

def isDeploy (action : Value) : Bool := action["kind"]!.is "deploy"
def isScale (action : Value) : Bool := action["kind"]!.is "scale"

def checkBuildFresh (ctx : PolicyContext) (received : ℤ) (commitSha : Str) :
    List Value → Policy Unit
  | [] => .ok ()
  | action::rest =>
    if !isDeploy action then checkBuildFresh ctx received commitSha rest
    else do
      let window ← ctx.buildWindow (action["params"]!)["service_id"]!.text commitSha
      ensure (buildFresh received ctx.now window) .ruleEvidence
      checkBuildFresh ctx received commitSha rest

def checkFresh (ctx : PolicyContext) (received : ℤ) (commitSha : Str) (actions : List Value) :
    Policy Unit :=
  if ctx.now > received + webhookTtlSeconds then checkBuildFresh ctx received commitSha actions
  else .ok ()

def supersedes (commitSha : Str) (commitTime : ℤ) (deployed : Str × Str) : Bool :=
  deployed.1 != commitSha && (PlanText.timestamp deployed.2).any fun t => !decide (commitTime < t)

def checkCommits (ctx : PolicyContext) (ref commitSha : Str) (commitTime : ℤ) :
    List Value → Policy Unit
  | [] => .ok ()
  | action::rest =>
    if !isDeploy action then checkCommits ctx ref commitSha commitTime rest
    else do
      ensure ((action["params"]!)["commit_sha"]! == .string commitSha) .ruleEvidence
      let deployed ← ctx.deployedCommit (action["params"]!)["service_id"]!.text ref
      ensure (deployed.all (supersedes commitSha commitTime)) .ruleEvidence
      checkCommits ctx ref commitSha commitTime rest

/-- The spec equals the last admitted one once its `field` is set back. -/
def rebasesOnto (v base : Value) (field : String) : Bool := v.set field base[field]! == base

def lastSpec (ctx : PolicyContext) (action : Value) : Policy Value := do
  let base ← ctx.lastAdmittedSpec (action["params"]!)["service_id"]!.text
  okOr base .ruleSpec

def checkDeploySpec (ctx : PolicyContext) (commitSha : Str) (specs : Specs) (action : Value) :
    Policy Unit := do
  let v ← pinnedSpec specs action
  let base ← lastSpec ctx action
  let build ← ctx.buildImage (action["params"]!)["service_id"]!.text commitSha
  let image ← okOr build .ruleSpec
  ensure (v["image_digest_hex"]! == .string image) .ruleSpec
  ensure (rebasesOnto v base "image_digest_hex") .ruleSpec

def checkScaleSpec (ctx : PolicyContext) (specs : Specs) (action : Value) : Policy Unit := do
  let v ← pinnedSpec specs action
  let base ← lastSpec ctx action
  ensure (rebasesOnto v base "replicas") .ruleSpec

def forActions (p : Value → Bool) (step : Value → Policy Unit) : List Value → Policy Unit
  | [] => .ok ()
  | action::rest =>
    if p action then do
      step action
      forActions p step rest
    else forActions p step rest

/-- The verified delivery a rule fired on: not used by the rule before, fresh, and
ahead of what the services deployed. -/
def checkEvidence (p : Value) (rule : Value) (ctx : PolicyContext) : Policy Unit := do
  let evidence := (p["invocation"]!)["evidence"]!
  let actions := p["actions"]!.items
  let found ← ctx.delivery evidence["delivery_id"]!.text
  let delivery ← okOr (found.filter DeliveryRecord.verified) .ruleEvidence
  ensure (deliveryMatches evidence rule["id"]!.text p["environment"]!.text delivery) .ruleEvidence
  let received ← timestampOf evidence["received_at"]!
  ensure (received - skewSeconds ≤ ctx.now) .ruleEvidence
  checkFresh ctx received evidence["commit_sha"]!.text actions
  let commitTime ← timestampOf evidence["commit_time"]!
  checkCommits ctx evidence["ref"]!.text evidence["commit_sha"]!.text commitTime actions

def checkRule (p : Value) (rule : Value) (ctx : PolicyContext) (specs : Specs) : Policy Unit := do
  let evidence := (p["invocation"]!)["evidence"]!
  let actions := p["actions"]!.items
  let limits := rule["limits"]!
  let notBefore ← timestampOf rule["not_before"]!
  let ruleExpires ← timestampOf rule["expires_at"]!
  ensure (notBefore ≤ ctx.now && ctx.now ≤ ruleExpires) .ruleWindow
  ensure (ruleScopeOk p rule) .ruleScope
  let isProtected ← ctx.environmentProtected p["project_id"]!.text p["environment"]!.text
  ensure (!isProtected) .ruleScope
  ensure (!(rule["allowed_kinds"]!.items.any (·.is "scale") && limits["max_replicas"]!.isNull))
    .ruleLimit
  checkReplicas limits specs actions
  let invocations ← ctx.ruleInvocationsLastHour rule["id"]!.text
  ensure ((invocations : ℤ) < limits["max_invocations_per_hour"]!.asI64.getD 0) .ruleLimit
  checkEvidence p rule ctx
  forActions isDeploy (checkDeploySpec ctx evidence["commit_sha"]!.text specs) actions
  forActions isScale (checkScaleSpec ctx specs) actions

def targetsSelf (p : Value) (trust : TrustStore) : Bool :=
  p["targets"]!.items.contains (.string trust.serverId)

def checkNamesOrRule (p : Value) (rule : Option RuleRecord) (ctx : PolicyContext) (specs : Specs) :
    Policy Unit :=
  match rule with
  | some record => checkRule p record.rule ctx specs
  | none => do
    let inScope ← namesInScope p ctx
    ensure inScope .scopeMismatch

def checkPolicy (p : Value) (signers : List Value) (rule : Option RuleRecord) (ctx : PolicyContext)
    (specs : Specs) : Policy Unit := do
  checkBase p signers ctx
  checkTouch p signers ctx
  checkKinds p signers rule ctx (kindsOf p)
  checkNamesOrRule p rule ctx specs

def verifyPlan (prim : Primitives) (p : Value) (signatures : List Value) (specs : Specs)
    (digest : Digest) (ctx : PolicyContext) : Policy Verdict := do
  let signers ← verifySignatures prim digest ctx.trust signatures
  let rule ← planRule prim p ctx
  checkTime p ctx.now
  let known ← checkReplay p (hex digest.val) ctx
  if known then return .deduped p["id"]!.text (hex digest.val)
  else
    checkPolicy p signers rule ctx specs
    return .admitted ⟨p, hex digest.val, signers, specs⟩

def verifySignedPlan (prim : Primitives) (text : Str) (specTexts : List Str) (submitter : Submitter)
    (ctx : PolicyContext) : Policy Verdict := do
  let (p, signatures) ← parseEnvelope prim text
  let specs ← okOr (bindSpecs prim p specTexts) .specMismatch
  ensure (targetsSelf p ctx.trust) .target
  ensure (authorityOk p signatures submitter) .author
  let canonical ← okOr (canonicalize p) .parse
  verifyPlan prim p signatures specs (prefixedDigest prim planPrefix canonical) ctx

structure BootstrapPlan where
  serverId : Str
  ownerKey : Value
  deriving DecidableEq, Repr

def bootstrapParams (prim : Primitives) (p : Value) (hostKeyDigests : List Str)
    (ageRecipient : Str) :
    Policy Value := do
  let action := (p["actions"]!)[0]!
  let params := action["params"]!
  ensure (p["actions"]!.items.length == 1 && action["kind"]!.is "server.add") .bootstrap
  ensure (p["targets"]!.asArray == some [.string params["server_id"]!.text]) .bootstrap
  ensure (hostKeyDigests.contains params["ssh_host_key_digest_hex"]!.text) .bootstrap
  ensure (!ageRecipient.isEmpty && params["age_recipient_fingerprint"]!.asStr ==
    some (hex (prim.sha256 ageRecipient).val)) .bootstrap
  return params

def bootstrapSignature (p owner : Value) (signatures : List Value) : Policy Value := do
  let signature := signatures.headD .null
  ensure (signatures.length == 1 && signature["key_id"]! == owner["key_id"]!
    && signature["alg"]!.is "ES256-raw") .bootstrap
  ensure (owner["role"]!.is "owner" && !owner["presence"]!.is "none"
    && (p["author"]!)["kind"]!.is "user") .bootstrap
  return signature

def versionAsParse {α : Type} : Policy α → Policy α
  | .error .version => .error .parse
  | other => other

def verifyBootstrap (prim : Primitives) (text : Str) (hostKeyDigests : List Str)
    (ageRecipient : Str) (now : ℤ) :
    Policy BootstrapPlan := do
  let (p, signatures) ← versionAsParse (parseEnvelope prim text)
  let params ← bootstrapParams prim p hostKeyDigests ageRecipient
  let owner := params["owner_key"]!
  let signature ← bootstrapSignature p owner signatures
  let key ← okOr ((parseSpkiBase64 prim owner["spki"]!.text).filter
    fun key => owner["key_id"]! == .string key.keyId) .bootstrap
  let canonical ← okOr (canonicalize p) .parse
  let raw ← okOr (signature["sig"]!.asStr.bind b64urlDecode) .parse
  ensure (key.verifyPrehash prim (prefixedDigest prim planPrefix canonical) raw) .sigInvalid
  checkTime p now
  return ⟨params["server_id"]!.text, owner⟩

end Permanu.PlanVerify
