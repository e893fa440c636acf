import PermanuAgent.PlanSpec

/-!
# The actions of a plan

Every action kind has fixed parameters and possibly optional ones, each never
null. The plan-level rules tie actions to the plan around them: the scope a
kind needs, the services named, the windows of rules, the shapes of keys.
-/

set_option autoImplicit false

namespace Permanu.PlanActions
open ByteText JsonValue PlanSchema PlanSpec PlanCrypto PlanText

abbrev Fields := List (String × Shape)

def kindIn (kinds : List String) (kind : Str) : Bool := kinds.any fun k => kind == str k

def ageRecipientByte (b : UInt8) : Bool :=
  b == byte '0' || (byte '2' ≤ b && b ≤ byte '9') || b == byte 'a'
    || (byte 'c' ≤ b && b ≤ byte 'h') || (byte 'j' ≤ b && b ≤ byte 'n')
    || (byte 'p' ≤ b && b ≤ byte 'z')

def ageRecipient (value : Str) : Bool :=
  (value.dropPrefix? (str "age1")).any fun rest => rest.length == 58 && rest.all ageRecipientByte

def endpoint (value : Str) : Bool :=
  ((value.dropPrefix? (str "https://")).or (value.dropPrefix? (str "sftp://"))).any authority

def prefixOk (value : Str) : Bool :=
  value.isEmpty ||
    (let parts := value.splitOn (byte '/')
     parts.length ≤ 8 && parts.all pathSegment)

def objectKey (value : Str) : Bool :=
  match (value.dropPrefix? (str "permanu/v1/")).map (·.splitOn (byte '/')) with
  | some [a, b, c] => uuid7 a && uuid7 b && (stripSuffix c ".age").any uuid7
  | _ => false

def region (value : Str) : Bool :=
  within 1 64 value.length && value.all fun b => edge b || b == byte '-'

def fingerprint (value : Str) : Bool :=
  (value.dropPrefix? (str "SHA256:")).any fun rest =>
    rest.length == 43 && rest.all fun b => isAlphanumeric b || oneOf "+/" b

def webhookHost (value : Str) : Bool :=
  if ipv4Shaped value then publicIpv4 value else hostname value

def pemLine (line : Str) (data : Str) : Bool :=
  within 1 64 line.length && line.length - data.length ≤ 2
    && data.all fun b => isAlphanumeric b || oneOf "+/" b

def trimEquals (line : Str) : Str := (line.reverse.dropWhile (· == byte '=')).reverse

def pemBody (body : Str) : Bool :=
  match stripSuffix body "\n" with
  | none => false
  | some lines =>
    let lines := lines.splitOn 10
    lines.dropLast.all (fun line => pemLine line line)
      && lines.getLast?.any (fun line => pemLine line (trimEquals line))
      && (Base64Text.decodeStandard lines.flatten).any fun der => der.head? == some 0x30

/-- The text before and after the first occurrence of `needle`. -/
def splitAtText (needle : Str) : Str → Option (Str × Str)
  | [] => if needle.isEmpty then some ([], []) else none
  | b::rest =>
    match (b::rest).dropPrefix? needle with
    | some after => some ([], after)
    | none => (splitAtText needle rest).map (·.map (b :: ·) id)

def pemBlocks : ℕ → Str → Option ℕ
  | _, [] => some 0
  | 0, _ => none
  | fuel+1, rest =>
    match (rest.dropPrefix? (str "-----BEGIN CERTIFICATE-----\n")).bind
        (splitAtText (str "-----END CERTIFICATE-----\n")) with
    | none => none
    | some (body, rest) => if pemBody body then (pemBlocks fuel rest).map (· + 1) else none

def caPem (v : Value) : Bool :=
  v.asStr.any fun text =>
    within 1 16384 text.length && (pemBlocks text.length text).any (within 1 8)

def cronNumber (text : Str) : Option ℕ :=
  if within 1 2 text.length && text.all isDigit then some (parseDecimal text) else none

def cronBounds (item range : Str) (low high : ℕ) : Option (ℕ × ℕ) :=
  if range = str "*" then some (low, high)
  else match splitOnce '-' range with
    | some (start, stop) => (cronNumber start).bind fun a => (cronNumber stop).map fun b => (a, b)
    | none => (cronNumber range).map fun start =>
        (start, if containsText item "/" then high else start)

def cronItem (item : Str) (low high : ℕ) : Bool :=
  let (range, step) := match splitOnce '/' item with
    | some (range, step) => (range, some step)
    | none => (item, none)
  step.all (fun step => (cronNumber step).any (1 ≤ ·))
    && (cronBounds item range low high).any fun (start, stop) =>
      low ≤ start && start ≤ stop && stop ≤ high

def cronFields : List (ℕ × ℕ) := [(0,59), (0,23), (1,31), (1,12), (0,7)]

def cronParses (expression : Str) : Bool :=
  let fields := expression.splitOn (byte ' ')
  fields.length == 5 && (fields.zip cronFields).all fun (field, low, high) =>
    (field.splitOn (byte ',')).all fun item => cronItem item low high

def envMap (v : Value) : Bool :=
  v.asObject.any fun members =>
    members.length ≤ 128 && members.all fun (name, text) =>
      envName name && check (.text 0 4096) text

def size : Shape := .int (2^30) (2^46)

def cronParams : Fields :=
  [("cron_id", uuid7), ("service_id", uuid7), ("name", label), ("schedule", cron), ("timezone", tz),
    ("command", argv), ("timeout_seconds", .int 1 86400), ("retries", .int 0 10),
    ("overlap", .enum ["skip", "queue", "allow"]), ("heartbeat_alert", .bool)]

def alertRule : Fields := [("alert_rule_id", uuid7), ("name", label), ("spec", .text 2 16384)]

def alertChannel : Fields :=
  [("channel_id", uuid7), ("name", label), ("channel_kind", .enum ["slack", "discord", "webhook"]),
    ("credential_ciphertext_digest_hex", hex64)]

def rollbackLegacy : Fields :=
  [("service_id", uuid7), ("to_release_id", uuid7), ("spec_digest_hex", hex64)]

def specParams : Fields := [("service_id", uuid7), ("spec_digest_hex", hex64)]

def serviceCatalog : List (List String × Fields) :=
  [(["deploy"], [("service_id", uuid7), ("commit_sha", .nullable (.pattern hex40)),
      ("spec_digest_hex", hex64), ("deployment_id", uuid7)]),
    (["rollback"],
      [("service_id", uuid7), ("to_deployment_id", uuid7), ("spec_digest_hex", hex64)]),
    (["restart", "service.elevate"], specParams),
    (["scale"], [("service_id", uuid7), ("replicas", .int 0 1000), ("spec_digest_hex", hex64)]),
    (["operation.cancel"], [("plan_id", uuid7), ("plan_digest_hex", hex64)]),
    (["env.set"], [("service_id", uuid7), ("set", .custom envMap), ("unset", .set env 0 128)]),
    (["secret.set"],
      [("service_id", .nullable uuid7), ("name", env), ("ciphertext_digest_hex", hex64)]),
    (["secret.unset"], [("service_id", .nullable uuid7), ("name", env)]),
    (["service.delete"], [("service_id", uuid7)]),
    (["environment.delete"], [("environment", ref)]),
    (["project.delete"], [("project_id", uuid7)]),
    (["volume.create"],
      [("volume_id", uuid7), ("service_id", uuid7), ("mount_path", path), ("size_bytes", size)]),
    (["volume.resize"], [("volume_id", uuid7), ("service_id", uuid7), ("size_bytes", size)]),
    (["volume.delete"], [("volume_id", uuid7), ("service_id", uuid7)]),
    (["bucket.create", "bucket.delete", "bucket.credentials.rotate"],
      [("service_id", uuid7), ("bucket", bucket)]),
    (["domain.add"], [("service_id", uuid7), ("hostname", host), ("tls", .enum ["acme", "none"])]),
    (["domain.remove"], [("service_id", uuid7), ("hostname", host)]),
    (["domain.switch"], [("service_id", uuid7), ("from_hostname", host), ("to_hostname", host)]),
    (["edge.rule.set"],
      [("service_id", uuid7), ("edge_rule_id", uuid7), ("spec", .text 2 16384)]),
    (["edge.rule.delete"], [("service_id", uuid7), ("edge_rule_id", uuid7)]),
    (["cron.create", "cron.update"], cronParams),
    (["cron.delete", "cron.run", "cron.pause", "cron.resume"], [("cron_id", uuid7)])]

def serverCatalog : List (List String × Fields) :=
  [(["backup.run", "backup.policy.delete"], [("resource_id", uuid7)]),
    (["backup.verify", "backup.delete"], [("resource_id", uuid7), ("backup_id", uuid7)]),
    (["backup.policy.set"],
      [("resource_id", uuid7), ("schedule", cron), ("timezone", tz), ("keep_daily", .int 0 366),
        ("keep_weekly", .int 0 260), ("keep_monthly", .int 0 120),
        ("verify_schedule", .nullable cron), ("destination_ref", ref)]),
    (["restore"],
      [("resource_id", uuid7), ("backup_id", uuid7), ("backup_digest_hex", hex64),
        ("origin", .enum ["server", "imported"])]),
    (["db.upgrade"],
      [("resource_id", uuid7), ("engine", .enum ["postgres"]), ("from_version", .text 1 32),
        ("to_version", .text 1 32)]),
    (["alert.rule.create", "alert.rule.update"], alertRule),
    (["alert.rule.delete"], [("alert_rule_id", uuid7)]),
    (["alert.silence"], [("alert_rule_id", uuid7), ("until", .nullable .timestamp)]),
    (["alert.channel.create", "alert.channel.update"], alertChannel),
    (["alert.channel.delete"], [("channel_id", uuid7)]),
    (["telemetry.retention.set"],
      [("telemetry_kind", .enum ["logs", "http", "traces", "metrics", "analytics"]),
        ("max_age_days", .int 1 3650), ("max_bytes", .int (2^20) (2^53 - 1))]),
    (["server.add"],
      [("server_id", uuid7), ("ssh_host_key_digest_hex", hex64), ("owner_key", keyEntry),
        ("bundle_manifest_digest_hex", hex64), ("age_recipient_fingerprint", hex64)]),
    (["server.remove"], [("server_id", uuid7), ("wipe", .bool)]),
    (["agent.update"],
      [("version", .pattern semver), ("artifact_digest_hex", hex64),
        ("bundle_manifest_digest_hex", hex64), ("allow_downgrade", .bool)]),
    (["component.update"],
      [("component", .enum ["dwaar", "runner", "permanu-env", "os_packages"]),
        ("version", .text 1 64), ("artifact_digest_hex", .nullable hex64),
        ("bundle_manifest_digest_hex", .nullable hex64), ("allow_downgrade", .bool)]),
    (["shell.open"], [("service_id", .nullable uuid7), ("ttl_seconds", .int 1 900)]),
    (["rule.create"], [("rule", rule)]),
    (["rule.revoke"], [("rule_id", uuid7), ("rule_digest_hex", hex64)]),
    (["key.add"], [("entry", keyEntry)]),
    (["key.revoke"], [("revocation", revocation)])]

def laterCatalog : List (List String × Fields) :=
  [(["backup.destination.set"],
      [("destination_ref", ref),
        ("destination_kind", .enum ["r2", "s3", "b2", "sftp", "server_local"]),
        ("endpoint", .nullable (.pattern endpoint)), ("region", .nullable (.pattern region)),
        ("bucket", .nullable (.pattern bucket)), ("prefix", .pattern prefixOk),
        ("credential_ciphertext_digest_hex", .nullable hex64)]),
    (["backup.destination.delete"], [("destination_ref", ref)]),
    (["recovery_recipient.set"], [("recipient", .pattern ageRecipient)]),
    (["recovery_recipient.set+fingerprint"],
      [("recipient", .pattern ageRecipient), ("fingerprint_hex", hex64)]),
    (["env.protection.set"], [("environment", ref), ("protected", .bool)]),
    (["release_key.add"],
      [("key_id", .pattern keyId), ("spki", .text 1 100), ("label", label)]),
    (["release_key.revoke"],
      [("key_id", .pattern keyId), ("reason", .enum ["compromised", "rotated", "other"])]),
    (["repo.credential.set"],
      [("repo", .pattern repo),
        ("credential_kind", .enum ["ssh_deploy_key", "https_token"]),
        ("fingerprint", .pattern fingerprint), ("credential_ciphertext_digest_hex", hex64)]),
    (["repo.credential.delete"], [("repo", .pattern repo)]),
    (["webhook.host.set"], [("webhook_host", .pattern webhookHost)]),
    (["server.accounts.migrate"], [("server_id", uuid7)])]

def paramsFor (kind : Str) : Option Fields :=
  ((serviceCatalog ++ serverCatalog ++ laterCatalog).find? fun entry => kindIn entry.1 kind).map
    Prod.snd

def dbCredentials : Shape := .object
  [("user", .pattern envName), ("password", .pattern envName),
    ("database", .pattern envName)]

def optionalParamsFor (kind : Str) : Fields :=
  if kind = str "db.upgrade" then [("spec_digest_hex", hex64)]
  else if kind = str "restore" then
    [("source_resource_id", uuid7), ("destination_ref", ref), ("object_key", .pattern objectKey)]
  else if kind = str "backup.policy.set" then
    [("db_credentials_ref", dbCredentials), ("channel_ids", .set uuid7 0 16)]
  else if kind = str "domain.add" then [("source", .enum ["custom", "default"])]
  else if kind = str "operation.cancel" then [("run_id", uuid7)]
  else if kind = str "backup.destination.set" then [("ca_pem", .custom caPem)]
  else []

/-- A rollback under the deprecated name, and a recovery recipient with its
fingerprint, are checked against their own fields. -/
def paramsOf (kind : Str) (params : Option Value) : Option Fields :=
  if kind = str "rollback" && params.any (·.has "to_release_id") then some rollbackLegacy
  else if kind = str "recovery_recipient.set" && params.any (·.has "fingerprint_hex") then
    paramsFor (str "recovery_recipient.set+fingerprint")
  else paramsFor kind

def rollbackTarget (params : Value) : Option Str :=
  params["to_deployment_id"]!.asStr.or params["to_release_id"]!.asStr

def optionalOk (optional : Fields) (params : Value) : Bool :=
  optional.all fun (name, shape) => (params.get? (str name)).all (check shape)

def withoutOptional (optional : Fields) (params : Value) : Value :=
  optional.foldl (fun base entry => base.remove entry.1) params

def paramsOk (kind : Str) (params : Option Value) : Bool :=
  match paramsOf kind params, params with
  | some fixed, some value =>
    value.asObject.isSome && optionalOk (optionalParamsFor kind) value
      && check (.object fixed) (withoutOptional (optionalParamsFor kind) value)
  | _, _ => false

def actionOk (action : Value) : Bool :=
  action.asObject.any (fun members => members.length == 2)
    && action["kind"]!.asStr.any fun kind => paramsOk kind (action.get? (str "params"))

def actionsOk (v : Value) : Bool :=
  v.asArray.any fun items => within 1 64 items.length && items.all actionOk

def headsOk (v : Value) : Bool :=
  v.asObject.any fun members =>
    members.all fun (server, head) => uuid7 server && check hex64 head

def nonceOk (v : Value) : Bool :=
  (v.asStr.bind b64urlDecode).any fun bytes => bytes.length == 16

def planFields : Fields :=
  [("version", .int 1 1),
    ("id", uuid7),
    ("project_id", .nullable uuid7),
    ("environment", .nullable ref),
    ("environment_id", .nullable uuid7),
    ("service_ids", .set uuid7 0 64),
    ("targets", .set uuid7 1 32),
    ("actions", .custom actionsOk),
    ("base", .object [("force", .bool), ("heads", .custom headsOk)]),
    ("created_at", .timestamp),
    ("expires_at", .timestamp),
    ("nonce", .custom nonceOk),
    ("author", .object
      [("kind", .enum ["user", "rule", "agent-draft"]), ("agent_session_id", .nullable uuid7)]),
    ("invocation", .nullable invocation)]

def plan : Shape := .object planFields

def specKinds : List String := ["deploy", "rollback", "restart", "scale", "service.elevate"]

def serverKinds : List String :=
  ["server.add", "server.remove", "agent.update", "component.update", "key.add", "key.revoke",
    "alert.rule.create", "alert.rule.update", "alert.rule.delete", "alert.silence",
    "alert.channel.create", "alert.channel.update", "alert.channel.delete",
    "telemetry.retention.set"]

def serverKindsLater : List String :=
  ["backup.destination.set", "backup.destination.delete", "recovery_recipient.set",
    "release_key.add", "release_key.revoke", "webhook.host.set", "server.accounts.migrate"]

def neutralKind : String := "operation.cancel"

def serverKind (kind : Str) : Bool := kindIn serverKinds kind || kindIn serverKindsLater kind

def hostShell (action : Value) : Bool :=
  action["kind"]!.is "shell.open" && (action["params"]!)["service_id"]!.isNull

def serverAction (action : Value) : Bool := action["kind"]!.asStr.any serverKind || hostShell action

def kindsOf (p : Value) : List Str := p["actions"]!.items.filterMap fun a => a["kind"]!.asStr

/-- A cancel stands alone; server kinds stand without a project; all others need
a project and an environment. -/
def scopeRulesHold (p : Value) (kinds : List Str) : Bool :=
  let hasProject := !p["project_id"]!.isNull
  let hasEnvironment := !p["environment"]!.isNull
  let noServices := p["service_ids"]!.asArray.any List.isEmpty
  let actions := p["actions"]!.items
  if kinds.contains (str neutralKind) then
    kinds.length == 1 && noServices && hasProject == hasEnvironment
  else if kinds.any serverKind || (!hasProject && actions.any hostShell) then
    actions.all serverAction && !hasProject && !hasEnvironment && noServices
  else hasProject && hasEnvironment

def singleTarget (p : Value) (server : Value) : Bool :=
  p["targets"]!.asArray.any fun targets => targets == [server]

def destinationShape (params : Value) : Bool :=
  let endpoint := params["endpoint"]!.asStr
  let kind := params["destination_kind"]!.text
  let credential := !params["credential_ciphertext_digest_hex"]!.isNull
  let bucket := !params["bucket"]!.isNull
  let region := !params["region"]!.isNull
  if params.has "ca_pem" && (!kindIn ["r2", "s3", "b2"] kind || endpoint.isNone) then false
  else if kind = str "server_local" then endpoint.isNone && !region && !bucket && !credential
  else if kind = str "sftp" then
    endpoint.any (startsWith · "sftp://") && !bucket && !region && credential
  else bucket && credential && match endpoint with
    | some url => startsWith url "https://"
    | none => kind == str "s3"

/-- An imported restore signs where its object is; a server restore does not. A
restore into another service follows a deploy of that service in the plan. -/
def restoreShape (p : Value) (index : ℕ) (params : Value) : Bool :=
  let located := params.has "destination_ref" || params.has "object_key"
  let keyNamesBackup := match params["object_key"]!.asStr, params["backup_id"]!.asStr with
    | some key, some backup =>
      ((key.splitOn (byte '/')).getLast?.bind (stripSuffix · ".age")) == some backup
    | _, _ => false
  let origin :=
    if params["origin"]!.is "imported" then
      params.has "destination_ref" && params.has "object_key"
        && !params.has "source_resource_id" && keyNamesBackup
    else !located
  let resource := params["resource_id"]!
  let source := (params.get? (str "source_resource_id")).getD resource
  origin && (source == resource || (p["actions"]!.items.take index).any fun earlier =>
    earlier["kind"]!.is "deploy" && (earlier["params"]!)["service_id"]! == resource)

def ruleWindowOk (rule : Value) : Bool :=
  match timestamp rule["expires_at"]!.text, timestamp rule["not_before"]!.text with
  | some expires, some notBefore =>
    decide (0 < expires - notBefore) && decide (expires - notBefore ≤ 400 * 86400)
  | _, _ => false

variable (prim : Primitives)

def laterRulesHold (p : Value) (kind : Str) (params : Value) : Bool :=
  if kindIn ["cron.create", "cron.update"] kind then params["schedule"]!.asStr.any cronParses
  else if kind = str "backup.policy.set" then
    params["schedule"]!.asStr.any cronParses && params["verify_schedule"]!.asStr.all cronParses
  else if kind = str "env.protection.set" then params["environment"]! == p["environment"]!
  else if kind = str "domain.add" then
    !params["source"]!.is "default"
      || (params["tls"]!.is "acme" && params["hostname"]!.asStr.any defaultRoute)
  else if kind = str "backup.destination.set" then destinationShape params
  else if kind = str "release_key.add" then
    (params["spki"]!.asStr.bind (releaseKeyId prim)).any fun keyId =>
      params["key_id"]! == .string keyId
  else if kind = str "recovery_recipient.set" then
    (params.get? (str "fingerprint_hex")).all fun fingerprint =>
      params["recipient"]!.asStr.any fun recipient =>
        fingerprint == .string (hex (prim.sha256 recipient).val)
  else if kind = str "server.accounts.migrate" then singleTarget p params["server_id"]!
  else true

def actionRulesHold (p : Value) (index : ℕ) (action : Value) : Bool :=
  let params := action["params"]!
  let kind := action["kind"]!.text
  if kind = str "server.add" then
    singleTarget p params["server_id"]! && (params["owner_key"]!)["added_by"]!.isNull
      && keyScopeShapeOk params["owner_key"]!
  else if kind = str "server.remove" then singleTarget p params["server_id"]!
  else if kind = str "component.update" then
    params["component"]!.is "os_packages" == params["bundle_manifest_digest_hex"]!.isNull
  else if kind = str "env.set" then
    params["set"]!.asObject.any fun members =>
      members.all fun member => !(stringSet params["unset"]!).contains member.1
  else if kind = str "rule.create" then
    let rule := params["rule"]!
    (rule["scope"]!)["project_id"]! == p["project_id"]!
      && (rule["scope"]!)["environment"]! == p["environment"]! && ruleWindowOk rule
  else if kind = str "key.add" then
    !(params["entry"]!)["added_by"]!.isNull && keyScopeShapeOk params["entry"]!
  else if kind = str "project.delete" then params["project_id"]! == p["project_id"]!
  else if kind = str "environment.delete" then params["environment"]! == p["environment"]!
  else if kind = str "domain.switch" then params["from_hostname"]! != params["to_hostname"]!
  else if kind = str "backup.policy.set" then
    ["keep_daily", "keep_weekly", "keep_monthly"].any (fun keep => 0 < params[keep]!.asI64.getD 0)
      && laterRulesHold prim p (str "backup.policy.set") params
  else if kind = str "restore" then restoreShape p index params
  else laterRulesHold prim p kind params

def deploymentIds (p : Value) : List Str :=
  (p["actions"]!.items.filter fun a => a["kind"]!.is "deploy").filterMap
    fun a => (a["params"]!)["deployment_id"]!.asStr

def planRulesHold (p : Value) : Bool :=
  let actions := p["actions"]!.items
  let author := p["author"]!
  sameSet (p["base"]!)["heads"]!.keys (stringSet p["targets"]!)
    && (author["kind"]!.is "agent-draft") != author["agent_session_id"]!.isNull
    && p["environment"]!.isNull == p["environment_id"]!.isNull
    && scopeRulesHold p (kindsOf p)
    && sameSet (actions.filterMap fun a => (a["params"]!.get? (str "service_id")).bind Value.asStr)
      (stringSet p["service_ids"]!)
    && (deploymentIds p).Nodup
    && actions.zipIdx.all (fun (action, index) => actionRulesHold prim p index action)
    && (PlanJcs.canonicalize p).isSome

def validatePlan (p : Value) : Bool := check plan p && planRulesHold prim p

end Permanu.PlanActions
