import PermanuAgent.PlanText
import PermanuAgent.PlanCrypto
import PermanuAgent.PlanJcs

/-!
# Shapes of JSON fields

A shape is a closed description of one JSON field. An object has exactly the
listed members; a set is a strictly increasing array of strings. The shapes of
service specs, standing rules, trusted keys and signatures are data of this
language, with hand-written predicates where the rule is not a field rule.
-/

set_option autoImplicit false

namespace Permanu.PlanSchema
open ByteText JsonValue PlanCrypto PlanText

inductive Shape where
  | pattern (matcher : Str → Bool)
  | text (low high : ℕ)
  | label (low high : ℕ)
  | gitRef (pattern : Bool)
  | int (low high : ℤ)
  | enum (options : List String)
  | bool
  | timestamp
  | sig64
  | nullable (inner : Shape)
  | set (inner : Shape) (low high : ℕ)
  | object (fields : List (String × Shape))
  | custom (function : Value → Bool)

def within (low high n : ℕ) : Bool := low ≤ n && n ≤ high

def increasing (lt : Str → Str → Bool) : List Str → Bool
  | a::b::rest => lt a b && increasing lt (b::rest)
  | _ => true

def allTexts : List Value → Option (List Str)
  | [] => some []
  | v::vs => do
    let head ← v.asStr
    let tail ← allTexts vs
    return head :: tail

mutual
def check : Shape → Value → Bool
  | .pattern matcher, v => v.asStr.any matcher
  | .text low high, v => v.asStr.any fun s => within low high s.length
  | .label low high, v => v.asStr.any fun s => within low high s.length && labelCharsOk s
  | .gitRef pattern, v => v.asStr.any fun s => gitRef s pattern
  | .int low high, v => v.asI64.any fun n => decide (low ≤ n) && decide (n ≤ high)
  | .enum options, v => v.asStr.any fun s => options.any fun o => s == str o
  | .bool, v => v.asBool.isSome
  | .timestamp, v => (v.asStr.bind timestamp).isSome
  | .sig64, v => (v.asStr.bind b64urlDecode).any fun bytes => bytes.length == 64
  | .nullable inner, v => v.isNull || check inner v
  | .set inner low high, v =>
    v.asArray.any fun items =>
      within low high items.length && items.all (check inner)
        && (allTexts items).any (increasing ltText)
  | .object fields, v =>
    v.asObject.any (fun members => members.length == fields.length) && checkFields fields v
  | .custom function, v => function v
def checkFields : List (String × Shape) → Value → Bool
  | [], _ => true
  | (name,shape)::rest, v => (v.get? (str name)).any (check shape) && checkFields rest v
end

theorem checkFields_mem {fields : List (String × Shape)} {v : Value} {name : String}
    {shape : Shape} (h : checkFields fields v = true) (hm : (name,shape) ∈ fields) :
    check shape v[name]! = true := by
  induction fields with
  | nil => cases hm
  | cons field rest ih =>
    obtain ⟨k,sh⟩ := field
    simp only [checkFields, Bool.and_eq_true] at h
    rcases List.mem_cons.mp hm with he | hr
    · obtain ⟨rfl,rfl⟩ := Prod.mk.inj he
      cases hg : v.get? (str name) with
      | none => simp [hg] at h
      | some w => simpa [Value.getElem_text, Value.get, hg] using h.1
    · exact ih h.2 hr

/-- Every listed member of an accepted object has its shape. -/
theorem check_field {fields : List (String × Shape)} {v : Value} (name : String) (shape : Shape)
    (h : check (.object fields) v = true) (hm : (name,shape) ∈ fields) :
    check shape v[name]! = true := by
  simp only [check, Bool.and_eq_true] at h
  exact checkFields_mem h.2 hm

theorem check_pattern (matcher : Str → Bool) {v : Value} (h : check (.pattern matcher) v = true) :
    ∃ s, v = .string s ∧ matcher s = true := by
  cases v <;> simp_all [check, Value.asStr]

theorem check_enum {options : List String} {v : Value} (h : check (.enum options) v = true) :
    ∃ o ∈ options, v = .string (str o) := by
  cases v <;> simp_all [check, Value.asStr]

def ref : Shape := .pattern reference
def uuid7 : Shape := .pattern PlanText.uuid7
def hex64 : Shape := .pattern PlanText.hex64
def kid : Shape := .pattern keyId
def env : Shape := .pattern envName
def host : Shape := .pattern hostname
def cron : Shape := .pattern PlanText.cron
def tz : Shape := .pattern timezone
def path : Shape := .pattern absPath
def bucket : Shape := .pattern PlanText.bucket
def label : Shape := .label 1 128

def argvOk (v : Value) : Bool :=
  v.asArray.any fun items => within 1 64 items.length && items.all (check (.text 1 1024))

def argv : Shape := .custom argvOk

def sigRef : Shape := .object [("key_id", kid), ("sig", .sig64)]

def keyScope : Shape := .object
  [("project_ids", .set uuid7 1 32), ("environments", .set ref 1 16), ("server_level", .bool)]

def keyEntry : Shape := .object
  [("key_id", kid),
    ("alg", .enum ["ES256-raw"]),
    ("spki", .text 1 200),
    ("label", label),
    ("role", .enum ["owner", "deployer", "ci"]),
    ("presence", .enum ["biometry", "user_presence", "none"]),
    ("scope", .nullable keyScope),
    ("added_at", .timestamp),
    ("added_by", .nullable sigRef)]

def revocation : Shape := .object
  [("key_id", kid),
    ("revoked_at", .timestamp),
    ("reason", .enum ["lost", "compromised", "rotated", "other"]),
    ("revoked_by", sigRef)]

/-- Owner keys have no scope; deployer and ci keys do; ci keys are never
server-level and are exactly the keys without presence. -/
def keyScopeShapeOk (entry : Value) : Bool :=
  let role := entry["role"]!.text
  let scope := entry["scope"]!
  ((role == str "owner") == scope.isNull)
    && !(role == str "ci" && scope["server_level"]! == .bool true)
    && ((role == str "ci") == entry["presence"]!.is "none")

def ruleFields : List (String × Shape) :=
  [("version", .int 1 1),
    ("id", uuid7),
    ("label", label),
    ("trigger", .enum ["git.push"]),
    ("scope", .object
      [("project_id", uuid7),
        ("environment", ref),
        ("service_ids", .set uuid7 1 32),
        ("server_ids", .set uuid7 1 32),
        ("repo", .pattern repo),
        ("branch_patterns", .set (.gitRef true) 1 8)]),
    ("allowed_kinds", .set (.enum ["deploy", "scale"]) 1 8),
    ("limits", .object
      [("max_replicas", .nullable (.int 1 1000)), ("max_invocations_per_hour", .int 1 120)]),
    ("not_before", .timestamp),
    ("expires_at", .timestamp)]

/-- A rule that allows `scale` bounds the replicas; a deploy-only rule may leave them null. -/
def standingRule (v : Value) : Bool :=
  check (.object ruleFields) v
    && (!v["allowed_kinds"]!.items.any (·.is "scale")
      || (v["limits"]!)["max_replicas"]!.asI64.any fun n => decide (1 ≤ n) && decide (n ≤ 1000))

def rule : Shape := .custom standingRule

def healthcheck : Shape := .object
  [("kind", .enum ["http", "tcp", "cmd"]),
    ("path", .nullable path),
    ("port", .nullable (.int 1 65535)),
    ("command", .nullable argv),
    ("interval_seconds", .int 1 3600),
    ("timeout_seconds", .int 1 600),
    ("retries", .int 0 100),
    ("start_period_seconds", .int 0 3600)]

def port : Shape := .object
  [("container_port", .int 1 65535), ("protocol", .enum ["tcp", "udp"]), ("public", .bool)]

def mount : Shape := .object
  [("volume_id", uuid7), ("mount_path", path), ("read_only", .bool)]

def route : Shape := .object [("hostname", host), ("source", .enum ["default", "custom"])]

def binding : Shape := .object
  [("kind", .enum ["plain", "secret", "reference"]), ("ref", .nullable (.text 1 256))]

def sortedUniqueObjects (v : Value) (shape : Shape) (high : ℕ) (lt : Value → Value → Bool) : Bool :=
  v.asArray.any fun items =>
    items.length ≤ high && items.all (check shape)
      && (items.zip items.tail).all fun (a, b) => lt a b

def specPorts (v : Value) : Bool :=
  sortedUniqueObjects v port 32 fun a b =>
    let (m, n) := (a["container_port"]!.asI64.getD 0, b["container_port"]!.asI64.getD 0)
    m < n || (m == n && ltText a["protocol"]!.text b["protocol"]!.text)

def specMounts (v : Value) : Bool :=
  sortedUniqueObjects v mount 16 fun a b => ltText a["mount_path"]!.text b["mount_path"]!.text

def specRoutes (v : Value) : Bool :=
  sortedUniqueObjects v route 16 (fun a b => ltText a["hostname"]!.text b["hostname"]!.text)
    && v.items.all fun r =>
      if r["source"]!.is "default" then defaultRoute r["hostname"]!.text
      else !endsWith r["hostname"]!.text ".sslip.io"

def imageRepository (v : Value) : Bool :=
  v.asStr.any fun s => within 1 255 s.length && PlanText.imageRepository s

def specEnv (v : Value) : Bool :=
  v.asObject.any fun members =>
    members.length ≤ 256 && members.all fun (name, value) =>
      envName name && check binding value
        && (value["kind"]!.is "plain" == value["ref"]!.isNull)

def specFields : List (String × Shape) :=
  [("version", .int 1 1),
    ("service_id", uuid7),
    ("image_repository", .custom imageRepository),
    ("image_digest_hex", hex64),
    ("entrypoint", .nullable argv),
    ("command", .nullable argv),
    ("working_dir", .nullable path),
    ("user", .nullable (.pattern user)),
    ("env", .custom specEnv),
    ("ports", .custom specPorts),
    ("mounts", .custom specMounts),
    ("resources", .object
      [("cpu_millis", .nullable (.int 10 256000)),
        ("memory_bytes", .nullable (.int (2^22) (2^40))),
        ("pids_limit", .nullable (.int 16 (2^22)))]),
    ("privileged", .bool),
    ("cap_add", .set (.pattern capability) 0 16),
    ("network", .object
      [("mode", .enum ["project", "host", "none"]), ("aliases", .set host 0 8)]),
    ("healthcheck", .nullable healthcheck),
    ("replicas", .int 0 1000),
    ("placement", .object [("server_ids", .set uuid7 1 32)]),
    ("secrets_as_files_only", .bool),
    ("service_kind", .enum ["web", "worker", "database", "bucket", "cron", "static"]),
    ("otel_inject", .bool)]

end Permanu.PlanSchema
