import PermanuAgent.PlanSchema

/-!
# Service specs

A service spec is a closed object with three optional members: the build
recipe, the routes and the strategy. A spec is elevated when it is privileged,
adds a capability other than binding low ports, or uses the host network.
-/

set_option autoImplicit false

namespace Permanu.PlanSpec
open ByteText JsonValue PlanSchema PlanText

def kKeywords : List String :=
  ["pass", "password", "passwd", "passphrase", "pwd", "secret", "token", "apikey", "api_key",
    "accesskey", "access_key", "privatekey", "private_key", "clientsecret", "client_secret",
    "credential", "credentials", "authorization", "authtoken", "auth_token", "sessionid",
    "session_id", "sessiontoken", "session_token", "cookie", "databaseurl", "database_url", "dsn",
    "connstring", "conn_string", "connectionstring", "connection_string"]

def segments (body : Str) : Bool :=
  (body.splitOn (byte '_')).all fun part => !part.isEmpty && part.all isAlphanumeric

section
variable (value : Str)

def prefixSegments : Bool :=
  value.isEmpty || (stripSuffix value "_").any segments

def suffixSegments : Bool :=
  value.isEmpty || (value.dropPrefix? (str "_")).any segments

def toLower (s : Str) : Str := s.map fun b => if isUpper b then b + 32 else b

def secretLookingName (name : Str) : Bool :=
  let lower := toLower name
  (List.range (lower.length + 1)).any fun start =>
    prefixSegments (lower.take start) && kKeywords.any fun keyword =>
      ((lower.drop start).dropPrefix? (str keyword)).any suffixSegments

def pathSegment (part : Str) : Bool :=
  within 1 64 part.length && part != str "." && part != str ".."
    && part.all fun b => isAlphanumeric b || oneOf "._-" b

def relativePath : Bool :=
  let parts := value.splitOn (byte '/')
  within 1 16 parts.length && parts.all pathSegment

def subdir : Bool := value.isEmpty || relativePath value
def context (value : Str) : Bool := value == str "." || relativePath value

def buildTarget : Bool :=
  within 1 64 value.length && first value isAlphanumeric
    && value.tail.all fun b => isAlphanumeric b || oneOf "._-" b

def buildRef : Bool :=
  match value.dropPrefix? (str "refs/tags/") with
  | some tag => gitRef (str "refs/heads/" ++ tag) false
  | none => gitRef value false

def hostChars (host : Str) : Bool :=
  within 1 253 host.length && host.all (fun b => edge b || oneOf ".-" b)
    && first host isAlphanumeric && last host isAlphanumeric

def portDigits (port : Str) : Bool := within 1 5 port.length && port.all isDigit

def authority : Bool :=
  match splitOnce ':' value with
  | some (host, port) => hostChars host && portDigits port
  | none => hostChars value

def repoUrl : Bool :=
  match value.dropPrefix? (str "https://") with
  | none => false
  | some rest =>
    let (auth, path) := (splitOnce '/' rest).getD (rest, [])
    let parts := path.splitOn (byte '/')
    authority auth && !path.isEmpty && within 1 8 parts.length
      && parts.all fun part => !part.isEmpty && part.all fun b => isAlphanumeric b || oneOf "._-" b

end

def buildArgs (v : Value) : Bool :=
  v.asObject.any fun members =>
    members.length ≤ 64 && members.all fun (name, literal) =>
      envName name && check (.text 0 4096) literal && !secretLookingName name

def build : Shape := .object
  [("source", .object
      [("repo_url", .pattern repoUrl), ("ref", .pattern buildRef), ("subdir", .pattern subdir)]),
    ("dockerfile", .pattern relativePath),
    ("context", .pattern context),
    ("target", .nullable (.pattern buildTarget)),
    ("build_args", .custom buildArgs),
    ("build_secrets", .set env 0 32)]

def buildRecipe (v : Value) : Bool :=
  check build v && v["build_secrets"]!.asArray.any fun secrets =>
    secrets.all fun name => name.asStr.any fun name => (v["build_args"]!.get? name).isNone

def strategyOk (v : Value) : Bool := v.is "rolling" || v.is "recreate"

/-- Every field rule of a spec. A spec that mounts a volume never rolls and has at
most one replica, so no two containers share a volume. -/
def specShape (v : Value) : Bool :=
  v.asObject.isSome
    && (v.get? (str "build")).all buildRecipe
    && (v.get? (str "routes")).all specRoutes
    && (v.get? (str "strategy")).all strategyOk
    && check (.object specFields) (((v.remove "build").remove "routes").remove "strategy")
    && (v["mounts"]!.items.isEmpty
      || (!v["strategy"]!.is "rolling" && v["replicas"]!.asI64.getD 0 ≤ 1))

def spec : Shape := .custom specShape

def specElevated (v : Value) : Bool :=
  v["cap_add"]!.items.any (fun cap => !cap.is "NET_BIND_SERVICE")
    || v["privileged"]! == .bool true
    || (v["network"]!)["mode"]!.is "host"

def evidence : Shape := .object
  [("provider", .enum ["github", "gitlab", "gitea", "generic"]),
    ("repo", .pattern repo),
    ("ref", .gitRef false),
    ("commit_sha", .pattern hex40),
    ("commit_time", .timestamp),
    ("delivery_id", .pattern deliveryId),
    ("body_digest_hex", hex64),
    ("received_at", .timestamp)]

def invocation : Shape := .object
  [("rule_id", uuid7),
    ("rule_digest_hex", hex64),
    ("trigger", .enum ["git.push"]),
    ("evidence", evidence)]

def signature : Shape := .object
  [("key_id", kid), ("alg", .text 1 32), ("sig", .sig64), ("signed_at", .timestamp)]

def stringSet (v : Value) : List Str := v.items.filterMap Value.asStr

def sameSet (a b : List Str) : Bool := a.all b.contains && b.all a.contains

end Permanu.PlanSpec
