import PermanuAgent.PlanActions
import PermanuAgent.ResultSteps

/-!
# Trust files

A trust file lists keys in the order they were added. The first is the owner
accepted on first use; every later one carries the signature of an earlier
owner. Revocations are signed by an owner, and a compromised key takes every
key it added with it.
-/

set_option autoImplicit false

namespace Permanu.PlanTrust
open ByteText JsonValue PlanSchema PlanCrypto PlanJcs List
open ResultSteps

def testKeyIds : List String :=
  ["dYLNItf797wK7n5moGt2cw", "Hph9XRkn48eogeehAgeI9A", "AqhPUHwy5byXy_JwVWyl7w",
    "cJWnw46mKT4S-FIYD8h8iA", "TTnId5ZJWi6UIgsNoJGjLA"]

inductive TrustMode where
  | production
  | test
  deriving DecidableEq, Repr

structure TrustedKey where
  publicKey : PublicKey
  entry : Value
  deriving DecidableEq, Repr

abbrev Keys := List (Str × TrustedKey)

structure TrustStore where
  serverId : Str
  keys : Keys
  /-- Direct revocations and the keys added by compromised keys. -/
  revoked : List Str
  compromised : List Str
  revocations : List (Str × (Str × Str))
  mode : TrustMode
  document : Value

def emptyTrust : TrustStore := ⟨[], [], [], [], [], .production, .null⟩

def isTestKeyIn (mode : TrustMode) (keyId : Str) : Bool :=
  mode == .production && testKeyIds.any fun k => keyId == str k

def TrustStore.isTestKey (trust : TrustStore) (keyId : Str) : Bool := isTestKeyIn trust.mode keyId

def TrustStore.generation (trust : TrustStore) : ℕ :=
  trust.document["keys"]!.items.length + trust.document["revocations"]!.items.length

def TrustStore.activeOwnerCount (trust : TrustStore) : ℕ :=
  (trust.keys.filter fun (id, key) =>
    key.entry["role"]!.is "owner" && !trust.revoked.contains id).length

variable (prim : Primitives)

def keyEntries (v : Value) : Bool := v.asArray.any fun items => items.all (check keyEntry)
def revocationEntries (v : Value) : Bool := v.asArray.any fun items => items.all (check revocation)

def trustFile : Shape := .object
  [("version", .int 1 1), ("server_id", uuid7), ("keys", .custom keyEntries),
    ("revocations", .custom revocationEntries)]

def statementDigest (entry : Value) (pre : Str) (field : String) : Option Digest :=
  if entry.asObject.isSome then
    (canonicalize (entry.set field .null)).map (prefixedDigest prim pre)
  else none

def signedByOwner (keys : Keys) (signer : Value) (digest : Option Digest) : Bool :=
  match signer["key_id"]!.asStr.bind (keys.lookup ·), digest with
  | some owner, some digest =>
    owner.entry["role"]!.is "owner" && (signer["sig"]!.asStr.bind b64urlDecode).any fun sig =>
      owner.publicKey.verifyPrehash prim digest sig
  | _, _ => false

def acceptKey (mode : TrustMode) (keys : Keys) (entry : Value) : Except String Keys :=
  match entry["key_id"]!.asStr with
  | none => .error "schema: key_id"
  | some keyId =>
    match parseSpkiBase64 prim entry["spki"]!.text with
    | none => .error "spki is not an uncompressed P-256 point"
    | some publicKey =>
      if publicKey.keyId ≠ keyId then .error "key_id does not match the spki"
      else if (keys.lookup keyId).isSome then .error "duplicate key_id"
      else if !keyScopeShapeOk entry then .error "scope or presence does not match the role"
      else if isTestKeyIn mode keyId then .error "lists a public TEST key"
      else if keys.isEmpty && (!entry["added_by"]!.isNull || !entry["role"]!.is "owner") then
        .error "keys[0] must be the TOFU owner"
      else if !keys.isEmpty && !signedByOwner prim keys entry["added_by"]!
          (statementDigest prim entry keyAddPrefix "added_by") then
        .error "added_by is not a valid earlier owner signature"
      else .ok (keys ++ [(keyId, ⟨publicKey, entry⟩)])

def acceptKeys (mode : TrustMode) : Keys → List Value → Except String Keys
  | keys, [] => .ok keys
  | keys, entry::rest => do
    let keys ← acceptKey prim mode keys entry
    acceptKeys mode keys rest

structure Revocations where
  revoked : List Str
  compromised : List Str
  byKey : List (Str × (Str × Str))

def acceptRevocation (keys : Keys) (r : Revocations) (entry : Value) : Except String Revocations :=
  match entry["key_id"]!.asStr with
  | none => .error "schema: key_id"
  | some keyId =>
    if (keys.lookup keyId).isNone then .error "revocation names an unknown key"
    else if !signedByOwner prim keys entry["revoked_by"]!
        (statementDigest prim entry keyRevokePrefix "revoked_by") then
      .error "revoked_by is not a valid owner signature"
    else if r.revoked.contains keyId then .error "key revoked twice"
    else .ok ⟨r.revoked ++ [keyId],
      if entry["reason"]!.is "compromised" then r.compromised ++ [keyId] else r.compromised,
      r.byKey ++ [(keyId, (entry["revoked_at"]!.text, entry["reason"]!.text))]⟩

def acceptRevocations (keys : Keys) : Revocations → List Value → Except String Revocations
  | r, [] => .ok r
  | r, entry::rest => do
    let r ← acceptRevocation prim keys r entry
    acceptRevocations keys r rest

def cascade (keys : Keys) (compromised : List Str) : List Str :=
  keys.foldl (fun found key =>
    if (key.2.entry["added_by"]!)["key_id"]!.asStr.any found.contains then found ++ [key.1]
      else found)
    compromised

def validateTrust (document : Value) (mode : TrustMode) : Except String TrustStore :=
  if !check trustFile document then .error "schema: unknown, missing or malformed field"
  else if document["keys"]!.items.isEmpty then .error "keys[0] must be the TOFU owner"
  else do
    let keys ← acceptKeys prim mode [] document["keys"]!.items
    let r ← acceptRevocations prim keys ⟨[], [], []⟩ document["revocations"]!.items
    let compromised := cascade keys r.compromised
    return {
      serverId := document["server_id"]!.text
      keys := keys
      revoked := r.revoked ++ compromised
      compromised := compromised
      revocations := r.byKey
      mode := mode
      document := document }

structure TrustedEntry (mode : TrustMode) (keyId : Str) (key : TrustedKey) : Prop where
  name : key.entry["key_id"]! = .string keyId
  scope : keyScopeShapeOk key.entry = true
  notTest : isTestKeyIn mode keyId = false
  point : parseSpkiBase64 prim key.entry["spki"]!.text = some key.publicKey
  id : key.publicKey.keyId = keyId

variable {mode : TrustMode} {keys' : Keys} {entry : Value}

theorem acceptKey_entries {keys : Keys}
    (h : acceptKey prim mode keys entry = .ok keys') :
    ∃ keyId key, keys' = keys ++ [(keyId,key)] ∧ TrustedEntry prim mode keyId key := by
  unfold acceptKey at h
  split at h
  · cases h
  · rename_i keyId hid
    split at h
    · cases h
    · rename_i publicKey hpk
      split_ifs at h with h1 h2 h3 h4 h5 h6
      cases h
      refine ⟨keyId,⟨publicKey,entry⟩,rfl,?_,?_,?_,hpk,?_⟩
      · exact Value.asStr_eq_some.mp hid
      · simpa using h3
      · simpa using h4
      · simpa using h1

theorem acceptKeys_entries {entries : List Value} (keys : Keys)
    (h : acceptKeys prim mode keys entries = .ok keys')
    (hk : ∀ k ∈ keys, TrustedEntry prim mode k.1 k.2) :
    ∀ k ∈ keys', TrustedEntry prim mode k.1 k.2 := by
  induction entries generalizing keys with
  | nil =>
    cases h
    exact hk
  | cons entry rest ih =>
    simp only [acceptKeys, bind_ok] at h
    obtain ⟨mid,hm,hr⟩ := h
    obtain ⟨keyId,key,rfl,he⟩ := acceptKey_entries prim hm
    apply ih _ hr
    exact forall_mem_append.mpr ⟨hk,forall_mem_singleton.mpr he⟩

/-- Every key of a valid trust store is a well-formed entry under its own identifier. -/
theorem validateTrust_entry {document : Value} {trust : TrustStore}
    (h : validateTrust prim document mode = .ok trust) {keyId : Str} {key : TrustedKey}
    (hk : trust.keys.lookup keyId = some key) : TrustedEntry prim mode keyId key := by
  unfold validateTrust at h
  split_ifs at h
  simp only [bind_ok, pure_ok] at h
  obtain ⟨keys,hkeys,r,_,rfl⟩ := h
  obtain ⟨before,after,he,_⟩ := lookup_eq_some_iff.mp hk
  have hm : (keyId,key) ∈ keys := by
    change keys = _ at he
    simp [he]
  exact acceptKeys_entries prim [] hkeys (by simp) (keyId,key) hm

theorem keyScopeShapeOk_owner (h : keyScopeShapeOk entry = true)
    (ho : entry["role"]!.is "owner" = true) : entry["scope"]!.isNull = true := by
  simp only [keyScopeShapeOk, Bool.and_eq_true, Value.is_text ho] at h
  simpa using h.1.1

inductive TrustWriteError where
  | alreadyBootstrapped
  | currentInvalid (reason : String)
  | rejected (reason : String)
  deriving DecidableEq, Repr

inductive TrustChange where
  | bootstrap (serverId : Str) (ownerKey : Value)
  | addKey (entry : Value)
  | revoke (entry : Value)
  deriving DecidableEq, Repr

def push (document : Value) (field : String) (value : Value) : Except TrustWriteError Value :=
  match document[field]!.asArray with
  | none => .error (.currentInvalid (field ++ " is not an array"))
  | some items => .ok (document.set field (.array (items ++ [value])))

def changedDocument (current : Option TrustStore) :
    TrustChange → Except TrustWriteError Value
  | .bootstrap serverId ownerKey =>
    match current with
    | some _ => .error .alreadyBootstrapped
    | none => .ok (.object [(str "keys", .array [ownerKey]), (str "revocations", .array []),
        (str "server_id", .string serverId), (str "version", .number 1)])
  | .addKey entry =>
    match current with
    | none => .error (.currentInvalid "no valid trust file")
    | some store =>
      if (store.keys.lookup entry["key_id"]!.text).isSome then
        .error (.rejected "key_id already present")
      else push store.document "keys" entry
  | .revoke entry =>
    match current with
    | none => .error (.currentInvalid "no valid trust file")
    | some store =>
      if (store.revocations.lookup entry["key_id"]!.text).isSome then
        .error (.rejected "key already revoked")
      else push store.document "revocations" entry

def isRevoke : TrustChange → Bool
  | .revoke _ => true
  | _ => false

/-- The new document of a change: a superset of the current one that validates
and, after a revocation, keeps an active owner. -/
def applyChange (current : Option TrustStore) (change : TrustChange) (mode : TrustMode) :
    Except TrustWriteError Value := do
  let document ← changedDocument current change
  match validateTrust prim document mode with
  | .error reason => .error (.rejected reason)
  | .ok validated =>
    if isRevoke change && validated.activeOwnerCount == 0 then
      .error (.rejected "would leave no active owner key")
    else return document

end Permanu.PlanTrust
