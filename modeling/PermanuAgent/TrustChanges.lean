import PermanuAgent.JsonOrder
import PermanuAgent.ListCascade
import PermanuAgent.PlanAuthority

/-!
# Changes of a trust file

A trust file is read from its lists: each key names the earlier owner that
added it, and a key revoked as compromised takes along everything it
introduced. Changes append one entry and are validated as a whole, so what an
accepted file says stays said in every later one.
-/

set_option autoImplicit false

namespace Permanu.TrustChanges
open ByteText JsonValue PlanSchema PlanCrypto List Prod Except PlanTrust Value
open ResultSteps ListCascade PlanTrust PlanAuthority

def addedBy (k : Str × TrustedKey) : Option Str := (k.2.entry["added_by"]!)["key_id"]!.asStr

theorem cascade_eq (keys : Keys) (compromised : List Str) :
    cascade keys compromised = ListCascade.cascade fst addedBy keys compromised := rfl

/-- What an entry was checked against the keys before it. -/
structure Accepted (prim : Primitives) (keys : Keys) (entry : Value) (keyId : Str)
    (key : TrustedKey) : Prop where
  value : key.entry = entry
  name : entry["key_id"]! = .string keyId
  fresh : keys.lookup keyId = none
  first : keys = [] → entry["added_by"]!.isNull = true ∧ entry["role"]!.is "owner" = true
  later : keys ≠ [] → signedByOwner prim keys entry["added_by"]!
    (statementDigest prim entry keyAddPrefix "added_by") = true

theorem acceptKey_accepted {entry : Value} {keys keys' : Keys} (prim : Primitives)
    {mode : TrustMode} (h : acceptKey prim mode keys entry = .ok keys') :
    ∃ keyId key, keys' = keys ++ [(keyId,key)] ∧ Accepted prim keys entry keyId key := by
  unfold acceptKey at h
  split at h
  · cases h
  · rename_i keyId hid
    split at h
    · cases h
    · rename_i publicKey _
      split_ifs at h with h1 h2 h3 h4 h5 h6
      cases h
      refine ⟨keyId,⟨publicKey,entry⟩,rfl,rfl,asStr_eq_some.mp hid,
        Option.not_isSome_iff_eq_none.mp h2,fun hk => ?_,fun hk => ?_⟩
      · simpa [hk] using h5
      · simpa [hk] using h6

structure KeyList (keys : Keys) (entries : List Value) : Prop where
  entries : keys.map (fun k => k.2.entry) = entries
  names : ∀ k ∈ keys, k.2.entry["key_id"]! = .string k.1
  nodup : (keys.map fst).Nodup
  origins : OriginsFirst fst addedBy keys
  owner : ∀ k ∈ keys.head?, k.2.entry["role"]!.is "owner" = true

theorem addedBy_of_signed {keys : Keys} (prim : Primitives) {signer : Value}
    {digest : Option Digest} (h : signedByOwner prim keys signer digest = true) :
    ∃ p, signer["key_id"]!.asStr = some p ∧ p ∈ keys.map fst := by
  simp only [signedByOwner] at h
  split at h
  · rename_i _ _ owner _ hs
    obtain ⟨p,hp,hl⟩ := Option.bind_eq_some_iff.mp hs
    obtain ⟨before,after,rfl,_⟩ := lookup_eq_some_iff.mp hl
    exact ⟨p,hp,by simp⟩
  · cases h

theorem KeyList.accepted {entry : Value} {keys : Keys} {entries : List Value} (prim : Primitives)
    (h : KeyList keys entries) {keyId : Str} {key : TrustedKey}
    (ha : Accepted prim keys entry keyId key) :
    KeyList (keys ++ [(keyId,key)]) (entries ++ [entry]) := by
  have hfresh : keyId ∉ keys.map fst := by
    intro hm
    obtain ⟨k,hk,rfl⟩ := mem_map.mp hm
    have hnone := lookup_eq_none_iff.mp ha.fresh k hk
    simp at hnone
  have horigin : ∀ p, addedBy (keyId,key) = some p → p ∈ keys.map fst := by
    intro p hp
    rw [addedBy, ha.value] at hp
    by_cases hk : keys = []
    · have hnull := (ha.first hk).1
      cases hv : entry["added_by"]! with
      | null =>
        rw [hv] at hp
        cases hp
      | _ =>
        rw [hv] at hnull
        cases hnull
    · obtain ⟨q,hq,hm⟩ := addedBy_of_signed prim (ha.later hk)
      rw [hq] at hp
      exact Option.some.inj hp ▸ hm
  refine ⟨?_,forall_mem_append.mpr ⟨h.names,forall_mem_singleton.mpr ?_⟩,?_,
    fun before r after hsplit p hp => ?_,fun k hm => ?_⟩
  · rw [map_append, h.entries, map_singleton, ha.value]
  · rw [ha.value]
    exact ha.name
  · rw [map_append, nodup_append]
    refine ⟨h.nodup,nodup_singleton _,?_⟩
    intro a hm b hb heq
    have hkey : a = keyId := heq.trans (mem_singleton.mp hb)
    rw [hkey] at hm
    exact hfresh hm
  · -- the new row is the last one; every other row was there before
    rcases eq_nil_or_concat after with rfl | ⟨rest,last,rfl⟩
    · obtain ⟨rfl,hr⟩ := append_inj' hsplit rfl
      obtain rfl := (List.cons.inj hr).1
      exact horigin p hp
    · have hshift : keys ++ [(keyId,key)] = (before ++ r :: rest) ++ [last] := by
        simpa using hsplit
      obtain ⟨hkeys,_⟩ := append_inj' hshift rfl
      exact h.origins before r rest hkeys p hp
  · cases keys with
    | nil =>
      obtain rfl : (keyId,key) = k := by simpa using hm
      rw [ha.value]
      exact (ha.first rfl).2
    | cons first rest => exact h.owner k (by simpa using hm)

theorem acceptKeys_keyList {keys' : Keys} {rest : List Value} (prim : Primitives) {mode : TrustMode}
    (keys : Keys) (entries : List Value) (hk : KeyList keys entries)
    (h : acceptKeys prim mode keys rest = .ok keys') : KeyList keys' (entries ++ rest) := by
  induction rest generalizing keys entries with
  | nil =>
    cases h
    rwa [append_nil]
  | cons entry rest ih =>
    simp only [acceptKeys, bind_ok] at h
    obtain ⟨mid,hm,hr⟩ := h
    obtain ⟨keyId,key,rfl,ha⟩ := acceptKey_accepted prim hm
    have hnext := ih _ _ (hk.accepted prim ha) hr
    rwa [append_assoc] at hnext

theorem KeyList.nil : KeyList [] [] :=
  ⟨rfl,by simp,nodup_nil,by simp [OriginsFirst],by simp⟩

def isCompromise (entry : Value) : Bool := entry["reason"]!.is "compromised"

def keyName (entry : Value) : Str := entry["key_id"]!.text

theorem acceptRevocation_ok {entry : Value} {keys : Keys} (prim : Primitives) {r r' : Revocations}
    (h : acceptRevocation prim keys r entry = .ok r') :
    entry["key_id"]! = .string (keyName entry) ∧ r'.revoked = r.revoked ++ [keyName entry] ∧
      r'.compromised = r.compromised ++ (if isCompromise entry then [keyName entry] else []) ∧
      r'.byKey = r.byKey ++
        [(keyName entry, (entry["revoked_at"]!.text, entry["reason"]!.text))] := by
  unfold acceptRevocation at h
  split at h
  · cases h
  · rename_i keyId hid
    have hs : entry["key_id"]! = .string keyId := asStr_eq_some.mp hid
    have hn : keyName entry = keyId := by
      rw [keyName, hs]
      rfl
    split_ifs at h with h1 h2 h3 h4
    · cases h
      rw [hn]
      exact ⟨hs,rfl,by rw [isCompromise, if_pos h4],rfl⟩
    · cases h
      rw [hn]
      exact ⟨hs,rfl,by rw [isCompromise, if_neg h4, append_nil],rfl⟩

structure RevocationList (r : Revocations) (entries : List Value) : Prop where
  names : ∀ e ∈ entries, e["key_id"]! = .string (keyName e)
  revoked : r.revoked = entries.map keyName
  compromised : r.compromised = (entries.filter isCompromise).map keyName
  byKey : r.byKey =
    entries.map fun e => (keyName e, (e["revoked_at"]!.text, e["reason"]!.text))

theorem acceptRevocations_list {keys : Keys} {rest : List Value} (prim : Primitives)
    {r' : Revocations} (r : Revocations) (entries : List Value) (hr : RevocationList r entries)
    (h : acceptRevocations prim keys r rest = .ok r') : RevocationList r' (entries ++ rest) := by
  induction rest generalizing r entries with
  | nil =>
    cases h
    rwa [append_nil]
  | cons entry rest ih =>
    simp only [acceptRevocations, bind_ok] at h
    obtain ⟨mid,hm,hrest⟩ := h
    obtain ⟨hname,hrev,hcomp,hby⟩ := acceptRevocation_ok prim hm
    have hmid : RevocationList mid (entries ++ [entry]) := by
      refine ⟨forall_mem_append.mpr ⟨hr.names,forall_mem_singleton.mpr hname⟩,?_,?_,?_⟩
      · rw [hrev, hr.revoked, map_append, map_singleton]
      · rw [hcomp, hr.compromised, filter_append, map_append, filter_singleton]
        by_cases hc : isCompromise entry = true <;> simp [hc]
      · rw [hby, hr.byKey, map_append, map_singleton]
    have hnext := ih mid _ hmid hrest
    rwa [append_assoc] at hnext

structure Validated (prim : Primitives) (document : Value) (mode : TrustMode) (trust : TrustStore)
    (r : Revocations) :
    Prop where
  shape : check trustFile document = true
  nonempty : document["keys"]!.items ≠ []
  accepted : acceptKeys prim mode [] document["keys"]!.items = .ok trust.keys
  keys : KeyList trust.keys document["keys"]!.items
  revoked : acceptRevocations prim trust.keys ⟨[], [], []⟩ document["revocations"]!.items = .ok r
  list : RevocationList r document["revocations"]!.items
  store : trust = ⟨document["server_id"]!.text,trust.keys,
    r.revoked ++ cascade trust.keys r.compromised,
    cascade trust.keys r.compromised,r.byKey,mode,document⟩

theorem validateTrust_ok (prim : Primitives) {document : Value} {mode : TrustMode}
    {trust : TrustStore} (h : validateTrust prim document mode = .ok trust) :
    ∃ r, Validated prim document mode trust r := by
  unfold validateTrust at h
  split_ifs at h with h1 h2
  simp only [bind_ok, pure_ok] at h
  obtain ⟨keys,hkeys,r,hr,rfl⟩ := h
  refine ⟨r,by simpa using h1,by simpa using h2,hkeys,?_,hr,?_,rfl⟩
  · exact acceptKeys_keyList prim [] [] KeyList.nil hkeys
  · exact acceptRevocations_list prim ⟨[],[],[]⟩ [] ⟨by simp,rfl,rfl,rfl⟩ hr

/-- The file lists `child` as added by `parent`. -/
def AddedBy (document : Value) (parent child : Str) : Prop :=
  ∃ entry ∈ document["keys"]!.items,
    entry["key_id"]! = .string child ∧ (entry["added_by"]!)["key_id"]! = .string parent

def RevokedIn (document : Value) (keyId : Str) : Prop :=
  ∃ entry ∈ document["revocations"]!.items, entry["key_id"]! = .string keyId

def CompromisedIn (document : Value) (keyId : Str) : Prop :=
  ∃ entry ∈ document["revocations"]!.items,
    entry["key_id"]! = .string keyId ∧ entry["reason"]! = .string (str "compromised")

theorem isCompromise_iff (entry : Value) :
    isCompromise entry = true ↔ entry["reason"]! = .string (str "compromised") := by
  constructor
  · exact is_iff.mp
  · intro h
    rw [isCompromise, h]
    rfl

theorem KeyList.leads_iff {keys : Keys} {document : Value}
    (h : KeyList keys document["keys"]!.items) {p c : Str} :
    Leads fst addedBy keys p c ↔ AddedBy document p c := by
  constructor
  · rintro ⟨k,hk,rfl,ho⟩
    refine ⟨k.2.entry,?_,h.names k hk,asStr_eq_some.mp ho⟩
    rw [← h.entries]
    exact mem_map.mpr ⟨k,hk,rfl⟩
  · rintro ⟨entry,he,hname,ho⟩
    rw [← h.entries] at he
    obtain ⟨k,hk,rfl⟩ := mem_map.mp he
    have hid : k.1 = c := string.inj ((h.names k hk).symm.trans hname)
    exact ⟨k,hk,hid,asStr_eq_some.mpr ho⟩

theorem keyName_eq {entries : List Value} {r : Revocations} (h : RevocationList r entries)
    {e : Value} (he : e ∈ entries) {k : Str} : keyName e = k ↔ e["key_id"]! = .string k := by
  rw [h.names e he, string.injEq]

theorem RevocationList.mem_revoked {document : Value} {r : Revocations}
    (h : RevocationList r document["revocations"]!.items) (k : Str) :
    k ∈ r.revoked ↔ RevokedIn document k := by
  rw [h.revoked, mem_map]
  exact exists_congr fun e => and_congr_right fun he => keyName_eq h he

theorem RevocationList.mem_compromised {document : Value} {r : Revocations}
    (h : RevocationList r document["revocations"]!.items) (k : Str) :
    k ∈ r.compromised ↔ CompromisedIn document k := by
  simp only [h.compromised, mem_map, mem_filter, isCompromise_iff]
  constructor
  · rintro ⟨e,⟨he,hc⟩,hk⟩
    exact ⟨e,he,(keyName_eq h he).mp hk,hc⟩
  · rintro ⟨e,he,hk,hc⟩
    exact ⟨e,⟨he,hc⟩,(keyName_eq h he).mpr hk⟩

theorem Validated.mem_compromised {prim : Primitives} {document : Value} {mode : TrustMode}
    {trust : TrustStore} {r : Revocations} (h : Validated prim document mode trust r) {k : Str} :
    k ∈ trust.compromised ↔ ∃ root, CompromisedIn document root ∧
      Relation.ReflTransGen (AddedBy document) root k := by
  have hleads : Leads fst addedBy trust.keys = AddedBy document := by
    ext p c
    exact h.keys.leads_iff
  rw [h.store]
  rw [cascade_eq, mem_cascade _ _ _ _ h.keys.nodup h.keys.origins, hleads]
  simp only [h.list.mem_compromised]

theorem Validated.mem_revoked {prim : Primitives} {document : Value} {mode : TrustMode}
    {trust : TrustStore} {r : Revocations} (h : Validated prim document mode trust r) {k : Str} :
    k ∈ trust.revoked ↔ RevokedIn document k ∨ k ∈ trust.compromised := by
  rw [h.store]
  rw [mem_append, h.list.mem_revoked]

theorem revokedIn_perm {permuted document : Value}
    (h : permuted["revocations"]!.items.Perm document["revocations"]!.items) (k : Str) :
    RevokedIn permuted k ↔ RevokedIn document k := by
  simp only [RevokedIn, h.mem_iff]

theorem compromisedIn_perm {permuted document : Value}
    (h : permuted["revocations"]!.items.Perm document["revocations"]!.items) (k : Str) :
    CompromisedIn permuted k ↔ CompromisedIn document k := by
  simp only [CompromisedIn, h.mem_iff]

/-- A validated file revokes exactly the keys with a revocation and those
introduced, directly or not, by a compromised one. The order of its revocations
does not matter. -/
theorem compromise_closes_over_introductions (prim : Primitives) (document : Value)
    (mode : TrustMode) (trust : TrustStore) (h : validateTrust prim document mode = .ok trust) :
    (∀ k, k ∈ trust.revoked ↔ RevokedIn document k ∨ ∃ root, CompromisedIn document root ∧
      Relation.TransGen (AddedBy document) root k) ∧
    (∀ k, k ∈ trust.compromised ↔ CompromisedIn document k ∨ ∃ root, CompromisedIn document root ∧
      Relation.TransGen (AddedBy document) root k) ∧
    ∀ permuted permutedTrust, permuted["keys"]! = document["keys"]! →
      permuted["revocations"]!.items.Perm document["revocations"]!.items →
      validateTrust prim permuted mode = .ok permutedTrust →
      ∀ k, (k ∈ permutedTrust.revoked ↔ k ∈ trust.revoked) ∧
        (k ∈ permutedTrust.compromised ↔ k ∈ trust.compromised) := by
  obtain ⟨r,hv⟩ := validateTrust_ok prim h
  have hcomp : ∀ k, k ∈ trust.compromised ↔ CompromisedIn document k ∨
      ∃ root, CompromisedIn document root ∧ Relation.TransGen (AddedBy document) root k := by
    intro k
    rw [hv.mem_compromised]
    constructor
    · rintro ⟨root,hroot,hpath⟩
      rcases Relation.reflTransGen_iff_eq_or_transGen.mp hpath with rfl | hstep
      · exact .inl hroot
      · exact .inr ⟨root,hroot,hstep⟩
    · rintro (hk | ⟨root,hroot,hstep⟩)
      · exact ⟨k,hk,.refl⟩
      · exact ⟨root,hroot,hstep.to_reflTransGen⟩
  have hdirect : ∀ k, CompromisedIn document k → RevokedIn document k := by
    rintro k ⟨e,he,hk,_⟩
    exact ⟨e,he,hk⟩
  refine ⟨fun k => ?_,hcomp,fun permuted permutedTrust hkeys hperm hp k => ?_⟩
  · rw [hv.mem_revoked, hcomp, ← or_assoc, or_iff_left_of_imp (hdirect k)]
  · obtain ⟨r',hv'⟩ := validateTrust_ok prim hp
    have hadded : AddedBy permuted = AddedBy document := by
      ext p c
      rw [AddedBy, AddedBy, hkeys]
    have hsame : k ∈ permutedTrust.compromised ↔ k ∈ trust.compromised := by
      simp only [hv'.mem_compromised, hv.mem_compromised, compromisedIn_perm hperm, hadded]
    refine ⟨?_,hsame⟩
    rw [hv'.mem_revoked, hv.mem_revoked, revokedIn_perm hperm, hsame]

def introducedEntry (point : Str) (hash : Digest) (label : String) (parent : Value) (sig : Str) :
    Value := obj
  [("key_id", .string (b64urlEncode (hash.val.take 16))), ("alg", .txt "ES256-raw"),
    ("spki", .string (Base64Text.encodeStandard (spkiPrefix ++ point))), ("label", .txt label),
    ("role", .txt "owner"), ("presence", .txt "biometry"), ("scope", .null),
    ("added_at", .txt "2026-01-01T00:00:00Z"),
    ("added_by", .obj [("key_id", parent), ("sig", .string (b64urlEncode sig))])]

def secondPoint : Str :=
  bigEndian 33 0x042d6e58bfe6d04faad7bfdfe46972929397a4fa305c15a2bcb505070ce0e0b92d ++
    bigEndian 32 0xd94f83e7cf16f035e14b1f2feb858b289dcecde3f048628ca6798013c53d8494

def secondHash : Digest :=
  digestOfNat 0x49fd830ca4c030c522d7524b4279ba86406299dae78d6602869ef75ea7b4d16d

def secondAddHash : Digest :=
  digestOfNat 0xea3e85f4a9545022886532d9ba5f0132f6f73523a4df79309740c8cb937e1f37

def secondAddSig : Str :=
  bigEndian 32 0x2b9064e176a31d344f6ddb9d5d5695dc3ad905e1fefa36e15099ceaefa4483e2 ++
    bigEndian 32 0xe1656d12d78140879d4b0615ecbf49f2a448825acb7c0d67ce5904d802155f30

def secondEntry : Value := introducedEntry secondPoint secondHash "Second" ownerKeyId secondAddSig

def thirdPoint : Str :=
  bigEndian 33 0x04ceb7aa7599c2434c42c1aa231276c69a9fdfb41afab1480c8a32105948bae99e ++
    bigEndian 32 0xb8ddbbf38e00011ffd799bc2dd871e67b749ce66aed015c85005a266c7b85857

def thirdHash : Digest :=
  digestOfNat 0x217b7bfbc72c41c59540b6e7969cc1766ab9998bdd9e9a531cb373f0609bef39

def thirdAddHash : Digest :=
  digestOfNat 0x1a8187fe0220b0edfa105a955f00a6b2b71ca0aeb035c79b0bc2e3c351481bba

def thirdAddSig : Str :=
  bigEndian 32 0x6c38f8a4472daee0e2e25d9d7b376ff6c37a52a263632ead6d93f5780fdf3f19 ++
    bigEndian 32 0x7208f197983c79106ef3ce6a2c04961390b175c53cd82e3190862b4497a2b11e

def thirdEntry : Value :=
  introducedEntry thirdPoint thirdHash "Third" secondEntry["key_id"]! thirdAddSig

def secondRevokeHash : Digest :=
  digestOfNat 0x819a4ea03c83f20a0d8425a8a6fe692cd5052c0dfbe9cef2ed9351428d638c7b

def secondRevokeSig : Str :=
  bigEndian 32 0x7e4c38474b42dc225fe506ef297b7893dbf43caec5bed2e52e1ffa6775a5f16f ++
    bigEndian 32 0xc9221cbeb9e0ee80da7765ab70786e7d2d272bf2c235bc731e4fa93f8d7a59c3

def secondRevocation : Value := obj
  [("key_id", secondEntry["key_id"]!), ("revoked_at", .txt "2026-01-02T00:00:00Z"),
    ("reason", .txt "compromised"),
    ("revoked_by", .obj [("key_id", ownerKeyId), ("sig", .string (b64urlEncode secondRevokeSig))])]

def statementBytes (entry : Value) (field : String) : Str := canonicalBytes (entry.set field .null)

def chainPrimitives : Primitives :=
  tablePrimitives
    [(ownerDer, ownerHash), (spkiPrefix ++ secondPoint, secondHash),
      (spkiPrefix ++ thirdPoint, thirdHash),
      (keyAddPrefix ++ statementBytes secondEntry "added_by", secondAddHash),
      (keyAddPrefix ++ statementBytes thirdEntry "added_by", thirdAddHash),
      (keyRevokePrefix ++ statementBytes secondRevocation "revoked_by", secondRevokeHash)]
    [ownerPoint, secondPoint, thirdPoint]
    [(ownerPoint, secondAddHash, secondAddSig), (secondPoint, thirdAddHash, thirdAddSig),
      (ownerPoint, secondRevokeHash, secondRevokeSig)]

def chainDocument : Value :=
  (trustDocument [ownerEntry, secondEntry, thirdEntry]).set "revocations"
    (.array [secondRevocation])

def chainTrust : Except String TrustStore := validateTrust chainPrimitives chainDocument .production

/-- The third key has no revocation of its own and falls with the second. -/
theorem chain_compromise :
    (okValue chainTrust emptyTrust).compromised =
      [secondEntry["key_id"]!.text, thirdEntry["key_id"]!.text] ∧
    (∀ k, k ∈ (okValue chainTrust emptyTrust).compromised ↔ CompromisedIn chainDocument k ∨
      ∃ root, CompromisedIn chainDocument root ∧
        Relation.TransGen (AddedBy chainDocument) root k) := by
  have hok : chainTrust.isOk = true ∧ (okValue chainTrust emptyTrust).compromised =
      [secondEntry["key_id"]!.text, thirdEntry["key_id"]!.text] := by decide +kernel
  have ht : chainTrust = .ok (okValue chainTrust emptyTrust) := eq_ok_okValue _ hok.1
  exact ⟨hok.2,(compromise_closes_over_introductions chainPrimitives chainDocument .production _
    ht).2.1⟩

/-- Files written one after another, the newest first, each with the mode it was
written in. Every change starts from the validated file before it. -/
inductive History (prim : Primitives) : List (Value × TrustMode) → Prop
  | bootstrap (serverId : Str) (ownerKey : Value) (mode : TrustMode) (document : Value) :
      applyChange prim none (.bootstrap serverId ownerKey) mode = .ok document →
      History prim [(document,mode)]
  | change (file : Value × TrustMode) (rest : List (Value × TrustMode)) (store : TrustStore)
      (request : TrustChange) (mode : TrustMode) (document : Value) :
      History prim (file :: rest) → validateTrust prim file.1 file.2 = .ok store →
      applyChange prim (some store) request mode = .ok document →
      History prim ((document,mode) :: file :: rest)

/-- What a later file keeps of an earlier one. -/
structure Keeps (later earlier : TrustStore) : Prop where
  keys : earlier.document["keys"]!.items <+: later.document["keys"]!.items
  revocations : earlier.document["revocations"]!.items <+: later.document["revocations"]!.items
  revoked : earlier.revoked ⊆ later.revoked
  compromised : earlier.compromised ⊆ later.compromised

theorem Keeps.trans {a b c : TrustStore} (h : Keeps a b) (h' : Keeps b c) : Keeps a c :=
  ⟨h'.keys.trans h.keys,h'.revocations.trans h.revocations,
    List.Subset.trans h'.revoked h.revoked,List.Subset.trans h'.compromised h.compromised⟩

theorem Validated.document_eq {document : Value} {r : Revocations} {mode : TrustMode}
    {trust : TrustStore} {prim : Primitives} (h : Validated prim document mode trust r) :
    trust.document = document := by
  rw [h.store]

/-- The sets are read off the lists, so longer lists give larger sets. -/
theorem Validated.keeps {document : Value} {r : Revocations} {mode mode' : TrustMode}
    {document' : Value} {trust : TrustStore} {prim : Primitives} {trust' : TrustStore}
    {r' : Revocations} (h : Validated prim document mode trust r)
    (h' : Validated prim document' mode' trust' r')
    (hkeys : document["keys"]!.items <+: document'["keys"]!.items)
    (hrevs : document["revocations"]!.items <+: document'["revocations"]!.items) :
    Keeps trust' trust := by
  have hcomp : ∀ k, CompromisedIn document k → CompromisedIn document' k := by
    rintro k ⟨e,he,hk⟩
    exact ⟨e,hrevs.subset he,hk⟩
  have hadded : ∀ p c, AddedBy document p c → AddedBy document' p c := by
    rintro p c ⟨e,he,hk⟩
    exact ⟨e,hkeys.subset he,hk⟩
  have hsub : trust.compromised ⊆ trust'.compromised := by
    intro k hk
    obtain ⟨root,hroot,hpath⟩ := h.mem_compromised.mp hk
    exact h'.mem_compromised.mpr
      ⟨root,hcomp root hroot,Relation.ReflTransGen.mono hadded _ _ hpath⟩
  refine ⟨?_,?_,fun k hk => ?_,hsub⟩
  · rwa [h.document_eq, h'.document_eq]
  · rwa [h.document_eq, h'.document_eq]
  · rcases h.mem_revoked.mp hk with ⟨e,he,hn⟩ | hk
    · exact h'.mem_revoked.mpr (.inl ⟨e,hrevs.subset he,hn⟩)
    · exact h'.mem_revoked.mpr (.inr (hsub hk))

theorem push_ok {entry document document' : Value} {field : String}
    (h : push document field entry = .ok document') :
    document'[field]!.items = document[field]!.items ++ [entry] ∧
      ∀ other : String, str other ≠ str field → document'[other]! = document[other]! := by
  unfold push at h
  split at h
  · cases h
  · rename_i items hitems
    cases h
    have hobj : document.asObject.isSome = true := by
      cases document with
      | object members => rfl
      | _ => cases hitems
    constructor
    · have hold : document[field]!.items = items := by rw [Value.items, hitems, Option.getD_some]
      rw [Value.getElem_text, Value.get, JsonOrder.get?_set_self hobj, hold]
      rfl
    · intro other hne
      rw [Value.getElem_text, Value.getElem_text, Value.get, Value.get,
        JsonOrder.get?_set_ne hne]

inductive Adds (document : Value) : TrustChange → Value → Prop
  | key (entry document' : Value) :
      document'["keys"]!.items = document["keys"]!.items ++ [entry] →
      document'["revocations"]! = document["revocations"]! →
      Adds document (.addKey entry) document'
  | revocation (entry document' : Value) :
      document'["revocations"]!.items = document["revocations"]!.items ++ [entry] →
      document'["keys"]! = document["keys"]! →
      Adds document (.revoke entry) document'

theorem changedDocument_adds {request : TrustChange} {document' : Value} {store : TrustStore}
    (h : changedDocument (some store) request = .ok document') :
    Adds store.document request document' := by
  cases request with
  | bootstrap serverId ownerKey => cases h
  | addKey entry =>
    simp only [changedDocument] at h
    split_ifs at h
    obtain ⟨hitems,hother⟩ := push_ok h
    exact .key entry document' hitems (hother "revocations" (by decide))
  | revoke entry =>
    simp only [changedDocument] at h
    split_ifs at h
    obtain ⟨hitems,hother⟩ := push_ok h
    exact .revocation entry document' hitems (hother "keys" (by decide))

theorem applyChange_ok {document : Value} {mode : TrustMode} {request : TrustChange}
    {prim : Primitives} {current : Option TrustStore}
    (h : applyChange prim current request mode = .ok document) :
    changedDocument current request = .ok document ∧ ∃ trust,
      validateTrust prim document mode = .ok trust ∧
      (isRevoke request = true → 1 ≤ trust.activeOwnerCount) := by
  obtain ⟨changed,hc,h⟩ := bind_ok.mp h
  split at h
  · cases h
  · rename_i trust ht
    split_ifs at h with hguard
    obtain rfl : changed = document := ok.inj h
    refine ⟨hc,trust,ht,fun hr => ?_⟩
    by_contra hzero
    have : trust.activeOwnerCount = 0 := by omega
    exact hguard (by simp [hr, this])

theorem activeOwner_iff {trust : TrustStore} : 1 ≤ trust.activeOwnerCount ↔
    ∃ k ∈ trust.keys, k.2.entry["role"]!.is "owner" = true ∧ k.1 ∉ trust.revoked := by
  rw [TrustStore.activeOwnerCount, Nat.one_le_iff_ne_zero, ne_eq, length_eq_zero_iff,
    filter_eq_nil_iff]
  simp

theorem acceptKey_mode {entry : Value} {keys a b : Keys} {mode mode' : TrustMode}
    {prim : Primitives} (ha : acceptKey prim mode keys entry = .ok a)
    (hb : acceptKey prim mode' keys entry = .ok b) :
    a = b := by
  unfold acceptKey at ha hb
  split at ha
  · cases ha
  · rename_i keyId hid
    rw [hid] at hb
    split at ha
    · cases ha
    · rename_i publicKey hpk
      simp only [hpk] at hb
      split_ifs at ha hb
      exact (ok.inj ha).symm.trans (ok.inj hb)

/-- The mode decides whether a list of entries is accepted, not what it gives. -/
theorem acceptKeys_mode {keys : Keys} {entries : List Value} {a b : Keys} {mode mode' : TrustMode}
    {prim : Primitives} (ha : acceptKeys prim mode keys entries = .ok a)
    (hb : acceptKeys prim mode' keys entries = .ok b) : a = b := by
  induction entries generalizing keys with
  | nil => exact (ok.inj ha).symm.trans (ok.inj hb)
  | cons entry rest ih =>
    simp only [acceptKeys, bind_ok] at ha hb
    obtain ⟨mid,hm,ha⟩ := ha
    obtain ⟨mid',hm',hb⟩ := hb
    obtain rfl := acceptKey_mode hm hm'
    exact ih ha hb

theorem acceptKeys_append {prim : Primitives} (mode : TrustMode) (entries rest : List Value)
    (keys : Keys) :
    acceptKeys prim mode keys (entries ++ rest) =
      (acceptKeys prim mode keys entries >>= fun mid => acceptKeys prim mode mid rest) := by
  induction entries generalizing keys with
  | nil => rfl
  | cons entry entries ih =>
    simp only [cons_append, acceptKeys]
    cases acceptKey prim mode keys entry with
    | error reason => rfl
    | ok mid => exact ih mid

theorem Validated.keys_added {entry : Value} {prim : Primitives} {document document' : Value}
    {mode mode' : TrustMode} {trust trust' : TrustStore} {r r' : Revocations}
    (h : Validated prim document mode trust r) (h' : Validated prim document' mode' trust' r')
    (hkeys : document'["keys"]!.items = document["keys"]!.items ++ [entry]) :
    ∃ keyId key, trust'.keys = trust.keys ++ [(keyId,key)] ∧
      keyId ∉ trust.keys.map fst := by
  have hall := h'.accepted
  rw [hkeys, acceptKeys_append, bind_ok] at hall
  obtain ⟨mid,hmid,hlast⟩ := hall
  obtain rfl := acceptKeys_mode hmid h.accepted
  simp only [acceptKeys, bind_ok] at hlast
  obtain ⟨all,hall,hdone⟩ := hlast
  obtain ⟨keyId,key,rfl,_⟩ := acceptKey_accepted prim hall
  obtain heq : trust.keys ++ [(keyId,key)] = trust'.keys := ok.inj hdone
  have hnodup := h'.keys.nodup
  rw [← heq, map_append, nodup_append] at hnodup
  exact ⟨keyId,key,heq.symm,fun hm => hnodup.2.2 _ hm keyId (by simp) rfl⟩

theorem Validated.revocations_eq {prim : Primitives} {document document' : Value}
    {mode mode' : TrustMode} {trust trust' : TrustStore} {r r' : Revocations}
    (h : Validated prim document mode trust r) (h' : Validated prim document' mode' trust' r')
    (hrevs : document'["revocations"]! = document["revocations"]!) :
    r'.revoked = r.revoked ∧ r'.compromised = r.compromised := by
  rw [h'.list.revoked, h.list.revoked, h'.list.compromised, h.list.compromised, hrevs]
  exact ⟨rfl,rfl⟩

/-- A new key changes nothing about the standing of the others. -/
theorem Validated.unrevoked_after_key {entry : Value} {prim : Primitives}
    {document document' : Value} {mode mode' : TrustMode} {trust trust' : TrustStore}
    {r r' : Revocations} (h : Validated prim document mode trust r)
    (h' : Validated prim document' mode' trust' r')
    (hkeys : document'["keys"]!.items = document["keys"]!.items ++ [entry])
    (hrevs : document'["revocations"]! = document["revocations"]!) {k : Str}
    (hk : k ∈ trust.keys.map fst) (hun : k ∉ trust.revoked) : k ∉ trust'.revoked := by
  obtain ⟨keyId,key,hadd,hfresh⟩ := h.keys_added h' hkeys
  obtain ⟨hrev,hcomp⟩ := h.revocations_eq h' hrevs
  intro hmem
  apply hun
  rw [h'.store] at hmem
  rw [h.store]
  rw [hrev, hcomp, hadd, cascade_eq, cascade_append, ← cascade_eq, mem_append] at hmem
  rw [mem_append]
  apply hmem.imp_right
  intro hm
  rcases mem_cascade_new _ _ _ _ hm with hm | hm
  · exact hm
  · obtain rfl : k = keyId := by simpa using hm
    exact absurd hk hfresh

theorem Validated.owner_after_key {entry : Value} {prim : Primitives} {document document' : Value}
    {mode mode' : TrustMode} {trust trust' : TrustStore} {r r' : Revocations}
    (h : Validated prim document mode trust r) (h' : Validated prim document' mode' trust' r')
    (hkeys : document'["keys"]!.items = document["keys"]!.items ++ [entry])
    (hrevs : document'["revocations"]! = document["revocations"]!)
    (hactive : 1 ≤ trust.activeOwnerCount) : 1 ≤ trust'.activeOwnerCount := by
  obtain ⟨k,hk,hrole,hun⟩ := activeOwner_iff.mp hactive
  obtain ⟨keyId,key,hadd,_⟩ := h.keys_added h' hkeys
  refine activeOwner_iff.mpr ⟨k,?_,hrole,?_⟩
  · rw [hadd]
    exact mem_append_left _ hk
  · exact h.unrevoked_after_key h' hkeys hrevs (mem_map_of_mem hk) hun

theorem Validated.owner_of_first {prim : Primitives} {document : Value} {mode : TrustMode}
    {trust : TrustStore} {r : Revocations} (h : Validated prim document mode trust r)
    (hrevs : document["revocations"]!.items = []) : 1 ≤ trust.activeOwnerCount := by
  have hne : trust.keys ≠ [] := by
    intro hnil
    have hentries := h.keys.entries
    rw [hnil] at hentries
    exact h.nonempty hentries.symm
  obtain ⟨first,rest,hkeys⟩ := exists_cons_of_ne_nil hne
  have hcomp : ∀ k, k ∉ trust.compromised := by
    intro k hk
    obtain ⟨root,⟨e,he,_⟩,_⟩ := h.mem_compromised.mp hk
    rw [hrevs] at he
    cases he
  refine activeOwner_iff.mpr ⟨first,?_,h.keys.owner first (by simp [hkeys]),fun hm => ?_⟩
  · rw [hkeys]
    exact mem_cons_self
  · rcases h.mem_revoked.mp hm with ⟨e,he,_⟩ | hm
    · rw [hrevs] at he
      cases he
    · exact hcomp first.1 hm

/-- One change keeps an active owner and adds one entry to what was there. -/
theorem change_keeps {document : Value} {mode : TrustMode} {request : TrustChange}
    {file : Value × TrustMode} {store : TrustStore} {prim : Primitives}
    (hstore : validateTrust prim file.1 file.2 = .ok store) (hactive : 1 ≤ store.activeOwnerCount)
    (h : applyChange prim (some store) request mode = .ok document) :
    ∃ trust, validateTrust prim document mode = .ok trust ∧ 1 ≤ trust.activeOwnerCount ∧
      trust.generation = store.generation + 1 ∧ Keeps trust store := by
  obtain ⟨hchanged,trust,htrust,hguard⟩ := applyChange_ok h
  obtain ⟨r,hv⟩ := validateTrust_ok prim hstore
  obtain ⟨r',hv'⟩ := validateTrust_ok prim htrust
  have hadds := changedDocument_adds hchanged
  rw [hv.document_eq] at hadds
  refine ⟨trust,htrust,?_,?_,?_⟩
  · cases hadds with
    | key entry _ hkeys hrevs => exact hv.owner_after_key hv' hkeys hrevs hactive
    | revocation entry _ hrevs hkeys => exact hguard rfl
  · rw [TrustStore.generation, TrustStore.generation, hv.document_eq, hv'.document_eq]
    cases hadds with
    | key entry _ hkeys hrevs | revocation entry _ hrevs hkeys =>
      rw [hkeys, hrevs, length_append, length_singleton]
      omega
  · cases hadds with
    | key entry _ hkeys hrevs =>
      exact hv.keeps hv' (hkeys ▸ prefix_append _ _) (hrevs ▸ prefix_rfl)
    | revocation entry _ hrevs hkeys =>
      exact hv.keeps hv' (hkeys ▸ prefix_rfl) (hrevs ▸ prefix_append _ _)

/-- The validated stores of a history, the newest first. -/
structure Grown (prim : Primitives) (files : List (Value × TrustMode)) (stores : List TrustStore) :
    Prop where
  validated : List.Forall₂ (fun file store => validateTrust prim file.1 file.2 = .ok store)
    files stores
  owned : ∀ store ∈ stores, 1 ≤ store.activeOwnerCount
  generations : stores.IsChain fun later earlier => later.generation = earlier.generation + 1
  kept : stores.Pairwise Keeps

theorem Grown.changed {file : Value × TrustMode} {store trust : TrustStore} {prim : Primitives}
    {rest : List (Value × TrustMode)} {stores : List TrustStore}
    (h : Grown prim (file :: rest) (store :: stores)) {next : Value × TrustMode}
    (hnext : validateTrust prim next.1 next.2 = .ok trust) (howner : 1 ≤ trust.activeOwnerCount)
    (hgen : trust.generation = store.generation + 1) (hkeeps : Keeps trust store) :
    Grown prim (next :: file :: rest) (trust :: store :: stores) := by
  refine ⟨.cons hnext h.validated,?_,.cons_cons hgen h.generations,?_⟩
  · exact forall_mem_cons.mpr ⟨howner,h.owned⟩
  · refine pairwise_cons.mpr ⟨fun earlier hm => ?_,h.kept⟩
    rcases mem_cons.mp hm with rfl | hm
    · exact hkeeps
    · exact hkeeps.trans ((pairwise_cons.mp h.kept).1 earlier hm)

/-- Every file of a history validates and keeps an active owner; each change
adds one entry, and nothing a file says is ever taken back. -/
theorem trust_history_only_grows (prim : Primitives) (files : List (Value × TrustMode))
    (h : History prim files) : ∃ stores, Grown prim files stores := by
  induction h with
  | bootstrap serverId ownerKey mode document h =>
    obtain ⟨hchanged,trust,htrust,_⟩ := applyChange_ok h
    obtain ⟨r,hv⟩ := validateTrust_ok prim htrust
    obtain rfl := ok.inj hchanged
    refine ⟨[trust],.cons htrust .nil,?_,.singleton trust,pairwise_singleton _ _⟩
    intro s hs
    rw [mem_singleton.mp hs]
    exact hv.owner_of_first rfl
  | change file rest store request mode document hist hstore h ih =>
    obtain ⟨stores,hgrown⟩ := ih
    cases hgrown.validated with
    | cons hfirst _ =>
      obtain rfl := ok.inj (hfirst.symm.trans hstore)
      obtain ⟨trust,htrust,howner,hgen,hkeeps⟩ :=
        change_keeps hstore (hgrown.owned _ mem_cons_self) h
      exact ⟨_,hgrown.changed htrust howner hgen hkeeps⟩

def chainFiles : List (Value × TrustMode) :=
  [(chainDocument, .production),
    (trustDocument [ownerEntry, secondEntry, thirdEntry], .production),
    (trustDocument [ownerEntry, secondEntry], .production),
    (trustDocument [ownerEntry], .production)]

def storeOf (document : Value) : TrustStore :=
  okValue (validateTrust chainPrimitives document .production) emptyTrust

theorem chain_history : History chainPrimitives chainFiles ∧
    ∃ stores, Grown chainPrimitives chainFiles stores := by
  have hfirst : applyChange chainPrimitives none (.bootstrap (ident 1).text ownerEntry)
    .production =
      .ok (trustDocument [ownerEntry]) := by decide +kernel
  have hchange :
    ∀ (document next : Value) (request : TrustChange) (rest : List (Value × TrustMode)),
      (validateTrust chainPrimitives document .production).isOk = true →
      applyChange chainPrimitives (some (storeOf document)) request .production = .ok next →
      History chainPrimitives ((document,.production) :: rest) →
      History chainPrimitives ((next,.production) :: (document,.production) :: rest) := by
    intro document next request rest hok happly hist
    exact .change _ rest _ request _ next hist (eq_ok_okValue _ hok) happly
  have hist : History chainPrimitives chainFiles := by
    refine hchange _ _ (.revoke secondRevocation) _ (by decide +kernel) (by decide +kernel) ?_
    refine hchange _ _ (.addKey thirdEntry) _ (by decide +kernel) (by decide +kernel) ?_
    refine hchange _ _ (.addKey secondEntry) _ (by decide +kernel) (by decide +kernel) ?_
    exact .bootstrap _ _ _ _ hfirst
  exact ⟨hist,trust_history_only_grows chainPrimitives chainFiles hist⟩

end Permanu.TrustChanges
