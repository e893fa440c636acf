import PermanuAgent.PlanVerify

/-!
# The authority of a plan

An admitted plan is taken apart once into the facts its checks established.
From these facts every action of a signed plan is authorised by a verified
signer of fitting role and scope, touch and force are answered by an owner, and
a rule plan is authorised by a live stored rule alone.
-/

set_option autoImplicit false

namespace Permanu.PlanAuthority
open ByteText JsonValue PlanSchema PlanSpec PlanActions List
open PlanCrypto PlanJcs PlanTrust ResultSteps PlanVerify

variable (prim : Primitives)

structure AdmitFacts (text : Str) (specTexts : List Str) (submitter : Submitter)
    (ctx : PolicyContext) (v : VerifiedPlan) (signatures : List Value) (digest : Digest)
    (rule : Option RuleRecord) : Prop where
  envelope : parseEnvelope prim text = .ok (v.plan, signatures)
  specs : bindSpecs prim v.plan specTexts = some v.specs
  target : targetsSelf v.plan ctx.trust = true
  authority : authorityOk v.plan signatures submitter = true
  digestOf : (canonicalize v.plan).map (prefixedDigest prim planPrefix) = some digest
  digestHex : v.digestHex = hex digest.val
  signers : verifySignatures prim digest ctx.trust signatures = .ok v.signers
  ruleOf : planRule prim v.plan ctx = .ok rule
  time : checkTime v.plan ctx.now = .ok ()
  fresh : checkReplay v.plan v.digestHex ctx = .ok false
  base : checkBase v.plan v.signers ctx = .ok ()
  touch : checkTouch v.plan v.signers ctx = .ok ()
  kinds : checkKinds v.plan v.signers rule ctx (kindsOf v.plan) = .ok ()
  names : checkNamesOrRule v.plan rule ctx v.specs = .ok ()

def isAdmit : Policy Verdict → Bool
  | .ok (.admitted _) => true
  | _ => false

theorem isAdmit_iff {r : Policy Verdict} : isAdmit r = true ↔ ∃ v, r = .ok (.admitted v) := by
  rcases r with e | (v | ⟨id,d⟩) <;> simp [isAdmit]

variable {prim}

theorem verifySignedPlan_admit {text : Str} {specTexts : List Str} {submitter : Submitter}
    {ctx : PolicyContext} {v : VerifiedPlan}
    (h : verifySignedPlan prim text specTexts submitter ctx = .ok (.admitted v)) :
    ∃ signatures digest rule,
      AdmitFacts prim text specTexts submitter ctx v signatures digest rule := by
  simp only [verifySignedPlan, bind_ok, okOr_ok, ensure_ok] at h
  obtain ⟨⟨p,signatures⟩,henv,specs,hspecs,_,ht,_,ha,canonical,hc,hv⟩ := h
  simp only [verifyPlan, bind_ok] at hv
  obtain ⟨signers,hsig,rule,hrule,_,htime,known,hknown,hv⟩ := hv
  split at hv
  · simp at hv
  · simp only [checkPolicy, bind_ok, pure_ok, Verdict.admitted.injEq] at hv
    obtain ⟨_,⟨_,hb,_,htouch,_,hk,hn⟩,rfl⟩ := hv
    refine ⟨signatures,_,rule,henv,hspecs,ht,ha,?_,rfl,hsig,hrule,htime,?_,hb,htouch,hk,hn⟩
    · rw [hc]
      rfl
    · simp_all

variable {action p s : Value} {kind : Str} {signers : List Value}

theorem parseEnvelope_ok {text : Str} {signatures : List Value}
    (h : parseEnvelope prim text = .ok (p, signatures)) :
    validatePlan prim p = true ∧ (∀ s ∈ signatures, check signature s = true) ∧
      ∃ envelope, parseStrict text maxSignedPlanBytes = some envelope ∧ envelope["plan"]! = p := by
  unfold parseEnvelope at h
  split at h
  · cases h
  next envelope henvelope =>
    simp only at h
    split_ifs at h
    split at h
    · cases h
    · split_ifs at h with hchecks
      simp only [Bool.or_eq_true, Bool.not_eq_true', not_or, Bool.not_eq_false,
        all_eq_true] at hchecks
      cases h
      exact ⟨hchecks.1.1.1,hchecks.1.2,envelope,henvelope,rfl⟩

theorem validatePlan_actions (h : validatePlan prim p = true) :
    ∀ action ∈ p["actions"]!.items, actionOk action = true := by
  simp only [validatePlan, Bool.and_eq_true] at h
  have ha := check_field "actions" (.custom actionsOk) h.1 (by simp [planFields])
  intro action hm
  simp only [check, actionsOk, Option.any_eq_true, Bool.and_eq_true, all_eq_true] at ha
  obtain ⟨items,hi,_,hall⟩ := ha
  apply hall
  simpa [Value.items, hi] using hm

theorem actionOk_kind (h : actionOk action = true) :
    ∃ kind, action["kind"]! = .string kind ∧ paramsOk kind (action.get? (str "params")) = true := by
  simp only [actionOk, Bool.and_eq_true, Option.any_eq_true] at h
  obtain ⟨_,kind,hk,hp⟩ := h
  exact ⟨kind,Value.asStr_eq_some.mp hk,hp⟩

theorem mem_kindsOf (hm : action ∈ p["actions"]!.items)
    (hk : action["kind"]! = .string kind) : kind ∈ kindsOf p := by
  rw [kindsOf, mem_filterMap]
  exact ⟨action,hm,by rw [hk]; rfl⟩

theorem kindsOf_length (h : ∀ action ∈ p["actions"]!.items, actionOk action = true) :
    (kindsOf p).length = p["actions"]!.items.length := by
  rw [kindsOf, filterMap_length_eq_length]
  intro action hm
  obtain ⟨kind,hk,_⟩ := actionOk_kind (h action hm)
  rw [hk]
  rfl

theorem cancel_alone (hv : validatePlan prim p = true)
    (hm : action ∈ p["actions"]!.items) (hk : action["kind"]! = .string (str "operation.cancel")) :
    p["actions"]!.items = [action] := by
  have hl := kindsOf_length (validatePlan_actions hv)
  have hc : (kindsOf p).contains (str neutralKind) = true :=
    contains_iff_mem.mpr (mem_kindsOf hm hk)
  simp only [validatePlan, planRulesHold, scopeRulesHold, hc, if_true, Bool.and_eq_true,
    beq_iff_eq] at hv
  have h1 : p["actions"]!.items.length = 1 := by rw [← hl]; exact hv.2.1.1.1.1.2.1.1
  obtain ⟨a,ha⟩ := length_eq_one_iff.mp h1
  rw [ha] at hm ⊢
  rw [mem_singleton.mp hm]

variable (prim)

/-- A trusted key, neither revoked nor a test key of a production store, that made one
of the signatures over the digest. -/
structure VerifiedSigner (trust : TrustStore) (signatures : List Value) (digest : Digest)
    (keyId : Str) (key : TrustedKey) : Prop where
  trusted : trust.keys.lookup keyId = some key
  live : keyId ∉ trust.revoked
  notTest : ¬ (trust.mode = .production ∧ ∃ k ∈ testKeyIds, keyId = str k)
  signed : ∃ signature ∈ signatures, signature["key_id"]! = .string keyId ∧
    signature["alg"]! = .string (str "ES256-raw") ∧
    ∃ raw, signature["sig"]!.asStr.bind b64urlDecode = some raw ∧
      key.publicKey.verifyPrehash prim digest raw = true

theorem verifySignature_ok {trust : TrustStore} {signatures : List Value} {digest : Digest}
    {sig : Value} (hm : sig ∈ signatures) (hc : check signature sig = true)
    (h : verifySignature prim sig digest trust = .ok s) :
    ∃ keyId key, s = key.entry ∧ VerifiedSigner prim trust signatures digest keyId key := by
  simp only [verifySignature, bind_ok, ensure_ok, okOr_ok, pure_ok, Option.filter_eq_some_iff] at h
  obtain ⟨_,halg,key,⟨hk,ht⟩,_,hr,raw,hraw,_,hv,rfl⟩ := h
  have hid := check_field "key_id" kid hc (by simp)
  obtain ⟨keyId,hid,_⟩ := check_pattern _ hid
  have htext : sig["key_id"]!.text = keyId := by rw [hid]; rfl
  rw [htext] at hk ht hr
  refine ⟨keyId,key,rfl,hk,by simpa using hr,?_,sig,hm,hid,Value.is_iff.mp halg,raw,hraw,hv⟩
  rintro ⟨hp,k,hkm,rfl⟩
  simp only [TrustStore.isTestKey, isTestKeyIn, hp, beq_self_eq_true, Bool.true_and,
    Bool.not_eq_true', any_eq_false] at ht
  exact ht k hkm (beq_self_eq_true _)

theorem verifySignatures_mem {trust : TrustStore} {digest : Digest} {signatures : List Value}
    (signers : List Value) (h : verifySignatures prim digest trust signatures = .ok signers) :
    ∀ s ∈ signers, ∃ sig ∈ signatures, verifySignature prim sig digest trust = .ok s := by
  induction signatures generalizing signers with
  | nil =>
    cases h
    simp
  | cons sig rest ih =>
    simp only [verifySignatures, bind_ok, pure_ok] at h
    obtain ⟨s,hs,tail,ht,rfl⟩ := h
    refine forall_mem_cons.mpr ⟨⟨sig,by simp,hs⟩,fun t hr => ?_⟩
    obtain ⟨g,hg,hv⟩ := ih tail ht t hr
    exact ⟨g,by simp [hg],hv⟩

theorem signer_verified {trust : TrustStore} {digest : Digest} {signatures : List Value}
    (hc : ∀ s ∈ signatures, check signature s = true)
    (h : verifySignatures prim digest trust signatures = .ok signers) (hm : s ∈ signers) :
    ∃ keyId key, s = key.entry ∧ VerifiedSigner prim trust signatures digest keyId key := by
  obtain ⟨sig,hs,hv⟩ := verifySignatures_mem prim signers h s hm
  exact verifySignature_ok prim hs (hc sig hs) hv

theorem checkKinds_mem {rule : Option RuleRecord}
    {ctx : PolicyContext} {kinds : List Str} (h : checkKinds p signers rule ctx kinds = .ok ()) :
    ∀ kind ∈ kinds, checkKind p signers rule ctx kind = .ok () := by
  induction kinds with
  | nil => simp
  | cons kind rest ih =>
    simp only [checkKinds, bind_ok] at h
    obtain ⟨_,hk,hr⟩ := h
    exact forall_mem_cons.mpr ⟨hk,ih hr⟩

section
variable (ctx : PolicyContext)

/-- The signers of the plan a cancel names, when a ci key signs it. -/
def CancelSignedBy (params : Value) (keyId : Value) : Prop :=
  ∃ ids id, ctx.admissionSignerKeyIds params["plan_id"]!.text params["plan_digest_hex"]!.text =
    .ok (some ids) ∧ keyId = .string id ∧ id ∈ ids

theorem allowedSigners_mem {allowed : List Value} {ctx : PolicyContext}
    (h : allowedSigners p signers ctx kind = .ok allowed) (hm : s ∈ allowed) :
    s ∈ signers ∧ roleAllows s["role"]!.text kind = true ∧
      (kind = str "operation.cancel" → s["role"]!.is "ci" = true →
        CancelSignedBy ctx ((p["actions"]!)[0]!)["params"]! s["key_id"]!) := by
  simp only [allowedSigners] at h
  split_ifs at h with hk
  · simp only [bind_ok, cancelSigners] at h
    obtain ⟨_,_,h⟩ := h
    split_ifs at h with hci
    · simp only [bind_ok, pure_ok] at h
      obtain ⟨cancelled,hc,rfl⟩ := h
      simp only [mem_filter, Bool.or_eq_true, Bool.not_eq_true', Option.any_eq_true] at hm
      obtain ⟨⟨hs,hr⟩,hcan⟩ := hm
      refine ⟨hs,hr,fun _ hrole => ?_⟩
      rcases hcan with hno | ⟨ids,rfl,id,hid,hin⟩
      · simp [hno] at hrole
      · exact ⟨ids,id,hc,Value.asStr_eq_some.mp hid,by simpa using hin⟩
    · cases h
      obtain ⟨hs,hr⟩ := mem_filter.mp hm
      refine ⟨hs,hr,fun _ hrole => absurd ?_ hci⟩
      exact any_eq_true.mpr ⟨s,hm,hrole⟩
  · cases h
    obtain ⟨hs,hr⟩ := mem_filter.mp hm
    exact ⟨hs,hr,fun h => absurd h hk⟩

theorem checkKind_signer {ctx : PolicyContext}
    (h : checkKind p signers none ctx kind = .ok ()) :
    ∃ s ∈ signers, roleAllows s["role"]!.text kind = true ∧ scopeCovers s p = true ∧
      (kind = str "operation.cancel" → s["role"]!.is "ci" = true →
        CancelSignedBy ctx ((p["actions"]!)[0]!)["params"]! s["key_id"]!) := by
  simp only [checkKind, bind_ok, ensure_ok, any_eq_true] at h
  obtain ⟨allowed,ha,_,_,s,hs,hsc⟩ := h
  obtain ⟨hm,hr,hc⟩ := allowedSigners_mem ha hs
  exact ⟨s,hm,hr,hsc,hc⟩

theorem ownerSigned_iff :
    ownerSigned signers = true ↔ ∃ s ∈ signers, s["role"]!.is "owner" = true := by
  simp [ownerSigned]

theorem ownerTouched_iff :
    ownerTouched signers = true ↔
      ∃ s ∈ signers, s["role"]!.is "owner" = true ∧ s["presence"]!.is "none" = false := by
  simp [ownerTouched]

theorem roleAllows_owner {entry : Value} (h : entry["role"]!.is "owner" = true) :
    roleAllows entry["role"]!.text kind = true := by
  simp [roleAllows, Value.is_text h]

/-- The action sets a backup policy that lowers a retention or moves the destination of
a policy the server holds for the resource. -/
def NarrowsPolicy (action : Value) : Prop :=
  action["kind"]! = .string (str "backup.policy.set") ∧
    ∃ policies current, ctx.backupPolicies (action["params"]!)["resource_id"]!.text = .ok policies ∧
      current ∈ policies ∧
      ((∃ keep ∈ keepFields, (action["params"]!)[keep]!.asI64.getD 0 <
        current[keep]!.asI64.getD 0) ∨
        (action["params"]!)["destination_ref"]! ≠ current["destination_ref"]!)

theorem policyNarrowsFrom_false {actions : List Value}
    (h : policyNarrowsFrom ctx actions = .ok false) : ∀ a ∈ actions, ¬ NarrowsPolicy ctx a := by
  induction actions with
  | nil => simp
  | cons action rest ih =>
    simp only [policyNarrowsFrom] at h
    intro a hm hn
    rcases mem_cons.mp hm with rfl | hm
    · obtain ⟨hk,policies,current,hp,hc,hnarrow⟩ := hn
      have hset : a["kind"]!.is "backup.policy.set" = true := Value.is_iff.mpr hk
      simp only [hset, Bool.not_true, Bool.false_eq_true, if_false, bind_ok, hp,
        Except.ok.injEq] at h
      have hany : policies.any (narrows a["params"]!) = true := by
        refine any_eq_true.mpr ⟨current,hc,?_⟩
        simpa [narrows] using hnarrow
      simp [hany] at h
    · split_ifs at h
      · exact ih h a hm hn
      · simp only [bind_ok] at h
        obtain ⟨found,_,h⟩ := h
        split_ifs at h
        · simp at h
        · exact ih h a hm hn

/-- Touch is needed by an always-touched kind and by a narrowed backup policy. -/
def NeedsTouch (p : Value) : Prop :=
  (∃ action ∈ p["actions"]!.items, ∃ kind ∈ tidKinds, action["kind"]! = .string (str kind)) ∨
    ∃ action ∈ p["actions"]!.items, NarrowsPolicy ctx action

theorem touchNeeded_false (h : touchNeeded p ctx = .ok false) : ¬ NeedsTouch ctx p := by
  simp only [touchNeeded] at h
  split_ifs at h with ht
  · simp at h
  · rintro (⟨action,hm,kind,hk,he⟩ | ⟨action,hm,hn⟩)
    · refine ht (any_eq_true.mpr ⟨str kind,mem_kindsOf hm he,?_⟩)
      exact any_eq_true.mpr ⟨kind,hk,beq_self_eq_true _⟩
    · exact policyNarrowsFrom_false ctx h action hm hn

theorem checkTouch_ok
    (h : checkTouch p signers ctx = .ok ()) (hn : NeedsTouch ctx p) :
    isRulePlan p = false ∧ ownerTouched signers = true := by
  simp only [checkTouch, bind_ok, ensure_ok] at h
  obtain ⟨needed,hneeded,hok⟩ := h
  cases needed with
  | false => exact absurd hn (touchNeeded_false ctx hneeded)
  | true => simpa using hok

theorem checkBase_force
    (h : checkBase p signers ctx = .ok ()) (hf : (p["base"]!)["force"]! = .bool true) :
    isRulePlan p = false ∧ ownerSigned signers = true := by
  simpa [checkBase, hf] using h

end

/-- A verified signer whose role allows the action and whose scope covers the plan; a ci
key cancels only a plan it signed itself. -/
structure Authorises (ctx : PolicyContext) (p : Value) (signatures : List Value) (digest : Digest)
    (action : Value) (keyId : Str) (key : TrustedKey) : Prop where
  signer : VerifiedSigner prim ctx.trust signatures digest keyId key
  role : ∃ kind, action["kind"]! = .string kind ∧ roleAllows key.entry["role"]!.text kind = true
  scope : scopeCovers key.entry p = true
  cancel : action["kind"]! = .string (str "operation.cancel") →
    key.entry["role"]! = .string (str "ci") →
      CancelSignedBy ctx action["params"]! (.string keyId)

/-- The authority of a plan that people signed. -/
structure SignedAuthority (ctx : PolicyContext) (p : Value) (signatures : List Value)
    (digest : Digest) : Prop where
  actions : ∀ action ∈ p["actions"]!.items, ∃ keyId key,
    Authorises prim ctx p signatures digest action keyId key
  touch : NeedsTouch ctx p → ∃ keyId key,
    (∀ action ∈ p["actions"]!.items, Authorises prim ctx p signatures digest action keyId key) ∧
      key.entry["role"]! = .string (str "owner") ∧ key.entry["presence"]! ≠ .string (str "none")
  force : (p["base"]!)["force"]! = .bool true → ∃ keyId key,
    (∀ action ∈ p["actions"]!.items, Authorises prim ctx p signatures digest action keyId key) ∧
      key.entry["role"]! = .string (str "owner")

/-- The authority of a plan that a standing rule authored. -/
structure RuleAuthority (submitter : Submitter) (ctx : PolicyContext) (p : Value)
    (signatures : List Value) : Prop where
  webhook : submitter = .agentWebhook
  unsigned : signatures = []
  invoked : p["invocation"]! ≠ .null
  rule : ∃ record, ctx.rule (p["invocation"]!)["rule_id"]!.text = .ok (some record) ∧
    record.rule["id"]! = .string (p["invocation"]!)["rule_id"]!.text ∧
    record.ruleDigestHex = (p["invocation"]!)["rule_digest_hex"]!.text ∧
    ruleDigest prim record.rule = some record.ruleDigestHex ∧
    record.revoked = false ∧ record.createdByKeyId ∉ ctx.trust.compromised ∧
    ∀ action ∈ p["actions"]!.items, ∃ kind ∈ ruleEligible,
      action["kind"]! = .string (str kind) ∧
        .string (str kind) ∈ record.rule["allowed_kinds"]!.items
  untouched : ¬ NeedsTouch ctx p
  unforced : (p["base"]!)["force"]! ≠ .bool true

section Admitted
variable {text : Str} {specTexts : List Str} {submitter : Submitter} {ctx : PolicyContext}
  {v : VerifiedPlan} {signatures : List Value} {digest : Digest} {rule : Option RuleRecord}

theorem AdmitFacts.valid
    (f : AdmitFacts prim text specTexts submitter ctx v signatures digest rule) :
    validatePlan prim v.plan = true := (parseEnvelope_ok f.envelope).1

theorem AdmitFacts.rule_none
    (f : AdmitFacts prim text specTexts submitter ctx v signatures digest rule)
    (hr : isRulePlan v.plan = false) : rule = none := by
  have h := f.ruleOf
  simp only [planRule, hr, Bool.false_eq_true, if_false, Except.ok.injEq] at h
  exact h.symm

theorem AdmitFacts.rule_some
    (f : AdmitFacts prim text specTexts submitter ctx v signatures digest rule)
    (hr : isRulePlan v.plan = true) :
    ∃ record, rule = some record ∧ verifyRule prim v.plan["invocation"]! ctx = .ok record := by
  have h := f.ruleOf
  simp only [planRule, hr, if_true, map_ok] at h
  obtain ⟨record,hv,rfl⟩ := h
  exact ⟨record,rfl,hv⟩

theorem AdmitFacts.signer
    (f : AdmitFacts prim text specTexts submitter ctx v signatures digest rule)
    (hm : s ∈ v.signers) :
    ∃ keyId key, s = key.entry ∧ VerifiedSigner prim ctx.trust signatures digest keyId key :=
  signer_verified prim (parseEnvelope_ok f.envelope).2.1 f.signers hm

/-- An owner among the signers authorises every action: owners have no scope. -/
theorem AdmitFacts.owner_authorises
    (f : AdmitFacts prim text specTexts submitter ctx v signatures digest rule) (document : Value)
    (mode : TrustMode) (ht : validateTrust prim document mode = .ok ctx.trust) (hm : s ∈ v.signers)
    (ho : s["role"]!.is "owner" = true) :
    ∃ keyId key, s = key.entry ∧ ∀ action ∈ v.plan["actions"]!.items,
      Authorises prim ctx v.plan signatures digest action keyId key := by
  obtain ⟨keyId,key,rfl,hs⟩ := f.signer prim hm
  have he := validateTrust_entry prim ht hs.trusted
  have hscope := keyScopeShapeOk_owner he.scope ho
  refine ⟨keyId,key,rfl,fun action ha => ⟨hs,?_,?_,?_⟩⟩
  · obtain ⟨kind,hk,_⟩ := actionOk_kind (validatePlan_actions (f.valid prim) action ha)
    exact ⟨kind,hk,roleAllows_owner ho⟩
  · simp [scopeCovers, hscope]
  · intro _ hci
    rw [Value.is_iff, hci] at ho
    exact absurd (Value.string.inj ho) (by decide)

theorem AdmitFacts.action_authorised
    (f : AdmitFacts prim text specTexts submitter ctx v signatures digest rule) (document : Value)
    (mode : TrustMode) (ht : validateTrust prim document mode = .ok ctx.trust)
    (hr : isRulePlan v.plan = false) (action : Value) (ha : action ∈ v.plan["actions"]!.items) :
    ∃ keyId key, Authorises prim ctx v.plan signatures digest action keyId key := by
  obtain ⟨kind,hk,_⟩ := actionOk_kind (validatePlan_actions (f.valid prim) action ha)
  have hkind := checkKinds_mem f.kinds kind (mem_kindsOf ha hk)
  rw [f.rule_none prim hr] at hkind
  obtain ⟨s,hm,hrole,hscope,hcancel⟩ := checkKind_signer hkind
  obtain ⟨keyId,key,rfl,hs⟩ := f.signer prim hm
  refine ⟨keyId,key,hs,⟨kind,hk,hrole⟩,hscope,fun hc hci => ?_⟩
  have hone := cancel_alone (f.valid prim) ha hc
  have hfirst : (v.plan["actions"]!)[0]! = action := by
    have harr : v.plan["actions"]! = .array [action] := by
      cases hv : v.plan["actions"]! <;> simp_all [Value.items, Value.asArray]
    rw [harr]
    rfl
  have hname := (validateTrust_entry prim ht hs.trusted).name
  rw [hk] at hc
  have := hcancel (Value.string.inj hc) (Value.is_iff.mpr hci)
  rwa [hfirst, hname] at this

theorem AdmitFacts.signed_authority
    (f : AdmitFacts prim text specTexts submitter ctx v signatures digest rule) (document : Value)
    (mode : TrustMode) (ht : validateTrust prim document mode = .ok ctx.trust)
    (hr : isRulePlan v.plan = false) : SignedAuthority prim ctx v.plan signatures digest where
  actions := f.action_authorised prim document mode ht hr
  touch hn := by
    have hot := (checkTouch_ok ctx f.touch hn).2
    obtain ⟨s,hm,ho,hp⟩ := ownerTouched_iff.mp hot
    obtain ⟨keyId,key,rfl,ha⟩ := f.owner_authorises prim document mode ht hm ho
    refine ⟨keyId,key,ha,Value.is_iff.mp ho,fun hnone => ?_⟩
    rw [Value.is_iff.mpr hnone] at hp
    cases hp
  force hf := by
    have hos := (checkBase_force ctx f.base hf).2
    obtain ⟨s,hm,ho⟩ := ownerSigned_iff.mp hos
    obtain ⟨keyId,key,rfl,ha⟩ := f.owner_authorises prim document mode ht hm ho
    exact ⟨keyId,key,ha,Value.is_iff.mp ho⟩

theorem verifyRule_ok {invocation : Value} {record : RuleRecord}
    (h : verifyRule prim invocation ctx = .ok record) :
    ctx.rule invocation["rule_id"]!.text = .ok (some record) ∧
      record.rule["id"]! = .string invocation["rule_id"]!.text ∧
      record.ruleDigestHex = invocation["rule_digest_hex"]!.text ∧
      ruleDigest prim record.rule = some record.ruleDigestHex ∧
      record.revoked = false ∧ record.createdByKeyId ∉ ctx.trust.compromised := by
  simp only [verifyRule, bind_ok, okOr_ok, ensure_ok, pure_ok, Bool.and_eq_true, beq_iff_eq,
    Bool.not_eq_true'] at h
  obtain ⟨found,hf,found',rfl,_,⟨⟨hid,hd⟩,hr⟩,_,⟨hrev,hcomp⟩,rfl⟩ := h
  exact ⟨hf,hid,hd,by rw [hr, hd],hrev,by simpa using hcomp⟩

theorem AdmitFacts.rule_authority
    (f : AdmitFacts prim text specTexts submitter ctx v signatures digest rule)
    (hr : isRulePlan v.plan = true) : RuleAuthority prim submitter ctx v.plan signatures := by
  have ha := f.authority
  simp only [authorityOk, hr, if_true, Bool.and_eq_true, Bool.not_eq_true', beq_iff_eq,
    List.isEmpty_iff] at ha
  obtain ⟨record,hsome,hv⟩ := f.rule_some prim hr
  obtain ⟨hrule,hid,hd,hdig,hrev,hcomp⟩ := verifyRule_ok prim hv
  refine ⟨ha.2,ha.1.1,?_,⟨record,hrule,hid,hd,hdig,hrev,hcomp,?_⟩,?_,?_⟩
  · intro hnull
    simp [hnull, Value.isNull] at ha
  · intro action hm
    obtain ⟨kind,hk,_⟩ :=
      actionOk_kind (validatePlan_actions (f.valid prim) action hm)
    have hkind := checkKinds_mem f.kinds kind (mem_kindsOf hm hk)
    simp only [hsome, checkKind, ensure_ok, ruleAllowsKind, Bool.and_eq_true, kindIn,
      any_eq_true, beq_iff_eq, contains_iff_mem] at hkind
    obtain ⟨hallowed,name,hn,rfl⟩ := hkind
    exact ⟨name,hn,hk,hallowed⟩
  · intro hn
    have := (checkTouch_ok ctx f.touch hn).1
    simp [hr] at this
  · intro hf
    have := (checkBase_force ctx f.base hf).1
    simp [hr] at this

end Admitted

/-- Authorisation is sound. A plan admitted under a validated trust store is either
signed by trusted keys that cover each of its actions, with an owner behind every touch
and every force, or authored by a live stored rule and received from the webhook. -/
theorem admitted_plan_authorised (document : Value) (mode : TrustMode) (text : Str)
    (specTexts : List Str) (submitter : Submitter) (ctx : PolicyContext) (v : VerifiedPlan)
    (ht : validateTrust prim document mode = .ok ctx.trust)
    (h : verifySignedPlan prim text specTexts submitter ctx = .ok (.admitted v)) :
    ∃ signatures canonical, parseEnvelope prim text = .ok (v.plan, signatures) ∧
      canonicalize v.plan = some canonical ∧
      ((v.plan["author"]!)["kind"]! ≠ .string (str "rule") →
        SignedAuthority prim ctx v.plan signatures (prim.sha256 (planPrefix ++ canonical))) ∧
      ((v.plan["author"]!)["kind"]! = .string (str "rule") →
        RuleAuthority prim submitter ctx v.plan signatures) := by
  obtain ⟨signatures,digest,rule,f⟩ := verifySignedPlan_admit h
  have hdigest := f.digestOf
  simp only [Option.map_eq_some_iff] at hdigest
  obtain ⟨canonical,hc,rfl⟩ := hdigest
  refine ⟨signatures,canonical,f.envelope,hc,?_,?_⟩
  · intro hauthor
    refine f.signed_authority prim document mode ht ?_
    rw [isRulePlan, beq_eq_false_iff_ne]
    intro htext
    apply hauthor
    cases hk : (v.plan["author"]!)["kind"]! <;> simp_all [Value.text, Value.asStr]
    all_goals exact absurd htext (by decide)
  · intro hauthor
    refine f.rule_authority prim ?_
    rw [isRulePlan, hauthor]
    exact beq_self_eq_true _

def ident (n : ℕ) : Value := .string (str "01a0cdb5-3500-7000-8000-" ++ padded 12 n)

def ownerPoint : Str :=
  bigEndian 33 0x04960af07a3d00ecf1cb00d16e8e00560e7b95c4d36dcb386fb229b012c4e37a96 ++
    bigEndian 32 0xdc6a23cf6cf9b2facea39466c918f9e0ffee8dfe057d184a6ce5408c22f7296d

def ownerDer : Str := spkiPrefix ++ ownerPoint

def ownerHash : Digest :=
  digestOfNat 0x326eec4ed2540c0b7ff0d8550ee451900e247a11409ee4fce762eef38d6ee93d

def ownerKeyId : Value := .string (b64urlEncode (ownerHash.val.take 16))

def ownerEntry : Value := Value.obj
  [("key_id", ownerKeyId), ("alg", .txt "ES256-raw"),
    ("spki", .string (Base64Text.encodeStandard ownerDer)), ("label", .txt "Owner"),
    ("role", .txt "owner"), ("presence", .txt "biometry"), ("scope", .null),
    ("added_at", .txt "2026-01-01T00:00:00Z"), ("added_by", .null)]

def trustDocument (entries : List Value) : Value := Value.obj
  [("version", .number 1), ("server_id", ident 1), ("keys", .array entries),
    ("revocations", .array [])]

def samplePlan (id : ℕ) (nonce : String) (project : ℕ) (services : List Value)
    (actions : List Value) (force : Bool) (head : Str) : Value := Value.obj
  [("version", .number 1), ("id", ident id), ("project_id", ident project),
    ("environment", .txt "production"), ("environment_id", ident (project+1)),
    ("service_ids", .array services), ("targets", .array [ident 1]), ("actions", .array actions),
    ("base", .obj [("force", .bool force), ("heads", .object [((ident 1).text, .string head)])]),
    ("created_at", .txt "2026-01-02T00:00:00Z"), ("expires_at", .txt "2026-01-02T00:10:00Z"),
    ("nonce", .txt nonce), ("author", .obj [("kind", .txt "user"), ("agent_session_id", .null)]),
    ("invocation", .null)]

def sampleAction (kind : String) (params : List (String × Value)) : Value :=
  .obj [("kind", .txt kind), ("params", .obj params)]

def canonicalBytes (v : Value) : Str := (canonicalize v).getD []

def sampleEnvelope (p keyId : Value) (sig : Str) : Str := canonicalBytes (.obj
  [("plan", p), ("signatures", .array [.obj
    [("key_id", keyId), ("alg", .txt "ES256-raw"), ("sig", .string (b64urlEncode sig)),
      ("signed_at", .txt "2026-01-02T00:00:05Z")]])])

def bareContext (now : ℤ) (trust : TrustStore) : PolicyContext where
  now := now
  trust := trust
  admissionDigest _ := .ok none
  admissionSignerKeyIds _ _ := .ok none
  seen _ _ := .ok false
  head _ _ := .ok genesisHead
  rule _ := .ok none
  ruleInvocationsLastHour _ := .ok 0
  delivery _ := .ok none
  lastAdmittedSpec _ := .ok none
  buildImage _ _ := .ok none
  buildWindow _ _ := .ok (none, none)
  deployedCommit _ _ := .ok none
  admissionScope _ _ := .ok none
  serviceScope _ := .ok none
  cronScope _ := .ok none
  backupPolicies _ := .ok []
  environmentProtected _ _ := .ok false

theorem bareContext_trust (now : ℤ) (trust : TrustStore) : (bareContext now trust).trust = trust :=
  rfl

def unsetPlan : Value :=
  samplePlan 2 "AAAAAAAAAAAAAAAAAAAAAA" 3 []
    [sampleAction "secret.unset" [("service_id", .null), ("name", .txt "API_TOKEN")]] true
      genesisHead

def unsetHash : Digest :=
  digestOfNat 0x4222c79179c976a5fed9409e27a5e67a7e87aa4170dc27a589be5ebb334bc1c8

def unsetSignature : Str :=
  bigEndian 32 0x31b8cc86d9d8174d9e924e450686f4f55b8f81f424339c6840a00724ac35c3cb ++
    bigEndian 32 0x6ae69ac36aa69ad87220ee7ac1664d034805c6d3868a556f8358b5fcd0c23fdf

def unsetPrimitives : Primitives :=
  tablePrimitives [(ownerDer, ownerHash), (planPrefix ++ canonicalBytes unsetPlan, unsetHash)]
    [ownerPoint] [(ownerPoint, unsetHash, unsetSignature)]

def unsetText : Str := sampleEnvelope unsetPlan ownerKeyId unsetSignature

def unsetTrust : Except String TrustStore :=
  validateTrust unsetPrimitives (trustDocument [ownerEntry]) .production

def unsetContext : PolicyContext := bareContext 1767312300 (okValue unsetTrust emptyTrust)

theorem forced_unset_authorised : ∃ v : VerifiedPlan,
    verifySignedPlan unsetPrimitives unsetText [] .client unsetContext = .ok (.admitted v) ∧
    ∃ signatures canonical, parseEnvelope unsetPrimitives unsetText = .ok (v.plan, signatures) ∧
      canonicalize v.plan = some canonical ∧
      ((v.plan["author"]!)["kind"]! ≠ .string (str "rule") →
        SignedAuthority unsetPrimitives unsetContext
        v.plan signatures (unsetPrimitives.sha256 (planPrefix ++ canonical))) ∧
      ((v.plan["author"]!)["kind"]! = .string (str "rule") →
        RuleAuthority unsetPrimitives .client unsetContext v.plan signatures) := by
  have hok : unsetTrust.isOk = true := by decide +kernel
  have ht : unsetTrust = .ok unsetContext.trust := by
    rw [unsetContext, bareContext_trust]
    exact eq_ok_okValue emptyTrust hok
  have hadmit : isAdmit (verifySignedPlan unsetPrimitives unsetText [] .client unsetContext) =
      true := by decide +kernel
  obtain ⟨v,hv⟩ := isAdmit_iff.mp hadmit
  exact ⟨v,hv,admitted_plan_authorised unsetPrimitives (trustDocument [ownerEntry]) .production
    unsetText [] .client unsetContext v ht hv⟩

end Permanu.PlanAuthority
