import PermanuAgent.AdmissionHistory
import PermanuAgent.AdmissionConfinement
import PermanuAgent.AdmissionIsolation

/-!
# The policy of a backup resource

The policy of a resource is its newest applied setting. A new setting is compared
with the applied one and with those that may still apply, but which of them apply,
and in which order, is decided later. Over a run nothing is lost by that: while no
owner with presence signs a change, whatever settles keeps at least what the
policy kept.
-/

set_option autoImplicit false

namespace Permanu.AdmissionPolicies
open ByteText JsonValue PlanJcs PlanSchema PlanCrypto List AdmissionMarks
open PlanActions PlanVerify PlanAuthority ResultSteps
open StepRuns AdmissionStore AdmissionDefinitions
open AdmissionAdmit AdmissionRun AdmissionHistory
open AdmissionRevocations AdmissionSpecs
open AdmissionIsolation (deployerPoint deployerDer deployerHash deployerKeyId deployerEntry
  deployerAddHash deployerAddSignature)
open PlanTrust (TrustStore TrustMode validateTrust emptyTrust)

variable (prim : Primitives) (alerts : AlertSpecs)

def policyKinds : List String := ["backup.policy.set", "backup.policy.delete"]

def isSet (a : AdmittedAction) : Bool := a.kind == str "backup.policy.set"

def policyHistory (store : Store) (resource : Str) : List AdmittedAction :=
  (admittedActions store policyKinds).filter fun a => a.params["resource_id"]! == .string resource

def effectivePolicy (store : Store) (resource : Str) : Option AdmittedAction :=
  ((policyHistory store resource).find? AdmittedAction.succeeded).filter isSet

def keepOf (params : Value) (keep : String) : ℤ := params[keep]!.asI64.getD 0

/-- The params keep as much as `old` does, at the same destination. -/
structure NoLess (old params : Value) : Prop where
  destination : params["destination_ref"]! = old["destination_ref"]!
  keeps : ∀ keep ∈ keepFields, keepOf old keep ≤ keepOf params keep

theorem NoLess.refl {params : Value} : NoLess params params := ⟨rfl,fun _ _ => le_rfl⟩

theorem NoLess.trans {first second third : Value} (h : NoLess first second)
    (h' : NoLess second third) : NoLess first third :=
  ⟨h'.destination.trans h.destination,fun keep hk => (h.keeps keep hk).trans (h'.keeps keep hk)⟩

theorem mem_policyHistory {store : Store} {resource : Str} {a : AdmittedAction} :
    a ∈ policyHistory store resource ↔
      a ∈ admittedActions store policyKinds ∧ a.params["resource_id"]! = .string resource := by
  simp [policyHistory]

variable {a : AdmittedAction}

/-- The policy in effect is one of those a new setting is compared with. -/
theorem effectivePolicy_compared {store : Store} {resource : Str}
    (h : effectivePolicy store resource = some a) : a.params ∈ backupPolicies store resource := by
  obtain ⟨hfound,hset⟩ := Option.filter_eq_some_iff.mp h
  obtain ⟨hs,newer,older,hsplit,hnewer⟩ := find?_eq_some_iff_append.mp hfound
  have hvoid : a.void = false := by simp [AdmittedAction.void, hs]
  apply mem_map.mpr
  refine ⟨a,mem_filter.mpr ⟨?_,hset⟩,rfl⟩
  exact AdmissionConfinement.mem_currentAndPending.mpr
    ⟨newer,older,hsplit,hvoid,fun b hb => by simpa using hnewer b hb⟩

/-- The plan carries the verified signature of an owner key with presence. -/
def OwnerTouched (trust : TrustStore) (input : AdmitInput) (v : VerifiedPlan) : Prop :=
  ∃ signatures canonical keyId key, parseEnvelope prim input.envelope = .ok (v.plan, signatures) ∧
    canonicalize v.plan = some canonical ∧
    VerifiedSigner prim trust signatures (prim.sha256 (planPrefix ++ canonical)) keyId key ∧
    key.entry["role"]! = .string (str "owner") ∧ key.entry["presence"]! ≠ .string (str "none")

/-- The plan sets or deletes the policy of the resource. -/
def ChangesPolicy (p : Value) (resource : Str) : Prop :=
  ∃ action ∈ p["actions"]!.items, (∃ kind ∈ policyKinds, action["kind"]! = .string (str kind)) ∧
    (action["params"]!)["resource_id"]! = .string resource

theorem string_of_text {v : Value} {s : Str} (h : v.text = s) (hs : s ≠ []) : v = .string s := by
  cases v with
  | string t => exact congrArg Value.string h
  | _ => exact absurd h.symm hs

theorem roleAllows_delete {role : Str} (h : roleAllows role (str "backup.policy.delete") = true) :
    role = str "owner" := by
  by_contra hne
  rw [roleAllows, if_neg hne] at h
  split_ifs at h <;> exact absurd h (by decide)

theorem presence_of_owner {entry : Value} (h : keyScopeShapeOk entry = true)
    (ho : entry["role"]!.text = str "owner") : entry["presence"]! ≠ .string (str "none") := by
  intro hnone
  simp only [keyScopeShapeOk, Bool.and_eq_true, beq_iff_eq, ho] at h
  have hp : entry["presence"]!.is "none" = true := Value.is_iff.mpr hnone
  rw [hp] at h
  exact absurd h.2 (by decide)

variable {action : Value} {b : AdmittedAction}

section Admits
variable {prim alerts} {store after : Store} {trust : TrustStore} {input : AdmitInput}
  {v : VerifiedPlan} {document : Value} {mode : TrustMode}

/-- A plan that changes a policy is signed by people: no rule may. -/
theorem signed_of_policy (h : Admits prim alerts store trust input v after)
    (ha : action ∈ v.plan["actions"]!.items) {kind : String} (hk : kind ∈ policyKinds)
    (hkind : action["kind"]! = .string (str kind)) : isRulePlan v.plan = false := by
  obtain ⟨signatures,digest,rule,f⟩ := verifySignedPlan_admit h.verified
  by_contra hrule
  obtain ⟨record,_,_,_,_,_,_,hallowed⟩ := (f.rule_authority prim (by simpa using hrule)).rule
  obtain ⟨allowed,heligible,he,_⟩ := hallowed action ha
  rw [hkind] at he
  have hnone : ∀ kind ∈ policyKinds, kind ∉ ruleEligible := by decide
  rw [str_injective (Value.string.inj he)] at hk
  exact hnone allowed hk heligible

/-- Only an owner, and owners have presence, signs a deletion. -/
theorem touched_of_delete (h : Admits prim alerts store trust input v after)
    (ht : validateTrust prim document mode = .ok trust) (ha : action ∈ v.plan["actions"]!.items)
    (hk : action["kind"]! = .string (str "backup.policy.delete")) :
    OwnerTouched prim trust input v := by
  have hsigned := signed_of_policy h ha (by decide) hk
  obtain ⟨signatures,digest,rule,f⟩ := verifySignedPlan_admit h.verified
  obtain ⟨keyId,key,hauth⟩ := f.action_authorised prim document mode ht hsigned action ha
  obtain ⟨kind,hkind,hrole⟩ := hauth.role
  obtain rfl : kind = str "backup.policy.delete" := Value.string.inj (hkind.symm.trans hk)
  have howner := roleAllows_delete hrole
  have hentry := PlanTrust.validateTrust_entry prim ht
    hauth.signer.trusted
  obtain ⟨canonical,hc,rfl⟩ := Option.map_eq_some_iff.mp f.digestOf
  refine ⟨signatures,canonical,keyId,key,f.envelope,hc,hauth.signer,?_,
    presence_of_owner hentry.scope howner⟩
  exact string_of_text howner (by decide)

theorem touched_of_narrowing (h : Admits prim alerts store trust input v after)
    (ht : validateTrust prim document mode = .ok trust) (ha : action ∈ v.plan["actions"]!.items)
    (hn : NarrowsPolicy (txContext store trust input) action) :
    OwnerTouched prim trust input v := by
  have hsigned := signed_of_policy h ha (by decide) hn.1
  obtain ⟨signatures,digest,rule,f⟩ := verifySignedPlan_admit h.verified
  obtain ⟨keyId,key,hauth,hrole,hpresence⟩ :=
    (f.signed_authority prim document mode ht hsigned).touch (.inr ⟨action,ha,hn⟩)
  obtain ⟨canonical,hc,rfl⟩ := Option.map_eq_some_iff.mp f.digestOf
  exact ⟨signatures,canonical,keyId,key,f.envelope,hc,(hauth action ha).signer,hrole,hpresence⟩

/-- What a plan without such a signature does to the policy: it sets it, to no less than
every policy it is compared with. -/
theorem untouched_sets (h : Admits prim alerts store trust input v after)
    (ht : validateTrust prim document mode = .ok trust) (hu : ¬ OwnerTouched prim trust input v)
    (ha : action ∈ v.plan["actions"]!.items) {kind : Str} (hk : action["kind"]! = .string kind)
    (hin : kindIn policyKinds kind = true) {resource : Str}
    (hr : (action["params"]!)["resource_id"]! = .string resource) :
    kind = str "backup.policy.set" ∧ ∀ current ∈ backupPolicies store resource,
      NoLess current action["params"]! := by
  have hset : kind = str "backup.policy.set" := by
    simp only [policyKinds, kindIn, any_cons, any_nil, Bool.or_false, Bool.or_eq_true,
      beq_iff_eq] at hin
    rcases hin with hset | hdelete
    · exact hset
    · exact absurd (touched_of_delete h ht ha (hk.trans (congrArg _ hdelete))) hu
  refine ⟨hset,fun current hc => ?_⟩
  have hnot : ¬ NarrowsPolicy (txContext store trust input) action :=
    fun hn => hu (touched_of_narrowing h ht ha hn)
  have hpolicies : (txContext store trust input).backupPolicies
      (action["params"]!)["resource_id"]!.text = .ok (backupPolicies store resource) := by
    rw [hr]
    rfl
  constructor
  · by_contra hmoved
    exact hnot ⟨hk.trans (congrArg _ hset),_,current,hpolicies,hc,.inr hmoved⟩
  · intro keep hkeep
    by_contra hlower
    exact hnot ⟨hk.trans (congrArg _ hset),_,current,hpolicies,hc,
      .inl ⟨keep,hkeep,not_le.mp hlower⟩⟩

end Admits

/-- The policy `old` is applied, and whatever came after it and may apply sets no less. -/
structure Guarded (old : AdmittedAction) (resource : Str) (store : Store) : Prop where
  sets : isSet old = true
  applied : ∃ a ∈ policyHistory store resource, core a = core old ∧ a.succeeded = true
  newer : ∀ b ∈ policyHistory store resource, Newer b old → b.void = false →
    isSet b = true ∧ NoLess old.params b.params

theorem newer_of_core {old : AdmittedAction} (h : core a = core b) :
    Newer a old ↔ Newer b old := by
  rw [Newer, Newer, seq_of_core h, index_of_core h]

theorem isSet_of_core (h : core a = core b) : isSet a = isSet b := by
  rw [isSet, isSet, kind_of_core h]

theorem succeeded_iff (a : AdmittedAction) : a.succeeded = true ↔ a.outcome = some .succeeded := by
  simp [AdmittedAction.succeeded]

theorem void_of_succeeded (h : a.succeeded = true) : a.void = false := by
  simp [AdmittedAction.void, h]

section Guarded
variable {prim alerts} {store after : Store} {resource : Str} {old : AdmittedAction}

theorem Guarded.start (h : effectivePolicy store resource = some old)
    (hnewest : ∀ b ∈ policyHistory store resource, Newer b old → b.void = true) :
    Guarded old resource store := by
  obtain ⟨hfound,hset⟩ := Option.filter_eq_some_iff.mp h
  constructor
  · exact hset
  · exact ⟨old,mem_of_find?_eq_some hfound,rfl,find?_some hfound⟩
  · intro b hb hnew hvoid
    rw [hnewest b hb hnew] at hvoid
    cases hvoid

/-- While it is guarded, the policy in effect is no less than the old one. -/
theorem Guarded.effective (h : Guarded old resource store) (hkeyed : AdmissionResults.Keyed store)
    (hseqs : (store.admissions.map AdmissionRow.admissionSeq).Nodup) :
    ∃ policy, effectivePolicy store resource = some policy ∧ NoLess old.params policy.params := by
  obtain ⟨a,ha,hcore,hs⟩ := h.applied
  have hsome : ((policyHistory store resource).find? AdmittedAction.succeeded).isSome = true :=
    find?_isSome.mpr ⟨a,ha,hs⟩
  obtain ⟨policy,hfound⟩ := Option.isSome_iff_exists.mp hsome
  have hmem := mem_of_find?_eq_some hfound
  have hvoid := void_of_succeeded (find?_some hfound)
  have hpolicy : isSet policy = true ∧ NoLess old.params policy.params := by
    by_cases hnew : Newer policy old
    · exact h.newer policy hmem hnew hvoid
    · -- nothing newer succeeded, so it is the old policy itself
      have hold : policy = a := by
        obtain ⟨_,newer,older,hsplit,hnone⟩ := find?_eq_some_iff_append.mp hfound
        have hsorted : (policyHistory store resource).Pairwise fun a b => ¬ Newer b a :=
          admittedActions_sorted.filter _
        rw [hsplit] at ha hsorted
        rcases mem_append.mp ha with hin | hin
        · have hnot := hnone a hin
          simp [hs] at hnot
        · rcases mem_cons.mp hin with rfl | hin
          · rfl
          · have hle := rel_of_pairwise_cons (pairwise_append.mp hsorted).2.1 hin
            rw [newer_of_core hcore] at hle
            have hseq := seq_of_core hcore
            have hindex := index_of_core hcore
            unfold Newer at hnew hle
            rw [← hsplit] at ha
            exact admittedActions_place hkeyed hseqs (mem_policyHistory.mp hmem).1
              (mem_policyHistory.mp ha).1 (by omega) (by omega)
      rw [hold, isSet_of_core hcore, params_of_core hcore]
      exact ⟨h.sets,NoLess.refl⟩
  exact ⟨policy,Option.filter_eq_some_iff.mpr ⟨hfound,hpolicy.1⟩,hpolicy.2⟩

theorem Guarded.kept (h : Guarded old resource store) (hk : Kept store after)
    (hs : SettlesOnce store after) : Guarded old resource after := by
  constructor
  · exact h.sets
  · obtain ⟨a,ha,hcore,hsucc⟩ := h.applied
    obtain ⟨hin,hresource⟩ := mem_policyHistory.mp ha
    obtain ⟨b,hb,hab⟩ := Kept.settled_to hk hs hin
    refine ⟨b,mem_policyHistory.mpr ⟨hb,?_⟩,hab.same.symm.trans hcore,?_⟩
    · rw [← params_of_core hab.same]
      exact hresource
    · rw [succeeded_iff] at hsucc ⊢
      rw [hab.once (by simp [hsucc]), hsucc]
  · intro b hb hnew hvoid
    obtain ⟨hin,hresource⟩ := mem_policyHistory.mp hb
    obtain ⟨a,ha,hab⟩ := Kept.settled_from hk hs hin
    have hopen : a.void = false := by
      by_contra hended
      have hout : a.outcome ≠ none := by
        intro hnone
        simp [AdmittedAction.void, hnone] at hended
      rw [AdmittedAction.void, AdmittedAction.succeeded, hab.once hout] at hvoid
      exact hended hvoid
    rw [← isSet_of_core hab.same, ← params_of_core hab.same]
    refine h.newer a (mem_policyHistory.mpr ⟨ha,?_⟩) ((newer_of_core hab.same).mpr hnew) hopen
    rw [params_of_core hab.same]
    exact hresource

theorem Guarded.admitted (h : Guarded old resource store) {trust : TrustStore} {input : AdmitInput}
    {v : VerifiedPlan} {document : Value} {mode : TrustMode}
    (ha : Admits prim alerts store trust input v after)
    (ht : validateTrust prim document mode = .ok trust) (hrows : RuleRows store)
    (hseqs : (store.admissions.map AdmissionRow.admissionSeq).Nodup)
    (hu : ChangesPolicy v.plan resource → ¬ OwnerTouched prim trust input v) :
    Guarded old resource after := by
  obtain ⟨signatures,hp⟩ := AdmissionMarks.Admits.parsed prim alerts ha
  constructor
  · exact h.sets
  · obtain ⟨a,hm,hcore,hsucc⟩ := h.applied
    obtain ⟨hin,hresource⟩ := mem_policyHistory.mp hm
    exact ⟨a,mem_policyHistory.mpr ⟨Written.old_actions ha.written hin,hresource⟩,hcore,hsucc⟩
  · intro b hb hnew hvoid
    obtain ⟨hin,hresource⟩ := mem_policyHistory.mp hb
    rcases Written.actions_from ha.written hrows hp hin with
      hold | ⟨action,hm,hkind,hparams,hpolicy⟩
    · exact h.newer b (mem_policyHistory.mpr ⟨hold,hresource⟩) hnew hvoid
    · -- the setting is compared with the policy in effect
      rw [← hparams] at hresource ⊢
      have hchanges : ChangesPolicy v.plan resource := by
        obtain ⟨kind,hk,he⟩ := any_eq_true.mp hpolicy
        exact ⟨action,hm,⟨kind,hk,hkind.trans (congrArg _ (beq_iff_eq.mp he))⟩,hresource⟩
      obtain ⟨hset,hless⟩ := untouched_sets ha ht (hu hchanges) hm hkind hpolicy hresource
      obtain ⟨policy,heffective,hguard⟩ := h.effective hrows.keyed hseqs
      refine ⟨?_,hguard.trans (hless _ (effectivePolicy_compared heffective))⟩
      rw [isSet, hset]
      exact beq_self_eq_true _

end Guarded

/-- No operation of the run changes an outcome that an action has. -/
def OutcomesOnce (now : ℤ) (quarantine : Option ℤ) (ops : List Op) : Prop :=
  ∀ done op, done ++ [op] <+: ops → SettlesOnce (storeAfter prim alerts now quarantine done)
    (storeAfter prim alerts now quarantine (done ++ [op]))

/-- The trust stores of the run were loaded from a trust file. -/
def TrustLoaded (ops : List Op) : Prop :=
  ∀ trust input, .admitPlan trust input ∈ ops →
    ∃ document mode, validateTrust prim document mode = .ok trust

/-- A backup policy is not narrowed without a touch. Once a policy is in effect with
nothing newer that may apply, and while no plan that changes the policy of the resource
carries the signature of an owner with presence, every later state has a policy in effect
that keeps at least as much at the same destination, in whatever order actions settle. -/
theorem policy_kept_untouched (now : ℤ) (quarantine : Option ℤ) (before later : List Op)
    (resource : Str) (old : AdmittedAction) (htrust : TrustLoaded prim (before ++ later))
    (honce : OutcomesOnce prim alerts now quarantine (before ++ later))
    (heffective : effectivePolicy (storeAfter prim alerts now quarantine before) resource =
      some old)
    (hnewest : ∀ b ∈ policyHistory (storeAfter prim alerts now quarantine before) resource,
      Newer b old → b.void = true) (huntouched : ∀ done trust input v, before <+: done →
      AdmittedAfter prim alerts now quarantine (before ++ later) done trust input v →
      ChangesPolicy v.plan resource → ¬ OwnerTouched prim trust input v) :
    ∃ policy, effectivePolicy (storeAfter prim alerts now quarantine (before ++ later)) resource =
      some policy ∧ NoLess old.params policy.params := by
  have hguarded : Guarded old resource
      (storeAfter prim alerts now quarantine (before ++ later)) := by
    induction later using List.reverseRecOn with
    | nil =>
      rw [append_nil]
      exact Guarded.start heffective hnewest
    | append_singleton later op ih =>
      rw [← append_assoc] at htrust honce huntouched ⊢
      have hsub : before ++ later <+: before ++ later ++ [op] := prefix_append _ _
      have hguard := ih (fun trust input hm => htrust trust input (hsub.subset hm))
        (fun done op' hd => honce done op' (hd.trans hsub))
        (fun done trust input v hb ha => huntouched done trust input v hb ha.mono)
      have hrun := storeAfter_concat prim alerts now quarantine (before ++ later) op
      rcases step_cases prim op with
        ⟨trust,input,v,rfl,ha⟩ | hk
      · rw [← hrun] at ha
        obtain ⟨document,mode,ht⟩ := htrust trust input (by simp)
        exact hguard.admitted ha ht (rows_reachable prim alerts now quarantine _)
          admissionSeqs_nodup
          (huntouched (before ++ later) trust input v (prefix_append _ _)
            ⟨prefix_refl _,ha⟩)
      · rw [← hrun] at hk
        exact hguard.kept hk (honce (before ++ later) op (prefix_refl _))
  exact hguarded.effective (rows_reachable prim alerts now quarantine _).keyed
    admissionSeqs_nodup

def samplePolicy (daily : ℤ) : Value := .obj
  [("resource_id", ident 10), ("schedule", .txt "0 3 * * *"), ("timezone", .txt "UTC"),
    ("keep_daily", .number daily), ("keep_weekly", .number 4), ("keep_monthly", .number 6),
    ("verify_schedule", .null), ("destination_ref", .txt "offsite")]

def policyAction (daily : ℤ) : Value :=
  .obj [("kind", .txt "backup.policy.set"), ("params", samplePolicy daily)]

def servicePlan : Value := samplePlan 60 "PAAAAAAAAAAAAAAAAAAAAA" 5 [ident 10]
  [sampleDeploy (ident 10) 20 .null webSpecHash] false genesisHead

def servicePlanHash : Digest :=
  digestOfNat 0xe9b9606b8020c4ead19b931b514e19387c731ab57e20160edc0e0be4275b1a0d

def servicePlanSignature : Str :=
  bigEndian 32 0x4e3a2f281e7fd4d6e6ada553cb3fb250e08c681cba5a7abbf8821b056429a195 ++
    bigEndian 32 0xd72ca0676bcc575ca7a41fcbfd8162d3f70ffa504a9d444401a0347e17027dba

def servicePlanHead : Digest :=
  digestOfNat 0xf45f36c98e057231998374e68492387bd6249781c676edb934124b5d0c574f25

def protectPlan : Value := samplePlan 61 "QAAAAAAAAAAAAAAAAAAAAA" 5 [] [policyAction 7] false
  (hex servicePlanHead.val)

def protectPlanHash : Digest :=
  digestOfNat 0xa5e780bbe2036cc386ea1b0b466a97c481bfd70e9d64325da41d6e14ebcf6289

def protectPlanSignature : Str :=
  bigEndian 32 0x0336e65e0dfbb87cb9ed64821ddca79fb58b9b6dfe5bf3df2511113461918655 ++
    bigEndian 32 0x7df911669293a84e835d62f389bd6a32d4b29822e467a21562964ad63dfe3a89

def protectPlanHead : Digest :=
  digestOfNat 0x8211682652c17f8350123efe622c3e383c401df76ab1faf618c57a5f5040aa21

def widenPlan : Value := samplePlan 62 "RAAAAAAAAAAAAAAAAAAAAA" 5 [] [policyAction 14] false
  (hex protectPlanHead.val)

def widenPlanHash : Digest :=
  digestOfNat 0xee0a713c4c44a7f61627e2f0dbef327c654d46eae5d6da9337649779c96da2bf

def widenPlanSignature : Str :=
  bigEndian 32 0x8c29c05376409e0cdd208d8a362d8949808201bcc14f8dd2154fd6c3560ec6b2 ++
    bigEndian 32 0xc2d3721f5643b335e30129a1f1220cf73fd6de44cb5706142ff78a0e58fcf43b

def policyPrimitives : Primitives :=
  tablePrimitives [(ownerDer, ownerHash), (deployerDer, deployerHash),
      (keyAddPrefix ++ canonicalBytes (deployerEntry .null), deployerAddHash),
      (specPrefix ++ canonicalBytes webSpec, webSpecHash),
      (planPrefix ++ canonicalBytes servicePlan, servicePlanHash),
      (planPrefix ++ canonicalBytes protectPlan, protectPlanHash),
      (planPrefix ++ canonicalBytes widenPlan, widenPlanHash),
      (headPreimage genesisHead servicePlanHash, servicePlanHead),
      (headPreimage (hex servicePlanHead.val) protectPlanHash, protectPlanHead),
      (headPreimage (hex protectPlanHead.val) widenPlanHash,
        digestOfNat 0x90c47316ada41167220aceaf8869915b87bb9899638a51e942ab5d7a9dd6ab33)]
    [ownerPoint, deployerPoint]
    [(ownerPoint, deployerAddHash, deployerAddSignature),
      (ownerPoint, servicePlanHash, servicePlanSignature),
      (ownerPoint, protectPlanHash, protectPlanSignature),
      (deployerPoint, widenPlanHash, widenPlanSignature)]

def policyDocument : Value := trustDocument [ownerEntry, deployerEntry (.obj
  [("key_id", ownerKeyId), ("sig", .string (b64urlEncode deployerAddSignature))])]

def policyTrust : TrustStore :=
  okValue (validateTrust policyPrimitives policyDocument .production) emptyTrust

def widenInput : AdmitInput :=
  clientInput (sampleEnvelope widenPlan deployerKeyId widenPlanSignature) [] 1767312420

def protectedOps : List Op :=
  [.admitPlan policyTrust (clientInput (sampleEnvelope servicePlan ownerKeyId servicePlanSignature)
      [canonicalBytes webSpec] 1767312300),
    .admitPlan policyTrust (clientInput (sampleEnvelope protectPlan ownerKeyId protectPlanSignature)
      [] 1767312360),
    .finishAction (ident 61).text 0 .succeeded 1767312370]

def widenOps : List Op :=
  [.admitPlan policyTrust widenInput, .finishAction (ident 62).text 0 .succeeded 1767312430]

def policyStore (ops : List Op) : Store := storeAfter policyPrimitives noAlerts 1767312000 none ops

theorem widen_untouched {v : VerifiedPlan} :
    ¬ OwnerTouched policyPrimitives policyTrust widenInput v := by
  rintro ⟨signatures,canonical,keyId,key,hparsed,_,hsigner,hrole,_⟩
  have hkeys : parseEnvelope policyPrimitives widenInput.envelope = .ok (widenPlan,
        [.obj [("key_id", deployerKeyId), ("alg", .txt "ES256-raw"),
          ("sig", .string (b64urlEncode widenPlanSignature)),
          ("signed_at", .txt "2026-01-02T00:00:05Z")]]) ∧
      (policyTrust.keys.lookup deployerKeyId.text).map (·.entry["role"]!) =
        some (.txt "deployer") := by
    decide +kernel
  obtain ⟨hsigned,hdeployer⟩ := hkeys
  rw [hsigned] at hparsed
  obtain ⟨_,rfl⟩ := Prod.mk.inj (Except.ok.inj hparsed)
  obtain ⟨signature,hm,hid,_⟩ := hsigner.signed
  rw [mem_singleton.mp hm] at hid
  obtain rfl : deployerKeyId.text = keyId := congrArg Value.text hid
  rw [hsigner.trusted, Option.map_some, hrole] at hdeployer
  exact absurd (Option.some.inj hdeployer) (by decide)

/-- The deployer's wider policy is in effect in the end. -/
theorem deployer_widens_policy :
    ∃ old policy, effectivePolicy (policyStore protectedOps) (ident 10).text = some old ∧
      old.params = samplePolicy 7 ∧
      effectivePolicy (policyStore (protectedOps ++ widenOps)) (ident 10).text = some policy ∧
      NoLess old.params policy.params := by
  have hrun : (policyHistory (policyStore protectedOps) (ident 10).text).map
        (fun a => (isSet a && a.succeeded, a.params)) = [(true, samplePolicy 7)] ∧
      ∀ (i : ℕ) (hi : i < (protectedOps ++ widenOps).length),
        SettlesOnce (policyStore ((protectedOps ++ widenOps).take i))
          (step policyPrimitives noAlerts
          (policyStore ((protectedOps ++ widenOps).take i)) (protectedOps ++ widenOps)[i]) := by
    unfold SettlesOnce
    decide +kernel
  obtain ⟨hhistory,hsettles⟩ := hrun
  obtain ⟨old,hold,hshape⟩ := map_eq_singleton_iff.mp hhistory
  obtain ⟨hset,hparams⟩ := Prod.mk.inj hshape
  rw [Bool.and_eq_true] at hset
  have heffective : effectivePolicy (policyStore protectedOps) (ident 10).text = some old := by
    simp [effectivePolicy, hold, hset]
  have honce : OutcomesOnce policyPrimitives noAlerts 1767312000 none
      (protectedOps ++ widenOps) := by
    intro done op hd
    rw [storeAfter_concat]
    exact along_of_take
      (fun store op => SettlesOnce store (step policyPrimitives noAlerts store op))
      hsettles done op hd
  have htrust : TrustLoaded policyPrimitives (protectedOps ++ widenOps) := by
    have hloaded : validateTrust policyPrimitives policyDocument .production = .ok policyTrust :=
      eq_ok_okValue _ (by decide +kernel)
    intro trust input hm
    have hsame : trust = policyTrust := by
      simp only [protectedOps, widenOps, cons_append, nil_append, mem_cons,
        not_mem_nil, or_false, Op.admitPlan.injEq, reduceCtorEq, false_or] at hm
      rcases hm with h | h | h <;> exact h.1
    exact ⟨policyDocument,.production,hsame ▸ hloaded⟩
  have hnewest : ∀ b ∈ policyHistory (policyStore protectedOps) (ident 10).text,
      Newer b old → b.void = true := by
    intro b hb hnew
    rw [hold, mem_singleton] at hb
    subst hb
    unfold Newer at hnew
    omega
  have huntouched : ∀ done trust input v, protectedOps <+: done →
      AdmittedAfter policyPrimitives noAlerts 1767312000 none (protectedOps ++ widenOps) done trust
        input v →
      ChangesPolicy v.plan (ident 10).text → ¬ OwnerTouched policyPrimitives trust input v := by
    intro done trust input v hbefore ha _
    -- the only admission after the policy is the deployer's
    obtain ⟨rest,rfl⟩ := hbefore
    have hwithin := ha.within
    rw [append_assoc, prefix_append_right_inj] at hwithin
    have hop : Op.admitPlan trust input = .admitPlan policyTrust widenInput := by
      rcases rest with _ | ⟨first,rest⟩
      · exact (cons_prefix_cons.mp hwithin).1
      · have htail := (cons_prefix_cons.mp hwithin).2
        rcases rest with _ | ⟨second,rest⟩
        · cases (cons_prefix_cons.mp htail).1
        · have hlong := (cons_prefix_cons.mp htail).2.length_le
          simp at hlong
    obtain ⟨htrust,hinput⟩ := Op.admitPlan.inj hop
    rw [htrust, hinput]
    exact widen_untouched
  obtain ⟨policy,hpolicy,hless⟩ := policy_kept_untouched policyPrimitives noAlerts 1767312000 none
    protectedOps widenOps (ident 10).text old htrust honce heffective hnewest huntouched
  exact ⟨old,policy,heffective,hparams,hpolicy,hless⟩

end Permanu.AdmissionPolicies
