import PermanuAgent.AdmissionSpecs

/-!
# The scopes of a service

Whether the plans that change a service all come from one scope. The admission
checks the scope of a named service for some kinds only, so a plan of another
project can take a service over. When every pinned service is unknown or of the
plan's own scope, all specs of a service and its current row have one scope.
-/

set_option autoImplicit false

namespace Permanu.AdmissionIsolation
open ByteText JsonValue PlanText PlanCrypto List Prod
open PlanTrust PlanVerify PlanAuthority
open ResultSteps TableRows
open AdmissionStore AdmissionDefinitions AdmissionAdmit
open AdmissionWrite AdmissionRun AdmissionSpecs

variable (prim : Primitives) (alerts : AlertSpecs)

variable {after store : Store} {planId serviceId : Str} {scope : SignedScope} {s : SpecRow}

theorem serviceScope_some
    (h : serviceScope store serviceId = some scope) :
    ∃ s ∈ store.specs, s.serviceId = serviceId ∧ ∃ a, store.admission s.admittedPlanId = some a ∧
      a.signedScope = scope := by
  simp only [serviceScope, Option.map_eq_some_iff] at h
  obtain ⟨a,ha,rfl⟩ := h
  have hm := mem_of_head? ha
  rw [mem_insertionSort, mem_filterMap] at hm
  obtain ⟨s,hs,hadm⟩ := hm
  rw [mem_filter] at hs
  exact ⟨s,hs.1,by simpa using hs.2,a,hadm,rfl⟩

theorem serviceScope_none
    (h : serviceScope store serviceId = none) (hs : s ∈ store.specs)
    (hservice : s.serviceId = serviceId) : store.admission s.admittedPlanId = none := by
  simp only [serviceScope, Option.map_eq_none_iff, head?_eq_none_iff] at h
  by_contra hne
  obtain ⟨a,ha⟩ := Option.ne_none_iff_exists'.mp hne
  have hm : a ∈ ((store.specs.filter fun s => s.serviceId == serviceId).filterMap
      fun s => store.admission s.admittedPlanId).insertionSort
        fun a b => b.admissionSeq ≤ a.admissionSeq := by
    rw [mem_insertionSort, mem_filterMap]
    exact ⟨s,by simp [hs, hservice],ha⟩
  rw [h] at hm
  cases hm

theorem Kept.admission_scope (h : Kept store after)
    (ha : (store.admission planId).map AdmissionRow.signedScope = some scope) :
    (after.admission planId).map AdmissionRow.signedScope = some scope := by
  rw [← ha]
  exact find?_of_core h.admissions _ _ (fun _ => rfl) (fun _ => rfl)

structure ScopedBy (store : Store) (scopeOf : Str → SignedScope) : Prop where
  specs : ∀ s ∈ store.specs,
    (store.admission s.admittedPlanId).map AdmissionRow.signedScope = some (scopeOf s.serviceId)
  current : ∀ r ∈ store.serviceSpecs,
    (store.admission r.planId).map AdmissionRow.signedScope = some (scopeOf r.serviceId) ∧
      ∃ s ∈ store.specs, s.serviceId = r.serviceId

def pinsInScope (store : Store) (p : Value) : Bool :=
  (p["actions"]!.items.filter pinsSpec).all fun action =>
    sameScope (signedScope p) (serviceScope store (pinnedService action).text)

/-- Each plan of the run pins in scope when it is admitted. -/
def PinsInScope (now : ℤ) (quarantine : Option ℤ) (ops : List Op) : Prop :=
  ∀ before trust input v, AdmittedAfter prim alerts now quarantine ops before trust input v →
    pinsInScope (storeAfter prim alerts now quarantine before) v.plan = true

/-- Every current row a plan of the run replaces was written in the plan's project and
environment. -/
def Isolated (now : ℤ) (quarantine : Option ℤ) (ops : List Op) : Prop :=
  ∀ before trust input v, AdmittedAfter prim alerts now quarantine ops before trust input v →
    ∀ action ∈ v.plan["actions"]!.items, makesCurrent action = true →
      ∀ row, rowOf ServiceSpecRow.key (pinnedService action).text
        (storeAfter prim alerts now quarantine before).serviceSpecs = some row →
      ∃ a, (storeAfter prim alerts now quarantine before).admission row.planId = some a ∧
        a.scope = planScope v.plan

variable {quarantine : Option ℤ} {ops before : List Op} {now : ℤ}

variable {prim}

theorem PinsInScope.initial (h : PinsInScope prim alerts now quarantine ops) (hb : before <+: ops) :
    PinsInScope prim alerts now quarantine before :=
  fun before' trust input v ha => h before' trust input v ⟨ha.within.trans hb,ha.admits⟩

theorem PinsInScope.nil : PinsInScope prim alerts now quarantine [] := by
  intro before trust input v h
  simpa using h.within

theorem PinsInScope.concat (h : PinsInScope prim alerts now quarantine ops)
    (trust : TrustStore) {input : AdmitInput} {p : Value}
    (hplan : (parseEnvelope prim input.envelope).toOption.map fst = some p)
    (hp : pinsInScope (storeAfter prim alerts now quarantine ops) p = true) :
    PinsInScope prim alerts now quarantine (ops ++ [.admitPlan trust input]) := by
  intro before trust' input' v ha
  rcases prefix_concat_iff.mp ha.within with heq | hwithin
  · obtain ⟨rfl,hop⟩ := append_inj' heq rfl
    obtain ⟨rfl,rfl⟩ : trust' = trust ∧ input' = input := by simpa using hop
    rwa [AdmittedAfter.plan_eq prim alerts ha hplan]
  · exact h before trust' input' v ⟨hwithin,ha.admits⟩

variable {input : AdmitInput} {v : VerifiedPlan} {scopeOf : Str → SignedScope} {trust : TrustStore}

/-- The scope of a pinned service is the plan's once the service is known. -/
theorem ScopedBy.pinned (h : ScopedBy (storeAfter prim alerts now quarantine before) scopeOf)
    (hp : PinsInScope prim alerts now quarantine ops)
    (ha : AdmittedAfter prim alerts now quarantine ops before trust input v) {action : Value}
    (hm : action ∈ v.plan["actions"]!.items) (hpin : pinsSpec action = true)
    (hs : s ∈ (storeAfter prim alerts now quarantine before).specs)
    (hservice : s.serviceId = (pinnedService action).text) :
    scopeOf s.serviceId = signedScope v.plan := by
  have hscope := h.specs s hs
  cases hfound : serviceScope (storeAfter prim alerts now quarantine before)
      (pinnedService action).text with
  | none =>
    rw [serviceScope_none hfound hs hservice] at hscope
    cases hscope
  | some scope =>
    obtain ⟨t,ht,htservice,a,hadm,rfl⟩ := serviceScope_some hfound
    have htscope := h.specs t ht
    rw [hadm, Option.map_some, Option.some.injEq] at htscope
    rw [hservice, ← htservice, ← htscope]
    have hsame := all_eq_true.mp (hp before trust input v ha) action (by simp [hm, hpin])
    simpa [sameScope, hfound] using hsame

def pinsService (p : Value) (serviceId : Str) : Bool :=
  p["actions"]!.items.any fun a => pinsSpec a && (pinnedService a).text == serviceId

theorem pinsService_iff {p : Value} : pinsService p serviceId = true ↔
    ∃ a ∈ p["actions"]!.items, pinsSpec a = true ∧ (pinnedService a).text = serviceId := by
  simp [pinsService]

def scopeAfter (p : Value) (scopeOf : Str → SignedScope) (serviceId : Str) : SignedScope :=
  if pinsService p serviceId then signedScope p else scopeOf serviceId

theorem ScopedBy.after_old (h : ScopedBy (storeAfter prim alerts now quarantine before) scopeOf)
    (hp : PinsInScope prim alerts now quarantine ops)
    (ha : AdmittedAfter prim alerts now quarantine ops before trust input v)
    (hs : s ∈ (storeAfter prim alerts now quarantine before).specs) :
    scopeAfter v.plan scopeOf s.serviceId = scopeOf s.serviceId := by
  by_cases hpin : pinsService v.plan s.serviceId = true
  · obtain ⟨a,hm,hpins,hservice⟩ := pinsService_iff.mp hpin
    rw [scopeAfter, if_pos hpin]
    exact (h.pinned alerts hp ha hm hpins hs hservice.symm).symm
  · rw [scopeAfter, if_neg hpin]

theorem Written.scope_old (h : Written prim store v input after)
    (ha : (store.admission planId).map AdmissionRow.signedScope = some scope) :
    (after.admission planId).map AdmissionRow.signedScope = some scope := by
  obtain ⟨a,hadm,rfl⟩ := Option.map_eq_some_iff.mp ha
  rw [Written.admission_old prim h hadm]
  rfl

theorem Written.scope_new (h : Written prim store v input after) :
    (after.admission v.plan["id"]!.text).map AdmissionRow.signedScope =
      some (signedScope v.plan) := by
  rw [Written.admission_new prim h]
  rfl

theorem ScopedBy.written (h : ScopedBy (storeAfter prim alerts now quarantine ops) scopeOf)
    (hfree : CollisionFree prim (submittedSpecs (ops ++ [.admitPlan trust input])))
    (hp : PinsInScope prim alerts now quarantine (ops ++ [.admitPlan trust input]))
    (ha : AdmittedAfter prim alerts now quarantine (ops ++ [.admitPlan trust input]) ops trust
      input v) :
    ScopedBy (storeAfter prim alerts now quarantine (ops ++ [.admitPlan trust input]))
      (scopeAfter v.plan scopeOf) := by
  have hw := ha.admits.written
  have hspecs := (specs_from prim alerts now quarantine (ops ++ [.admitPlan trust input])).1
  refine ⟨fun s hs => ?_,fun r hr => ?_⟩
  · rw [hw.specs] at hs
    rcases mem_insertSpecs _ _ hs with hold | ⟨e,he,rfl⟩
    · rw [h.after_old alerts hp ha hold]
      exact Written.scope_old hw (h.specs s hold)
    · obtain ⟨a,hm,hpins,hservice⟩ := AdmittedAfter.wanted prim alerts ha he
      have hpin : pinsService v.plan e.2.1["service_id"]!.text = true :=
        pinsService_iff.mpr ⟨a,hm,hpins,by rw [hservice]⟩
      have hscope : scopeAfter v.plan scopeOf (specRow v (formatTimestamp input.now) e).serviceId =
          signedScope v.plan := if_pos hpin
      rw [hscope]
      exact Written.scope_new hw
  · rw [hw.serviceSpecs] at hr
    rcases mem_currentRows _ hr with hold | ⟨a,hm,hmakes,rfl⟩
    · obtain ⟨hscope,s,hs,hservice⟩ := h.current r hold
      refine ⟨?_,s,hw.specs ▸ subset_insertSpecs _ _ hs,hservice⟩
      rw [← hservice, h.after_old alerts hp ha hs, hservice]
      exact Written.scope_old hw hscope
    · have hpins := makesCurrent_pins hmakes
      have hpin : pinsService v.plan (pinnedService a).text = true :=
        pinsService_iff.mpr ⟨a,hm,hpins,rfl⟩
      have hscope : scopeAfter v.plan scopeOf
          (serviceSpecRow v.plan (formatTimestamp input.now) a).serviceId = signedScope v.plan :=
        if_pos hpin
      rw [hscope]
      refine ⟨Written.scope_new hw,?_⟩
      obtain ⟨e,he,_,hservice⟩ := AdmittedAfter.pinned prim alerts ha hm hpins
      obtain ⟨row,hrow,hd⟩ := exists_key_insertSpecs v (formatTimestamp input.now) he
      rw [← hw.specs] at hrow
      refine ⟨row,hrow,?_⟩
      rw [(stored_spec prim alerts hfree ha he (hspecs row hrow) hd).2, hservice]
      rfl

theorem ScopedBy.kept (h : ScopedBy store scopeOf) (hk : Kept store after) :
    ScopedBy after scopeOf := by
  refine ⟨fun s hs => ?_,fun r hr => ?_⟩
  · rw [hk.specs] at hs
    exact Kept.admission_scope hk (h.specs s hs)
  · rw [hk.serviceSpecs] at hr
    obtain ⟨hscope,hspec⟩ := h.current r hr
    rw [hk.specs]
    exact ⟨Kept.admission_scope hk hscope,hspec⟩

theorem CollisionFree.initial (h : CollisionFree prim (submittedSpecs ops)) (hb : before <+: ops) :
    CollisionFree prim (submittedSpecs before) := by
  obtain ⟨rest,rfl⟩ := hb
  have hsub : submittedSpecs before ⊆ submittedSpecs (before ++ rest) := by simp [submittedSpecs]
  exact fun a ha b hb => h a (hsub ha) b (hsub hb)

theorem services_scoped
    (hfree : CollisionFree prim (submittedSpecs ops))
    (hp : PinsInScope prim alerts now quarantine ops) :
    ∃ scopeOf, ScopedBy (storeAfter prim alerts now quarantine ops) scopeOf := by
  revert hfree hp
  refine storeAfter_induction (fun ops store =>
    CollisionFree prim (submittedSpecs ops) → PinsInScope prim alerts now quarantine ops →
      ∃ scopeOf, ScopedBy store scopeOf) ?_ ?_ ?_
  · exact fun _ _ => ⟨fun _ => ([], [], []),by simp [createdStore],by simp [createdStore]⟩
  · intro ops trust input v ih ha hfree hp
    obtain ⟨scopeOf,h⟩ := ih (CollisionFree.initial hfree (prefix_append _ _))
      (hp.initial alerts (prefix_append _ _))
    exact ⟨_,h.written alerts hfree hp ha⟩
  · intro ops op store after ih hk hfree hp
    obtain ⟨scopeOf,h⟩ := ih (CollisionFree.initial hfree (prefix_append _ _))
      (hp.initial alerts (prefix_append _ _))
    exact ⟨scopeOf,h.kept hk⟩

variable (prim)

/-- In a run where every plan pins specs only of services that are new or of its own
scope, no plan replaces the current spec of a service of another project or environment. -/
theorem pinned_services_isolated (now : ℤ) (quarantine : Option ℤ) (ops : List Op)
    (hfree : CollisionFree prim (submittedSpecs ops))
    (hp : PinsInScope prim alerts now quarantine ops) :
    Isolated prim alerts now quarantine ops := by
  intro before trust input v ha action hm hmakes row hrow
  have hbefore : before <+: ops := (prefix_append _ _).trans ha.within
  obtain ⟨scopeOf,h⟩ := services_scoped alerts (CollisionFree.initial hfree hbefore)
    (hp.initial alerts hbefore)
  obtain ⟨hr,hkey⟩ := rowOf_some _ hrow
  obtain ⟨hscope,s,hs,hservice⟩ := h.current row hr
  have hplan := h.pinned alerts hp ha hm (makesCurrent_pins hmakes) hs
    (hservice.trans hkey)
  rw [← hservice, hplan] at hscope
  obtain ⟨a,hadm,hsigned⟩ := Option.map_eq_some_iff.mp hscope
  refine ⟨a,hadm,?_⟩
  simp only [AdmissionRow.signedScope, signedScope, mk.injEq] at hsigned
  simp only [AdmissionRow.scope, planScope, mk.injEq]
  exact ⟨hsigned.1,hsigned.2.1⟩

def deployerPoint : Str :=
  bigEndian 33 0x04ceb7aa7599c2434c42c1aa231276c69a9fdfb41afab1480c8a32105948bae99e ++
    bigEndian 32 0xb8ddbbf38e00011ffd799bc2dd871e67b749ce66aed015c85005a266c7b85857

def deployerDer : Str := spkiPrefix ++ deployerPoint

def deployerHash : Digest :=
  digestOfNat 0x217b7bfbc72c41c59540b6e7969cc1766ab9998bdd9e9a531cb373f0609bef39

def deployerKeyId : Value := .string (b64urlEncode (deployerHash.val.take 16))

def deployerEntry (addedBy : Value) : Value := Value.obj
  [("key_id", deployerKeyId), ("alg", .txt "ES256-raw"),
    ("spki", .string (Base64Text.encodeStandard deployerDer)), ("label", .txt "Deployer"),
    ("role", .txt "deployer"), ("presence", .txt "user_presence"),
    ("scope", .obj [("project_ids", .array [ident 5]), ("environments", .array [.txt "production"]),
      ("server_level", .bool false)]),
    ("added_at", .txt "2026-01-01T00:00:00Z"), ("added_by", addedBy)]

def deployerAddHash : Digest :=
  digestOfNat 0xabbcc622a59560e63f842c2e38099ba02c254cb0911037b3ba4fbfdacbf78996

def deployerAddSignature : Str :=
  bigEndian 32 0xdd8438b941e43fe9152da34913cdcc0a2cd680a00d8c2e2cb1ad96faa0595c39 ++
    bigEndian 32 0x8c970da454d5f22e3b6fb9f988c3153e5d5b07aee1fb1a09516fcdb37c3848a1

def firstDeploy : Value := samplePlan 2 "CAAAAAAAAAAAAAAAAAAAAA" 3 [ident 10]
  [sampleDeploy (ident 10) 20 .null webSpecHash] false genesisHead

def firstDeployHash : Digest :=
  digestOfNat 0x1db3a77ebf0c84da240812efed178fbf8a064f8b2bd4d9811500f8285af2a71c

def firstDeploySignature : Str :=
  bigEndian 32 0xd34a77275770fc2e5d07b4ee851d951fa619e48c3727d2f76818e68c08fce497 ++
    bigEndian 32 0xa6ab3861d946df5bfb71b8aabb42725dddec8c07ca67ada950ddc415ecfd405c

def firstHead : Digest :=
  digestOfNat 0x12e29871ee1989f184f3410847fdcc837e97b8098e17e6c958f31e12dfdb39c6

def ownRedeploy : Value := samplePlan 31 "EAAAAAAAAAAAAAAAAAAAAA" 3 [ident 10]
  [sampleDeploy (ident 10) 22 .null webSpecHash] false (hex firstHead.val)

def ownRedeployHash : Digest :=
  digestOfNat 0xc06915f6a9d9862a76bd5fa4f8334d27a991efe7e957f7e112d164215c44d873

def ownRedeploySignature : Str :=
  bigEndian 32 0xe49c975993a8f416c5a5a885d22bc4f04344fd0621fb2f8f9e91fa50612d497f ++
    bigEndian 32 0x32394708b392d0ce57209c3cb539a5531c4d88dafde857d4876c1c56752036fb

def foreignDeploy : Value := samplePlan 30 "DAAAAAAAAAAAAAAAAAAAAA" 5 [ident 10]
  [sampleDeploy (ident 10) 21 .null webSpecHash] false genesisHead

def foreignDeployHash : Digest :=
  digestOfNat 0xc2b7ac03ea30acee54068b9c2857ebb7fb757b86f2099374224c818ca17089f0

def foreignDeploySignature : Str :=
  bigEndian 32 0xe12206fe6bde548002100a538565afaa0a8bf47402b8708562f557f0018775ee ++
    bigEndian 32 0xc7ae1ecbcc5ec8b96ed8c335b99fef043e1f5698d59892e05cb5b92a6fb9a897

def deployPrimitives : Primitives :=
  tablePrimitives [(ownerDer, ownerHash), (deployerDer, deployerHash),
      (keyAddPrefix ++ canonicalBytes (deployerEntry .null), deployerAddHash),
      (specPrefix ++ canonicalBytes webSpec, webSpecHash),
      (planPrefix ++ canonicalBytes firstDeploy, firstDeployHash),
      (planPrefix ++ canonicalBytes ownRedeploy, ownRedeployHash),
      (planPrefix ++ canonicalBytes foreignDeploy, foreignDeployHash),
      (headPreimage genesisHead firstDeployHash, firstHead),
      (headPreimage (hex firstHead.val) ownRedeployHash,
        digestOfNat 0x1954f0d3b99f8e017f0632f64f470dc302878ee983ac81022157e39fbce92558),
      (headPreimage genesisHead foreignDeployHash,
        digestOfNat 0x253e24b86e95c021968a84cb2cf04ce6dbc104c4a7f9afc19bdf3335312f3ced)]
    [ownerPoint, deployerPoint]
    [(ownerPoint, deployerAddHash, deployerAddSignature),
      (ownerPoint, firstDeployHash, firstDeploySignature),
      (ownerPoint, ownRedeployHash, ownRedeploySignature),
      (deployerPoint, foreignDeployHash, foreignDeploySignature)]

def deployTrust : TrustStore :=
  okValue (validateTrust deployPrimitives (trustDocument [ownerEntry, deployerEntry (.obj
    [("key_id", ownerKeyId), ("sig", .string (b64urlEncode deployerAddSignature))])])
    .production) emptyTrust

def deployInput (p keyId : Value) (sig : Str) (now : ℤ) : AdmitInput :=
  clientInput (sampleEnvelope p keyId sig) [canonicalBytes webSpec] now

def firstInput : AdmitInput :=
  deployInput firstDeploy ownerKeyId firstDeploySignature 1767312300

def ownInput : AdmitInput :=
  deployInput ownRedeploy ownerKeyId ownRedeploySignature 1767312360

def foreignInput : AdmitInput :=
  deployInput foreignDeploy deployerKeyId foreignDeploySignature 1767312360

def firstOps : List Op := [.admitPlan deployTrust firstInput]

def firstStore : Store := storeAfter deployPrimitives noAlerts 1767312000 none firstOps

def currentScope (store : Store) (serviceId : Str) : Option (Str × Str) :=
  ((rowOf ServiceSpecRow.key serviceId store.serviceSpecs).bind
    fun row => store.admission row.planId).map AdmissionRow.scope

theorem foreign_deploy_takes_service : ¬ Isolated deployPrimitives noAlerts 1767312000 none
    (firstOps ++ [.admitPlan deployTrust foreignInput]) := by
  have hrun : isFresh (admitPlan deployPrimitives noAlerts firstStore deployTrust foreignInput) =
        true ∧ currentScope firstStore (ident 10).text = some (planScope firstDeploy) ∧
      (parseEnvelope deployPrimitives foreignInput.envelope).toOption.map fst =
        some foreignDeploy := by decide +kernel
  obtain ⟨hfresh,hscope,hplan⟩ := hrun
  obtain ⟨v,hv⟩ := admittedAfter_of_fresh hfresh
  have hp := AdmittedAfter.plan_eq deployPrimitives noAlerts hv hplan
  intro hiso
  simp only [currentScope, Option.map_eq_some_iff, Option.bind_eq_some_iff] at hscope
  obtain ⟨a,⟨row,hrow,ha⟩,hs⟩ := hscope
  obtain ⟨b,hb,hbs⟩ := hiso _ _ _ v hv (sampleDeploy (ident 10) 21 .null webSpecHash)
    (by rw [hp]; decide +kernel) (by decide +kernel) row hrow
  rw [hp] at hbs
  have hab : a = b := Option.some.inj (ha.symm.trans hb)
  rw [← hab, hs] at hbs
  exact absurd hbs (by decide +kernel)

def ownOps : List Op := firstOps ++ [.admitPlan deployTrust ownInput]

theorem own_redeploy_isolated :
    isFresh (admitPlan deployPrimitives noAlerts firstStore deployTrust ownInput) = true ∧
      Isolated deployPrimitives noAlerts 1767312000 none ownOps := by
  have hrun : isFresh (admitPlan deployPrimitives noAlerts firstStore deployTrust ownInput) = true ∧
      pinsInScope (createdStore 1767312000 none) firstDeploy = true ∧
      pinsInScope firstStore ownRedeploy = true ∧
      (parseEnvelope deployPrimitives firstInput.envelope).toOption.map fst =
        some firstDeploy ∧
      (parseEnvelope deployPrimitives ownInput.envelope).toOption.map fst =
        some ownRedeploy := by decide +kernel
  obtain ⟨hfresh,hfirst,hown,hplan,hplan'⟩ := hrun
  have hp :=
    ((PinsInScope.nil noAlerts).concat noAlerts deployTrust hplan hfirst).concat noAlerts
      deployTrust hplan' hown
  refine ⟨hfresh,pinned_services_isolated _ _ _ _ _ ?_ hp⟩
  intro a ha b hb _
  simp only [submittedSpecs, ownOps, firstOps, flatMap_cons, flatMap_nil, opSpecs,
    firstInput, ownInput, deployInput, clientInput, append_nil, cons_append,
    nil_append, mem_cons, not_mem_nil, or_false, or_self] at ha hb
  rw [ha, hb]

end Permanu.AdmissionIsolation
