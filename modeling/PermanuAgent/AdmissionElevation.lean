import PermanuAgent.AdmissionSpecs

/-!
# Elevated specs

A spec that asks for privileges is stored, and made current for a service, only
by a plan that elevates its digest under the touch of an owner. This holds of
every stored row along every run, although a spec is stored once and used again
by later plans.
-/

set_option autoImplicit false

namespace Permanu.AdmissionElevation
open ByteText JsonValue PlanJcs PlanText PlanCrypto List
open PlanSpec PlanTrust PlanVerify PlanAuthority
open PlanBinding ResultSteps TableRows
open AdmissionStore AdmissionAdmit AdmissionWrite AdmissionRun
open AdmissionSpecs

variable (prim : Primitives) (alerts : AlertSpecs)

/-- The plan elevates the digest and carries the verified signature of a live owner key
with presence; no rule authored it. -/
structure Elevates (trust : TrustStore) (input : AdmitInput) (v : VerifiedPlan) (digest : Str) :
    Prop where
  elevate : ∃ action ∈ v.plan["actions"]!.items,
    action["kind"]! = .string (str "service.elevate") ∧
      (action["params"]!)["spec_digest_hex"]! = .string digest
  owner : ∃ signatures canonical keyId key,
    parseEnvelope prim input.envelope = .ok (v.plan, signatures) ∧
    canonicalize v.plan = some canonical ∧
    VerifiedSigner prim trust signatures (prim.sha256 (planPrefix ++ canonical)) keyId key ∧
    key.entry["role"]! = .string (str "owner") ∧ key.entry["presence"]! ≠ .string (str "none")
  author : (v.plan["author"]!)["kind"]! ≠ .string (str "rule")

/-- The stored text reads as an elevated spec. -/
def ElevatedRow (row : SpecRow) : Prop :=
  ∃ value, parseStrict row.specJcs maxSpecBytes = some value ∧ specElevated value = true

variable {e : Str × (Value × Str)}

theorem Admits.elevates {store after : Store} {trust : TrustStore} {input : AdmitInput}
    {v : VerifiedPlan} (h : Admits prim alerts store trust input v after) (he : e ∈ v.specs)
    (helev : specElevated e.2.1 = true) :
    Elevates prim trust input v e.1 := by
  obtain ⟨signatures,digest,rule,f⟩ := verifySignedPlan_admit h.verified
  obtain ⟨action,ha,hk,hd⟩ := (bindSpecs_bound prim f.specs).elevating prim he helev
  have hneeds : NeedsTouch (txContext store trust input) v.plan :=
    .inl ⟨action,ha,"service.elevate",by decide,hk⟩
  obtain ⟨hauthor,htouched⟩ := checkTouch_ok _ f.touch hneeds
  obtain ⟨s,hs,hrole,hpresence⟩ := ownerTouched_iff.mp htouched
  obtain ⟨keyId,key,rfl,hsigner⟩ := f.signer prim hs
  obtain ⟨canonical,hc,rfl⟩ := Option.map_eq_some_iff.mp f.digestOf
  refine ⟨⟨action,ha,hk,hd⟩,⟨signatures,canonical,keyId,key,f.envelope,hc,hsigner,
    Value.is_iff.mp hrole,fun hnone => ?_⟩,fun hrule => ?_⟩
  · rw [Value.is_iff.mpr hnone] at hpresence
    cases hpresence
  · rw [isRulePlan, hrule] at hauthor
    exact absurd hauthor (by decide)

theorem parsed_entry {texts : List Str} (h : SpecEntry prim texts e)
    {value : Value} (hv : parseStrict e.2.2 maxSpecBytes = some value) : value = e.2.1 := by
  rw [(parseSpec_some prim h.parsed).1] at hv
  exact (Option.some.inj hv).symm

/-- Behind every elevated spec of a run stands a plan that elevates its digest. -/
structure ElevationTouched (now : ℤ) (quarantine : Option ℤ) (ops : List Op) : Prop where
  stored : ∀ row ∈ (storeAfter prim alerts now quarantine ops).specs, ElevatedRow row →
    ∃ before trust input v, AdmittedAfter prim alerts now quarantine ops before trust input v ∧
      row.admittedPlanId = v.plan["id"]!.text ∧ Elevates prim trust input v row.specDigestHex
  current : ∀ current ∈ (storeAfter prim alerts now quarantine ops).serviceSpecs, ∀ row,
    rowOf SpecRow.key current.specDigestHex (storeAfter prim alerts now quarantine ops).specs =
      some row → ElevatedRow row →
    ∃ before trust input v, AdmittedAfter prim alerts now quarantine ops before trust input v ∧
      current.planId = v.plan["id"]!.text ∧ Elevates prim trust input v current.specDigestHex
  ruled : ∀ before trust input v,
    AdmittedAfter prim alerts now quarantine ops before trust input v →
    (v.plan["author"]!)["kind"]! = .string (str "rule") → ∀ e ∈ v.specs, specElevated e.2.1 = false

/-- Elevation is never smuggled in. After every run without a collision of spec digests,
each stored elevated spec and each service whose current spec is elevated were written by
a plan that elevates the very digest under an owner's touch. A plan authored by a rule
carries no elevated spec. -/
theorem elevated_specs_touched (now : ℤ) (quarantine : Option ℤ) (ops : List Op)
    (hfree : CollisionFree prim (submittedSpecs ops)) :
    ElevationTouched prim alerts now quarantine ops := by
  obtain ⟨hspecs,hcurrent⟩ := specs_from prim alerts now quarantine ops
  refine ⟨?_,?_,?_⟩
  · rintro row hr ⟨value,hv,helev⟩
    obtain ⟨before,trust,input,v,e,ha,he,rfl⟩ := hspecs row hr
    have hentry := (AdmittedAfter.bound prim alerts ha).entries e he
    rw [parsed_entry prim hentry hv] at helev
    exact ⟨before,trust,input,v,ha,rfl,Admits.elevates prim alerts ha.admits he helev⟩
  · rintro current hc row hr ⟨value,hv,helev⟩
    obtain ⟨before,trust,input,v,action,ha,hm,hmakes,rfl⟩ := hcurrent current hc
    obtain ⟨e,he,hd,_⟩ := AdmittedAfter.pinned prim alerts ha hm (makesCurrent_pins hmakes)
    have hdigest :
        (serviceSpecRow v.plan (formatTimestamp input.now) action).specDigestHex = e.1 := by
      simp only [serviceSpecRow]
      rw [hd]
      rfl
    obtain ⟨hrow,hkey⟩ := rowOf_some _ hr
    -- The stored text is the one this plan carries, whichever plan stored it first.
    have htext := (stored_spec prim alerts hfree ha he (hspecs row hrow)
      (hkey.trans hdigest)).1
    have hentry := (AdmittedAfter.bound prim alerts ha).entries e he
    rw [htext] at hv
    rw [parsed_entry prim hentry hv] at helev
    rw [hdigest]
    exact ⟨before,trust,input,v,ha,rfl,Admits.elevates prim alerts ha.admits he helev⟩
  · intro before trust input v ha hauthor e he
    by_contra helev
    rw [Bool.not_eq_false] at helev
    exact (Admits.elevates prim alerts ha.admits he helev).author hauthor

def privilegedSpec : Value := sampleSpec (ident 10) 7 1 true

def privilegedSpecHash : Digest :=
  digestOfNat 0xe6bfa2e161ef843fa96b7bb2e522f56eda7c5347b43c83b7d2be3d3dcfddba6d

def elevatePlan : Value := samplePlan 2 "BAAAAAAAAAAAAAAAAAAAAA" 3 [ident 10]
  [sampleAction "service.elevate" [("service_id", ident 10),
      ("spec_digest_hex", hashText privilegedSpecHash)],
    sampleDeploy (ident 10) 20 .null privilegedSpecHash] false genesisHead

def elevateHash : Digest :=
  digestOfNat 0xb3265f38de92d162a6c7face029f74e2bd6f7d3f3291818983317914156a9c47

def elevateSignature : Str :=
  bigEndian 32 0x49d0f2ef4832d9546fc8a8f521e012b3b4c6f9255766eaa882c82e167317764a ++
    bigEndian 32 0xd8592bcd55487cd2db04f0c3a1d25b7fee3db5dc8c7a246a4ab273cbd30c4901

def elevatePrimitives : Primitives :=
  tablePrimitives [(ownerDer, ownerHash),
      (specPrefix ++ canonicalBytes privilegedSpec, privilegedSpecHash),
      (planPrefix ++ canonicalBytes elevatePlan, elevateHash),
      (headPreimage genesisHead elevateHash,
        digestOfNat 0xcb7041c7599b8fcddd4562a45f3723591f32116ea6ef165fe3d9ffab2b72c7b8)]
    [ownerPoint] [(ownerPoint, elevateHash, elevateSignature)]

def elevateTrust : TrustStore :=
  okValue (validateTrust elevatePrimitives (trustDocument [ownerEntry]) .production) emptyTrust

def elevateOps : List Op := [.admitPlan elevateTrust
  (clientInput (sampleEnvelope elevatePlan ownerKeyId elevateSignature)
    [canonicalBytes privilegedSpec] 1767312300)]

def elevateStore : Store := storeAfter elevatePrimitives noAlerts 1767312000 none elevateOps

theorem privileged_deploy_touched :
    elevateStore.specs.map SpecRow.elevated = [true] ∧ elevateStore.serviceSpecs.length = 1 ∧
      ElevationTouched elevatePrimitives noAlerts 1767312000 none elevateOps := by
  have hrows : elevateStore.specs.map SpecRow.elevated = [true] ∧
      elevateStore.serviceSpecs.length = 1 := by decide +kernel
  refine ⟨hrows.1,hrows.2,elevated_specs_touched _ _ _ _ _ ?_⟩
  intro a ha b hb _
  simp only [submittedSpecs, elevateOps, flatMap_cons, flatMap_nil, opSpecs, clientInput,
    append_nil, mem_singleton] at ha hb
  rw [ha, hb]

end Permanu.AdmissionElevation
