import PermanuAgent.AdmissionSpecs

/-!
# The stored ciphertexts

A ciphertext is stored under its digest, with the plan and the action that sign it. The digest
alone is the key and a row that is there already stays, so an action finds its own row when no
other action of its plan and no plan before it has signed the digest.
-/

set_option autoImplicit false

namespace Permanu.AdmissionSealed
open ByteText JsonValue PlanCrypto PlanActions PlanAuthority PlanTrust PlanVerify List
open ResultSteps TableRows StepRuns AdmissionStore AdmissionAdmit AdmissionWrite AdmissionRun
open AdmissionSpecs

/-- An action of a plan signs the digest of a ciphertext. -/
def Seals (p : Value) (index : ℕ) (action : Value) (digest : Str) : Prop :=
  p["actions"]!.items[index]? = some action ∧ sealedDigest action = some digest

/-- The row of a ciphertext that an action of a plan has signed. -/
structure OwnRow (p : Value) (index : ℕ) (action : Value) (digest : Str) (row : SealedRow) :
    Prop where
  digest : row.ciphertextDigestHex = digest
  plan : row.planId = p["id"]!.text
  index : row.actionIndex = index
  secret : action["kind"]!.is "secret.set" = true →
    row.projectId = p["project_id"]!.text ∧ row.environment = p["environment"]!.text ∧
      row.serviceId = (action["params"]!)["service_id"]!.text ∧
      row.name = (action["params"]!)["name"]!.text

/-- Every sealing action of a plan finds its own row. -/
def Found (store : Store) (p : Value) : Prop :=
  ∀ index action digest, Seals p index action digest →
    ∃ row ∈ store.sealedSecrets, OwnRow p index action digest row

/-- No digest is signed twice in a plan, and none has a row already. -/
structure SealsAnew (store : Store) (p : Value) : Prop where
  once : ∀ i j a b digest, Seals p i a digest → Seals p j b digest → i = j
  unstored : ∀ index action digest, Seals p index action digest →
    ∀ row ∈ store.sealedSecrets, row.ciphertextDigestHex ≠ digest

structure Rows (store : Store) : Prop where
  unique : (store.sealedSecrets.map SealedRow.ciphertextDigestHex).Nodup
  admitted : ∀ row ∈ store.sealedSecrets, ∃ a ∈ store.admissions, a.planId = row.planId

variable {prim : Primitives} {alerts : AlertSpecs} {store : Store} {trust : TrustStore}
  {input : AdmitInput} {v : VerifiedPlan}

/-- The row of a ciphertext belongs to an action that signs its digest. -/
theorem sealedRow_own {entry : Str × Str} {new : SealedRow}
    (h : sealedRow (admissionRow prim store v input) v.plan["actions"]!.items entry = .ok new) :
    ∃ index action, Seals v.plan index action entry.1 ∧ OwnRow v.plan index action entry.1 new := by
  simp only [sealedRow, bind_ok, okOr_ok, pure_ok] at h
  obtain ⟨index,hindex,rfl⟩ := h
  obtain ⟨hlt,hdigest,-⟩ := findIdx?_eq_some_iff_getElem.1 hindex
  have hget : v.plan["actions"]!.items.getD index .null = v.plan["actions"]!.items[index] := by
    simp [hlt]
  refine ⟨index,_,⟨getElem?_eq_getElem hlt,by simpa using hdigest⟩,?_⟩
  rw [hget]
  split
  · exact ⟨rfl,rfl,rfl,fun _ => ⟨rfl,rfl,rfl,rfl⟩⟩
  · next hkind => exact ⟨rfl,rfl,rfl,fun hsecret => absurd hsecret hkind⟩

/-- The rows there were stay, the new ones are of the plan, and every digest has one. -/
theorem storeSealed_rows {supplied : List (Str × Str)} {rows after : List SealedRow}
    (h : storeSealed (admissionRow prim store v input) v.plan["actions"]!.items supplied rows =
      .ok after) :
    rows ⊆ after ∧ (∀ e ∈ supplied, ∃ row ∈ after, row.ciphertextDigestHex = e.1) ∧
      (∀ row ∈ after, row ∈ rows ∨ ∃ index action digest, Seals v.plan index action digest ∧
        OwnRow v.plan index action digest row) ∧
      ((rows.map SealedRow.ciphertextDigestHex).Nodup →
        (after.map SealedRow.ciphertextDigestHex).Nodup) := by
  induction supplied generalizing rows with
  | nil =>
    cases h
    exact ⟨Subset.refl _,by simp,fun row => .inl,id⟩
  | cons entry rest ih =>
    obtain ⟨new,hnew,hrest⟩ := bind_ok.1 h
    obtain ⟨hsub,hkeys,hmem,hunique⟩ := ih hrest
    obtain ⟨index,action,hseals,hown⟩ := sealedRow_own hnew
    refine ⟨fun row hrow => hsub (subset_insertIgnore _ new hrow),forall_mem_cons.2 ⟨?_,hkeys⟩,
      fun row hrow => ?_,fun hrows => hunique (nodup_insertIgnore _ new hrows)⟩
    · obtain ⟨row,hrow,hkey⟩ := exists_key_insertIgnore SealedRow.ciphertextDigestHex new
      exact ⟨row,hsub hrow,hkey.trans hown.digest⟩
    · rcases hmem row hrow with hold | hsealed
      · rcases mem_insertIgnore _ _ hold with hold | rfl
        · exact .inl hold
        · exact .inr ⟨index,action,_,hseals,hown⟩
      · exact .inr hsealed

/-- The ciphertexts that an admission stores are those of the digests its actions sign. -/
theorem Admits.stores
    (h : Admits prim alerts store trust input v (step prim alerts store (.admitPlan trust input))) :
    ∃ supplied : List (Str × Str),
      (∀ index action digest, Seals v.plan index action digest → digest ∈ supplied.map Prod.fst) ∧
      storeSealed (admissionRow prim store v input) v.plan["actions"]!.items supplied
        store.sealedSecrets =
          .ok (step prim alerts store (.admitPlan trust input)).sealedSecrets := by
  obtain ⟨supplied,hready⟩ := h.ready
  refine ⟨supplied,fun index action digest hseals => ?_,?_⟩
  · obtain ⟨found,hcheck,hrest⟩ := bind_ok.1 hready
    simp only [bind_ok, pure_ok] at hrest
    obtain ⟨-,-,-,-,-,-,-,-,rfl⟩ := hrest
    simp only [checkSealed, bind_ok, ensure_ok, pure_ok] at hcheck
    obtain ⟨_,_,_,_,_,hsame,rfl⟩ := hcheck
    simp only [PlanSpec.sameSet, Bool.and_eq_true, all_eq_true] at hsame
    exact contains_iff_mem.1 (hsame.2 digest
      (mem_filterMap.2 ⟨action,mem_of_getElem? hseals.1,hseals.2⟩))
  · have hadmit : admitPlan prim alerts store trust input =
        writeAdmission prim store v input supplied := by
      simp only [admitPlan]
      rw [h.unquarantined]
      simp only [bind, Except.bind, h.verified, hready]
    have hwritten := h.written.admissions
    simp only [step, hadmit] at hwritten ⊢
    cases hwrite : writeAdmission prim store v input supplied with
    | error e =>
      rw [hwrite] at hwritten
      simp at hwritten
    | ok result => exact (writeAdmission_ok prim hwrite).2.2

theorem step_subset {op : Op} :
    store.sealedSecrets ⊆ (step prim alerts store op).sealedSecrets := by
  rcases step_cases prim op with ⟨trust,input,v,rfl,ha⟩ | hk
  · obtain ⟨supplied,-,hstored⟩ := Admits.stores ha
    exact (storeSealed_rows hstored).1
  · rw [hk.sealedSecrets]
    exact Subset.refl _

theorem Rows.step (h : Rows store) (op : Op) : Rows (step prim alerts store op) := by
  rcases step_cases prim op with ⟨trust,input,v,rfl,ha⟩ | hk
  · obtain ⟨supplied,-,hstored⟩ := Admits.stores ha
    obtain ⟨-,-,hmem,hunique⟩ := storeSealed_rows hstored
    refine ⟨hunique h.unique,fun row hrow => ?_⟩
    rw [ha.written.admissions]
    rcases hmem row hrow with hold | ⟨_,_,_,-,hown⟩
    · obtain ⟨a,hmem,hid⟩ := h.admitted row hold
      exact ⟨a,mem_append_left _ hmem,hid⟩
    · exact ⟨_,mem_concat_self,hown.plan.symm⟩
  · refine ⟨hk.sealedSecrets ▸ h.unique,fun row hrow => ?_⟩
    rw [hk.sealedSecrets] at hrow
    obtain ⟨a,hmem,hid⟩ := h.admitted row hrow
    obtain ⟨b,hb,hcore⟩ := mem_of_core hk.admissions.symm hmem
    exact ⟨b,hb,(congrArg AdmissionRow.planId hcore).trans hid⟩

variable (prim alerts)

/-- In a run every sealing action of every admitted plan finds its own row exactly when every
plan is admitted with digests that are new to it and to the store. -/
theorem sealed_rows_found_iff (now : ℤ) (quarantine : Option ℤ) (ops : List Op) :
    (∀ before trust input v, AdmittedAfter prim alerts now quarantine ops before trust input v →
      Found (storeAfter prim alerts now quarantine ops) v.plan) ↔
    ∀ before trust input v, AdmittedAfter prim alerts now quarantine ops before trust input v →
      SealsAnew (storeAfter prim alerts now quarantine before) v.plan := by
  have hrows : ∀ calls, Rows (storeAfter prim alerts now quarantine calls) :=
    run_invariant (step prim alerts) Rows ⟨nodup_nil,by simp [createdStore]⟩
      (fun store op h => Rows.step h op)
  have hkept : ∀ before, before <+: ops →
    (storeAfter prim alerts now quarantine before).sealedSecrets ⊆
      (storeAfter prim alerts now quarantine ops).sealedSecrets := by
    rintro before ⟨later,rfl⟩
    rw [storeAfter, storeAfter, run_append]
    refine run_invariant (step prim alerts) (fun store =>
      (run (step prim alerts) (createdStore now quarantine) before).sealedSecrets ⊆
        store.sealedSecrets) (Subset.refl _) (fun store op h => ?_) later
    exact Subset.trans h step_subset
  refine forall₄_congr fun before trust input v => forall_congr' fun hafter => ?_
  have hadmits := hafter.admits
  rw [storeAfter_concat] at hadmits
  obtain ⟨supplied,hsupplied,hstored⟩ := Admits.stores hadmits
  obtain ⟨-,hkeys,hmem,-⟩ := storeSealed_rows hstored
  constructor
  · intro hfound
    -- the rows of the final store are one for each digest
    have hsame : ∀ a ∈ (storeAfter prim alerts now quarantine ops).sealedSecrets,
        ∀ b ∈ (storeAfter prim alerts now quarantine ops).sealedSecrets,
        a.ciphertextDigestHex = b.ciphertextDigestHex → a = b :=
      fun a ha b hb => inj_on_of_nodup_map (hrows ops).unique ha hb
    constructor
    · intro i j a b digest hi hj
      obtain ⟨row,hrow,hown⟩ := hfound i a digest hi
      obtain ⟨other,hother,hown'⟩ := hfound j b digest hj
      rw [← hown.index, ← hown'.index,
        hsame row hrow other hother (hown.digest.trans hown'.digest.symm)]
    · intro index action digest hseals old hold hdigest
      obtain ⟨row,hrow,hown⟩ := hfound index action digest hseals
      have heq := hsame old (hkept before ((prefix_append _ _).trans hafter.within) hold) row hrow
        (hdigest.trans hown.digest.symm)
      obtain ⟨a,ha,hid⟩ := (hrows before).admitted old hold
      exact (hadmits.written.fresh a ha).1 (hid.trans (heq ▸ hown.plan))
  · intro hanew index action digest hseals
    obtain ⟨entry,hentry,rfl⟩ := mem_map.1 (hsupplied index action digest hseals)
    obtain ⟨row,hrow,hdigest⟩ := hkeys entry hentry
    rcases hmem row hrow with hold | ⟨i,a,digest,hsealed,hown⟩
    · exact absurd hdigest (hanew.unstored index action _ hseals row hold)
    · obtain rfl : digest = entry.1 := hown.digest.symm.trans hdigest
      obtain rfl := hanew.once i index a action _ hsealed hseals
      obtain rfl : a = action := Option.some.inj (hsealed.1.symm.trans hseals.1)
      refine ⟨row,hkept _ hafter.within ?_,hown⟩
      rw [storeAfter_concat]
      exact hrow

def sharedDigest : Digest :=
  digestOfNat 0x66c2c08ff126324347b09d35bf079722bacf8db334372cfdf61bd9573acbce0e

def sharedSecret (name : String) : Value := sampleAction "secret.set"
  [("service_id",.null), ("name",.txt name), ("ciphertext_digest_hex",hashText sharedDigest)]

def sharedPlan : Value := samplePlan 2 "DAAAAAAAAAAAAAAAAAAAAA" 3 []
  [sharedSecret "API_TOKEN", sharedSecret "API_KEY"] false genesisHead

def sharedPlanHash : Digest :=
  digestOfNat 0x1190c17d35749215dfb3e34ad712575a0b1fba628e3e71d3ebe8344ed3bff03a

def sharedSignature : Str :=
  bigEndian 32 0x353513e57acbee663b9768817bf8054e0d1af5e16b73aed9f19857c3f2b11c5b ++
    bigEndian 32 0xa64b6056d1dacf2c30feec4bc7ebe98e4d13127b25eac3dc689705524e17a7c5

def sharedPrimitives : Primitives := tablePrimitives [(ownerDer,ownerHash),
    (planPrefix ++ canonicalBytes sharedPlan,sharedPlanHash), (str ageHeader,sharedDigest),
    (headPreimage genesisHead sharedPlanHash,
      digestOfNat 0xad31b13d402e3a3ab173fd1005deab706ae4d2ef19c983eb0c0603adfc983d0c)]
  [ownerPoint] [(ownerPoint,sharedPlanHash,sharedSignature)]

def sharedTrust : TrustStore :=
  okValue (validateTrust sharedPrimitives (trustDocument [ownerEntry]) .production) emptyTrust

def sharedInput : AdmitInput := { clientInput
  (sampleEnvelope sharedPlan ownerKeyId sharedSignature) [] 1767312300 with
    sealedSecrets := [str ageHeader] }

/-- The row of the ciphertext is that of the first secret, and the second has none. -/
theorem shared_ciphertext_lost : ∃ v,
    AdmittedAfter sharedPrimitives noAlerts 1767312000 none [.admitPlan sharedTrust sharedInput] []
      sharedTrust sharedInput v ∧
    ¬ Found (storeAfter sharedPrimitives noAlerts 1767312000 none
      [.admitPlan sharedTrust sharedInput]) v.plan := by
  have hrun : isFresh (admitPlan sharedPrimitives noAlerts
        (storeAfter sharedPrimitives noAlerts 1767312000 none []) sharedTrust sharedInput) = true ∧
      (storeAfter sharedPrimitives noAlerts 1767312000 none
        [.admitPlan sharedTrust sharedInput]).sealedSecrets.map SealedRow.actionIndex = [0] ∧
      (parseEnvelope sharedPrimitives sharedInput.envelope).map Prod.fst = .ok sharedPlan := by
    decide +kernel
  obtain ⟨v,hv⟩ := admittedAfter_of_fresh hrun.1
  refine ⟨v,hv,fun hfound => ?_⟩
  obtain ⟨signatures,digest,rule,facts⟩ := verifySignedPlan_admit hv.admits.verified
  have hplan := hrun.2.2
  rw [facts.envelope] at hplan
  have hseals : Seals v.plan 1 (sharedSecret "API_KEY") (hex sharedDigest.val) := by
    rw [show v.plan = sharedPlan from Except.ok.inj hplan]
    exact ⟨by decide +kernel,by decide +kernel⟩
  obtain ⟨row,hrow,hown⟩ := hfound _ _ _ hseals
  have hindex : row.actionIndex ∈ [0] := hrun.2.1 ▸ mem_map_of_mem hrow
  rw [hown.index] at hindex
  simp at hindex

end Permanu.AdmissionSealed
