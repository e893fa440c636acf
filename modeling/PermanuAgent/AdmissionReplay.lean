import PermanuAgent.AdmissionOpen
import PermanuAgent.AdmissionSpecs

/-!
# Replays after a lost store

A new store knows none of the plans the lost one admitted. It admits nothing
until its quarantine ends, and by then every plan that the lost store could
have admitted has expired. The end of the quarantine is stored as text, and
the text of a time after the year 9999 does not read back.
-/

set_option autoImplicit false

namespace Permanu.AdmissionReplay
open ByteText JsonValue PlanText PlanSchema Option PlanVerify
open PlanTrust (TrustStore TrustMode validateTrust emptyTrust)
open PlanCrypto PlanVerify
open PlanAuthority ResultSteps StepRuns
open AdmissionStore AdmissionAdmit AdmissionWrite
open AdmissionRun AdmissionSpecs AdmissionOpen

def lastTimestamp : ℤ := 253402300799

structure TimeFacts (p : Value) (now created expires : ℤ) : Prop where
  createdAt : p["created_at"]!.asStr.bind timestamp = some created
  expiresAt : p["expires_at"]!.asStr.bind timestamp = some expires
  positive : created < expires
  lifetime : expires ≤ created + 900
  started : created ≤ now + 120
  unexpired : now ≤ expires + 120

theorem checkTime_ok {p : Value} {now : ℤ} (h : checkTime p now = .ok ()) :
    ∃ created expires, TimeFacts p now created expires := by
  simp only [checkTime, PlanVerify.timestampOf, bind_ok, okOr_ok, ensure_ok, Bool.and_eq_true,
    decide_eq_true_eq, Bool.not_eq_true', decide_eq_false_iff_not] at h
  obtain ⟨created,hc,expires,he,_,hl,_,hs,hu⟩ := h
  rw [maxLifetimeSeconds] at hl
  rw [skewSeconds] at hs hu
  exact ⟨created,expires,hc,he,by omega,by omega,by omega,by omega⟩

/-- A plan that once passed the time check has expired a while later. -/
theorem TimeFacts.expired {p : Value} {now created expires : ℤ}
    (h : TimeFacts p now created expires) {later : ℤ} (hl : now + 1140 < later) :
    checkTime p later = .error .expired := by
  have hc : timestampOf p["created_at"]! = .ok created := by
    rw [PlanVerify.timestampOf, h.createdAt]
    rfl
  have he : timestampOf p["expires_at"]! = .ok expires := by
    rw [PlanVerify.timestampOf, h.expiresAt]
    rfl
  have := h.positive
  have := h.lifetime
  have := h.started
  have hlife : (0 < expires - created && expires - created ≤ maxLifetimeSeconds) = true := by
    rw [Bool.and_eq_true, decide_eq_true_eq, decide_eq_true_eq, maxLifetimeSeconds]
    omega
  have hstart : (!decide (created > later + skewSeconds)) = true := by
    rw [Bool.not_eq_true', decide_eq_false_iff_not, skewSeconds]
    omega
  have hend : (!decide (later > expires + skewSeconds)) = false := by
    rw [Bool.not_eq_false', decide_eq_true_eq, skewSeconds]
    omega
  rw [checkTime, hc, he]
  change (do
    ensure (0 < expires - created && expires - created ≤ maxLifetimeSeconds) .lifetime
    ensure (!decide (created > later + skewSeconds)) .notYetValid
    ensure (!decide (later > expires + skewSeconds)) .expired : Policy Unit) = _
  rw [hlife, hstart, hend]
  rfl

/-- Every verdict was given within the time of the plan. -/
theorem verifySignedPlan_time (prim : Primitives) {text : Str} {specTexts : List Str}
    {submitter : Submitter} {ctx : PolicyContext} {verdict : Verdict}
    (h : verifySignedPlan prim text specTexts submitter ctx = .ok verdict) :
    ∃ p signatures, parseEnvelope prim text = .ok (p, signatures) ∧
      checkTime p ctx.now = .ok () := by
  simp only [verifySignedPlan, verifyPlan, bind_ok] at h
  obtain ⟨⟨p,signatures⟩,henv,_,_,_,_,_,_,_,_,_,_,_,_,_,htime,_⟩ := h
  exact ⟨p,signatures,henv,htime⟩

theorem txContext_now (store : Store) (trust : TrustStore) (input : AdmitInput) :
    (txContext store trust input).now = input.now := rfl

theorem admitPlan_time (prim : Primitives) (alerts : AlertSpecs) (store : Store)
    (trust : TrustStore) (input : AdmitInput) {written : Store × Admission}
    (h : admitPlan prim alerts store trust input = .ok written) :
    ∃ p signatures, parseEnvelope prim input.envelope = .ok (p, signatures) ∧
      checkTime p input.now = .ok () := by
  simp only [admitPlan, bind_ok] at h
  obtain ⟨_,hq,verdict,hv,h⟩ := h
  obtain ⟨p,signatures,hp,htime⟩ := verifySignedPlan_time prim hv
  exact ⟨p,signatures,hp,htime⟩

/-- No operation touches the creation data of the store. -/
theorem run_info (prim : Primitives) (alerts : AlertSpecs) (store : Store) (ops : List Op) :
    (run (step prim alerts) store ops).info = store.info := by
  refine run_invariant (step prim alerts) (fun s => s.info = store.info) rfl ?_ ops
  intro s op h
  rcases step_cases prim op with ⟨_,_,_,_,ha⟩ | hk
  · exact ha.written.info.trans h
  · exact hk.info.trans h

/-- A quarantine is read back if its end has a timestamp. -/
theorem quarantine_read (prim : Primitives) (alerts : AlertSpecs) {ends : ℤ} (now : ℤ)
    (ops : List Op) (h : -62135596800 ≤ ends) :
    (run (step prim alerts) (createdStore now (some ends)) ops).quarantineEndsAt =
      if ends ≤ lastTimestamp then some ends else none := by
  rw [Store.quarantineEndsAt, run_info]
  simp only [createdStore, map_some, bind_some]
  split_ifs with hl
  · exact timestamp_formatTimestamp h hl
  · exact timestamp_formatTimestamp_late (by simpa [lastTimestamp] using hl)

theorem admitPlan_quarantined (prim : Primitives) (alerts : AlertSpecs) (store : Store)
    (trust : TrustStore) (input : AdmitInput)
    (h : checkQuarantine store input.now = .error .storeQuarantined) :
    admitPlan prim alerts store trust input = .error .storeQuarantined := by
  simp only [admitPlan, h]
  rfl

/-- No state of the new store admits the envelope: the quarantine refuses it until its
end, and from then on the plan has expired. -/
def ReplayRefused (prim : Primitives) (alerts : AlertSpecs) (store : Store) (now : ℤ)
    (envelope : Str) : Prop :=
  ∀ (ops : List Op) (trust : TrustStore) (input : AdmitInput), input.envelope = envelope →
    let later := run (step prim alerts) store ops
    (input.now < now + quarantineSeconds →
      checkQuarantine later input.now = .error .storeQuarantined ∧
      admitPlan prim alerts later trust input = .error .storeQuarantined) ∧
    (now + quarantineSeconds ≤ input.now →
      (∀ p signatures, parseEnvelope prim envelope = .ok (p, signatures) →
        checkTime p input.now = .error .expired) ∧
      ∃ code, admitPlan prim alerts later trust input = .error code)

/-- The store that takes the place of a lost one never admits again what the lost one
admitted, exactly if the end of its quarantine is still in the year 9999. -/
theorem lost_store_replay_iff (prim : Primitives) (alerts : AlertSpecs) (created : ℤ)
    (quarantine : Option ℤ) (ops before : List Op) (trust : TrustStore) (input : AdmitInput)
    (v : VerifiedPlan) (ha : AdmittedAfter prim alerts created quarantine ops before trust input v)
    (host : Host) (path : Str) (trustPresent : Bool) (now : ℤ) (hnow : input.now ≤ now)
    (store : Store) (hnew : Replaces host path trustPresent now store) :
    ReplayRefused prim alerts store now input.envelope ↔
      now + quarantineSeconds ≤ lastTimestamp := by
  obtain ⟨signatures,_,_,f⟩ := verifySignedPlan_admit ha.admits.verified
  have htime := f.time
  rw [txContext_now] at htime
  obtain ⟨createdAt,expires,ht⟩ := checkTime_ok htime
  have hstarted : createdAt ≤ input.now + 120 := ht.started
  have hfirst : -62135596800 ≤ createdAt := by
    obtain ⟨text,_,hc⟩ := bind_eq_some_iff.mp ht.createdAt
    exact timestamp_ge hc
  have hends : -62135596800 ≤ now + quarantineSeconds := by
    rw [quarantineSeconds]
    omega
  rw [hnew.created]
  constructor
  · intro h
    by_contra hlate
    have hopen := ((h [] trust { input with now := now } rfl).1 (by
      change now < now + quarantineSeconds
      rw [quarantineSeconds]
      omega)).1
    rw [checkQuarantine, quarantine_read prim alerts now [] hends, if_neg hlate] at hopen
    cases hopen
  · intro hlast ops' trust' input' henv
    have hread := quarantine_read prim alerts now ops' hends
    rw [if_pos hlast] at hread
    refine ⟨fun hearly => ?_,fun hlater => ?_⟩
    · have hq : checkQuarantine (run (step prim alerts)
          (createdStore now (some (now + quarantineSeconds))) ops') input'.now =
          .error .storeQuarantined := by
        rw [checkQuarantine, hread]
        simp [hearly, ensure]
      exact ⟨hq,admitPlan_quarantined prim alerts _ trust' input' hq⟩
    · have hexpired : checkTime v.plan input'.now = .error .expired := by
        rw [quarantineSeconds] at hlater
        exact ht.expired (by omega)
      have hplan : ∀ p signatures', parseEnvelope prim input.envelope = .ok (p, signatures') →
          checkTime p input'.now = .error .expired := by
        intro p signatures' hp
        rw [f.envelope, Except.ok.injEq, Prod.mk.injEq] at hp
        rw [← hp.1]
        exact hexpired
      refine ⟨hplan,?_⟩
      cases hresult : admitPlan prim alerts (run (step prim alerts)
          (createdStore now (some (now + quarantineSeconds))) ops') trust' input' with
      | error code => exact ⟨code,rfl⟩
      | ok written =>
        obtain ⟨p,signatures',hp,htime⟩ := admitPlan_time prim alerts _ _ _ hresult
        rw [henv] at hp
        rw [hplan p signatures' hp] at htime
        cases htime

def latePlan : Value := ((samplePlan 45 "KAAAAAAAAAAAAAAAAAAAAA" 3 []
  [sampleAction "secret.unset" [("service_id", .null), ("name", .txt "API_TOKEN")]]
  false genesisHead).set "created_at" (.txt "9999-12-31T23:40:00Z")).set
    "expires_at" (.txt "9999-12-31T23:50:00Z")

def latePlanHash : Digest :=
  digestOfNat 0x4f69becce59c4a0da42f193f2606df575d51fb8d131e21edbe69106e0b4d91e0

def lateSignature : Str :=
  bigEndian 32 0x1c715f3f3e67e9a88dbd5b430f88a33a9c8c344692accb14f58689e73b685128 ++
    bigEndian 32 0x3d09412578cfd5a39685082c27bf8c16b96a05bee7c4cba72d9f785125420163

def latePrimitives : Primitives :=
  tablePrimitives [(ownerDer, ownerHash), (planPrefix ++ canonicalBytes latePlan, latePlanHash),
      (headPreimage genesisHead latePlanHash,
        digestOfNat 0xfe833fd519e6381e9e84012520a4b74de2c3179dd8d76c2655a029a0f58ed6ee)]
    [ownerPoint] [(ownerPoint, latePlanHash, lateSignature)]

def lateTrust : TrustStore :=
  okValue (validateTrust latePrimitives (trustDocument [ownerEntry]) .production) emptyTrust

def lateInput (now : ℤ) : AdmitInput :=
  clientInput (sampleEnvelope latePlan ownerKeyId lateSignature) [] now

def soundHost (entry : Entry) : Host where
  dirReady := .ok ()
  entry := entry
  renames := true
  creates := true
  fresh := ⟨true,some (str "ok"),some 0,some (str "wal"),true,fun _ => some 0,some 0,
    createdStore 0 none⟩
  inserts := true
  secures := .ok ()

def storePath : Str := str "/var/lib/permanu/agent/admissions.db"

/-- The store is lost within the last twenty minutes of the year 9999. Its successor has
no quarantine, and admits the same envelope once more. -/
theorem late_loss_replays :
    isFresh (admitPlan latePrimitives noAlerts (createdStore 253402299600 none) lateTrust
      (lateInput 253402299700)) = true ∧
    ∃ store report, openStore (soundHost .missing) storePath true 253402299701 =
      .ok (store, report) ∧ report.recreated = true ∧
      isFresh (admitPlan latePrimitives noAlerts store lateTrust (lateInput 253402299702)) =
        true := by
  have hfresh : isFresh (admitPlan latePrimitives noAlerts (createdStore 253402299600 none)
        lateTrust (lateInput 253402299700)) = true ∧
      isFresh (admitPlan latePrimitives noAlerts
        (createdStore 253402299701 (some 253402300901)) lateTrust (lateInput 253402299702)) =
        true := by
    decide +kernel
  exact ⟨hfresh.1,_,_,rfl,rfl,hfresh.2⟩

/-- Twenty minutes of quarantine that end in time: the envelope is never admitted again. -/
theorem early_loss_refused : ∃ store report,
    openStore (soundHost .special) storePath false 253402299595 = .ok (store, report) ∧
    ReplayRefused latePrimitives noAlerts store 253402299595 (lateInput 253402299590).envelope := by
  have hfresh : isFresh (admitPlan latePrimitives noAlerts (storeAfter latePrimitives noAlerts
      253402299000 none []) lateTrust (lateInput 253402299590)) = true := by
    decide +kernel
  obtain ⟨v,hv⟩ := admittedAfter_of_fresh hfresh
  have hopen : openStore (soundHost .special) storePath false 253402299595 =
      .ok (createdStore 253402299595 (some 253402300795), ⟨true,true,
        some (asidePath storePath 253402299595),some 253402300795⟩) := rfl
  refine ⟨_,_,hopen,?_⟩
  exact (lost_store_replay_iff latePrimitives noAlerts 253402299000 none _ [] lateTrust
    (lateInput 253402299590) v hv (soundHost .special) storePath false 253402299595 (by decide) _
    (.inl ⟨rfl,_,hopen⟩)).mpr (by decide)

end Permanu.AdmissionReplay
