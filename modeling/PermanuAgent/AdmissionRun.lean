import PermanuAgent.AdmissionWrite
import PermanuAgent.AdmissionReconcile
import PermanuAgent.AdmissionWebhooks
import PermanuAgent.StepRuns

/-!
# Runs of the admission store

Every call that writes the store is one operation. A run is any list of them
from a store just created; an operation that fails leaves the store as it was.
What a written admission does to each table is said once, and the tables that
the other operations leave alone are listed once.
-/

set_option autoImplicit false

namespace Permanu.AdmissionRun
open ByteText JsonValue PlanText PlanCrypto List
open PlanTrust PlanVerify ResultSteps TableRows StepRuns
open AdmissionStore AdmissionAdmit AdmissionWrite
open AdmissionReconcile AdmissionWebhooks

inductive Op where
  | admitPlan (trust : TrustStore) (input : AdmitInput)
  | reconcile (read : LogRead) (now : ℤ)
  | finishAction (planId : Str) (actionIndex : ℕ) (outcome : Outcome) (now : ℤ)
  | expireWindows (now : ℤ)
  | insertDelivery (row : DeliveryRow)
  | setDeliveryStatus (deliveryId : Str) (status : DeliveryStatus)
  | claimDelivery (deliveryId : Str) (status : DeliveryStatus)
  | insertRejectedDelivery (row : RejectedRow)
  | expireDeliveries (now : ℤ)
  | recordBuild (row : BuildRow)

variable (prim : Primitives) (alerts : AlertSpecs)

def step (store : Store) : Op → Store
  | .admitPlan trust input =>
    match admitPlan prim alerts store trust input with
    | .ok (written, _) => written
    | .error _ => store
  | .reconcile read now => (reconcile read now store).1
  | .finishAction planId actionIndex outcome now =>
    (finishAction planId actionIndex outcome now store).1
  | .expireWindows now => (expireWindows now store).1
  | .insertDelivery row => (insertDelivery row store).1
  | .setDeliveryStatus deliveryId status => setDeliveryStatus deliveryId status store
  | .claimDelivery deliveryId status => (claimDelivery deliveryId status store).1
  | .insertRejectedDelivery row => insertRejectedDelivery row store
  | .expireDeliveries now => (expireDeliveries now store).1
  | .recordBuild row => recordBuild row store

/-- The store after a run from a store created at `now`. -/
def storeAfter (now : ℤ) (quarantine : Option ℤ) (ops : List Op) : Store :=
  run (step prim alerts) (createdStore now quarantine) ops

def currentRows (p : Value) (admittedAt : Str) (rows : List ServiceSpecRow) (action : Value) :
    List ServiceSpecRow :=
  if makesCurrent action then
    upsert ServiceSpecRow.key (serviceSpecRow p admittedAt action) rows
  else rows

def ruleEffects (v : VerifiedPlan) : List Value → List RuleRow → Policy (List RuleRow)
  | [], rules => .ok rules
  | action::rest, rules => do
    let next ← ruleEffect prim v action rules
    ruleEffects v rest next

/-- The tables after a written admission. -/
structure Written (store : Store) (v : VerifiedPlan) (input : AdmitInput) (after : Store) :
    Prop where
  info : after.info = store.info
  fresh : ∀ r ∈ store.admissions, r.planId ≠ v.plan["id"]!.text ∧ r.nonce ≠ v.plan["nonce"]!.text
  admissions : after.admissions = store.admissions ++ [admissionRow prim store v input]
  actions : after.actions = store.actions ++ actionRows v.plan
  specs : after.specs = insertSpecs v (formatTimestamp input.now) store.specs
  serviceSpecs : after.serviceSpecs = v.plan["actions"]!.items.foldl
    (currentRows v.plan (formatTimestamp input.now)) store.serviceSpecs
  rules : ruleEffects prim v v.plan["actions"]!.items store.rules = .ok after.rules
  heads : after.heads = setHead (admissionRow prim store v input) store.heads
  builds : after.builds = store.builds
  cursor : after.cursor = store.cursor

variable {time : Str} {after store : Store} {now : ℤ} {result : Admission} {trust : TrustStore}
  {quarantine : Option ℤ} {ops : List Op}

theorem setCurrent_ok {p : Value} {action : Value}
    (h : setCurrent p time action store = .ok after) :
    after = { store with serviceSpecs := currentRows p time store.serviceSpecs action } := by
  simp only [setCurrent] at h
  split_ifs at h with hm
  · simp only [bind_ok, ensure_ok, pure_ok] at h
    obtain ⟨_,_,rfl⟩ := h
    simp [currentRows, hm]
  · simp only [pure_ok] at h
    subst h
    simp [currentRows, hm]

theorem applyActions_ok {v : VerifiedPlan} {actions : List Value} (store : Store)
    (h : applyActions prim v time actions store = .ok after) :
    ruleEffects prim v actions store.rules = .ok after.rules ∧
      after = { store with
        serviceSpecs := actions.foldl (currentRows v.plan time) store.serviceSpecs
        deployedCommits := after.deployedCommits
        rules := after.rules } := by
  induction actions generalizing store with
  | nil =>
    cases h
    exact ⟨rfl,rfl⟩
  | cons action rest ih =>
    simp only [applyActions, applyAction, bind_ok, pure_ok] at h
    obtain ⟨applied,⟨current,hc,rules,hr,rfl⟩,hrest⟩ := h
    obtain ⟨hrules,hafter⟩ := ih _ hrest
    rw [setCurrent_ok hc] at hr hafter
    refine ⟨?_,by simpa using hafter⟩
    simp only [ruleEffects, bind_ok]
    exact ⟨rules,hr,hrules⟩

theorem recordInvocation_ok {row : AdmissionRow}
    (h : recordInvocation now row store = .ok after) :
    after = { store with
      ruleInvocations := after.ruleInvocations
      consumptions := after.consumptions } := by
  unfold recordInvocation at h
  split at h
  · simp only [bind_ok, okOr_ok, ensure_ok, pure_ok] at h
    obtain ⟨_,_,_,_,_,_,rfl⟩ := h
    rfl
  · cases h
    rfl

theorem writeAdmission_ok {v : VerifiedPlan} {input : AdmitInput}
    {supplied : List (Str × Str)}
    (h : writeAdmission prim store v input supplied = .ok (after, result)) :
    Written prim store v input after ∧ result.deduplicated = false ∧
      storeSealed (admissionRow prim store v input) v.plan["actions"]!.items supplied
        store.sealedSecrets = .ok after.sealedSecrets := by
  simp only [writeAdmission, reserve, insertAdmission, insertActions, bind_ok, ensure_ok, okOr_ok,
    pure_ok, Prod.mk.injEq] at h
  obtain ⟨_,_,_,⟨_,_,rfl⟩,_,⟨_,_,admissions,hadm,rfl⟩,_,⟨actions,hact,rfl⟩,applied,happ,
    invoked,hinv,
    secrets,hsealed,rfl,rfl⟩ := h
  obtain ⟨hfresh,rfl⟩ := (insertNew_eq_some _).mp hadm
  have hactions := insertAllNew_eq_some _ _ hact
  obtain ⟨hrules,happlied⟩ := applyActions_ok prim _ happ
  have hinvoked := recordInvocation_ok hinv
  rw [happlied] at hinvoked
  rw [hinvoked] at hsealed
  refine ⟨⟨?_,?_,?_,?_,?_,?_,?_,?_,?_,?_⟩,rfl,hsealed⟩
  · rw [hinvoked]
  · intro r hr
    have := hfresh r hr
    simp only [Bool.or_eq_false_iff, beq_eq_false_iff_ne] at this
    exact ⟨this.1.1.1,this.2⟩
  · rw [hinvoked]
  · rw [hinvoked]
    exact hactions
  · rw [hinvoked]
    rfl
  · rw [hinvoked]
    rfl
  · rw [hinvoked]
    exact hrules
  · rw [hinvoked]
  · rw [hinvoked]
  · rw [hinvoked]

variable {input : AdmitInput} {v : VerifiedPlan}

variable {planId : Str} {actionIndex : ℕ} {outcome : Outcome} {op : Op}

theorem Written.admission_old
    (h : Written prim store v input after) {a : AdmissionRow}
    (ha : store.admission planId = some a) : after.admission planId = some a := by
  simp only [Store.admission, rowOf] at ha ⊢
  rw [h.admissions, find?_append, ha]
  rfl

theorem Written.admission_new (h : Written prim store v input after) :
    after.admission v.plan["id"]!.text = some (admissionRow prim store v input) := by
  simp only [Store.admission, rowOf]
  rw [h.admissions, find?_append, find?_eq_none.mpr]
  · simp [admissionRow]
  · intro r hr
    simpa using (h.fresh r hr).1

/-- A plan that is admitted afresh: verified, ready to execute and written. -/
structure Admits (store : Store) (trust : TrustStore) (input : AdmitInput) (v : VerifiedPlan)
    (after : Store) : Prop where
  unquarantined : checkQuarantine store input.now = .ok ()
  verified : verifySignedPlan prim input.envelope input.specs input.submitter
    (txContext store trust input) = .ok (.admitted v)
  ready : ∃ supplied,
    executionPreconditions prim alerts store trust v input.sealedSecrets = .ok supplied
  written : Written prim store v input after

variable {alerts}

theorem admitPlan_ok (h : admitPlan prim alerts store trust input = .ok (after, result)) :
    result.deduplicated = true ∧ after = store ∨
      result.deduplicated = false ∧ ∃ v, Admits prim alerts store trust input v after := by
  simp only [admitPlan, bind_ok] at h
  obtain ⟨_,hq,verdict,hv,h⟩ := h
  cases verdict with
  | deduped planId digest =>
    simp only [bind_ok, pure_ok, Prod.mk.injEq] at h
    obtain ⟨_,_,rfl,rfl⟩ := h
    exact .inl ⟨rfl,rfl⟩
  | admitted v =>
    simp only [bind_ok] at h
    obtain ⟨supplied,hs,hw⟩ := h
    obtain ⟨hwritten,hd,-⟩ := writeAdmission_ok prim hw
    exact .inr ⟨hd,v,hq,hv,⟨supplied,hs⟩,hwritten⟩

/-- Everything an admission writes, up to the results of actions and revocations. -/
structure Kept (store after : Store) : Prop where
  info : after.info = store.info
  seen : after.seen = store.seen
  admissions : after.admissions.map AdmissionRow.core = store.admissions.map AdmissionRow.core
  actions : after.actions.map ActionRow.core = store.actions.map ActionRow.core
  specs : after.specs = store.specs
  heads : after.heads = store.heads
  rules : after.rules.map RuleRow.core = store.rules.map RuleRow.core
  ruleInvocations : after.ruleInvocations = store.ruleInvocations
  consumptions : after.consumptions = store.consumptions
  sealedSecrets : after.sealedSecrets = store.sealedSecrets
  serviceSpecs : after.serviceSpecs = store.serviceSpecs
  deployedCommits : after.deployedCommits = store.deployedCommits

theorem Kept.refl : Kept store store :=
  ⟨rfl,rfl,rfl,rfl,rfl,rfl,rfl,rfl,rfl,rfl,rfl,rfl⟩

theorem Kept.trans {a b c : Store} (hab : Kept a b) (hbc : Kept b c) : Kept a c :=
  ⟨hbc.info.trans hab.info,hbc.seen.trans hab.seen,hbc.admissions.trans hab.admissions,
    hbc.actions.trans hab.actions,hbc.specs.trans hab.specs,hbc.heads.trans hab.heads,
    hbc.rules.trans hab.rules,hbc.ruleInvocations.trans hab.ruleInvocations,
    hbc.consumptions.trans hab.consumptions,hbc.sealedSecrets.trans hab.sealedSecrets,
    hbc.serviceSpecs.trans hab.serviceSpecs,hbc.deployedCommits.trans hab.deployedCommits⟩

theorem settleRuleRevoke_kept :
    Kept store (settleRuleRevoke planId actionIndex outcome time store) := by
  simp only [settleRuleRevoke]
  split_ifs
  · refine { Kept.refl with rules := ?_ }
    simp only [settledRules]
    split_ifs <;> exact map_updateWhere _ _ _ (by intro _; rfl) _
  · exact Kept.refl

theorem finishAdmissionIfDone_kept :
    Kept store (finishAdmissionIfDone planId store).1 := by
  simp only [finishAdmissionIfDone]
  split_ifs
  · exact Kept.refl
  all_goals
    exact { Kept.refl with admissions := map_updateWhere _ _ _ (by intro _; rfl) _ }

theorem applyLine_kept {line : ConsumedLine} : Kept store (applyLine line store).1 := by
  simp only [applyLine]
  split_ifs
  · exact Kept.refl
  · exact { Kept.refl with actions := map_updateWhere _ _ _ (by intro _; rfl) _ }
  · simp only [applyResult]
    split
    · exact Kept.refl
    · rename_i outcome _
      refine Kept.trans ?_ finishAdmissionIfDone_kept
      refine Kept.trans ?_ settleRuleRevoke_kept
      exact { Kept.refl with actions := map_updateWhere _ _ _ (by intro _; rfl) _ }
  · exact Kept.refl

theorem applyLines_kept (lastSeq : ℕ) {lines : List ConsumedLine} (store : Store) :
    Kept store (applyLines lastSeq lines store).1 := by
  induction lines generalizing lastSeq store with
  | nil => exact Kept.refl
  | cons line rest ih =>
    simp only [applyLines]
    split_ifs
    · exact applyLine_kept.trans (ih _ _)
    all_goals exact ih _ _

theorem finishAction_kept : Kept store (finishAction planId actionIndex outcome now store).1 := by
  refine Kept.trans ?_ finishAdmissionIfDone_kept
  split_ifs
  · refine Kept.trans ?_ settleRuleRevoke_kept
    exact { Kept.refl with actions := map_updateWhere _ _ _ (by intro _; rfl) _ }
  · exact { Kept.refl with actions := map_updateWhere _ _ _ (by intro _; rfl) _ }

theorem expirePlans_kept {plans : List Str} (store : Store) :
    Kept store (plans.foldl (expirePlan time) store) := by
  induction plans generalizing store with
  | nil => exact Kept.refl
  | cons planId rest ih =>
    refine Kept.trans ?_ (ih _)
    exact { Kept.refl with
      actions := map_updateWhere _ _ _ (by intro _; rfl) _
      admissions := map_updateWhere _ _ _ (by intro _; rfl) _ }

def Op.isOutside : Op → Bool
  | .reconcile _ _ | .finishAction _ _ _ _ | .expireWindows _ => false
  | _ => true

/-- Such an operation admits a plan or leaves every table but those of deliveries and builds. -/
theorem step_outside (h : op.isOutside = true) :
    (∃ trust input v, op = .admitPlan trust input ∧
      Admits prim alerts store trust input v (step prim alerts store op)) ∨
    ∃ deliveries rejected builds, step prim alerts store op =
      { store with deliveries := deliveries, rejected := rejected, builds := builds } := by
  cases op with
  | admitPlan trust input =>
    simp only [step]
    split
    · rename_i written result h
      rcases admitPlan_ok prim h with ⟨_,rfl⟩ | ⟨_,v,hv⟩
      · exact .inr ⟨_,_,_,rfl⟩
      · exact .inl ⟨trust,input,v,rfl,hv⟩
    · exact .inr ⟨_,_,_,rfl⟩
  | insertDelivery row =>
    simp only [step, insertDelivery]
    split_ifs
    · split <;> exact .inr ⟨_,_,_,rfl⟩
    · exact .inr ⟨_,_,_,rfl⟩
  | insertRejectedDelivery row =>
    simp only [step, insertRejectedDelivery]
    split_ifs <;> exact .inr ⟨_,_,_,rfl⟩
  | recordBuild row =>
    simp only [step, recordBuild]
    split_ifs <;> exact .inr ⟨_,_,_,rfl⟩
  | setDeliveryStatus _ _ | claimDelivery _ _ | expireDeliveries _ => exact .inr ⟨_,_,_,rfl⟩
  | reconcile _ _ | finishAction _ _ _ _ | expireWindows _ => cases h

/-- Only a fresh admission changes more than results, deliveries and builds. -/
theorem step_cases (op : Op) :
    (∃ trust input v, op = .admitPlan trust input ∧
      Admits prim alerts store trust input v (step prim alerts store op)) ∨
    Kept store (step prim alerts store op) := by
  cases op with
  | reconcile read now =>
    exact .inr ((applyLines_kept _ store).trans { Kept.refl with })
  | finishAction planId actionIndex outcome now => exact .inr finishAction_kept
  | expireWindows now => exact .inr (expirePlans_kept _)
  | _ =>
    refine (step_outside prim rfl).imp_right ?_
    rintro ⟨deliveries,rejected,builds,heq⟩
    rw [heq]
    exact { Kept.refl with }

variable (alerts)

/-- The run admitted the plan `v` afresh, right after the operations `before`. -/
structure AdmittedAfter (now : ℤ) (quarantine : Option ℤ) (ops before : List Op)
    (trust : TrustStore) (input : AdmitInput) (v : VerifiedPlan) : Prop where
  within : before ++ [.admitPlan trust input] <+: ops
  admits : Admits prim alerts (storeAfter prim alerts now quarantine before) trust input v
    (storeAfter prim alerts now quarantine (before ++ [.admitPlan trust input]))

variable {prim} {alerts}

theorem AdmittedAfter.mono {before : List Op}
    (h : AdmittedAfter prim alerts now quarantine ops before trust input v) :
    AdmittedAfter prim alerts now quarantine (ops ++ [op]) before trust input v :=
  ⟨h.within.trans (prefix_append ops [op]),h.admits⟩

def isFresh : Policy (Store × Admission) → Bool
  | .ok (_, admission) => !admission.deduplicated
  | .error _ => false

/-- A submission that is admitted afresh at the end of a run. -/
theorem admittedAfter_of_fresh
    (h : isFresh (admitPlan prim alerts (storeAfter prim alerts now quarantine ops) trust input) =
      true) :
    ∃ v, AdmittedAfter prim alerts now quarantine (ops ++ [.admitPlan trust input]) ops trust
      input v := by
  cases hresult : admitPlan prim alerts (storeAfter prim alerts now quarantine ops) trust input with
  | error e => simp [hresult, isFresh] at h
  | ok written =>
    obtain ⟨after,result⟩ := written
    have hrun :
        storeAfter prim alerts now quarantine (ops ++ [.admitPlan trust input]) = after := by
      rw [storeAfter, run_concat]
      simp only [step]
      rw [show admitPlan prim alerts (run (step prim alerts) (createdStore now quarantine) ops)
        trust input = .ok (after, result) from hresult]
    rcases admitPlan_ok prim hresult with ⟨hd,_⟩ | ⟨_,v,hv⟩
    · simp [hresult, isFresh, hd] at h
    · exact ⟨v,prefix_refl _,hrun ▸ hv⟩

variable (prim) (alerts) (now) (quarantine) (ops) in
theorem storeAfter_concat (op : Op) : storeAfter prim alerts now quarantine (ops ++ [op]) =
    step prim alerts (storeAfter prim alerts now quarantine ops) op := run_concat _ _ _ _

/-- A property of the run that an admission of its last operation establishes, and that
the operations which admit nothing keep, holds of every run. -/
theorem storeAfter_induction (P : List Op → Store → Prop)
    (start : P [] (createdStore now quarantine))
    (admitted : ∀ ops trust input v, P ops (storeAfter prim alerts now quarantine ops) →
      AdmittedAfter prim alerts now quarantine (ops ++ [.admitPlan trust input]) ops trust input v →
      P (ops ++ [.admitPlan trust input])
        (storeAfter prim alerts now quarantine (ops ++ [.admitPlan trust input])))
    (kept : ∀ ops op store after, P ops store → Kept store after → P (ops ++ [op]) after) :
    P ops (storeAfter prim alerts now quarantine ops) := by
  refine run_induction (step prim alerts) P start ?_
  intro ops op h
  have hrun := storeAfter_concat prim alerts now quarantine ops op
  rcases step_cases prim op with
    ⟨trust,input,v,rfl,ha⟩ | hk
  · rw [← hrun] at ha
    have hp := admitted ops trust input v h ⟨prefix_refl _,ha⟩
    rw [hrun] at hp
    exact hp
  · exact kept ops op _ _ h hk

/-- Every admission was written by one operation of the run, and keeps what it wrote. -/
theorem admission_written :
    ∀ r ∈ (storeAfter prim alerts now quarantine ops).admissions, ∃ before trust input v,
      AdmittedAfter prim alerts now quarantine ops before trust input v ∧
      r.core = admissionRow prim (storeAfter prim alerts now quarantine before) v input := by
  refine storeAfter_induction (fun ops store => ∀ r ∈ store.admissions,
    ∃ before trust input v, AdmittedAfter prim alerts now quarantine ops before trust input v ∧
      r.core = admissionRow prim (storeAfter prim alerts now quarantine before) v input) ?_ ?_ ?_
  · simp [createdStore]
  · intro ops trust input v h ha r hr
    rw [ha.admits.written.admissions] at hr
    rcases mem_append.mp hr with hr | hr
    · obtain ⟨before,trust',input',v',hb,hrow⟩ := h r hr
      exact ⟨before,trust',input',v',hb.mono,hrow⟩
    · rw [mem_singleton.mp hr]
      exact ⟨ops,trust,input,v,ha,rfl⟩
  · intro ops op store after h hk r hr
    obtain ⟨s,hs,he⟩ := mem_of_core hk.admissions hr
    obtain ⟨before,trust,input,v,hb,hrow⟩ := h s hs
    exact ⟨before,trust,input,v,hb.mono,he ▸ hrow⟩

end Permanu.AdmissionRun
