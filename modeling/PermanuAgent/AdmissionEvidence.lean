import PermanuAgent.AdmissionRun
import PermanuAgent.PlanEvidence

/-!
# The evidence of rule plans

A rule plan counts against its rule, uses up its delivery and moves the commit
its services last deployed from the ref. Every other operation leaves these
three tables alone.
-/

set_option autoImplicit false

namespace Permanu.AdmissionEvidence
open ByteText JsonValue PlanText PlanCrypto
open PlanTrust PlanVerify
open ResultSteps TableRows StepRuns AdmissionStore
open AdmissionAdmit AdmissionWrite AdmissionRun

variable (prim : Primitives) (alerts : AlertSpecs)

inductive Invoked (now : ℤ) (row : AdmissionRow) (store after : Store) : Prop
  | rule (ruleId deliveryId : Str) (hrule : row.ruleId = some ruleId)
      (hdelivery : row.deliveryId = some deliveryId)
      (unused : ∀ used ∈ store.consumptions, used.deliveryId = deliveryId → used.ruleId ≠ ruleId)
      (invocations : after.ruleInvocations = deleteWhere
        (fun r => leText r.admittedAt (formatTimestamp (now - 3600))) store.ruleInvocations ++
          [⟨ruleId,row.planId,row.admittedAt⟩])
      (consumptions : after.consumptions = store.consumptions ++
        [⟨deliveryId,ruleId,row.planId,row.admittedAt⟩])
  | none (hrule : row.ruleId = none ∨ row.deliveryId = none)
      (invocations : after.ruleInvocations = store.ruleInvocations)
      (consumptions : after.consumptions = store.consumptions)

variable {now : ℤ} {after store : Store} {v : VerifiedPlan} {input : AdmitInput}
  {trust : TrustStore}

theorem recordInvocation_invoked {row : AdmissionRow}
    (h : recordInvocation now row store = .ok after) : Invoked now row store after := by
  unfold recordInvocation at h
  split at h
  · rename_i ruleId deliveryId hr hd
    simp only [bind_ok, okOr_ok, ensure_ok, pure_ok, insertNew_eq_some] at h
    obtain ⟨_,⟨_,rfl⟩,_,_,_,⟨hunused,rfl⟩,rfl⟩ := h
    refine .rule ruleId deliveryId hr hd (fun used hm hdel hrule => ?_) rfl rfl
    have := hunused used hm
    simp [hdel, hrule] at this
  · rename_i hnone
    cases h
    refine .none ?_ rfl rfl
    cases hr : row.ruleId with
    | none => exact .inl rfl
    | some ruleId =>
      cases hd : row.deliveryId with
      | none => exact .inr rfl
      | some deliveryId => exact (hnone ruleId deliveryId hr hd).elim

structure Evidenced (store : Store) (v : VerifiedPlan) (input : AdmitInput) (after : Store) :
    Prop where
  deliveries : after.deliveries = store.deliveries
  deployed : after.deployedCommits = v.plan["actions"]!.items.foldl
    (fun rows action => setDeployed v.plan action rows) store.deployedCommits
  invoked : Invoked input.now (admissionRow prim store v input) store after

theorem applyActions_deployed {time : Str} {actions : List Value} (store : Store)
    (h : applyActions prim v time actions store = .ok after) :
    after.deployedCommits =
      actions.foldl (fun rows action => setDeployed v.plan action rows) store.deployedCommits := by
  induction actions generalizing store with
  | nil =>
    cases h
    rfl
  | cons action rest ih =>
    simp only [applyActions, applyAction, bind_ok, pure_ok] at h
    obtain ⟨applied,⟨current,hc,rules,_,rfl⟩,hrest⟩ := h
    rw [ih _ hrest, setCurrent_ok hc, List.foldl_cons]

theorem writeAdmission_evidenced
    {supplied : List (Str × Str)} {result : Admission}
    (h : writeAdmission prim store v input supplied = .ok (after, result)) :
    Evidenced prim store v input after := by
  simp only [writeAdmission, reserve, insertAdmission, insertActions, bind_ok, ensure_ok, okOr_ok,
    pure_ok, Prod.mk.injEq] at h
  obtain ⟨_,_,_,⟨_,_,rfl⟩,_,⟨_,_,_,_,rfl⟩,_,⟨_,_,rfl⟩,applied,happ,invoked,hinv,_,_,rfl,_⟩ := h
  have hdeployed := applyActions_deployed prim _ happ
  obtain ⟨_,happlied⟩ := applyActions_ok prim _ happ
  have hafter := recordInvocation_ok hinv
  have hinvoked := recordInvocation_invoked hinv
  refine ⟨?_,?_,?_⟩
  · rw [hafter, happlied]
  · rw [hafter]
    exact hdeployed
  · rw [happlied] at hinvoked
    cases hinvoked with
    | rule ruleId deliveryId hr hd hunused hinvs hcons =>
      exact .rule ruleId deliveryId hr hd hunused hinvs hcons
    | none hr hinvs hcons => exact .none hr hinvs hcons

/-- An admission of a run wrote its evidence in the same step. -/
theorem Admits.evidenced
    (h : Admits prim alerts store trust input v (step prim alerts store (.admitPlan trust input))) :
    Evidenced prim store v input (step prim alerts store (.admitPlan trust input)) := by
  cases hr : admitPlan prim alerts store trust input with
  | error e =>
    have hw := h.written.admissions
    simp only [step, hr] at hw
    simpa using congrArg List.length hw
  | ok result =>
    obtain ⟨after,admission⟩ := result
    have hstep : step prim alerts store (.admitPlan trust input) = after := by
      simp only [step, hr]
    rw [hstep]
    simp only [admitPlan, bind_ok, h.verified, Except.ok.injEq, exists_eq_left'] at hr
    obtain ⟨_,_,supplied,_,hw⟩ := hr
    exact writeAdmission_evidenced prim hw

theorem AdmittedAfter.evidenced {quarantine : Option ℤ} {ops before : List Op}
    (h : AdmittedAfter prim alerts now quarantine ops before trust input v) :
    Evidenced prim (storeAfter prim alerts now quarantine before) v input
      (storeAfter prim alerts now quarantine (before ++ [.admitPlan trust input])) := by
  have hadmits := h.admits
  rw [storeAfter_concat] at hadmits ⊢
  exact Admits.evidenced prim alerts hadmits

end Permanu.AdmissionEvidence
