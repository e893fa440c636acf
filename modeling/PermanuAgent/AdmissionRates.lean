import PermanuAgent.AdmissionConfinement
import PermanuAgent.AdmissionEvidence
import PermanuAgent.SlidingWindow
import PermanuAgent.TimestampOrder

/-!
# The hourly limit of a rule

The limit is checked against a table that every rule's invocations prune, by the
texts of their times. As long as the clock does not go back and its years have
four digits, the rows after any later threshold are the admissions after it, so
what the check counts is what the run admitted in the last hour.
-/

set_option autoImplicit false

namespace Permanu.AdmissionRates
open ByteText JsonValue PlanText PlanJcs PlanSchema List
open PlanSpec PlanCrypto PlanActions PlanTrust PlanVerify
open PlanAuthority PlanEvidence ResultSteps TableRows
open StepRuns AdmissionStore AdmissionAdmit AdmissionWrite
open AdmissionRun AdmissionRules AdmissionEvidence
open SlidingWindow TimestampOrder

variable (prim : Primitives) (alerts : AlertSpecs)

def ruleAdmission (store : Store) : Op → Option (Str × ℤ)
  | .admitPlan trust input =>
    match admitPlan prim alerts store trust input with
    | .ok (after, admission) =>
      if admission.deduplicated then none
      else (after.admissions.getLast?.bind AdmissionRow.ruleId).map (·, input.now)
    | .error _ => none
  | _ => none

def ruleAdmissions (store : Store) : List Op → List (Str × ℤ)
  | [] => []
  | op::rest => (ruleAdmission prim alerts store op).toList ++
    ruleAdmissions (step prim alerts store op) rest

/-- The admissions of rules in a run from a store created at `now`. -/
def ruleLog (now : ℤ) (quarantine : Option ℤ) (ops : List Op) : List (Str × ℤ) :=
  ruleAdmissions prim alerts (createdStore now quarantine) ops

theorem ruleAdmissions_concat (store : Store) {ops : List Op} {op : Op} :
    ruleAdmissions prim alerts store (ops ++ [op]) = ruleAdmissions prim alerts store ops ++
      (ruleAdmission prim alerts (run (step prim alerts) store ops) op).toList := by
  induction ops generalizing store with
  | nil => simp [ruleAdmissions]
  | cons first rest ih =>
    rw [cons_append, ruleAdmissions, ruleAdmissions, ih, append_assoc]
    rfl

theorem ruleLog_concat (now : ℤ) (quarantine : Option ℤ) (ops : List Op) (op : Op) :
    ruleLog prim alerts now quarantine (ops ++ [op]) = ruleLog prim alerts now quarantine ops ++
      (ruleAdmission prim alerts (storeAfter prim alerts now quarantine ops) op).toList :=
  ruleAdmissions_concat prim alerts _

/-- An operation admits a plan and logs its rule, or changes neither table nor log. -/
theorem ruleAdmission_cases {store : Store} (op : Op) :
    (∃ trust input v, op = .admitPlan trust input ∧
      Admits prim alerts store trust input v (step prim alerts store op) ∧
      ruleAdmission prim alerts store op =
        (v.plan["invocation"]!)["rule_id"]!.asStr.map (·, input.now)) ∨
    Kept store (step prim alerts store op) ∧ ruleAdmission prim alerts store op = none := by
  by_cases hop : ∃ trust input, op = .admitPlan trust input
  · obtain ⟨trust,input,rfl⟩ := hop
    cases hr : admitPlan prim alerts store trust input with
    | error e =>
      refine .inr ⟨?_,by simp only [ruleAdmission, hr]⟩
      simp only [step, hr]
      exact Kept.refl
    | ok result =>
      obtain ⟨after,admission⟩ := result
      have hstep : step prim alerts store (.admitPlan trust input) = after := by
        simp only [step, hr]
      rw [hstep]
      rcases admitPlan_ok prim hr with
        ⟨hd,rfl⟩ | ⟨hd,v,hv⟩
      · exact .inr ⟨Kept.refl,by simp only [ruleAdmission, hr, hd, if_true]⟩
      · refine .inl ⟨trust,input,v,rfl,hv,?_⟩
        simp only [ruleAdmission, hr, hd, Bool.false_eq_true, if_false, hv.written.admissions,
          getLast?_concat]
        rfl
  · rcases step_cases prim op with ⟨trust,input,v,rfl,_⟩ | hk
    · exact absurd ⟨trust,input,rfl⟩ hop
    · refine .inr ⟨hk,?_⟩
      cases op with
      | admitPlan trust input => exact absurd ⟨trust,input,rfl⟩ hop
      | _ => rfl

def clockOf : Op → Option ℤ
  | .admitPlan _ input => some input.now
  | _ => none

def clocks (ops : List Op) : List ℤ := ops.filterMap clockOf

/-- The clock does not go back, and its texts have years of four digits. -/
structure Clocked (ops : List Op) : Prop where
  ordered : (clocks ops).Pairwise (· ≤ ·)
  years : ∀ t ∈ clocks ops, FourDigitYear t

theorem clocks_concat {ops : List Op} {op : Op} :
    clocks (ops ++ [op]) = clocks ops ++ (clockOf op).toList := by
  rw [clocks, filterMap_append, filterMap_cons, filterMap_nil]
  cases clockOf op with
  | none | some t => rfl

theorem Clocked.initial {ops : List Op} {op : Op} (h : Clocked (ops ++ [op])) : Clocked ops := by
  obtain ⟨hordered,hyears⟩ := h
  rw [clocks_concat] at hordered hyears
  exact ⟨(pairwise_append.mp hordered).1,fun t ht => hyears t (mem_append_left _ ht)⟩

variable {trust : TrustStore} {input : AdmitInput} {rule : Value}

theorem Clocked.last {ops : List Op}
    (h : Clocked (ops ++ [.admitPlan trust input])) :
    FourDigitYear input.now ∧ ∀ s ∈ clocks ops, s ≤ input.now := by
  obtain ⟨hordered,hyears⟩ := h
  rw [clocks_concat] at hordered hyears
  constructor
  · exact hyears input.now (mem_append_right _ (by simp [clockOf]))
  · intro s hs
    exact (pairwise_append.mp hordered).2.2 s hs input.now (by simp [clockOf])

def rowKey (r : RuleInvocationRow) : Str × Str := (r.ruleId, r.admittedAt)

def logKey (e : Str × ℤ) : Str × Str := (e.1, formatTimestamp e.2)

/-- The rows after the threshold of a time are the logged admissions after it. -/
def Recorded (rows : List RuleInvocationRow) (log : List (Str × ℤ)) (t : ℤ) : Prop :=
  (rows.map rowKey).filter (fun k => ltText (formatTimestamp (t - 3600)) k.2) =
    (log.filter fun e => t - 3600 < e.2).map logKey

theorem not_leText (a b : Str) : (!leText a b) = ltText b a := by
  rw [leText, ltText, ← decide_not, decide_eq_decide]
  exact List.not_le

variable {log : List (Str × ℤ)} {t : ℤ}

/-- The texts of logged times are compared as the times. -/
theorem filter_logKey (hyears : ∀ e ∈ log, FourDigitYear e.2) (ht : FourDigitYear t) :
    (log.map logKey).filter (fun k => ltText (formatTimestamp (t - 3600)) k.2) =
      (log.filter fun e => t - 3600 < e.2).map logKey := by
  have hbefore : year (t - 3600) ≤ 9999 := by
    have hle : t - 3600 ≤ t := by omega
    exact (year_mono hle).trans ht.2
  have hsame : ∀ e ∈ log, ltText (formatTimestamp (t - 3600)) (logKey e).2 =
      decide (t - 3600 < e.2) := by
    intro e he
    rw [logKey, ltText_formatTimestamp hbefore (hyears e he)]
  rw [filter_map, Function.comp_def, filter_congr hsame]

theorem Recorded.admit {rows : List RuleInvocationRow} {now : ℤ}
    (h : Recorded rows log now) (hyears : ∀ e ∈ log, FourDigitYear e.2) (hnow : FourDigitYear now)
    (ht : FourDigitYear t) (hle : now ≤ t) (ruleId planId : Str) :
    Recorded (deleteWhere (fun r : RuleInvocationRow =>
      leText r.admittedAt (formatTimestamp (now - 3600))) rows ++
        [⟨ruleId,planId,formatTimestamp now⟩]) (log ++ [(ruleId, now)]) t := by
  have hkept : (deleteWhere (fun r : RuleInvocationRow =>
      leText r.admittedAt (formatTimestamp (now - 3600))) rows).map
      rowKey = (log.filter fun e => now - 3600 < e.2).map logKey := by
    rw [← h, filter_map]
    simp only [deleteWhere, not_leText, Function.comp_def, rowKey]
  have hrows : (deleteWhere (fun r : RuleInvocationRow =>
      leText r.admittedAt (formatTimestamp (now - 3600))) rows ++
      [RuleInvocationRow.mk ruleId planId (formatTimestamp now)]).map rowKey =
      ((log ++ [(ruleId, now)]).filter fun e => now - 3600 < e.2).map logKey := by
    rw [map_append, hkept, filter_append, map_append]
    simp [rowKey, logKey]
  rw [Recorded, hrows, filter_logKey _ ht, filter_filter]
  · have hboth : ∀ e ∈ log ++ [(ruleId, now)], (decide (t - 3600 < e.2) &&
        decide (now - 3600 < e.2)) = decide (t - 3600 < e.2) := by
      intro e _
      rw [← Bool.decide_and, decide_eq_decide]
      omega
    rw [filter_congr hboth]
  · intro e he
    rcases mem_append.mp (mem_of_mem_filter he) with he | he
    · exact hyears e he
    · rw [mem_singleton.mp he]
      exact hnow

theorem Recorded.count {store : Store}
    (h : Recorded store.ruleInvocations log t) (hpast : ∀ e ∈ log, e.2 ≤ t) (ruleId : Str) :
    invocationsLastHour store t ruleId = windowCount 3600 t ruleId log := by
  have hcount : ∀ (rows : List RuleInvocationRow), rows.countP (fun r => r.ruleId == ruleId &&
      ltText (formatTimestamp (t - 3600)) r.admittedAt) = ((rows.map rowKey).filter fun k =>
        ltText (formatTimestamp (t - 3600)) k.2).countP (fun k => k.1 == ruleId) := by
    intro rows
    rw [countP_filter, countP_map, Function.comp_def]
    rfl
  rw [invocationsLastHour, hcount, h, countP_map, countP_filter,
    windowCount_past 3600 hpast]
  apply countP_congr
  intro e _
  simp [logKey]

def hourlyLimit (rule : Value) : ℤ := (rule["limits"]!)["max_invocations_per_hour"]!.asI64.getD 0

structure Rated (ops : List Op) (store : Store) (log : List (Str × ℤ)) : Prop where
  timed : ∀ e ∈ log, e.2 ∈ clocks ops
  recorded : ∀ t, FourDigitYear t → (∀ s ∈ clocks ops, s ≤ t) →
    Recorded store.ruleInvocations log t
  ruled : ∀ e ∈ log, (ruleText store.rules e.1).isSome = true
  limited : ∀ ruleId text rule, ruleText store.rules ruleId = some text →
    parseStrict text (64 * 1024) = some rule →
    ∀ t, (windowCount 3600 t ruleId log : ℤ) ≤ hourlyLimit rule

theorem hourlyLimit_pos (h : standingRule rule = true) : 1 ≤ hourlyLimit rule := by
  have hmax := check_field "max_invocations_per_hour" (.int 1 120)
    (AdmissionConfinement.standingRule_limits h) (by simp)
  simp only [check, Option.any_eq_true, Bool.and_eq_true, decide_eq_true_eq] at hmax
  obtain ⟨n,hn,hlow,_⟩ := hmax
  rw [hourlyLimit, hn]
  exact hlow

theorem stored_limit_pos (now : ℤ) (quarantine : Option ℤ) (ops : List Op) (ruleId text : Str)
    (rule : Value)
    (ht : ruleText (storeAfter prim alerts now quarantine ops).rules ruleId = some text)
    (hp : parseStrict text (64 * 1024) = some rule) : 1 ≤ hourlyLimit rule := by
  obtain ⟨row,hrow,rfl⟩ := Option.map_eq_some_iff.mp ht
  have hstored : storedRule (storeAfter prim alerts now quarantine ops) ruleId =
      .ok (some ⟨rule,row.ruleDigestHex,row.createdByKeyId,
        row.revokedAt.isSome || row.revokedPlanId.isSome⟩) := by
    simp only [storedRule, hrow, hp]
    rfl
  exact hourlyLimit_pos (storedRule_valid prim alerts hstored)

section Steps
variable {ops : List Op} {op : Op} {store after : Store}

theorem mem_clocks_concat (h : t ∈ clocks ops) : t ∈ clocks (ops ++ [op]) := by
  rw [clocks_concat]
  exact mem_append_left _ h

theorem Rated.ruled_after (h : Rated ops store log)
    (hrules : store.rules.map RuleRow.core <+: after.rules.map RuleRow.core) :
    ∀ e ∈ log, (ruleText after.rules e.1).isSome = true := by
  intro e he
  obtain ⟨text,ht⟩ := Option.isSome_iff_exists.mp (h.ruled e he)
  rw [ruleText_of_core hrules ht]
  rfl

/-- A rule that was not stored before has no admission yet. -/
theorem Rated.limited_after (h : Rated ops store log)
    (hrules : store.rules.map RuleRow.core <+: after.rules.map RuleRow.core)
   
    (hpos : ∀ ruleId text rule, ruleText after.rules ruleId = some text →
      parseStrict text (64 * 1024) = some rule → 1 ≤ hourlyLimit rule) :
    ∀ ruleId text rule, ruleText after.rules ruleId = some text →
      parseStrict text (64 * 1024) = some rule →
      ∀ t, (windowCount 3600 t ruleId log : ℤ) ≤ hourlyLimit rule := by
  intro ruleId text rule ht hp t
  cases hold : ruleText store.rules ruleId with
  | none =>
    have hzero : windowCount 3600 t ruleId log = 0 := by
      apply windowCount_eq_zero
      rintro e he rfl
      have := h.ruled e he
      rw [hold] at this
      cases this
    have := hpos ruleId text rule ht hp
    omega
  | some old =>
    have hsame := ruleText_of_core hrules hold
    obtain rfl : old = text := Option.some.inj (hsame.symm.trans ht)
    exact h.limited ruleId old rule hold hp t

theorem Rated.unlogged (h : Rated ops store log)
    (hrules : store.rules.map RuleRow.core <+: after.rules.map RuleRow.core)
    (hpos : ∀ ruleId text rule, ruleText after.rules ruleId = some text →
      parseStrict text (64 * 1024) = some rule → 1 ≤ hourlyLimit rule)
    (hrows : after.ruleInvocations = store.ruleInvocations) :
    Rated (ops ++ [op]) after log := by
  refine ⟨fun e he => mem_clocks_concat (h.timed e he),fun t ht hs => ?_,h.ruled_after hrules,
    h.limited_after hrules hpos⟩
  rw [hrows]
  exact h.recorded t ht fun s hs' => hs s (mem_clocks_concat hs')

/-- The admission of a rule plan below the limit of its rule. -/
theorem Rated.logged (h : Rated ops store log)
    (hrules : store.rules.map RuleRow.core <+: after.rules.map RuleRow.core)
    (hpos : ∀ ruleId text rule, ruleText after.rules ruleId = some text →
      parseStrict text (64 * 1024) = some rule → 1 ≤ hourlyLimit rule)
    (hclock : Clocked (ops ++ [.admitPlan trust input])) {ruleId planId text : Str}
    (hrows : after.ruleInvocations = deleteWhere (fun r : RuleInvocationRow =>
      leText r.admittedAt (formatTimestamp (input.now - 3600))) store.ruleInvocations ++
        [⟨ruleId,planId,formatTimestamp input.now⟩])
    (htext : ruleText store.rules ruleId = some text)
    (hparse : parseStrict text (64 * 1024) = some rule)
    (hfree : (invocationsLastHour store input.now ruleId : ℤ) < hourlyLimit rule) :
    Rated (ops ++ [.admitPlan trust input]) after (log ++ [(ruleId, input.now)]) := by
  obtain ⟨hyear,hlast⟩ := hclock.last
  have hpast : ∀ e ∈ log, e.2 ≤ input.now := fun e he => hlast e.2 (h.timed e he)
  have hyears : ∀ e ∈ log, FourDigitYear e.2 := fun e he =>
    hclock.years e.2 (mem_clocks_concat (h.timed e he))
  have hnow : Recorded store.ruleInvocations log input.now := h.recorded input.now hyear hlast
  have hin : input.now ∈ clocks (ops ++ [.admitPlan trust input]) := by
    rw [clocks_concat]
    exact mem_append_right _ mem_cons_self
  constructor
  · exact forall_mem_append.mpr
      ⟨fun e he => mem_clocks_concat (h.timed e he),forall_mem_singleton.mpr hin⟩
  · intro t ht hs
    rw [hrows]
    exact hnow.admit hyears hyear ht (hs _ hin) ruleId planId
  · refine forall_mem_append.mpr ⟨h.ruled_after hrules,forall_mem_singleton.mpr ?_⟩
    rw [ruleText_of_core hrules htext]
    rfl
  · intro id text' rule' ht hp t
    by_cases hid : id = ruleId
    · subst hid
      have hsame := ruleText_of_core hrules htext
      obtain rfl : text = text' := Option.some.inj (hsame.symm.trans ht)
      obtain rfl : rule = rule' := Option.some.inj (hparse.symm.trans hp)
      rw [hnow.count hpast] at hfree
      exact windowCount_le_concat 3600 hpast hfree (h.limited id text rule htext hparse)
    · rw [windowCount_concat, if_neg fun hc => hid hc.1.symm]
      exact h.limited_after hrules hpos id text' rule' ht hp t

end Steps

theorem rated (now : ℤ) (quarantine : Option ℤ) {ops : List Op} (hclock : Clocked ops) :
    Rated ops (storeAfter prim alerts now quarantine ops)
      (ruleLog prim alerts now quarantine ops) := by
  induction ops using List.reverseRecOn with
  | nil =>
    refine ⟨fun e he => absurd he not_mem_nil,fun t _ _ => rfl,
      fun e he => absurd he not_mem_nil,fun ruleId text rule ht => ?_⟩
    cases ht
  | append_singleton ops op ih =>
    have h := ih hclock.initial
    have hpos := stored_limit_pos prim alerts now quarantine (ops ++ [op])
    have hrun := storeAfter_concat prim alerts now quarantine ops op
    rw [ruleLog_concat]
    rcases ruleAdmission_cases prim alerts op with
      ⟨trust,input,v,rfl,ha,hlog⟩ | ⟨hk,hlog⟩
    · have hevidenced := Admits.evidenced prim alerts ha
      rw [← hrun] at ha hevidenced
      rw [hlog]
      have hrules := ruleEffects_core prim _ ha.written.rules
      obtain ⟨signatures,_,_,f⟩ := verifySignedPlan_admit ha.verified
      cases hid : (v.plan["invocation"]!)["rule_id"]!.asStr with
      | none =>
        cases hevidenced.invoked with
        | rule ruleId deliveryId hr => cases hid.symm.trans hr
        | none _ hrows => simpa using h.unlogged hrules hpos hrows
      | some ruleId =>
        have hplan := AdmitFacts.invoked_rule f hid
        obtain ⟨record,hrule,hname,_,hfacts⟩ := AdmitFacts.evidence f hplan
        have hshape := AdmitFacts.invocation_shape f hplan
        have hdelivery := check_field "delivery_id" (.pattern PlanText.deliveryId)
          (check_field "evidence" evidence hshape (by simp)) (by simp)
        obtain ⟨deliveryId,hd,_⟩ := check_pattern _ hdelivery
        cases hevidenced.invoked with
        | none hnone =>
          rcases hnone with hnone | hnone
          · cases hid.symm.trans hnone
          · have : (Value.string deliveryId).asStr = none := hd ▸ hnone
            cases this
        | rule ruleId' _ hr _ _ hrows =>
          obtain rfl : ruleId = ruleId' := Option.some.inj (hid.symm.trans hr)
          have htext : (v.plan["invocation"]!)["rule_id"]!.text = ruleId := by
            rw [Value.text, hid]
            rfl
          rw [htext] at hrule hname
          obtain ⟨text,ht,hp⟩ := storedRule_text hrule
          obtain ⟨count,hcount,hlimit⟩ := hfacts.limit
          rw [hname] at hcount
          have hfree : (invocationsLastHour (storeAfter prim alerts now quarantine ops) input.now
              ruleId : ℤ) < hourlyLimit record.rule := by
            cases hcount
            exact hlimit
          exact h.logged hrules hpos hclock hrows ht hp hfree
    · rw [← hrun] at hk
      rw [hlog]
      have hrules : (storeAfter prim alerts now quarantine ops).rules.map RuleRow.core <+:
          (storeAfter prim alerts now quarantine (ops ++ [op])).rules.map RuleRow.core := by
        rw [hk.rules]
      simpa using h.unlogged hrules hpos hk.ruleInvocations

def withoutInvocations (ctx : PolicyContext) : PolicyContext :=
  { ctx with ruleInvocationsLastHour := fun _ => .ok 0 }

@[simp] theorem withoutInvocations_trust (ctx : PolicyContext) :
    (withoutInvocations ctx).trust = ctx.trust := rfl

@[simp] theorem withoutInvocations_now (ctx : PolicyContext) :
    (withoutInvocations ctx).now = ctx.now := rfl

/-- The submission is refused for the hourly limit: it exceeds a limit of the rule, and would
not without the invocations of the last hour. -/
def RefusedForRate (store : Store) (trust : TrustStore) (input : AdmitInput) : Prop :=
  verifySignedPlan prim input.envelope input.specs input.submitter (txContext store trust input) =
    .error .ruleLimit ∧
  verifySignedPlan prim input.envelope input.specs input.submitter
    (withoutInvocations (txContext store trust input)) ≠ .error .ruleLimit

theorem ok_bind {α β : Type} (a : α) (g : α → Policy β) : (.ok a >>= g) = g a := rfl

section Context
variable (ctx : PolicyContext)

theorem policyNarrowsFrom_withoutInvocations (actions : List Value) :
    policyNarrowsFrom (withoutInvocations ctx) actions = policyNarrowsFrom ctx actions := by
  induction actions with
  | nil => rfl
  | cons action rest ih =>
    rw [policyNarrowsFrom, policyNarrowsFrom, ih]
    rfl

theorem checkKinds_withoutInvocations (p : Value) (signers : List Value)
    (rule : Option RuleRecord) (kinds : List Str) :
    checkKinds p signers rule (withoutInvocations ctx) kinds =
      checkKinds p signers rule ctx kinds := by
  induction kinds with
  | nil => rfl
  | cons kind rest ih =>
    rw [checkKinds, checkKinds, ih]
    rfl

theorem namesInScopeFrom_withoutInvocations (scope : SignedScope) (actions : List Value) :
    namesInScopeFrom scope (withoutInvocations ctx) actions =
      namesInScopeFrom scope ctx actions := by
  induction actions with
  | nil => rfl
  | cons action rest ih =>
    rw [namesInScopeFrom, namesInScopeFrom, ih]
    rfl

theorem checkBuildFresh_withoutInvocations (received : ℤ) (commitSha : Str) (actions : List Value) :
    checkBuildFresh (withoutInvocations ctx) received commitSha actions =
      checkBuildFresh ctx received commitSha actions := by
  induction actions with
  | nil => rfl
  | cons action rest ih =>
    rw [checkBuildFresh, checkBuildFresh, ih]
    rfl

theorem checkCommits_withoutInvocations (ref commitSha : Str) (time : ℤ) (actions : List Value) :
    checkCommits (withoutInvocations ctx) ref commitSha time actions =
      checkCommits ctx ref commitSha time actions := by
  induction actions with
  | nil => rfl
  | cons action rest ih =>
    rw [checkCommits, checkCommits, ih]
    rfl

theorem checkEvidence_withoutInvocations (p rule : Value) :
    checkEvidence p rule (withoutInvocations ctx) = checkEvidence p rule ctx := by
  have hdelivery : (withoutInvocations ctx).delivery = ctx.delivery := rfl
  simp only [checkEvidence, checkFresh, checkBuildFresh_withoutInvocations,
    checkCommits_withoutInvocations, hdelivery, withoutInvocations_now]
  rfl

theorem checkRule_withoutInvocations {p : Value} {specs : Specs} {n : ℕ}
    (hcount : ctx.ruleInvocationsLastHour rule["id"]!.text = .ok n)
    (hfree : (n : ℤ) < hourlyLimit rule) :
    checkRule p rule (withoutInvocations ctx) specs = checkRule p rule ctx specs := by
  have hzero : ((0 : ℕ) : ℤ) < hourlyLimit rule := by omega
  have hnone : (withoutInvocations ctx).ruleInvocationsLastHour rule["id"]!.text = .ok 0 := rfl
  have hdeploy : checkDeploySpec (withoutInvocations ctx) = checkDeploySpec ctx := rfl
  have hscale : checkScaleSpec (withoutInvocations ctx) = checkScaleSpec ctx := rfl
  have hprotected : (withoutInvocations ctx).environmentProtected = ctx.environmentProtected := rfl
  unfold hourlyLimit at hfree hzero
  simp only [checkRule, hcount, hnone, ok_bind, hfree, hzero, checkEvidence_withoutInvocations,
    hdeploy, hscale, hprotected, withoutInvocations_now]
  rfl

theorem checkPolicy_withoutInvocations (p : Value) (signers : List Value)
    (rule : Option RuleRecord) (specs : Specs) (hfree : ∀ record, rule = some record → ∃ n : ℕ,
      ctx.ruleInvocationsLastHour record.rule["id"]!.text = .ok n ∧
        (n : ℤ) < hourlyLimit record.rule) :
    checkPolicy p signers rule (withoutInvocations ctx) specs =
      checkPolicy p signers rule ctx specs := by
  have hbase : checkBase p signers (withoutInvocations ctx) = checkBase p signers ctx := rfl
  have htouch : checkTouch p signers (withoutInvocations ctx) = checkTouch p signers ctx := by
    simp only [checkTouch, touchNeeded, policyNarrows, policyNarrowsFrom_withoutInvocations]
  have hlast : checkNamesOrRule p rule (withoutInvocations ctx) specs =
      checkNamesOrRule p rule ctx specs := by
    cases rule with
    | none => simp only [checkNamesOrRule, namesInScope, namesInScopeFrom_withoutInvocations]
    | some record =>
      obtain ⟨n,hn,hlt⟩ := hfree record rfl
      exact checkRule_withoutInvocations ctx hn hlt
  simp only [checkPolicy, hbase, htouch, checkKinds_withoutInvocations, hlast]

/-- Below the limit of its rule a plan gets the verdict it would get without invocations. -/
theorem verifySignedPlan_withoutInvocations (text : Str) (specTexts : List Str)
    (submitter : Submitter)
    (hfree : ∀ p signatures record, parseEnvelope prim text = .ok (p, signatures) →
      verifyRule prim p["invocation"]! ctx = .ok record →
      ∃ n : ℕ, ctx.ruleInvocationsLastHour record.rule["id"]!.text = .ok n ∧
        (n : ℤ) < hourlyLimit record.rule) :
    verifySignedPlan prim text specTexts submitter (withoutInvocations ctx) =
      verifySignedPlan prim text specTexts submitter ctx := by
  unfold verifySignedPlan
  cases hp : parseEnvelope prim text with
  | error e => rfl
  | ok parsed =>
    obtain ⟨p,signatures⟩ := parsed
    have hplan : ∀ (specs : Specs) (digest : Digest),
        verifyPlan prim p signatures specs digest (withoutInvocations ctx) =
          verifyPlan prim p signatures specs digest ctx := by
      intro specs digest
      have hrule : planRule prim p (withoutInvocations ctx) = planRule prim p ctx := rfl
      unfold verifyPlan
      rw [hrule]
      cases hr : planRule prim p ctx with
      | error e => rfl
      | ok rule =>
        have hpolicy : ∀ signers, checkPolicy p signers rule (withoutInvocations ctx) specs =
            checkPolicy p signers rule ctx specs := by
          intro signers
          apply checkPolicy_withoutInvocations
          rintro record rfl
          apply hfree p signatures record hp
          simp only [planRule] at hr
          split_ifs at hr
          · obtain ⟨found,hv,heq⟩ := (map_ok _).mp hr
            rw [← Option.some.inj heq]
            exact hv
          · cases hr
        have hreplay : checkReplay p (hex digest.val) (withoutInvocations ctx) =
            checkReplay p (hex digest.val) ctx := rfl
        simp only [ok_bind, hpolicy, hreplay, withoutInvocations_trust, withoutInvocations_now]
    simp only [ok_bind, hplan, withoutInvocations_trust]

end Context

/-- With a clock that does not go back and years of four digits, no hour holds more admissions
of a rule than its signed limit, and a submission is refused for the limit only when that many
lie in the hour before it. -/
theorem rule_rate_limited (now : ℤ) (quarantine : Option ℤ) (ops : List Op) (hclock : Clocked ops)
    (ruleId : Str) (record : RuleRecord)
    (h : storedRule (storeAfter prim alerts now quarantine ops) ruleId = .ok (some record)) :
    (∀ t, (windowCount 3600 t ruleId (ruleLog prim alerts now quarantine ops) : ℤ) ≤
      hourlyLimit record.rule) ∧
    ∀ trust input p signatures, Clocked (ops ++ [.admitPlan trust input]) →
      parseEnvelope prim input.envelope = .ok (p, signatures) →
      (p["invocation"]!)["rule_id"]!.text = ruleId →
      RefusedForRate prim (storeAfter prim alerts now quarantine ops) trust input →
      hourlyLimit record.rule ≤
        windowCount 3600 input.now ruleId (ruleLog prim alerts now quarantine ops) := by
  have hrated := rated prim alerts now quarantine hclock
  obtain ⟨text,ht,hparse⟩ := storedRule_text h
  constructor
  · exact hrated.limited ruleId text record.rule ht hparse
  · intro trust input p signatures hnext hp hid hrefused
    by_contra hfew
    obtain ⟨hyear,hlast⟩ := hnext.last
    have hpast : ∀ e ∈ ruleLog prim alerts now quarantine ops, e.2 ≤ input.now := fun e he =>
      hlast e.2 (hrated.timed e he)
    have hcount := (hrated.recorded input.now hyear hlast).count hpast ruleId
    apply hrefused.2
    rw [verifySignedPlan_withoutInvocations]
    · exact hrefused.1
    · intro p' signatures' record' hp' hv
      obtain ⟨rfl,_⟩ := Prod.mk.inj (Except.ok.inj (hp.symm.trans hp'))
      obtain ⟨hrule,hname,_⟩ := verifyRule_ok prim hv
      rw [hid] at hrule hname
      obtain rfl : record = record' := Option.some.inj (Except.ok.inj (h.symm.trans hrule))
      have hfree : (invocationsLastHour (storeAfter prim alerts now quarantine ops) input.now
          ruleId : ℤ) < hourlyLimit record.rule := by
        omega
      rw [hname]
      exact ⟨_,rfl,hfree⟩

open AdmissionSpecs AdmissionConfinement

def hourlyRule : Value := (sampleRule 50).set "limits"
  (.obj [("max_replicas", .number 2), ("max_invocations_per_hour", .number 1)])

def hourlyRuleHash : Digest :=
  digestOfNat 0x983a7397f79bc45f11a5b7983eddad72a0b779a5f41f17e4ad8766cacfd95002

def hourlyPlan : Value := samplePlan 40 "FAAAAAAAAAAAAAAAAAAAAA" 3 [ident 10]
  [sampleDeploy (ident 10) 20 .null webSpecHash, sampleAction "rule.create" [("rule", hourlyRule)]]
  false genesisHead

def hourlyPlanHash : Digest :=
  digestOfNat 0xb178e345fc8ad95ba8e58db2ac5cc7f9e00ad88338522a90e92bbea6f4c5b5f9

def hourlyPlanSignature : Str :=
  bigEndian 32 0x40477a19a72a42573e98c97b835c9962bf56fdfad81e7bbdff9e0db7a2fdd3e9 ++
    bigEndian 32 0xc9762171ed0e7febcffc81dfdcd506e09059e1b3e7683cf4ac80d71b9af63fba

def hourlyHead : Digest :=
  digestOfNat 0x012d059ff2fdfa7738e72e7d651356e5509f4987731b555fd88e677ba68939ea

def scalePlan (id : ℕ) (nonce delivery : String) (body : ℕ) (head : Digest) : Value :=
  ((samplePlan id nonce 3 [ident 10] [sampleAction "scale"
    [("service_id", ident 10), ("replicas", .number 2),
      ("spec_digest_hex", hashText scaledSpecHash)]]
    false (hex head.val)).set "author" (.obj
      [("kind", .txt "rule"), ("agent_session_id", .null)])).set "invocation"
    ((pushInvocation.set "rule_digest_hex" (hashText hourlyRuleHash)).set "evidence"
      ((pushInvocation["evidence"]!.set "delivery_id" (.txt delivery)).set "body_digest_hex"
        (hashText (digestOfNat body))))

def firstScale : Value := scalePlan 41 "GAAAAAAAAAAAAAAAAAAAAA" "delivery-1" 9 hourlyHead

def firstScaleHash : Digest :=
  digestOfNat 0x738da40f33c433a03e63e1b152ffcbe820ad77e563ed7fef5fa513ea1125e208

def firstScaleHead : Digest :=
  digestOfNat 0x87dfe198a068c3a600167f815f8494818dc48f96bab91a1079123b4f2fc55669

def secondScale : Value := scalePlan 42 "HAAAAAAAAAAAAAAAAAAAAA" "delivery-2" 11 firstScaleHead

def secondScaleHash : Digest :=
  digestOfNat 0x91b5302da6918acb955345c8c1b85519506ea7f1d0da88501d8cbd7c0dc16c28

def hourlyPrimitives : Primitives :=
  tablePrimitives [(ownerDer, ownerHash), (rulePrefix ++ canonicalBytes hourlyRule, hourlyRuleHash),
      (specPrefix ++ canonicalBytes webSpec, webSpecHash),
      (specPrefix ++ canonicalBytes scaledSpec, scaledSpecHash),
      (planPrefix ++ canonicalBytes hourlyPlan, hourlyPlanHash),
      (planPrefix ++ canonicalBytes firstScale, firstScaleHash),
      (planPrefix ++ canonicalBytes secondScale, secondScaleHash),
      (headPreimage genesisHead hourlyPlanHash, hourlyHead),
      (headPreimage (hex hourlyHead.val) firstScaleHash, firstScaleHead)]
    [ownerPoint] [(ownerPoint, hourlyPlanHash, hourlyPlanSignature)]

def hourlyTrust : TrustStore :=
  okValue (validateTrust hourlyPrimitives (trustDocument [ownerEntry]) .production) emptyTrust

def scaleInput (p : Value) (now : ℤ) : AdmitInput :=
  { pushInput with
    envelope := canonicalBytes (.obj [("plan", p), ("signatures", .array [])])
    specs := [canonicalBytes scaledSpec]
    now := now }

def pushDelivery (id : String) (body : ℕ) : DeliveryRow :=
  ⟨str id,str "github",str "push",(hashText (digestOfNat body)).text,str "acme/app",
    str "refs/heads/main",pushCommit,str "2026-01-02T00:04:00Z",[str "production"],
    str "2026-01-02T00:05:00Z",str "2026-01-02T00:20:00Z",.pending⟩

def hourlyOps : List Op :=
  [.admitPlan hourlyTrust (clientInput (sampleEnvelope hourlyPlan ownerKeyId hourlyPlanSignature)
      [canonicalBytes webSpec] 1767312300),
    .insertDelivery (pushDelivery "delivery-1" 9),
    .insertDelivery (pushDelivery "delivery-2" 11),
    .admitPlan hourlyTrust (scaleInput firstScale 1767312360)]

def hourlyStore : Store := storeAfter hourlyPrimitives noAlerts 1767312000 none hourlyOps

/-- The second push comes within the hour and is refused; the first fills every window. -/
theorem second_push_refused :
    let record : RuleRecord := ⟨hourlyRule,hex hourlyRuleHash.val,ownerKeyId.text,false⟩
    storedRule hourlyStore (ident 50).text = .ok (some record) ∧ hourlyLimit record.rule = 1 ∧
    (∀ t, (windowCount 3600 t (ident 50).text
      (ruleLog hourlyPrimitives noAlerts 1767312000 none hourlyOps) : ℤ) ≤
        hourlyLimit record.rule) ∧
    RefusedForRate hourlyPrimitives hourlyStore hourlyTrust (scaleInput secondScale 1767312400) ∧
    hourlyLimit record.rule ≤ windowCount 3600 1767312400 (ident 50).text
      (ruleLog hourlyPrimitives noAlerts 1767312000 none hourlyOps) := by
  intro record
  have hrun : storedRule hourlyStore (ident 50).text = .ok (some record) ∧
      RefusedForRate hourlyPrimitives hourlyStore hourlyTrust (scaleInput secondScale 1767312400) ∧
      parseEnvelope hourlyPrimitives (scaleInput secondScale 1767312400).envelope =
        .ok (secondScale, []) := by
    unfold RefusedForRate
    decide +kernel
  have hclocks : Clocked
      (hourlyOps ++ [.admitPlan hourlyTrust (scaleInput secondScale 1767312400)]) := by
    constructor
    · decide
    · unfold FourDigitYear
      decide
  obtain ⟨hrule,hrefused,hparsed⟩ := hrun
  obtain ⟨hwindows,hrate⟩ := rule_rate_limited hourlyPrimitives noAlerts 1767312000 none hourlyOps
    hclocks.initial (ident 50).text record hrule
  have hfull := hrate hourlyTrust (scaleInput secondScale 1767312400) secondScale [] hclocks hparsed
    (by decide +kernel) hrefused
  exact ⟨hrule,by decide,hwindows,hrefused,hfull⟩

end Permanu.AdmissionRates
