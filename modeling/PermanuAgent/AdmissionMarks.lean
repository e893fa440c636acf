import PermanuAgent.AdmissionRevocations

/-!
# The marks along a run

A log pass, a call of the agent and an admission keep the marks of a plan in
step with its revoking actions. The end of an execution window writes outcomes
without settling the rules, so it is the one operation that can leave a mark
behind an action that has ended.
-/

set_option autoImplicit false

namespace Permanu.AdmissionMarks
open ByteText JsonValue PlanText PlanSchema List
open PlanTrust (TrustStore validateTrust emptyTrust)
open PlanCrypto PlanVerify
open PlanAuthority ResultSteps TableRows StepRuns
open AdmissionStore AdmissionAdmit AdmissionWrite
open AdmissionReconcile AdmissionRun
open AdmissionSpecs
open AdmissionResults AdmissionRevocations

def expired (plans : List Str) (time : Str) (x : ActionRow) : ActionRow :=
  if plans.contains x.planId && unconsumed x then
    { x with finishedAt := some time, outcome := some .expired }
  else x

theorem expirePlans_rules {time : Str} {plans : List Str} (store : Store) :
    (plans.foldl (expirePlan time) store).rules = store.rules := by
  induction plans generalizing store with
  | nil => rfl
  | cons planId rest ih => exact ih _

theorem expirePlans_actions (time : Str) (plans : List Str) (store : Store) :
    (plans.foldl (expirePlan time) store).actions = store.actions.map (expired plans time) := by
  induction plans generalizing store with
  | nil => exact (map_id store.actions).symm
  | cons planId rest ih =>
    rw [foldl_cons, ih]
    simp only [expirePlan, updateWhere, map_map]
    apply map_congr_left
    intro x _
    -- an action ended by the first plan is no longer open for the others
    by_cases hu : unconsumed x = true
    · by_cases hp : x.planId = planId
      · simp only [Function.comp, expired, hp, hu, beq_self_eq_true, Bool.and_self, if_true,
          contains_cons, Bool.true_or]
        simp [unconsumed]
      · simp [expired, hp]
    · simp [expired, hu]

def expiresRevocation (now : ℤ) (store : Store) : Bool :=
  store.actions.any fun x =>
    isRevoke x && unconsumed x && (windowEnded now store).contains x.planId

theorem expireWindows_revocations (now : ℤ) (store : Store) (planId : Str)
    (h : expiresRevocation now store = false) :
    revocations (expireWindows now store).1 planId = revocations store planId := by
  have hk : Kept store (expireWindows now store).1 := expirePlans_kept _
  simp only [revocations, expireWindows, expirePlans_actions, filterMap_map]
  apply filterMap_congr
  intro x hx
  simp only [Function.comp, expired]
  split_ifs with he
  · rw [Bool.and_eq_true] at he
    have hnot : isRevoke x = false := by
      by_contra hr
      have hr : isRevoke x = true := by simpa using hr
      rw [expiresRevocation, any_eq_false] at h
      exact h x hx (by rw [hr, he.2, he.1]; rfl)
    have hended : ∀ time,
      isRevoke { x with finishedAt := time, outcome := some .expired } = false :=
      fun _ => hnot
    simp [AdmissionRevocations.revocation, revokedRule, hnot, hended]
  · have hrule := Kept.revokedRule_eq hk x
    simp only [expireWindows] at hrule
    simp only [AdmissionRevocations.revocation, hrule]

theorem expireWindows_marks (now : ℤ) (store : Store) (planId : Str)
    (h : expiresRevocation now store = false) (hm : Marks store planId) :
    Marks (expireWindows now store).1 planId :=
  hm.of_eq (expireWindows_revocations now store planId h)
    (fun r _ => by rw [expireWindows, expirePlans_rules])

theorem expireWindows_marksFrom {now : ℤ} {store : Store} :
    MarksFrom store (expireWindows now store).1 := by
  intro r hr planId hp
  rw [expireWindows, expirePlans_rules] at hr
  exact ⟨r,hr,rfl,hp⟩

variable {store after : Store} {results : List Result} {input : AdmitInput} {v : VerifiedPlan}

section Steps
variable (prim : Primitives) (alerts : AlertSpecs) (now : ℤ) (quarantine : Option ℤ) (ops : List Op)

/-- An operation admits a plan, ends windows, or records results. -/
theorem step_effect (op : Op) (hkeyed : Keyed store) :
    (∃ trust input v, op = .admitPlan trust input ∧
      Admits prim alerts store trust input v (step prim alerts store op)) ∨
    (∃ now, op = .expireWindows now) ∨
    Records store (opResults store op) (step prim alerts store op) := by
  cases op with
  | expireWindows now => exact .inr (.inl ⟨now,rfl⟩)
  | reconcile read now => exact .inr (.inr (resultOp_records prim alerts hkeyed rfl))
  | finishAction planId actionIndex outcome now =>
    exact .inr (.inr (resultOp_records prim alerts hkeyed rfl))
  | _ =>
    refine (step_outside prim rfl).imp_right ?_
    rintro ⟨deliveries,rejected,builds,heq⟩
    rw [heq]
    exact .inr (.idle (.start store) ⟨{ Kept.refl with },rfl,rfl⟩)

theorem Admits.parsed {trust : TrustStore} (h : Admits prim alerts store trust input v after) :
    ∃ signatures, parseEnvelope prim input.envelope = .ok (v.plan, signatures) := by
  obtain ⟨signatures,_,_,f⟩ := verifySignedPlan_admit h.verified
  exact ⟨signatures,f.envelope⟩

theorem RuleRows.stepped (h : RuleRows store) {op : Op} : RuleRows (step prim alerts store op) := by
  rcases step_effect prim alerts op h.keyed with ⟨trust,input,v,_,ha⟩ | ⟨now,rfl⟩ | hr
  · obtain ⟨_,hp⟩ := Admits.parsed prim alerts ha
    exact h.written ha.written hp
  · exact h.kept (expirePlans_kept _) expireWindows_marksFrom
  · exact Records.rows hr h

theorem rows_reachable : RuleRows (storeAfter prim alerts now quarantine ops) := by
  refine run_invariant (step prim alerts) RuleRows ?_
    (fun _ op h => RuleRows.stepped prim alerts h) ops
  exact ⟨nodup_nil,by simp [createdStore],by simp [createdStore],nodup_nil,
    by simp [createdStore]⟩

def ofRevoke (store : Store) (r : Result) : Bool :=
  (Store.actionRow store r.planId r.actionIndex).any isRevoke

theorem Kept.ofRevoke_eq (h : Kept store after) (r : Result) :
    ofRevoke after r = ofRevoke store r := by
  have hsame := congrArg (Option.any id) (find?_of_core h.actions (isAction r.planId r.actionIndex)
    isRevoke (fun _ => rfl) (fun _ => rfl))
  simp only [Option.any_map] at hsame
  exact hsame

theorem Written.ofRevoke_eq
    (h : Written prim store v input after) {r : Result} (hr : ofRevoke store r = true) :
    ofRevoke after r = true := by
  obtain ⟨x,hx,hk⟩ := (Option.any_eq_true _ _).mp hr
  simp only [Store.actionRow] at hx
  rw [ofRevoke, Store.actionRow, h.actions, find?_append, hx]
  exact hk

/-- A revocation is recorded only by a success of a revoking action of the plan that
marked the rule. -/
def Recorded (results : List Result) (store : Store) : Prop :=
  ∀ r ∈ store.rules, r.revokedAt ≠ none → ∃ result ∈ results, result.outcome = .succeeded ∧
    r.revokedPlanId = some result.planId ∧ ofRevoke store result = true

theorem Recorded.kept (h : Recorded results store) (hk : Kept store after)
    (hrules : after.rules = store.rules) : Recorded results after := by
  intro r hr hat
  rw [hrules] at hr
  obtain ⟨result,hm,ho,hp,hrev⟩ := h r hr hat
  exact ⟨result,hm,ho,hp,by rwa [Kept.ofRevoke_eq hk]⟩

theorem Recorded.settles {result : Result} (h : Recorded results store)
    (hs : Settles store after result) : Recorded (results ++ [result]) after := by
  intro r hr hat
  obtain ⟨time,hrules⟩ := hs.rules
  rw [hrules] at hr
  have hold : r ∈ store.rules → ∃ result' ∈ results ++ [result], result'.outcome = .succeeded ∧
      r.revokedPlanId = some result'.planId ∧ ofRevoke after result' = true := by
    intro hm
    obtain ⟨result',hm',ho,hp,hrev⟩ := h r hm hat
    exact ⟨result',by simp [hm'],ho,hp,by rwa [Kept.ofRevoke_eq hs.kept]⟩
  split_ifs at hr with hrev
  · obtain ⟨s,hm,_,⟨rfl,_⟩ | ⟨hpend,rfl⟩⟩ := mem_settledRules _ _ _ _ r hr
    · exact hold hm
    · obtain ⟨hplan,hnone⟩ := pendingFor_iff.mp hpend
      by_cases ho : result.outcome = .succeeded
      · refine ⟨result,by simp,ho,by simpa [ho] using hplan,?_⟩
        rw [Kept.ofRevoke_eq hs.kept]
        exact hrev
      · simp [ho, hnone] at hat
  · exact hold hr

theorem Recorded.records {first : List Result} (h : Recorded first store)
    (hr : Records store results after) : Recorded (first ++ results) after := by
  induction hr with
  | start => simpa using h
  | idle _ hi ih => exact ih.kept hi.kept hi.rules
  | result _ hs ih =>
    rw [← append_assoc]
    exact ih.settles hs

theorem Recorded.written (h : Recorded results store)
    (hw : Written prim store v input after) : Recorded results after := by
  intro r hr hat
  obtain ⟨result,hm,ho,hp,hrev⟩ :=
    h r ((ruleEffects_effect _ hw.rules).recorded r hr hat) hat
  exact ⟨result,hm,ho,hp,Written.ofRevoke_eq prim hw hrev⟩

theorem runResults_concat (store : Store) (ops : List Op) (op : Op) :
    runResults prim alerts store (ops ++ [op]) =
      runResults prim alerts store ops ++ opResults (run (step prim alerts) store ops) op := by
  induction ops generalizing store with
  | nil => simp [runResults]
  | cons first rest ih =>
    rw [cons_append, runResults, runResults, ih, append_assoc]
    rfl

theorem revocations_recorded :
    Recorded (runResults prim alerts (createdStore now quarantine) ops)
      (storeAfter prim alerts now quarantine ops) := by
  refine run_induction (step prim alerts)
    (fun ops store => Recorded (runResults prim alerts (createdStore now quarantine) ops) store)
    (by simp [Recorded, createdStore]) (fun ops op ih => ?_)
  have hkeyed := (rows_reachable prim alerts now quarantine ops).keyed
  rw [runResults_concat]
  rcases step_effect prim alerts op hkeyed with ⟨trust,input,v,rfl,ha⟩ | ⟨time,rfl⟩ | hr
  · simp only [opResults, append_nil]
    exact Recorded.written prim ih ha.written
  · simp only [opResults, append_nil]
    exact ih.kept (expirePlans_kept _) (expirePlans_rules _)
  · exact ih.records hr

/-- No call of the run that ends execution windows ends a revoking action. -/
def NoneExpires : Prop :=
  ∀ before time, before ++ [.expireWindows time] <+: ops →
    expiresRevocation time (storeAfter prim alerts now quarantine before) = false

theorem marks_reachable {planId : Str} :
    NoneExpires prim alerts now quarantine ops →
      Marks (storeAfter prim alerts now quarantine ops) planId := by
  refine run_induction (step prim alerts)
    (fun ops store => NoneExpires prim alerts now quarantine ops → Marks store planId)
    (fun _ => ⟨by simp [revocations, createdStore],by simp [createdStore]⟩) (fun ops op ih h => ?_)
  have hm := ih fun before time hw => h before time (hw.trans (prefix_append ops [op]))
  have hrows := rows_reachable prim alerts now quarantine ops
  rcases step_effect prim alerts op hrows.keyed with ⟨trust,input,v,rfl,ha⟩ | ⟨time,rfl⟩ | hr
  · obtain ⟨_,hp⟩ := Admits.parsed prim alerts ha
    exact Marks.written hrows (fun _ => hm) ha.written hp
  · exact expireWindows_marks time _ planId (h ops time (prefix_refl _)) hm
  · exact Records.marks hr hrows hm

theorem eq_of_length_le_one {α : Type} {l : List α} (h : l.length ≤ 1) {a b : α} (ha : a ∈ l)
    (hb : b ∈ l) : a = b := by
  match l, h with
  | [], _ => cases ha
  | [x], _ => rw [mem_singleton.mp ha, mem_singleton.mp hb]

/-- For a plan with one revocation, the marks say whether it is open. -/
theorem Marks.pending_iff {planId : Str} (h : Marks store planId) (hrows : RuleRows store)
    (hone : (revocations store planId).length ≤ 1) {r : RuleRow} (hr : r ∈ store.rules) :
    (r.revokedPlanId = some planId ∧ r.revokedAt = none) ↔
      (r.ruleId, none) ∈ revocations store planId := by
  rw [← pendingFor_iff]
  constructor
  · intro hp
    obtain ⟨outcome,he⟩ := hrows.marked r hr planId (pendingFor_iff.mp hp).1
    cases outcome with
    | none => exact he
    | some o => simp [h.onceEnded ⟨_,he,by simp⟩ r hr] at hp
  · intro he
    have hopen : ∀ e ∈ revocations store planId, e.2 = none := by
      intro e hm
      rw [eq_of_length_le_one hone hm he]
    obtain ⟨s,hs,hid,hp⟩ := h.whileOpen hopen _ he
    rwa [← inj_on_of_nodup_map hrows.unique hs hr hid]

/-- A rule that nothing marks or revokes is one that triggers and that a plan may revoke. -/
theorem storedRule_revoked (hrows : RuleRows store) {r : RuleRow} (hr : r ∈ store.rules)
    {record : RuleRecord} (h : storedRule store r.ruleId = .ok (some record)) :
    record.revoked = (r.revokedAt.isSome || r.revokedPlanId.isSome) := by
  simp only [storedRule] at h
  split at h
  · cases h
  · rename_i row hrow
    obtain ⟨hm,hid⟩ := rowOf_some _ hrow
    obtain rfl := inj_on_of_nodup_map hrows.unique hm hr hid
    simp only [bind_ok, pure_ok, Option.some.injEq] at h
    obtain ⟨_,_,rfl⟩ := h
    rfl

theorem unmarked_usable (hrows : RuleRows store) {r : RuleRow} (hr : r ∈ store.rules)
    (hat : r.revokedAt = none) (hplan : r.revokedPlanId = none) :
    (∀ record, storedRule store r.ruleId = .ok (some record) → record.revoked = false) ∧
      store.rules.countP (revocable r.ruleId r.ruleDigestHex) = 1 := by
  constructor
  · intro record hrecord
    simp [storedRule_revoked hrows hr hrecord, hat, hplan]
  · have hcount :
        store.rules.countP (revocable r.ruleId r.ruleDigestHex) = store.rules.count r := by
      apply countP_congr
      intro s hs
      simp only [revocable, Bool.and_eq_true, beq_iff_eq, Option.isNone_iff_eq_none]
      constructor
      · exact fun h => inj_on_of_nodup_map hrows.unique hs hr h.1.1.1
      · rintro rfl
        exact ⟨⟨⟨rfl,rfl⟩,hat⟩,hplan⟩
    rw [hcount]
    exact count_eq_one_of_mem (List.Nodup.of_map _ hrows.unique) hr

/-- A rule whose revocations all ended, none of them with a success, carries no mark. -/
theorem ended_unmarked (hrows : RuleRows store) (hmarks : ∀ planId, Marks store planId)
    (hrecorded : Recorded results store) {r : RuleRow} (hr : r ∈ store.rules)
    (hended : ∀ planId outcome, (r.ruleId, outcome) ∈ revocations store planId →
      (revocations store planId).length ≤ 1 ∧ outcome ≠ none)
    (hfailed : ∀ result ∈ results, result.outcome = .succeeded → ∀ x ∈ store.actions,
      isAction result.planId result.actionIndex x = true → revokedRule store x ≠ some r.ruleId) :
    r.revokedAt = none ∧ r.revokedPlanId = none := by
  have hat : r.revokedAt = none := by
    by_contra hat
    obtain ⟨result,hm,ho,hp,hrev⟩ := hrecorded r hr hat
    obtain ⟨outcome,he⟩ := hrows.marked r hr _ hp
    obtain ⟨x,hx,hk⟩ := (Option.any_eq_true _ _).mp hrev
    have hmem := mem_of_find?_eq_some hx
    have ha : isAction result.planId result.actionIndex x = true := find?_some hx
    obtain ⟨rule,hrule⟩ := Option.isSome_iff_exists.mp (hrows.named x hmem hk)
    -- the plan has one revocation, so the action that succeeded is the one naming the rule
    have hentry : (rule, x.outcome) ∈ revocations store result.planId :=
      mem_revocations.mpr ⟨x,hmem,congrArg Prod.fst (isAction_iff.mp ha),hrule,rfl⟩
    have heq := eq_of_length_le_one (hended _ _ he).1 hentry he
    exact hfailed result hm ho x hmem ha (hrule.trans (congrArg some (congrArg Prod.fst heq)))
  refine ⟨hat,?_⟩
  cases hp : r.revokedPlanId with
  | none => rfl
  | some planId =>
    obtain ⟨outcome,he⟩ := hrows.marked r hr planId hp
    have hnone := (Marks.pending_iff (hmarks planId) hrows (hended _ _ he).1 hr).mp ⟨hp,hat⟩
    exact absurd rfl (hended _ _ hnone).2

/-- In a run in which no window ends over an open revocation, a rule is marked by a plan
with one revocation exactly while that revocation is open. So a rule whose revocations all
ended without a success triggers again, and a plan may revoke it. -/
theorem marks_match_open_revocations (now : ℤ) (quarantine : Option ℤ) (ops : List Op)
    (h : NoneExpires prim alerts now quarantine ops) :
    let store := storeAfter prim alerts now quarantine ops
    (∀ planId, (revocations store planId).length ≤ 1 → ∀ r ∈ store.rules,
      ((r.revokedPlanId = some planId ∧ r.revokedAt = none) ↔
        (r.ruleId, none) ∈ revocations store planId)) ∧
    ∀ r ∈ store.rules,
      (∀ planId outcome, (r.ruleId, outcome) ∈ revocations store planId →
        (revocations store planId).length ≤ 1 ∧ outcome ≠ none) →
      (∀ result ∈ runResults prim alerts (createdStore now quarantine) ops,
        result.outcome = .succeeded → ∀ x ∈ store.actions,
          isAction result.planId result.actionIndex x = true →
          revokedRule store x ≠ some r.ruleId) →
      (∀ record, storedRule store r.ruleId = .ok (some record) → record.revoked = false) ∧
        store.rules.countP (revocable r.ruleId r.ruleDigestHex) = 1 := by
  intro store
  have hrows : RuleRows store := rows_reachable prim alerts now quarantine ops
  have hmarks : ∀ planId, Marks store planId :=
    fun planId => marks_reachable prim alerts now quarantine ops h
  refine ⟨fun planId hone r hr => Marks.pending_iff (hmarks planId) hrows hone hr,?_⟩
  intro r hr hended hfailed
  obtain ⟨hat,hplan⟩ := ended_unmarked hrows hmarks
    (revocations_recorded prim alerts now quarantine ops) hr hended hfailed
  exact unmarked_usable hrows hr hat hplan

end Steps

def secondRuleHash : Digest :=
  digestOfNat 0x51c11dd208b4f539f81ca116d2070456552bceaf1ea825f0b601280bfc3437b3

def createPlan : Value := samplePlan 42 "HAAAAAAAAAAAAAAAAAAAAA" 3 []
  [sampleAction "rule.create" [("rule", sampleRule 50)],
    sampleAction "rule.create" [("rule", sampleRule 51)]]
  false genesisHead

def createPlanHash : Digest :=
  digestOfNat 0xc7926b9e4a8247f32c74ef46b6617a0cf4af48106035f4e95bc5c76a00cd493c

def createSignature : Str :=
  bigEndian 32 0xad5dbbff5a771b9cedad936342b9cf8a8661b8c84b3e81a07fb3b8eb10de1178 ++
    bigEndian 32 0xea43f91adf3b9bf7d4f92dc80fa604d9573eaab6b376f3a27b71868446e8b7d7

def createHead : Digest :=
  digestOfNat 0x8bf39aa195ae3de9779dacb04635f50225c9100d66fe08dd3dae02ac6d4ed2c0

def sampleRevoke (rule : ℕ) (digest : Digest) : Value := sampleAction "rule.revoke"
  [("rule_id", ident rule), ("rule_digest_hex", hashText digest)]

def revokePlan : Value := samplePlan 43 "IAAAAAAAAAAAAAAAAAAAAA" 3 []
  [sampleRevoke 50 firstRuleHash] false (hex createHead.val)

def revokePlanHash : Digest :=
  digestOfNat 0xa66e66715e0e37756ca58f085e55aedb0f26231166929b31c732b0d748ef3a6b

def revokeSignature : Str :=
  bigEndian 32 0xd26296bff7200f3cec4049bf8b72908b576e90cb44558a867dd45bd597b99512 ++
    bigEndian 32 0x82d9b859e488d9d109d5133a37e0bf985f3a04cd4b60ace601eec76b05e84d4e

def revokePrimitives : Primitives :=
  tablePrimitives [(ownerDer, ownerHash),
      (rulePrefix ++ canonicalBytes (sampleRule 50), firstRuleHash),
      (rulePrefix ++ canonicalBytes (sampleRule 51), secondRuleHash),
      (planPrefix ++ canonicalBytes createPlan, createPlanHash),
      (planPrefix ++ canonicalBytes revokePlan, revokePlanHash),
      (headPreimage genesisHead createPlanHash, createHead),
      (headPreimage (hex createHead.val) revokePlanHash,
        digestOfNat 0x4e3e963be65b1752e1ba46690a89e1f2569ffa38faba2db62983ef9399ff24db)]
    [ownerPoint] [(ownerPoint, createPlanHash, createSignature),
      (ownerPoint, revokePlanHash, revokeSignature)]

def revokeTrust : TrustStore :=
  okValue (validateTrust revokePrimitives (trustDocument [ownerEntry]) .production) emptyTrust

def revokeOps : List Op :=
  [.admitPlan revokeTrust
      (clientInput (sampleEnvelope createPlan ownerKeyId createSignature) [] 1767312300),
    .admitPlan revokeTrust
      (clientInput (sampleEnvelope revokePlan ownerKeyId revokeSignature) [] 1767312360)]

/-- The window of the revoking plan ends before the runner took it up: the action has
expired, and the rule stays marked. -/
theorem expired_revocation_stays_marked :
    let store := storeAfter revokePrimitives noAlerts 1767312000 none
      (revokeOps ++ [.expireWindows 1767316000])
    revocations store (ident 43).text = [((ident 50).text, some .expired)] ∧
    ∃ r ∈ store.rules, ¬ ((r.revokedPlanId = some (ident 43).text ∧ r.revokedAt = none) ↔
      (r.ruleId, none) ∈ revocations store (ident 43).text) := by
  decide +kernel

/-- The agent records the failure of the revoking action, and the rule is free again. -/
theorem failed_revocation_unmarked :
    let store := storeAfter revokePrimitives noAlerts 1767312000 none
      (revokeOps ++ [.finishAction (ident 43).text 0 .failed 1767312400])
    revocations store (ident 43).text = [((ident 50).text, some .failed)] ∧
    ∀ r ∈ store.rules, ¬ (r.revokedPlanId = some (ident 43).text ∧ r.revokedAt = none) := by
  intro store
  have hrev : revocations store (ident 43).text = [((ident 50).text, some .failed)] := by
    decide +kernel
  have hnone : NoneExpires revokePrimitives noAlerts 1767312000 none
      (revokeOps ++ [.finishAction (ident 43).text 0 .failed 1767312400]) := by
    intro before time hw
    have hm := hw.subset (mem_append_right before (mem_singleton_self _))
    simp [revokeOps] at hm
  have hone : (revocations store (ident 43).text).length ≤ 1 := by rw [hrev]; rfl
  refine ⟨hrev,fun r hr hp => ?_⟩
  have hopen := ((marks_match_open_revocations revokePrimitives noAlerts 1767312000 none _ hnone).1
    (ident 43).text hone r hr).mp hp
  rw [hrev] at hopen
  simp at hopen

end Permanu.AdmissionMarks
