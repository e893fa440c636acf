import PermanuAgent.AdmissionEvidence
import PermanuAgent.AdmissionConfinement

/-!
# The commits of rule plans

A rule plan uses up its delivery for its rule, and moves the commit that its
services last deployed from the ref. The check of a rule plan compares it with
the last row only; over a run the rows carry the whole order: the commit times of
the plans that deploy a service from a ref never decrease, and two plans in a row
never deploy the same commit.
-/

set_option autoImplicit false

namespace Permanu.AdmissionCommits
open ByteText JsonValue PlanText PlanSchema PlanSpec List Option Value
open PlanCrypto PlanActions PlanTrust PlanVerify
open PlanAuthority PlanEvidence ResultSteps TableRows
open AdmissionStore AdmissionAdmit AdmissionWrite
open AdmissionRun AdmissionEvidence AdmissionSpecs
open AdmissionConfinement

variable (prim : Primitives) (alerts : AlertSpecs)

def evidenceOf (p : Value) : Value := (p["invocation"]!)["evidence"]!
def refOf (p : Value) : Str := (evidenceOf p)["ref"]!.text
def commitOf (p : Value) : Str := (evidenceOf p)["commit_sha"]!.text
def commitTimeOf (p : Value) : Option ℤ := PlanText.timestamp (evidenceOf p)["commit_time"]!.text

def DeploysService (p : Value) (service : Str) : Prop :=
  ∃ action ∈ p["actions"]!.items, isDeploy action = true ∧
    (action["params"]!)["service_id"]!.text = service

/-- A rule plan that deploys the service from the ref. -/
def RuleDeploys (p : Value) (service ref : Str) : Prop :=
  isRulePlan p = true ∧ refOf p = ref ∧ DeploysService p service

theorem setDeployed_fold {p : Value} (hinv : p["invocation"]! ≠ .null) (service ref : Str)
    (actions : List Value) (rows : List DeployedRow) :
    rowOf DeployedRow.key (service, ref)
      (actions.foldl (fun rows action => setDeployed p action rows) rows) =
    if refOf p = ref ∧ ∃ action ∈ actions, isDeploy action = true ∧
        (action["params"]!)["service_id"]!.text = service then
      some ⟨service,ref,commitOf p,(evidenceOf p)["commit_time"]!.text,p["id"]!.text⟩
    else rowOf DeployedRow.key (service, ref) rows := by
  have hnull : p["invocation"]!.isNull = false := by
    cases h : p["invocation"]! <;> simp_all [isNull]
  induction actions generalizing rows with
  | nil => simp
  | cons action rest ih =>
    rw [foldl_cons, ih]
    by_cases hrest : refOf p = ref ∧ ∃ action ∈ rest, isDeploy action = true ∧
        (action["params"]!)["service_id"]!.text = service
    · obtain ⟨href,a,ha,hd⟩ := hrest
      rw [if_pos ⟨href,a,ha,hd⟩, if_pos ⟨href,a,mem_cons_of_mem _ ha,hd⟩]
    · have hset : setDeployed p action rows = if isDeploy action = true then
          upsert DeployedRow.key (deployedRow p action) rows else rows := by
        simp [setDeployed, hnull]
      rw [if_neg hrest, hset]
      by_cases hthis : refOf p = ref ∧ isDeploy action = true ∧
          (action["params"]!)["service_id"]!.text = service
      · obtain ⟨href,hd,hs⟩ := hthis
        have hkey : (deployedRow p action).key = (service, ref) := by
          rw [← href, ← hs]
          rfl
        rw [if_pos hd, rowOf_upsert, if_pos hkey,
          if_pos ⟨href,action,mem_cons_self,hd,hs⟩, ← href, ← hs]
        rfl
      · have hnone : ¬ (refOf p = ref ∧ ∃ a ∈ action :: rest, isDeploy a = true ∧
            (a["params"]!)["service_id"]!.text = service) := by
          rintro ⟨href,a,ha,hd,hs⟩
          rcases mem_cons.mp ha with rfl | ha
          · exact hthis ⟨href,hd,hs⟩
          · exact hrest ⟨href,a,ha,hd,hs⟩
        split_ifs with hd
        · rw [rowOf_upsert, if_neg]
          intro hkey
          obtain ⟨hs,href⟩ := Prod.mk.inj hkey
          exact hthis ⟨href,hd,hs⟩
        · rfl

theorem setDeployed_unset {p : Value} (hinv : p["invocation"]! = .null) (actions : List Value)
    (rows : List DeployedRow) :
    actions.foldl (fun rows action => setDeployed p action rows) rows = rows := by
  induction actions generalizing rows with
  | nil => rfl
  | cons action rest ih =>
    rw [foldl_cons, ih, setDeployed, hinv]
    simp [isNull]

/-- What the check of a rule plan finds at every service it deploys. -/
theorem checkCommits_ok {ctx : PolicyContext} {ref commitSha : Str} {time : ℤ}
    {actions : List Value} (h : checkCommits ctx ref commitSha time actions = .ok ())
    {action : Value} (hm : action ∈ actions) (hd : isDeploy action = true) :
    ∃ deployed, ctx.deployedCommit (action["params"]!)["service_id"]!.text ref = .ok deployed ∧
      deployed.all (supersedes commitSha time) = true := by
  induction actions with
  | nil => cases hm
  | cons first rest ih =>
    rw [checkCommits] at h
    by_cases hfirst : isDeploy first = true
    · rw [hfirst] at h
      simp only [Bool.not_true, Bool.false_eq_true, if_false, bind_ok, ensure_ok] at h
      obtain ⟨_,_,deployed,hdep,_,hall,hrest⟩ := h
      rcases mem_cons.mp hm with rfl | hm
      · exact ⟨deployed,hdep,hall⟩
      · exact ih hrest hm
    · rcases mem_cons.mp hm with rfl | hm
      · exact absurd hd hfirst
      · have hf : isDeploy first = false := by simpa using hfirst
        rw [hf] at h
        exact ih h hm

theorem timestampOf_text {v : Value} {t : ℤ} (h : PlanVerify.timestampOf v = .ok t) :
    PlanText.timestamp v.text = some t := by
  simp only [PlanVerify.timestampOf, okOr_ok] at h
  obtain ⟨s,hs,ht⟩ := bind_eq_some_iff.mp h
  rw [text, hs]
  exact ht

section Admission
variable {prim alerts} {store after : Store} {trust : TrustStore} {input : AdmitInput}
  {v : VerifiedPlan}

structure Advances (store after : Store) (p : Value) : Prop where
  unused : ∀ used ∈ store.consumptions, used.deliveryId = (evidenceOf p)["delivery_id"]!.text →
    used.ruleId ≠ (p["invocation"]!)["rule_id"]!.text
  consumed : ∃ used ∈ after.consumptions, used.deliveryId = (evidenceOf p)["delivery_id"]!.text ∧
    used.ruleId = (p["invocation"]!)["rule_id"]!.text
  timed : ∃ time, commitTimeOf p = some time
  ahead : ∀ service row, DeploysService p service →
    rowOf DeployedRow.key (service, refOf p) store.deployedCommits = some row →
    row.commitSha ≠ commitOf p ∧ ∃ last time, PlanText.timestamp row.commitTime = some last ∧
      commitTimeOf p = some time ∧ last ≤ time

theorem admits_advances (h : Admits prim alerts store trust input v after)
    (he : Evidenced prim store v input after) (hr : isRulePlan v.plan = true) :
    Advances store after v.plan := by
  obtain ⟨signatures,_,_,f⟩ := verifySignedPlan_admit h.verified
  obtain ⟨record,_,_,_,hfacts⟩ := AdmitFacts.evidence f hr
  obtain ⟨time,htime,hcommits⟩ := hfacts.commits
  have hshape := AdmitFacts.invocation_shape f hr
  obtain ⟨ruleId,hrule,_⟩ := check_pattern _ (check_field "rule_id" uuid7 hshape (by simp))
  have hevidence := check_field "evidence" evidence hshape (by simp)
  obtain ⟨deliveryId,hdel,_⟩ := check_pattern _
    (check_field "delivery_id" (.pattern PlanText.deliveryId) hevidence (by simp))
  have hrule' : (v.plan["invocation"]!)["rule_id"]!.text = ruleId := by rw [hrule]; rfl
  have hdel' : (evidenceOf v.plan)["delivery_id"]!.text = deliveryId := by
    rw [evidenceOf, hdel]
    rfl
  have htimed : commitTimeOf v.plan = some time := timestampOf_text htime
  have hused : (∀ used ∈ store.consumptions, used.deliveryId = deliveryId → used.ruleId ≠ ruleId) ∧
      ∃ used ∈ after.consumptions, used.deliveryId = deliveryId ∧ used.ruleId = ruleId := by
    cases he.invoked with
    | rule r d hr hd hunused _ hcons =>
      obtain rfl : ruleId = r := by simpa [admissionRow, hrule, asStr] using hr
      obtain rfl : deliveryId = d := by simpa [admissionRow, hdel, asStr] using hd
      rw [hcons]
      exact ⟨hunused,_,mem_append_right _ mem_cons_self,rfl,rfl⟩
    | none hnone => simp [admissionRow, hrule, hdel, asStr] at hnone
  rw [← hrule', ← hdel'] at hused
  refine ⟨hused.1,hused.2,⟨time,htimed⟩,?_⟩
  rintro service row ⟨action,hm,hd,rfl⟩ hrow
  obtain ⟨deployed,hdep,hall⟩ := checkCommits_ok hcommits hm hd
  have hsome : deployed = some (row.commitSha, row.commitTime) := by
    have : (.ok ((rowOf DeployedRow.key ((action["params"]!)["service_id"]!.text, refOf v.plan)
        store.deployedCommits).map fun r => (r.commitSha, r.commitTime)) : Policy _) =
        .ok deployed := hdep
    rw [hrow] at this
    exact (Except.ok.inj this).symm
  rw [hsome] at hall
  simp only [all_some, supersedes, Bool.and_eq_true, bne_iff_ne, Option.any_eq_true,
    Bool.not_eq_true', decide_eq_false_iff_not, not_lt] at hall
  obtain ⟨hsha,last,hlast,hle⟩ := hall
  exact ⟨hsha,last,time,hlast,htimed,hle⟩

end Admission

variable {trust : TrustStore} {input : AdmitInput} {v : VerifiedPlan}

section Runs
variable (now : ℤ) (quarantine : Option ℤ)

/-- No plan admitted after the given operations deploys the service from the ref. -/
def NoneLater (ops upTo : List Op) (service ref : Str) : Prop :=
  ∀ before trust input v, AdmittedAfter prim alerts now quarantine ops before trust input v →
    upTo <+: before → ¬ RuleDeploys v.plan service ref

/-- The tables against the admissions of a run: every admitted rule plan has used up its
delivery, and the row of a service and ref is the last plan that deployed it. -/
structure Ledger (ops : List Op) (store : Store) : Prop where
  consumed : ∀ before trust input v,
    AdmittedAfter prim alerts now quarantine ops before trust input v → isRulePlan v.plan = true →
    ∃ used ∈ store.consumptions, used.deliveryId = (evidenceOf v.plan)["delivery_id"]!.text ∧
      used.ruleId = (v.plan["invocation"]!)["rule_id"]!.text
  deployed : ∀ before trust input v service ref,
    AdmittedAfter prim alerts now quarantine ops before trust input v →
    RuleDeploys v.plan service ref →
    ∃ row last time, rowOf DeployedRow.key (service, ref) store.deployedCommits = some row ∧
      PlanText.timestamp row.commitTime = some last ∧ commitTimeOf v.plan = some time ∧
      time ≤ last ∧ (NoneLater prim alerts now quarantine ops (before ++ [.admitPlan trust input])
        service ref → row.commitSha = commitOf v.plan)

variable {prim alerts now quarantine} {ops : List Op} {op : Op}

theorem admittedAfter_concat {before : List Op}
    (h : AdmittedAfter prim alerts now quarantine (ops ++ [op]) before trust input v) :
    (before = ops ∧ op = .admitPlan trust input) ∨
      AdmittedAfter prim alerts now quarantine ops before trust input v := by
  rcases prefix_concat_iff.mp h.within with heq | hin
  · obtain ⟨hb,ho⟩ := append_inj' heq rfl
    exact .inl ⟨hb,(singleton_inj.mp ho).symm⟩
  · exact .inr ⟨hin,h.admits⟩

theorem NoneLater.initial {upTo : List Op} {service ref : Str}
    (h : NoneLater prim alerts now quarantine (ops ++ [op]) upTo service ref) :
    NoneLater prim alerts now quarantine ops upTo service ref :=
  fun before trust input v ha hle => h before trust input v ha.mono hle

theorem Ledger.kept {store after : Store} (h : Ledger prim alerts now quarantine ops store)
    (hk : Kept store after) (hnone : ∀ before trust input v,
      AdmittedAfter prim alerts now quarantine (ops ++ [op]) before trust input v →
      AdmittedAfter prim alerts now quarantine ops before trust input v) :
    Ledger prim alerts now quarantine (ops ++ [op]) after := by
  constructor
  · intro before trust input v ha hr
    rw [hk.consumptions]
    exact h.consumed before trust input v (hnone before trust input v ha) hr
  · intro before trust input v service ref ha hd
    rw [hk.deployedCommits]
    obtain ⟨row,last,time,hrow,hlast,htime,hle,hsha⟩ :=
      h.deployed before trust input v service ref (hnone before trust input v ha) hd
    exact ⟨row,last,time,hrow,hlast,htime,hle,fun hlater => hsha hlater.initial⟩

theorem deployed_after {store after : Store} (ha : Admits prim alerts store trust input v after)
    (he : Evidenced prim store v input after) (service ref : Str) :
    (RuleDeploys v.plan service ref → rowOf DeployedRow.key (service, ref) after.deployedCommits =
      some ⟨service,ref,commitOf v.plan,(evidenceOf v.plan)["commit_time"]!.text,
        v.plan["id"]!.text⟩) ∧
    (¬ RuleDeploys v.plan service ref →
      rowOf DeployedRow.key (service, ref) after.deployedCommits =
        rowOf DeployedRow.key (service, ref) store.deployedCommits) := by
  obtain ⟨signatures,_,_,f⟩ := verifySignedPlan_admit ha.verified
  by_cases hr : isRulePlan v.plan = true
  · have hinv := (f.rule_authority prim hr).invoked
    rw [he.deployed, setDeployed_fold hinv]
    constructor
    · rintro ⟨_,href,hd⟩
      exact if_pos ⟨href,hd⟩
    · intro hnot
      exact if_neg fun hc => hnot ⟨hr,hc⟩
  · rw [he.deployed, setDeployed_unset (AdmitFacts.uninvoked f hr)]
    exact ⟨fun hd => absurd hd.1 hr,fun _ => rfl⟩

theorem invoked_consumptions {row : AdmissionRow} {store after : Store}
    (h : Invoked now row store after) : store.consumptions ⊆ after.consumptions := by
  cases h with
  | rule _ _ _ _ _ _ hcons =>
    rw [hcons]
    exact subset_append_left _ _
  | none _ _ hcons =>
    rw [hcons]
    exact List.Subset.refl _

theorem Ledger.admitted {store after : Store} (h : Ledger prim alerts now quarantine ops store)
    (ha : Admits prim alerts store trust input v after) (he : Evidenced prim store v input after)
    (hnew : AdmittedAfter prim alerts now quarantine (ops ++ [.admitPlan trust input]) ops trust
      input v)
    (hsame : ∀ v', AdmittedAfter prim alerts now quarantine (ops ++ [.admitPlan trust input]) ops
      trust input v' → v' = v) :
    Ledger prim alerts now quarantine (ops ++ [.admitPlan trust input]) after := by
  constructor
  · intro before trust' input' v' ha' hr
    rcases admittedAfter_concat ha' with ⟨rfl,hop⟩ | hold
    · obtain ⟨rfl,rfl⟩ := Op.admitPlan.inj hop
      rw [hsame v' ha'] at hr ⊢
      exact (admits_advances ha he hr).consumed
    · obtain ⟨used,hu,hkey⟩ := h.consumed before trust' input' v' hold hr
      exact ⟨used,invoked_consumptions he.invoked hu,hkey⟩
  · intro before trust' input' v' service ref ha' hd
    obtain ⟨hset,hunset⟩ := deployed_after ha he service ref
    rcases admittedAfter_concat ha' with ⟨rfl,hop⟩ | hold
    · obtain ⟨rfl,rfl⟩ := Op.admitPlan.inj hop
      rw [hsame v' ha'] at hd ⊢
      obtain ⟨time,htime⟩ := (admits_advances ha he hd.1).timed
      exact ⟨_,time,time,hset hd,htime,htime,le_rfl,fun _ => rfl⟩
    · obtain ⟨row,last,time,hrow,hlast,htime,hle,hsha⟩ :=
        h.deployed before trust' input' v' service ref hold hd
      by_cases hnow : RuleDeploys v.plan service ref
      · -- the new plan is ahead of the row, and later than the old one
        obtain ⟨hr,rfl,hserves⟩ := hnow
        obtain ⟨_,last',next,hlast',hnext,hle'⟩ :=
          (admits_advances ha he hr).ahead service row hserves hrow
        obtain rfl : last = last' := Option.some.inj (hlast.symm.trans hlast')
        refine ⟨_,next,time,hset ⟨hr,rfl,hserves⟩,hnext,htime,hle.trans hle',fun hlater => ?_⟩
        exact absurd ⟨hr,rfl,hserves⟩ (hlater ops trust input v hnew hold.within)
      · rw [hunset hnow]
        exact ⟨row,last,time,hrow,hlast,htime,hle,fun hlater => hsha hlater.initial⟩

variable (prim alerts now quarantine)

theorem ledger (ops : List Op) :
    Ledger prim alerts now quarantine ops (storeAfter prim alerts now quarantine ops) := by
  induction ops using List.reverseRecOn with
  | nil =>
    have hnil : ∀ before trust input v,
        ¬ AdmittedAfter prim alerts now quarantine [] before trust input v := by
      intro before trust input v h
      simpa using prefix_nil.mp h.within
    exact ⟨fun before trust input v h => absurd h (hnil _ _ _ _),
      fun before trust input v _ _ h => absurd h (hnil _ _ _ _)⟩
  | append_singleton ops op ih =>
    have hrun := storeAfter_concat prim alerts now quarantine ops op
    rcases step_cases prim op with
      ⟨trust,input,v,rfl,ha⟩ | hk
    · have he := Admits.evidenced prim alerts ha
      rw [← hrun] at ha he
      apply ih.admitted ha he ⟨prefix_refl _,ha⟩
      intro v' ha'
      have hv := ha'.admits.verified.symm.trans ha.verified
      exact Verdict.admitted.inj (Except.ok.inj hv)
    · rw [← hrun] at hk
      apply ih.kept hk
      intro before trust input v ha
      rcases admittedAfter_concat ha with ⟨rfl,rfl⟩ | hold
      · -- an admission adds a row
        have hrows := congrArg List.length (hk.admissions.symm.trans
          (congrArg (List.map AdmissionRow.core) ha.admits.written.admissions.symm).symm)
        simp at hrows
      · exact hold

end Runs

/-- Over every run the pair of a delivery and a rule serves one admission, the commit times of
the rule plans that deploy a service from a ref never decrease, and two of them in a row
never deploy the same commit. -/
theorem rule_evidence_advances (now : ℤ) (quarantine : Option ℤ) (ops first second : List Op)
    (trust₁ trust₂ : TrustStore) (input₁ input₂ : AdmitInput) (v₁ v₂ : VerifiedPlan)
    (h₁ : AdmittedAfter prim alerts now quarantine ops first trust₁ input₁ v₁)
    (h₂ : AdmittedAfter prim alerts now quarantine ops second trust₂ input₂ v₂)
    (hlt : first ++ [.admitPlan trust₁ input₁] <+: second) :
    (isRulePlan v₁.plan = true → isRulePlan v₂.plan = true →
      (evidenceOf v₁.plan)["delivery_id"]!.text = (evidenceOf v₂.plan)["delivery_id"]!.text →
      (v₁.plan["invocation"]!)["rule_id"]!.text ≠ (v₂.plan["invocation"]!)["rule_id"]!.text) ∧
    ∀ service ref, RuleDeploys v₁.plan service ref → RuleDeploys v₂.plan service ref →
      (∃ time₁ time₂, commitTimeOf v₁.plan = some time₁ ∧ commitTimeOf v₂.plan = some time₂ ∧
        time₁ ≤ time₂) ∧
      ((∀ between trust input v,
          AdmittedAfter prim alerts now quarantine ops between trust input v →
          first ++ [.admitPlan trust₁ input₁] <+: between →
          between ++ [.admitPlan trust input] <+: second → ¬ RuleDeploys v.plan service ref) →
        commitOf v₁.plan ≠ commitOf v₂.plan) := by
  have hledger := ledger prim alerts now quarantine second
  have hbefore : AdmittedAfter prim alerts now quarantine second first trust₁ input₁ v₁ :=
    ⟨hlt,h₁.admits⟩
  have he := AdmittedAfter.evidenced prim alerts h₂
  constructor
  · intro hr₁ hr₂ hdelivery hrule
    obtain ⟨used,hu,hd,hid⟩ := hledger.consumed first trust₁ input₁ v₁ hbefore hr₁
    exact (admits_advances h₂.admits he hr₂).unused used hu (hd.trans hdelivery) (hid.trans hrule)
  · rintro service ref hd₁ ⟨hr₂,rfl,hserves⟩
    obtain ⟨row,last,time,hrow,hlast,htime,hle,hsha⟩ :=
      hledger.deployed first trust₁ input₁ v₁ service _ hbefore hd₁
    obtain ⟨hne,last',next,hlast',hnext,hle'⟩ :=
      (admits_advances h₂.admits he hr₂).ahead service row hserves hrow
    obtain rfl : last = last' := Option.some.inj (hlast.symm.trans hlast')
    constructor
    · exact ⟨time,next,htime,hnext,hle.trans hle'⟩
    · intro hnone hsame
      apply hne
      rw [← hsame]
      apply hsha
      intro between trust input v hb hlater
      have hsecond : second <+: ops := (prefix_append second _).trans h₂.within
      exact hnone between trust input v ⟨hb.within.trans hsecond,hb.admits⟩ hlater hb.within

structure SamplePush where
  commit : ℕ
  time : String
  delivery : String
  body : ℕ

def SamplePush.sha (push : SamplePush) : Str := hex (bigEndian 20 push.commit)

def SamplePush.plan (push : SamplePush) (id : ℕ) (nonce : String) (spec head : Digest) : Value :=
  ((samplePlan id nonce 3 [ident 10]
    [sampleDeploy (ident 10) (id - 20) (.string push.sha) spec]
    false (hex head.val)).set "author" (.obj
      [("kind", .txt "rule"), ("agent_session_id", .null)])).set "invocation"
    (pushInvocation.set "evidence" ((((pushInvocation["evidence"]!.set "commit_sha"
      (.string push.sha)).set "commit_time" (.txt push.time)).set "delivery_id"
        (.txt push.delivery)).set "body_digest_hex" (hashText (digestOfNat push.body))))

def SamplePush.row (push : SamplePush) : DeliveryRow :=
  ⟨str push.delivery,str "github",str "push",(hashText (digestOfNat push.body)).text,
    str "acme/app",str "refs/heads/main",push.sha,str push.time,[str "production"],
    str "2026-01-02T00:05:00Z",str "2026-01-02T00:20:00Z",.pending⟩

def SamplePush.build (push : SamplePush) (id : String) (image : ℕ) : BuildRow :=
  ⟨str id,(ident 10).text,push.sha,(hashText (digestOfNat image)).text,str push.delivery,
    str "2026-01-02T00:05:30Z"⟩

def firstPush : SamplePush := ⟨0xc0ffee,"2026-01-02T00:04:00Z","delivery-1",9⟩
def secondPush : SamplePush := ⟨0xdecade,"2026-01-02T00:04:30Z","delivery-2",11⟩

def firstDeploy : Value := firstPush.plan 41 "GAAAAAAAAAAAAAAAAAAAAA" builtSpecHash ownerHead

def firstDeployHash : Digest :=
  digestOfNat 0xdb567edf05240635fb2c89ec2b6cdb7474dd39dd6bef3fa481f6bd2b826aeaf4

def firstDeployHead : Digest :=
  digestOfNat 0x964f01a6ad1bbff2a833a0359efc370df6fbc888c70391113ada3aabbcb663d7

def rebuiltSpec : Value := sampleSpec (ident 10) 12 1 false

def rebuiltSpecHash : Digest :=
  digestOfNat 0xa14a87dc7d9fb5a40ebdbce857c2ecdac1c7b3054012ef7da435086b0d4df4ab

def secondDeploy : Value :=
  secondPush.plan 42 "HAAAAAAAAAAAAAAAAAAAAA" rebuiltSpecHash firstDeployHead

def secondDeployHash : Digest :=
  digestOfNat 0x0ad7a95cc852e090adcc7288918383297b38f3b65a38a837f29a74db0b771a4b

def commitPrimitives : Primitives :=
  tablePrimitives
    [(ownerDer, ownerHash), (rulePrefix ++ canonicalBytes (sampleRule 50), firstRuleHash),
      (specPrefix ++ canonicalBytes webSpec, webSpecHash),
      (specPrefix ++ canonicalBytes builtSpec, builtSpecHash),
      (specPrefix ++ canonicalBytes rebuiltSpec, rebuiltSpecHash),
      (planPrefix ++ canonicalBytes ownerPlan, ownerPlanHash),
      (planPrefix ++ canonicalBytes firstDeploy, firstDeployHash),
      (planPrefix ++ canonicalBytes secondDeploy, secondDeployHash),
      (headPreimage genesisHead ownerPlanHash, ownerHead),
      (headPreimage (hex ownerHead.val) firstDeployHash, firstDeployHead),
      (headPreimage (hex firstDeployHead.val) secondDeployHash,
        digestOfNat 0xb408467e01c50804f02d1fd95a407d0f8d8578d050446c3bca55e52618a83e15)]
    [ownerPoint] [(ownerPoint, ownerPlanHash, ownerPlanSignature)]

def commitTrust : TrustStore :=
  okValue (validateTrust commitPrimitives (trustDocument [ownerEntry]) .production) emptyTrust

def deployInput (p spec : Value) (now : ℤ) : AdmitInput :=
  { pushInput with
    envelope := canonicalBytes (.obj [("plan", p), ("signatures", .array [])])
    specs := [canonicalBytes spec]
    now := now }

def firstDeployInput : AdmitInput := deployInput firstDeploy builtSpec 1767312360
def secondDeployInput : AdmitInput := deployInput secondDeploy rebuiltSpec 1767312400

def commitOps : List Op :=
  [.admitPlan commitTrust (clientInput (sampleEnvelope ownerPlan ownerKeyId ownerPlanSignature)
      [canonicalBytes webSpec] 1767312300),
    .insertDelivery firstPush.row, .recordBuild (firstPush.build "build-1" 8),
    .insertDelivery secondPush.row, .recordBuild (secondPush.build "build-2" 12)]

/-- Both pushes are deployed, the later commit second. -/
theorem second_commit_later :
    let first := commitOps
    let second := first ++ [.admitPlan commitTrust firstDeployInput]
    let ops := second ++ [.admitPlan commitTrust secondDeployInput]
    ∃ v₁ v₂ : VerifiedPlan,
      AdmittedAfter commitPrimitives noAlerts 1767312000 none ops first commitTrust
        firstDeployInput v₁ ∧
      AdmittedAfter commitPrimitives noAlerts 1767312000 none ops second commitTrust
        secondDeployInput v₂ ∧
      RuleDeploys v₁.plan (ident 10).text (str "refs/heads/main") ∧
      RuleDeploys v₂.plan (ident 10).text (str "refs/heads/main") ∧
      (∃ time₁ time₂, commitTimeOf v₁.plan = some time₁ ∧ commitTimeOf v₂.plan = some time₂ ∧
        time₁ ≤ time₂) ∧
      commitOf v₁.plan ≠ commitOf v₂.plan := by
  have hrun : isFresh (admitPlan commitPrimitives noAlerts
        (storeAfter commitPrimitives noAlerts 1767312000 none commitOps) commitTrust
        firstDeployInput) = true ∧
      isFresh (admitPlan commitPrimitives noAlerts
        (storeAfter commitPrimitives noAlerts 1767312000 none
          (commitOps ++ [.admitPlan commitTrust firstDeployInput])) commitTrust
        secondDeployInput) = true ∧
      (parseEnvelope commitPrimitives firstDeployInput.envelope).toOption.map Prod.fst =
        some firstDeploy ∧
      (parseEnvelope commitPrimitives secondDeployInput.envelope).toOption.map Prod.fst =
        some secondDeploy := by
    decide +kernel
  obtain ⟨hfresh₁,hfresh₂,hplan₁,hplan₂⟩ := hrun
  intro first second ops
  obtain ⟨v₁,hv₁⟩ := admittedAfter_of_fresh hfresh₁
  obtain ⟨v₂,hv₂⟩ := admittedAfter_of_fresh hfresh₂
  have hp₁ := AdmittedAfter.plan_eq commitPrimitives noAlerts hv₁ hplan₁
  have hp₂ := AdmittedAfter.plan_eq commitPrimitives noAlerts hv₂ hplan₂
  have hd₁ : RuleDeploys v₁.plan (ident 10).text (str "refs/heads/main") := by
    rw [hp₁]
    unfold RuleDeploys DeploysService
    decide +kernel
  have hd₂ : RuleDeploys v₂.plan (ident 10).text (str "refs/heads/main") := by
    rw [hp₂]
    unfold RuleDeploys DeploysService
    decide +kernel
  have hwithin : AdmittedAfter commitPrimitives noAlerts 1767312000 none ops first commitTrust
      firstDeployInput v₁ := ⟨prefix_append second _,hv₁.admits⟩
  obtain ⟨htimes,hcommits⟩ := (rule_evidence_advances commitPrimitives noAlerts 1767312000 none ops
    first second commitTrust commitTrust firstDeployInput secondDeployInput v₁ v₂ hwithin hv₂
    (prefix_refl _)).2 _ _ hd₁ hd₂
  refine ⟨v₁,v₂,hwithin,hv₂,hd₁,hd₂,htimes,hcommits ?_⟩
  intro between trust input v _ hafter hbefore
  -- nothing fits between the two admissions
  have hlong : second.length ≤ between.length := hafter.length_le
  have hshort : (between ++ [Op.admitPlan trust input]).length ≤ second.length := hbefore.length_le
  rw [length_append, length_singleton] at hshort
  omega

end Permanu.AdmissionCommits
