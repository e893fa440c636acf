import PermanuAgent.PlanAuthority

/-!
# The push behind a rule plan

What the checks of a rule plan establish about the push it names: a verified
delivery of the same content that the rule has not used, a count of earlier
invocations below the signed limit, and a commit ahead of the last one each
service deployed from the ref.
-/

set_option autoImplicit false

namespace Permanu.PlanEvidence
open ByteText JsonValue PlanText PlanCrypto PlanActions
open PlanSchema PlanSpec PlanVerify PlanAuthority
open ResultSteps

structure EvidenceFacts (p rule : Value) (ctx : PolicyContext) : Prop where
  limit : ∃ count, ctx.ruleInvocationsLastHour rule["id"]!.text = .ok count ∧
    (count : ℤ) < (rule["limits"]!)["max_invocations_per_hour"]!.asI64.getD 0
  delivery : ∃ d, ctx.delivery ((p["invocation"]!)["evidence"]!)["delivery_id"]!.text =
    .ok (some d) ∧
    d.verified = true ∧ deliveryMatches (p["invocation"]!)["evidence"]! rule["id"]!.text
      p["environment"]!.text d = true
  commits : ∃ time, timestampOf ((p["invocation"]!)["evidence"]!)["commit_time"]! = .ok time ∧
    checkCommits ctx ((p["invocation"]!)["evidence"]!)["ref"]!.text
      ((p["invocation"]!)["evidence"]!)["commit_sha"]!.text time p["actions"]!.items = .ok ()

theorem checkRule_evidence {p rule : Value} {ctx : PolicyContext} {specs : Specs}
    (h : checkRule p rule ctx specs = .ok ()) : EvidenceFacts p rule ctx := by
  simp only [checkRule, bind_ok, ensure_ok] at h
  obtain ⟨_,_,_,_,_,_,_,_,_,_,_,_,_,_,_,_,count,hcount,_,hlimit,_,hevidence,_⟩ := h
  simp only [checkEvidence, bind_ok, ensure_ok, okOr_ok] at hevidence
  obtain ⟨found,hfound,d,hd,_,hmatch,_,_,_,_,_,_,time,htime,hcommits⟩ := hevidence
  obtain ⟨rfl,hverified⟩ := Option.filter_eq_some_iff.mp hd
  exact ⟨⟨count,hcount,by simpa using hlimit⟩,⟨d,hfound,hverified,hmatch⟩,⟨time,htime,hcommits⟩⟩

section Admitted
variable {prim : Primitives} {text : Str} {specTexts : List Str} {submitter : Submitter}
  {ctx : PolicyContext} {v : VerifiedPlan} {signatures : List Value} {digest : Digest}
  {rule : Option RuleRecord}

/-- An admitted rule plan names its stored rule and meets the rule's limits. -/
theorem AdmitFacts.evidence
    (f : AdmitFacts prim text specTexts submitter ctx v signatures digest rule)
    (hr : isRulePlan v.plan = true) :
    ∃ record, ctx.rule (v.plan["invocation"]!)["rule_id"]!.text = .ok (some record) ∧
      record.rule["id"]! = .string (v.plan["invocation"]!)["rule_id"]!.text ∧
      ruleDigest prim record.rule = some (v.plan["invocation"]!)["rule_digest_hex"]!.text ∧
      EvidenceFacts v.plan record.rule ctx := by
  obtain ⟨record,rfl,hrule⟩ := f.rule_some prim hr
  have hnames := f.names
  simp only [verifyRule, bind_ok, okOr_ok, ensure_ok, pure_ok, Bool.and_eq_true,
    beq_iff_eq] at hrule
  obtain ⟨found,hfound,stored,rfl,_,⟨⟨hid,_⟩,hdigest⟩,_,_,rfl⟩ := hrule
  exact ⟨stored,hfound,hid,hdigest,checkRule_evidence hnames⟩

/-- The invocation of a rule plan has the shape of one. -/
theorem AdmitFacts.invocation_shape
    (f : AdmitFacts prim text specTexts submitter ctx v signatures digest rule)
    (hr : isRulePlan v.plan = true) : check invocation v.plan["invocation"]! = true := by
  have hvalid := f.valid prim
  simp only [validatePlan, Bool.and_eq_true] at hvalid
  have hshape := check_field "invocation" (.nullable invocation) hvalid.1
    (by simp [planFields])
  have hnull := (f.rule_authority prim hr).invoked
  simp only [check, Bool.or_eq_true] at hshape
  rcases hshape with h | h
  · exfalso
    cases hi : v.plan["invocation"]! <;> simp_all [Value.isNull]
  · exact h

theorem AdmitFacts.uninvoked
    (f : AdmitFacts prim text specTexts submitter ctx v signatures digest rule)
    (hr : ¬ isRulePlan v.plan = true) : v.plan["invocation"]! = .null := by
  have ha := f.authority
  simp only [authorityOk, hr] at ha
  cases hi : v.plan["invocation"]! <;> simp_all [Value.isNull]

theorem AdmitFacts.invoked_rule
    (f : AdmitFacts prim text specTexts submitter ctx v signatures digest rule) {ruleId : Str}
    (h : (v.plan["invocation"]!)["rule_id"]!.asStr = some ruleId) : isRulePlan v.plan = true := by
  by_contra hr
  rw [AdmitFacts.uninvoked f hr] at h
  cases h

end Admitted

end Permanu.PlanEvidence
