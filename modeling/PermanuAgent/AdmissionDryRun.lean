import Mathlib.Data.List.MinMax
import PermanuAgent.AdmissionMarks
import PermanuAgent.AdmissionEvidence

/-!
# Dry runs and admissions

A dry run checks a plan against the store and writes nothing. The admission
itself has conditions of its own: the keys of the tables. All of them follow
from the checks, except where two actions of one plan meet in the same rule and
where a key is drawn or computed only while writing.
-/

set_option autoImplicit false

namespace Permanu.AdmissionDryRun
open ByteText JsonValue PlanJcs PlanText PlanCrypto List AdmissionMarks Except
open PlanSchema PlanActions PlanVerify PlanAuthority
open ResultSteps TableRows AdmissionStore AdmissionAdmit
open AdmissionWrite AdmissionRun AdmissionRevocations
open PlanBinding AdmissionSpecs PlanEvidence PlanSpec
open PlanTrust (TrustStore TrustMode validateTrust emptyTrust)

variable (prim : Primitives) (alerts : AlertSpecs)

def createdRule (action : Value) : Option (Str × Str) :=
  if action["kind"]!.is "rule.create" then
    some (((action["params"]!)["rule"]!)["id"]!.text,
      (ruleDigest prim (action["params"]!)["rule"]!).getD [])
  else none

def revokedId (action : Value) : Option Str :=
  if isRevoking action then some (action["params"]!)["rule_id"]!.text else none

structure RulesFit (rules : List RuleRow) (actions : List Value) : Prop where
  fresh : ∀ e ∈ actions.filterMap (createdRule prim), ∀ r ∈ rules,
    r.ruleId ≠ e.1 ∧ r.ruleDigestHex ≠ e.2
  distinct : (actions.filterMap (createdRule prim)).Pairwise fun a b => a.1 ≠ b.1 ∧ a.2 ≠ b.2
  live : ∀ a ∈ actions, isRevoking a = true → ∃ r ∈ rules,
    revocable (a["params"]!)["rule_id"]!.text (a["params"]!)["rule_digest_hex"]!.text r = true
  once : (actions.filterMap revokedId).Nodup

structure RulesNamed (v : VerifiedPlan) (rules : List RuleRow) (actions : List Value) : Prop where
  unique : (rules.map RuleRow.ruleId).Nodup
  creator : ∀ a ∈ actions, a["kind"]!.is "rule.create" = true →
    (canonicalize (a["params"]!)["rule"]!).isSome = true ∧ (creatorKeyId v).isSome = true
  known : ∀ a ∈ actions, isRevoking a = true → ∃ r ∈ rules,
    r.ruleId = (a["params"]!)["rule_id"]!.text

variable {action : Value} {actions : List Value} {secrets : List Str} {supplied : List (Str × Str)}

variable {rest : List Value} {time : Str} {now : ℤ} {row : AdmissionRow}

section
variable (v : VerifiedPlan)

theorem createRule_iff {rule : Value} (rules : List RuleRow)
    (ht : (canonicalize rule).isSome = true) (hk : (creatorKeyId v).isSome = true) :
    ∃ row : RuleRow, row.ruleId = rule["id"]!.text ∧
      row.ruleDigestHex = (ruleDigest prim rule).getD [] ∧ ∀ next,
      createRule prim v rule rules = .ok next ↔ (∀ r ∈ rules, r.ruleId ≠ row.ruleId ∧
        r.ruleDigestHex ≠ row.ruleDigestHex) ∧ next = rules ++ [row] := by
  obtain ⟨text,htext⟩ := Option.isSome_iff_exists.mp ht
  obtain ⟨creator,hcreator⟩ := Option.isSome_iff_exists.mp hk
  refine ⟨⟨text,digestHex prim rulePrefix text,creator,v.plan["id"]!.text,none,rule["id"]!.text,
    none⟩,rfl,?_,fun next => ?_⟩
  · rw [ruleDigest, htext]
    rfl
  · simp only [createRule, htext, hcreator, bind_ok, okOr_ok, Option.some.injEq, exists_eq_left',
      insertNew_eq_some, Bool.or_eq_false_iff, beq_eq_false_iff_ne, ne_eq]
    apply and_congr_left'
    apply forall₂_congr
    intro r _
    exact and_comm

theorem revocable_id {ruleId digest : Str} {r : RuleRow} (h : revocable ruleId digest r = true) :
    r.ruleId = ruleId := by
  simp only [revocable, Bool.and_eq_true, beq_iff_eq] at h
  exact h.1.1.1

/-- Rule ids are unique, so a revocation finds its rule once or not at all. -/
theorem markRevoked_iff (planId ruleId digest : Str) (rules : List RuleRow)
    (hn : (rules.map RuleRow.ruleId).Nodup) (next : List RuleRow) :
    markRevoked planId ruleId digest rules = .ok next ↔
      (∃ r ∈ rules, revocable ruleId digest r = true) ∧
      next = updateWhere (revocable ruleId digest)
        (fun r => { r with revokedPlanId := some planId }) rules := by
  have hle : rules.countP (revocable ruleId digest) ≤ 1 :=
    countP_le_one _ RuleRow.ruleId (fun r _ h => revocable_id h) hn
  have hone : rules.countP (revocable ruleId digest) = 1 ↔
      ∃ r ∈ rules, revocable ruleId digest r = true := by
    rw [← countP_pos_iff]
    omega
  simp only [markRevoked, bind_ok, ensure_ok, pure_ok, beq_iff_eq, hone, exists_const]
  exact and_congr_right fun _ => eq_comm

/-- After a revocation exactly the other rules can still be revoked. -/
theorem revocable_after (planId ruleId digest : Str) (rules : List RuleRow)
    (hn : (rules.map RuleRow.ruleId).Nodup) (hlive : ∃ r ∈ rules, revocable ruleId digest r = true)
    {other otherDigest : Str} :
    (∃ r ∈ updateWhere (revocable ruleId digest) (fun r => { r with revokedPlanId := some planId })
      rules, revocable other otherDigest r = true) ↔
    ruleId ≠ other ∧ ∃ r ∈ rules, revocable other otherDigest r = true := by
  simp only [mem_updateWhere]
  constructor
  · rintro ⟨_,⟨s,hs,rfl⟩,hr⟩
    split_ifs at hr with hrev
    · simp [revocable] at hr
    · refine ⟨?_,s,hs,hr⟩
      rintro rfl
      obtain ⟨t,ht,hrevt⟩ := hlive
      have hsame : s = t := inj_on_of_nodup_map hn hs ht
        ((revocable_id hr).trans (revocable_id hrevt).symm)
      exact hrev (hsame ▸ hrevt)
  · rintro ⟨hne,r,hr,hrev⟩
    refine ⟨r,⟨r,hr,?_⟩,hrev⟩
    rw [if_neg]
    intro h
    exact hne ((revocable_id h).symm.trans (revocable_id hrev))

theorem is_create_not_revoke (h : action["kind"]!.is "rule.create" = true) :
    isRevoking action = false := by
  rw [isRevoking, Value.is_iff.mp h]
  decide

theorem ruleEffect_revoke {rules : List RuleRow}
    (h : isRevoking action = true) : ruleEffect prim v action rules =
      markRevoked v.plan["id"]!.text (action["params"]!)["rule_id"]!.text
        (action["params"]!)["rule_digest_hex"]!.text rules := by
  have hc : ¬ action["kind"]!.is "rule.create" = true := by
    intro hc
    rw [is_create_not_revoke hc] at h
    cases h
  simp only [isRevoking] at h
  rw [ruleEffect, if_neg hc, if_pos h]

theorem ruleEffect_other {rules : List RuleRow}
    (hc : ¬ action["kind"]!.is "rule.create" = true) (hr : ¬ isRevoking action = true) :
    ruleEffect prim v action rules = .ok rules := by
  simp only [isRevoking] at hr
  rw [ruleEffect, if_neg hc, if_neg hr]

/-- The conditions of a first action, and those of the actions after it. -/
theorem rulesFit_cons {rules : List RuleRow} : RulesFit prim rules (action :: rest) ↔
    (∀ e ∈ createdRule prim action, (∀ r ∈ rules, r.ruleId ≠ e.1 ∧ r.ruleDigestHex ≠ e.2) ∧
      ∀ later ∈ rest.filterMap (createdRule prim), e.1 ≠ later.1 ∧ e.2 ≠ later.2) ∧
    (isRevoking action = true → ∃ r ∈ rules, revocable (action["params"]!)["rule_id"]!.text
      (action["params"]!)["rule_digest_hex"]!.text r = true) ∧
    (∀ id ∈ revokedId action, id ∉ rest.filterMap revokedId) ∧ RulesFit prim rules rest := by
  have hfit : ∀ actions, RulesFit prim rules actions ↔ _ ∧ _ ∧ _ ∧ _ := fun _ =>
    ⟨fun h => ⟨h.fresh,h.distinct,h.live,h.once⟩,fun h => ⟨h.1,h.2.1,h.2.2.1,h.2.2.2⟩⟩
  rw [hfit, hfit, forall_mem_cons]
  cases hc : createdRule prim action <;> cases hr : revokedId action <;>
    simp [hc, hr] <;> tauto

/-- One creation: the rule must be new, and must stay new for the actions after it. -/
theorem rulesFit_create
    {rules : List RuleRow} {row : RuleRow} (hc : action["kind"]!.is "rule.create" = true)
    (hn : RulesNamed v rules (action :: rest))
    (hid : row.ruleId = ((action["params"]!)["rule"]!)["id"]!.text)
    (hdigest : row.ruleDigestHex = (ruleDigest prim (action["params"]!)["rule"]!).getD []) :
    RulesFit prim rules (action :: rest) ↔
      (∀ r ∈ rules, r.ruleId ≠ row.ruleId ∧ r.ruleDigestHex ≠ row.ruleDigestHex) ∧
      RulesFit prim (rules ++ [row]) rest := by
  have hrev := is_create_not_revoke hc
  have hcreated : createdRule prim action = some (row.ruleId, row.ruleDigestHex) := by
    rw [createdRule, if_pos hc, hid, hdigest]
  simp only [rulesFit_cons, hcreated, revokedId, hrev, Option.mem_some_iff, forall_eq', and_assoc]
  refine and_congr_right fun hnew => ?_
  constructor
  · rintro ⟨hlater,-,-,h⟩
    refine ⟨fun e he => forall_mem_append.mpr ⟨h.fresh e he,?_⟩,h.distinct,fun a ha hra =>
      ?_,h.once⟩
    · exact forall_mem_singleton.mpr (hlater e he)
    · obtain ⟨r,hr,hlive⟩ := h.live a ha hra
      exact ⟨r,mem_append_left _ hr,hlive⟩
  · intro h
    refine ⟨fun e he => h.fresh e he row (by simp),by simp,by simp,
      fun e he r hr => h.fresh e he r (mem_append_left _ hr),h.distinct,fun a ha hra => ?_,h.once⟩
    -- the created rule is not one a revocation of the plan names
    obtain ⟨r,hr,hlive⟩ := h.live a ha hra
    rcases mem_append.mp hr with hr | hr
    · exact ⟨r,hr,hlive⟩
    · obtain ⟨known,hknown,hkid⟩ := hn.known a (mem_cons_of_mem _ ha) hra
      rw [mem_singleton.mp hr] at hlive
      exact absurd (hkid.trans (revocable_id hlive).symm) (hnew known hknown).1

/-- One revocation: the rule must be live, and no later action may revoke it again. -/
theorem rulesFit_revoke {planId : Str} {rules : List RuleRow}
    (hr : isRevoking action = true) (hn : (rules.map RuleRow.ruleId).Nodup) :
    RulesFit prim rules (action :: rest) ↔
      (∃ r ∈ rules, revocable (action["params"]!)["rule_id"]!.text
        (action["params"]!)["rule_digest_hex"]!.text r = true) ∧
      RulesFit prim (updateWhere (revocable (action["params"]!)["rule_id"]!.text
        (action["params"]!)["rule_digest_hex"]!.text)
        (fun r => { r with revokedPlanId := some planId }) rules) rest := by
  have hnone : createdRule prim action = none := by
    rw [createdRule, if_neg]
    intro hc
    rw [is_create_not_revoke hc] at hr
    cases hr
  have hrows : ∀ e : Str × Str, (∀ r ∈ updateWhere (revocable (action["params"]!)["rule_id"]!.text
        (action["params"]!)["rule_digest_hex"]!.text)
        (fun r => { r with revokedPlanId := some planId }) rules,
        r.ruleId ≠ e.1 ∧ r.ruleDigestHex ≠ e.2) ↔
      ∀ r ∈ rules, r.ruleId ≠ e.1 ∧ r.ruleDigestHex ≠ e.2 := by
    intro e
    simp only [mem_updateWhere]
    constructor
    · intro h r hm
      have := h _ ⟨r,hm,rfl⟩
      split_ifs at this <;> exact this
    · rintro h _ ⟨s,hs,rfl⟩
      split_ifs <;> exact h s hs
  simp only [rulesFit_cons, hnone, revokedId, hr, if_true, Option.mem_some_iff, forall_eq',
    forall_const, mem_filterMap, not_exists, not_and]
  rw [and_iff_right (by simp)]
  refine and_congr_right fun hlive => ?_
  have hafter := @revocable_after planId _ _ rules hn hlive
  constructor
  · rintro ⟨honce,h⟩
    refine ⟨fun e he => (hrows e).mpr (h.fresh e he),h.distinct,fun a ha hra => ?_,h.once⟩
    exact hafter.mpr ⟨fun hsame => honce a ha (by rw [if_pos hra, hsame]),h.live a ha hra⟩
  · intro h
    refine ⟨fun a ha hida => ?_,fun e he => (hrows e).mp (h.fresh e he),h.distinct,
      fun a ha hra => (hafter.mp (h.live a ha hra)).2,h.once⟩
    split_ifs at hida with hra
    exact (hafter.mp (h.live a ha hra)).1 (Option.some.inj hida).symm

theorem rulesFit_other {rules : List RuleRow}
    (hc : action["kind"]!.is "rule.create" = false) (hr : isRevoking action = false) :
    RulesFit prim rules (action :: rest) ↔ RulesFit prim rules rest := by
  simp [rulesFit_cons, createdRule, hc, revokedId, hr]

/-- The rule statements of a plan succeed exactly if the table takes them all. -/
theorem ruleEffects_iff (rules : List RuleRow)
    (hn : RulesNamed v rules actions) :
    (∃ after, ruleEffects prim v actions rules = .ok after) ↔ RulesFit prim rules actions := by
  induction actions generalizing rules with
  | nil => exact ⟨fun _ => ⟨by simp,by simp,by simp,by simp⟩,fun _ => ⟨rules,rfl⟩⟩
  | cons action rest ih =>
    have hsplit : (∃ after, ruleEffects prim v (action :: rest) rules = .ok after) ↔
        ∃ next, ruleEffect prim v action rules = .ok next ∧
          ∃ after, ruleEffects prim v rest next = .ok after := by
      simp only [ruleEffects, bind_ok, ← exists_and_left]
      exact exists_comm
    have hrest : ∀ next : List RuleRow, (∀ r ∈ rules, ∃ s ∈ next, s.ruleId = r.ruleId) →
        (next.map RuleRow.ruleId).Nodup → RulesNamed v next rest := by
      intro next hkeep hnodup
      refine ⟨hnodup,fun a ha => hn.creator a (mem_cons_of_mem _ ha),fun a ha hra => ?_⟩
      obtain ⟨r,hr,hid⟩ := hn.known a (mem_cons_of_mem _ ha) hra
      obtain ⟨s,hs,hsid⟩ := hkeep r hr
      exact ⟨s,hs,hsid.trans hid⟩
    rw [hsplit]
    by_cases hc : action["kind"]!.is "rule.create" = true
    · obtain ⟨htext,hcreator⟩ := hn.creator action mem_cons_self hc
      obtain ⟨row,hid,hdigest,hiff⟩ :=
        createRule_iff prim v rules htext hcreator
      rw [rulesFit_create prim v hc hn hid hdigest]
      simp only [ruleEffect, hc, if_true, hiff, and_assoc, exists_and_left, exists_eq_left]
      apply and_congr_right
      intro hnew
      apply ih
      apply hrest
      · exact fun r hr => ⟨r,mem_append_left _ hr,rfl⟩
      · rw [map_append, nodup_append]
        refine ⟨hn.unique,by simp,?_⟩
        rintro id hm _ hnewid rfl
        obtain ⟨r,hr,rfl⟩ := mem_map.mp hm
        exact (hnew r hr).1 (by simpa using hnewid)
    · by_cases hr : isRevoking action = true
      · rw [rulesFit_revoke prim hr hn.unique]
        simp only [ruleEffect_revoke prim v hr, markRevoked_iff _ _ _ _ hn.unique,
          and_assoc, exists_and_left, exists_eq_left]
        apply and_congr_right
        intro _
        apply ih
        apply hrest
        · intro r hm
          refine ⟨_,(mem_updateWhere _ _).mpr ⟨r,hm,rfl⟩,?_⟩
          split_ifs <;> rfl
        · rw [map_updateWhere _ _ _ (by intro _; rfl)]
          exact hn.unique
      · rw [rulesFit_other prim (by simpa using hc) (by simpa using hr)]
        simp only [ruleEffect_other prim v hc hr, ok.injEq, exists_eq_left']
        exact ih rules (hrest rules (fun r hr => ⟨r,hr,rfl⟩) hn.unique)

/-- What the foreign keys and the unique rule ids of the tables guarantee. -/
structure Consistent (store : Store) : Prop where
  rules : (store.rules.map RuleRow.ruleId).Nodup
  actions : ∀ x ∈ store.actions, (store.admission x.planId).isSome = true
  invocations : ∀ x ∈ store.ruleInvocations, (store.admission x.planId).isSome = true

structure Unseen (store : Store) (v : VerifiedPlan) : Prop where
  seen : ∀ r ∈ store.seen, r.nonce ≠ v.plan["nonce"]!.text ∧ r.planId ≠ v.plan["id"]!.text
  admissions : ∀ r ∈ store.admissions,
    r.nonce ≠ v.plan["nonce"]!.text ∧ r.planId ≠ v.plan["id"]!.text

theorem Unseen.not_admitted {store : Store} {v : VerifiedPlan} (h : Unseen store v) {planId : Str}
    (ha : (store.admission planId).isSome = true) : planId ≠ v.plan["id"]!.text := by
  obtain ⟨r,hr⟩ := Option.isSome_iff_exists.mp ha
  obtain ⟨hm,hid⟩ := rowOf_some _ hr
  rw [← hid]
  exact (h.admissions r hm).2

theorem checkReplay_unseen {store : Store} {trust : TrustStore} {input : AdmitInput}
    {v : VerifiedPlan}
    (h : checkReplay v.plan v.digestHex (txContext store trust input) = .ok false) :
    Unseen store v := by
  have hseen : seenBefore store v.plan["nonce"]!.text v.plan["id"]!.text = false := by
    simp only [checkReplay, txContext, bind_ok, ok.injEq, exists_eq_left'] at h
    split_ifs at h with hdigest
    · cases h
    · simp only [bind_ok, ok.injEq, exists_eq_left'] at h
      split_ifs at h with hseen
      simp only [Bool.or_eq_true, not_or, Bool.not_eq_true] at hseen
      exact hseen.1
  simp only [seenBefore, Bool.or_eq_false_iff, any_eq_false, Bool.or_eq_true, beq_iff_eq,
    not_or] at hseen
  exact ⟨hseen.1,hseen.2⟩

theorem reserve_writes (now : ℤ) {store : Store} {v : VerifiedPlan} (h : Unseen store v) :
    ∃ seen, reserve now (seenRow v) store = .ok { store with seen := seen } := by
  refine ⟨deleteWhere (fun r => ltText r.expiresAt (formatTimestamp (now - skewSeconds))) store.seen
    ++ [seenRow v],?_⟩
  simp only [reserve, bind_ok, okOr_ok, pure_ok, insertNew_eq_some]
  refine ⟨_,⟨fun r hr => ?_,rfl⟩,rfl⟩
  obtain ⟨hn,hi⟩ := h.seen r (mem_of_mem_filter hr)
  simp only [Bool.or_eq_false_iff, beq_eq_false_iff_ne]
  exact ⟨hn,hi⟩

theorem lt_nextSeq {store : Store} {r : AdmissionRow} (h : r ∈ store.admissions) :
    r.admissionSeq < nextSeq store := by
  have := le_max_of_le' 0 (mem_map_of_mem h (f := AdmissionRow.admissionSeq)) le_rfl
  rw [nextSeq]
  omega

/-- The admission row is new, up to the operation id drawn for it. -/
theorem insertAdmission_iff {store : Store} (reserved : Store) {v : VerifiedPlan}
    {input : AdmitInput} (h : Unseen store v)
    (hauthor : kindIn authorKinds (v.plan["author"]!)["kind"]!.text = true)
    (hsame : reserved.admissions = store.admissions) {next : Store} :
    insertAdmission (admissionRow prim store v input) reserved = .ok next ↔
      (∀ r ∈ store.admissions,
        r.operationId ≠ newUuid7 (input.now.toNat * 1000) input.random) ∧
      next = { reserved with
        admissions := store.admissions ++ [admissionRow prim store v input] } := by
  have hkind : kindIn authorKinds (admissionRow prim store v input).authorKind = true := hauthor
  simp only [insertAdmission, hkind, bind_ok, ensure_ok, okOr_ok, pure_ok, insertNew_eq_some, hsame,
    exists_const, true_and]
  constructor
  · rintro ⟨_,⟨hnew,rfl⟩,rfl⟩
    refine ⟨fun r hr => ?_,rfl⟩
    have := hnew r hr
    simp only [Bool.or_eq_false_iff, beq_eq_false_iff_ne] at this
    exact this.1.1.2
  · rintro ⟨hop,rfl⟩
    refine ⟨_,⟨fun r hr => ?_,rfl⟩,rfl⟩
    obtain ⟨hn,hi⟩ := h.admissions r hr
    have hseq := lt_nextSeq hr
    simp only [Bool.or_eq_false_iff, beq_eq_false_iff_ne]
    exact ⟨⟨⟨hi,hop r hr⟩,Nat.ne_of_lt hseq⟩,hn⟩

theorem insertAllNew_writes {ρ : Type} (conflicts : ρ → ρ → Bool) {new : List ρ} (rows : List ρ)
    (hrows : ∀ row ∈ new, ∀ r ∈ rows, conflicts row r = false)
    (hnew : new.Pairwise fun a b => conflicts b a = false) :
    insertAllNew conflicts new rows = some (rows ++ new) := by
  induction new generalizing rows with
  | nil => simp [insertAllNew]
  | cons row rest ih =>
    rw [pairwise_cons] at hnew
    have hfirst : insertNew (conflicts row) row rows = some (rows ++ [row]) :=
      (insertNew_eq_some _).mpr ⟨hrows row mem_cons_self,rfl⟩
    simp only [insertAllNew, hfirst]
    rw [ih _ ?_ hnew.2, append_assoc, singleton_append]
    exact fun other hother => forall_mem_append.mpr
      ⟨hrows other (mem_cons_of_mem _ hother),forall_mem_singleton.mpr (hnew.1 other hother)⟩

theorem insertActions_writes {store : Store} (admitted : Store) {v : VerifiedPlan}
    (hc : Consistent store) (h : Unseen store v) (hsame : admitted.actions = store.actions) :
    insertActions v.plan admitted = .ok
      { admitted with actions := store.actions ++ actionRows v.plan } := by
  simp only [insertActions, bind_ok, okOr_ok, pure_ok, hsame]
  refine ⟨_,insertAllNew_writes _ _ (fun row hrow r hr => ?_) ?_,rfl⟩
  · have hne := h.not_admitted (hc.actions r hr)
    rw [actionRows_planId row hrow]
    simp [hne]
  · have hkeyed := actionRows_keyed v.plan
    rw [List.Nodup, pairwise_map] at hkeyed
    refine hkeyed.imp fun {a b} hne => ?_
    rw [Bool.eq_false_iff]
    intro heq
    simp only [Bool.and_eq_true, beq_iff_eq] at heq
    exact hne (Prod.ext heq.1 heq.2)

/-- The statements of the actions succeed if the rules table takes them and every
spec they make current is stored. -/
theorem applyActions_writes (store : Store)
    {rules : List RuleRow} (hrules : ruleEffects prim v actions store.rules = .ok rules)
    (hspecs : ∀ a ∈ actions, makesCurrent a = true →
      (rowOf SpecRow.key (a["params"]!)["spec_digest_hex"]!.text store.specs).isSome = true) :
    ∃ after, applyActions prim v time actions store = .ok after := by
  induction actions generalizing store with
  | nil => exact ⟨store,rfl⟩
  | cons action rest ih =>
    simp only [ruleEffects, bind_ok] at hrules
    obtain ⟨next,hnext,hrest⟩ := hrules
    have hcurrent : setCurrent v.plan time action store = .ok
        { store with serviceSpecs := currentRows v.plan time store.serviceSpecs action } := by
      by_cases hm : makesCurrent action = true
      · have hstored := hspecs action mem_cons_self hm
        simp only [setCurrent, hm, if_true, bind_ok, ensure_ok, pure_ok, currentRows]
        exact ⟨(),hstored,trivial⟩
      · simp only [setCurrent, hm, currentRows]
        rfl
    simp only [applyActions, applyAction, hcurrent, bind_ok, pure_ok, ok.injEq,
      exists_eq_left', hnext]
    obtain ⟨after,hafter⟩ := ih { store with
      serviceSpecs := currentRows v.plan time store.serviceSpecs action
      deployedCommits := setDeployed v.plan action store.deployedCommits
      rules := next } hrest (fun a ha => hspecs a (mem_cons_of_mem _ ha))
    exact ⟨after,hafter⟩

theorem stored_current {texts : List Str} {specs : List SpecRow}
    (hbound : bindSpecs prim v.plan texts = some v.specs) :
    ∀ a ∈ v.plan["actions"]!.items, makesCurrent a = true →
      (rowOf SpecRow.key (a["params"]!)["spec_digest_hex"]!.text
        (insertSpecs v time specs)).isSome = true := by
  intro a ha hm
  obtain ⟨digest,hb⟩ := (bindSpecs_bound prim hbound).pinned a ha (makesCurrent_pins hm)
  obtain ⟨hd,value,text,hl,_,_,_⟩ := bindAction_some hb
  obtain ⟨row,hrow,hkey⟩ :=
    exists_key_insertSpecs v time (mem_of_lookup hl)
  rw [hd, Option.isSome_iff_ne_none]
  intro hnone
  exact (rowOf_none _).mp hnone row hrow hkey

end

/-- The delivery of a rule plan is stored and not used up by the rule. -/
structure Unused (store : Store) (row : AdmissionRow) : Prop where
  planId : ∀ r ∈ store.ruleInvocations, r.planId ≠ row.planId
  delivered : ∀ ruleId deliveryId, row.ruleId = some ruleId → row.deliveryId = some deliveryId →
    (∃ d ∈ store.deliveries, d.deliveryId = deliveryId) ∧
      ∀ used ∈ store.consumptions, used.deliveryId = deliveryId → used.ruleId ≠ ruleId

theorem recordInvocation_writes (store : Store)
    (h : Unused store row) : ∃ after, recordInvocation now row store = .ok after := by
  unfold recordInvocation
  split
  · rename_i ruleId deliveryId hr hd
    obtain ⟨⟨d,hdm,hdid⟩,hunused⟩ := h.delivered ruleId deliveryId hr hd
    simp only [bind_ok, okOr_ok, ensure_ok, pure_ok, insertNew_eq_some]
    refine ⟨_,_,⟨fun r hm => ?_,rfl⟩,(),?_,_,⟨fun used hm => ?_,rfl⟩,rfl⟩
    · have hne := h.planId r (mem_of_mem_filter hm)
      simp [hne]
    · exact any_eq_true.mpr ⟨d,hdm,by simp [hdid]⟩
    · rw [Bool.eq_false_iff]
      intro heq
      simp only [Bool.and_eq_true, beq_iff_eq] at heq
      exact hunused used hm heq.1 heq.2
  · exact ⟨store,rfl⟩

theorem storeSealed_writes
    (rows : List SealedRow) (h : ∀ e ∈ supplied, ∃ a ∈ actions, sealedDigest a = some e.1) :
    ∃ after, storeSealed row actions supplied rows = .ok after := by
  induction supplied generalizing rows with
  | nil => exact ⟨rows,rfl⟩
  | cons entry rest ih =>
    obtain ⟨a,ha,hd⟩ := h entry mem_cons_self
    have hfound : (actions.findIdx? fun a => sealedDigest a == some entry.1).isSome = true := by
      rw [findIdx?_isSome]
      exact any_eq_true.mpr ⟨a,ha,by simp [hd]⟩
    obtain ⟨index,hindex⟩ := Option.isSome_iff_exists.mp hfound
    obtain ⟨new,hnew⟩ : ∃ new, sealedRow row actions entry = .ok new := by
      simp only [sealedRow, hindex, bind_ok, okOr_ok, pure_ok, Option.some.injEq, exists_eq_left']
      exact ⟨_,rfl⟩
    obtain ⟨after,hafter⟩ := ih (insertIgnore SealedRow.ciphertextDigestHex new rows)
      (fun e he => h e (mem_cons_of_mem _ he))
    refine ⟨after,?_⟩
    simp only [storeSealed, bind_ok]
    exact ⟨new,hnew,hafter⟩

theorem checkSealed_supplied (h : checkSealed prim actions secrets = .ok supplied) :
    ∀ e ∈ supplied, ∃ a ∈ actions, sealedDigest a = some e.1 := by
  simp only [checkSealed, bind_ok, ensure_ok, pure_ok] at h
  obtain ⟨_,_,_,_,_,hsame,rfl⟩ := h
  simp only [sameSet, Bool.and_eq_true, all_eq_true] at hsame
  intro e he
  have := contains_iff_mem.mp (hsame.1 e.1 (mem_map_of_mem he))
  exact mem_filterMap.mp this

structure Ready (store : Store) (v : VerifiedPlan) (input : AdmitInput)
    (supplied : List (Str × Str)) : Prop where
  text : (chars input.envelope).isSome = true
  unseen : Unseen store v
  author : kindIn authorKinds (v.plan["author"]!)["kind"]!.text = true
  bound : bindSpecs prim v.plan input.specs = some v.specs
  rules : RulesNamed v store.rules v.plan["actions"]!.items
  unused : Unused store (admissionRow prim store v input)
  secrets : ∀ e ∈ supplied, ∃ a ∈ v.plan["actions"]!.items, sealedDigest a = some e.1

theorem writeAdmission_iff {store : Store} {v : VerifiedPlan} {input : AdmitInput}
    (hc : Consistent store) (h : Ready prim store v input supplied) :
    (∃ result, writeAdmission prim store v input supplied = .ok result) ↔
      (∀ r ∈ store.admissions, r.operationId ≠ newUuid7 (input.now.toNat * 1000) input.random) ∧
      RulesFit prim store.rules v.plan["actions"]!.items := by
  obtain ⟨seen,hseen⟩ := reserve_writes input.now h.unseen
  rw [← ruleEffects_iff prim v _ h.rules]
  constructor
  · rintro ⟨⟨after,result⟩,hw⟩
    have hwritten := (writeAdmission_ok prim hw).1
    refine ⟨?_,after.rules,hwritten.rules⟩
    simp only [writeAdmission, bind_ok, hseen, ok.injEq, exists_eq_left'] at hw
    obtain ⟨_,_,admitted,hadmitted,_⟩ := hw
    exact ((insertAdmission_iff prim { store with seen := seen } h.unseen h.author rfl).mp
      hadmitted).1
  · rintro ⟨hop,rules,hrules⟩
    have hadmitted := (insertAdmission_iff prim { store with seen := seen } h.unseen
      h.author rfl).mpr ⟨hop,rfl⟩
    have hlisted := insertActions_writes { store with
      seen := seen
      admissions := store.admissions ++ [admissionRow prim store v input] } hc h.unseen rfl
    obtain ⟨applied,happlied⟩ := applyActions_writes prim v
      { store with
        seen := seen
        admissions := store.admissions ++ [admissionRow prim store v input]
        actions := store.actions ++ actionRows v.plan
        specs := insertSpecs v (admissionRow prim store v input).admittedAt store.specs } hrules
          (stored_current prim v h.bound)
    have htables := (applyActions_ok prim _ happlied).2
    obtain ⟨invoked,hinvoked⟩ := recordInvocation_writes
      { applied with heads := setHead (admissionRow prim store v input) applied.heads }
      (by rw [htables]; exact ⟨h.unused.planId,h.unused.delivered⟩)
    obtain ⟨secrets,hsecrets⟩ := storeSealed_writes invoked.sealedSecrets h.secrets
    refine ⟨({ invoked with sealedSecrets := secrets },
      admissionOf (admissionRow prim store v input) (actionRows v.plan)),?_⟩
    simp only [writeAdmission, bind_ok, ensure_ok, pure_ok]
    exact ⟨(),h.text,_,hseen,_,hadmitted,_,hlisted,_,happlied,_,hinvoked,_,hsecrets,rfl⟩

theorem storedRule_some {store : Store} {ruleId : Str} {record : RuleRecord}
    (h : storedRule store ruleId = .ok (some record)) : ∃ r ∈ store.rules, r.ruleId = ruleId ∧
      record.ruleDigestHex = r.ruleDigestHex ∧
      record.revoked = (r.revokedAt.isSome || r.revokedPlanId.isSome) := by
  unfold storedRule at h
  split at h
  · cases h
  · rename_i row hrow
    simp only [bind_ok, okOr_ok, pure_ok, Option.some.injEq] at h
    obtain ⟨_,_,rfl⟩ := h
    obtain ⟨hm,hid⟩ := rowOf_some _ hrow
    exact ⟨row,hm,hid,rfl,rfl⟩

theorem storedRule_none {store : Store} {ruleId : Str} (h : storedRule store ruleId = .ok none) :
    ∀ r ∈ store.rules, r.ruleId ≠ ruleId := by
  unfold storedRule at h
  split at h
  · rename_i hrow
    exact (rowOf_none _).mp hrow
  · simp only [bind_ok, okOr_ok, pure_ok, reduceCtorEq, and_false, exists_false] at h

theorem preconditionSteps_mem {store : Store} (trust : TrustStore)
    (h : preconditionSteps prim alerts store trust actions = .ok ()) :
    ∀ a ∈ actions, ∃ before after, preconditionStep prim alerts store before a = .ok after := by
  induction actions generalizing trust with
  | nil => simp
  | cons action rest ih =>
    simp only [preconditionSteps, bind_ok] at h
    obtain ⟨changed,hstep,hrest⟩ := h
    exact forall_mem_cons.mpr ⟨⟨trust,changed,hstep⟩,ih changed hrest⟩

structure RulesChecked (store : Store) (actions : List Value) : Prop where
  created : ∀ a ∈ actions, a["kind"]!.is "rule.create" = true →
    ∀ r ∈ store.rules, r.ruleId ≠ ((a["params"]!)["rule"]!)["id"]!.text
  live : ∀ a ∈ actions, isRevoking a = true → ∃ r ∈ store.rules,
    revocable (a["params"]!)["rule_id"]!.text (a["params"]!)["rule_digest_hex"]!.text r = true

theorem executionPreconditions_rules {store : Store} {trust : TrustStore} {v : VerifiedPlan}
    (h : executionPreconditions prim alerts store trust v secrets = .ok supplied) :
    checkSealed prim v.plan["actions"]!.items secrets = .ok supplied ∧
      RulesChecked store v.plan["actions"]!.items := by
  simp only [executionPreconditions, bind_ok, pure_ok] at h
  obtain ⟨_,hsealed,_,_,_,_,_,_,_,hsteps,rfl⟩ := h
  refine ⟨hsealed,fun a ha hc => ?_,fun a ha hr => ?_⟩
  · obtain ⟨before,after,hstep⟩ := preconditionSteps_mem prim alerts trust hsteps a ha
    have hkind : a["kind"]!.text = str "rule.create" := Value.is_text hc
    simp only [preconditionStep, hkind] at hstep
    rw [if_neg (by decide), if_neg (by decide), if_neg (by decide), if_pos trivial] at hstep
    simp only [bind_ok, ensure_ok, pure_ok, Option.isNone_iff_eq_none] at hstep
    obtain ⟨found,hfound,_,rfl,_⟩ := hstep
    exact storedRule_none hfound
  · obtain ⟨before,after,hstep⟩ := preconditionSteps_mem prim alerts trust hsteps a ha
    have hkind : a["kind"]!.text = str "rule.revoke" := Value.is_text hr
    simp only [preconditionStep, hkind] at hstep
    rw [if_neg (by decide), if_neg (by decide), if_pos trivial] at hstep
    simp only [bind_ok, ensure_ok, okOr_ok, pure_ok, Bool.and_eq_true, beq_iff_eq] at hstep
    obtain ⟨found,hfound,record,rfl,_,⟨hlive,hdigest⟩,_⟩ := hstep
    obtain ⟨r,hm,hid,hd,hrevoked⟩ := storedRule_some hfound
    rw [hrevoked] at hlive
    refine ⟨r,hm,?_⟩
    simp only [Bool.not_eq_true', Bool.or_eq_false_iff, Option.isSome_eq_false_iff] at hlive
    simp only [revocable, Bool.and_eq_true, beq_iff_eq]
    refine ⟨⟨⟨hid,?_⟩,hlive.1⟩,hlive.2⟩
    rw [hdigest, ← hd]
    rfl

section Verified
variable {prim} {alerts} {store : Store} {trust : TrustStore} {input : AdmitInput}
variable {v : VerifiedPlan} {signatures : List Value} {digest : Digest} {rule : Option RuleRecord}

theorem parseStrict_chars {text : Str} {maxBytes : ℕ} {w : Value}
    (h : parseStrict text maxBytes = some w) : (chars text).isSome = true := by
  unfold parseStrict at h
  split_ifs at h with hsize
  simp only [Bool.or_eq_true, not_or, Option.isNone_iff_eq_none] at hsize
  exact Option.isSome_iff_ne_none.mpr hsize.2

theorem validatePlan_author {p : Value} (h : validatePlan prim p = true) :
    kindIn authorKinds (p["author"]!)["kind"]!.text = true := by
  simp only [validatePlan, Bool.and_eq_true] at h
  have hauthor := check_field "author" (.object
    [("kind", .enum ["user", "rule", "agent-draft"]), ("agent_session_id", .nullable uuid7)]) h.1
    (by simp [planFields])
  have hkind := check_field "kind" (.enum ["user", "rule", "agent-draft"]) hauthor (by simp)
  obtain ⟨o,ho,heq⟩ := check_enum hkind
  rw [heq]
  simp only [mem_cons, not_mem_nil, or_false] at ho
  rcases ho with rfl | rfl | rfl <;> decide

theorem AdmitFacts.canonical
   
    (f : AdmitFacts prim input.envelope input.specs input.submitter (txContext store trust input) v
      signatures digest rule) :
    (canonicalize v.plan).isSome = true := by
  have h := f.digestOf
  cases hc : canonicalize v.plan with
  | none => simp [hc] at h
  | some _ => rfl

/-- A plan that creates a rule is touched by an owner, who answers for the rule. -/
theorem AdmitFacts.creator
    (f : AdmitFacts prim input.envelope input.specs input.submitter (txContext store trust input) v
      signatures digest rule)
    {document : Value} {mode : TrustMode} (ht : validateTrust prim document mode = .ok trust)
    (ha : action ∈ v.plan["actions"]!.items) (hc : action["kind"]!.is "rule.create" = true) :
    (creatorKeyId v).isSome = true := by
  have htouch := (checkTouch_ok _ f.touch (.inl ⟨action,ha,"rule.create",by decide,
    Value.is_iff.mp hc⟩)).2
  simp only [ownerTouched, any_eq_true] at htouch
  obtain ⟨s,hs,hp⟩ := htouch
  have hfound : (v.signers.find? fun s =>
      s["role"]!.is "owner" && !s["presence"]!.is "none").isSome = true := by
    rw [find?_isSome]
    exact ⟨s,hs,hp⟩
  obtain ⟨signer,hsigner⟩ := Option.isSome_iff_exists.mp hfound
  obtain ⟨keyId,key,rfl,hkey⟩ := f.signer prim (mem_of_find?_eq_some hsigner)
  have hentry := PlanTrust.validateTrust_entry prim ht hkey.trusted
  rw [creatorKeyId, hsigner, Option.bind_some, hentry.name]
  rfl

theorem AdmitFacts.unused
    (f : AdmitFacts prim input.envelope input.specs input.submitter (txContext store trust input) v
      signatures digest rule)
    (hc : Consistent store) (hu : Unseen store v) :
    Unused store (admissionRow prim store v input) := by
  refine ⟨fun r hr => hu.not_admitted (hc.invocations r hr),fun ruleId deliveryId hr hd => ?_⟩
  have hrule : (v.plan["invocation"]!)["rule_id"]! = .string ruleId := Value.asStr_eq_some.mp hr
  have hdelivery : ((v.plan["invocation"]!)["evidence"]!)["delivery_id"]! = .string deliveryId :=
    Value.asStr_eq_some.mp hd
  have hplan : isRulePlan v.plan = true := by
    by_contra hnot
    have hauth := f.authority
    simp only [authorityOk, hnot, if_false, Bool.and_eq_true,
      Bool.not_eq_true', Bool.not_eq_false'] at hauth
    cases hinv : v.plan["invocation"]! with
    | null =>
      rw [hinv] at hrule
      cases hrule
    | _ =>
      rw [hinv] at hauth
      cases hauth.2
  obtain ⟨record,_,hid,_,hevidence⟩ := AdmitFacts.evidence f hplan
  obtain ⟨d,hd,_,hmatch⟩ := hevidence.delivery
  rw [hdelivery] at hd
  obtain ⟨row,hrow,hrecord⟩ := Option.map_eq_some_iff.mp (ok.inj hd)
  obtain ⟨hm,hkey⟩ := rowOf_some _ hrow
  refine ⟨⟨row,hm,hkey⟩,fun used hused hdel hsame => ?_⟩
  simp only [deliveryMatches, Bool.and_eq_true, Bool.not_eq_true', hid, hrule] at hmatch
  have hnot := hmatch.1.1.1.1.1.1.1
  rw [← hrecord] at hnot
  have hin : ruleId ∈ ((store.consumptions.filter fun used => used.deliveryId == deliveryId).map
      ConsumptionRow.ruleId) := by
    rw [← hsame]
    exact mem_map_of_mem (mem_filter.mpr ⟨hused,by simp [hdel]⟩)
  have hcontains := contains_iff_mem.mpr hin
  exact Bool.false_ne_true (hnot.symm.trans hcontains)

end Verified

/-- The rules, digests and the operation id of a plan that its own earlier actions and
the values drawn while writing leave free. -/
structure Writable (store : Store) (v : VerifiedPlan) (input : AdmitInput) : Prop where
  operation : ∀ r ∈ store.admissions,
    r.operationId ≠ newUuid7 (input.now.toNat * 1000) input.random
  digests : ∀ e ∈ v.plan["actions"]!.items.filterMap (createdRule prim), ∀ r ∈ store.rules,
    r.ruleDigestHex ≠ e.2
  created : (v.plan["actions"]!.items.filterMap (createdRule prim)).Pairwise
    fun a b => a.1 ≠ b.1 ∧ a.2 ≠ b.2
  revoked : (v.plan["actions"]!.items.filterMap revokedId).Nodup

theorem RulesChecked.fit_iff {store : Store}
    (h : RulesChecked store actions) : RulesFit prim store.rules actions ↔
      (∀ e ∈ actions.filterMap (createdRule prim), ∀ r ∈ store.rules, r.ruleDigestHex ≠ e.2) ∧
      (actions.filterMap (createdRule prim)).Pairwise (fun a b => a.1 ≠ b.1 ∧ a.2 ≠ b.2) ∧
      (actions.filterMap revokedId).Nodup := by
  constructor
  · intro hf
    exact ⟨fun e he r hr => (hf.fresh e he r hr).2,hf.distinct,hf.once⟩
  · rintro ⟨hdigests,hdistinct,honce⟩
    refine ⟨fun e he r hr => ⟨?_,hdigests e he r hr⟩,hdistinct,h.live,honce⟩
    obtain ⟨a,ha,hcreated⟩ := mem_filterMap.mp he
    rw [createdRule] at hcreated
    split_ifs at hcreated with hc
    obtain rfl := Option.some.inj hcreated
    exact h.created a ha hc r hr

/-- A dry run that admits a plan predicts its admission exactly when no two of its
actions create or revoke the same rule, a new rule's digest is not taken and the
drawn operation id is unused. -/
theorem dry_run_predicts_iff (store : Store) (hc : Consistent store) (document : Value)
    (mode : TrustMode) (trust : TrustStore) (ht : validateTrust prim document mode = .ok trust)
    (input : AdmitInput) (v : VerifiedPlan)
    (h : verifyOnly prim alerts store trust input = .ok (.admitted v)) :
    (∃ result, admitPlan prim alerts store trust input = .ok result) ↔
      Writable prim store v input := by
  simp only [verifyOnly, bind_ok] at h
  obtain ⟨_,hq,verdict,hv,h⟩ := h
  cases verdict with
  | deduped planId digest => cases h
  | admitted w =>
    simp only [bind_ok, pure_ok, Verdict.admitted.injEq] at h
    obtain ⟨supplied,hs,rfl⟩ := h
    obtain ⟨signatures,digest,rule,f⟩ := verifySignedPlan_admit hv
    obtain ⟨hsealed,hchecked⟩ := executionPreconditions_rules prim alerts hs
    have hunseen := checkReplay_unseen f.fresh
    have hcanonical := AdmitFacts.canonical f
    obtain ⟨envelope,henv,_⟩ := (parseEnvelope_ok f.envelope).2.2
    have hready : Ready prim store w input supplied :=
      { text := parseStrict_chars henv
        unseen := hunseen
        author := validatePlan_author (f.valid prim)
        bound := f.specs
        rules := ⟨hc.rules,fun a ha hcreate => ⟨canonicalize_get (canonicalize_get
            (canonicalize_items (canonicalize_get hcanonical) a ha)),
            AdmitFacts.creator f ht ha hcreate⟩,fun a ha hr => by
          obtain ⟨r,hm,hrev⟩ := hchecked.live a ha hr
          exact ⟨r,hm,revocable_id hrev⟩⟩
        unused := AdmitFacts.unused f hc hunseen
        secrets := checkSealed_supplied prim hsealed }
    have hwrite : (∃ result, admitPlan prim alerts store trust input = .ok result) ↔
        ∃ result, writeAdmission prim store w input supplied = .ok result := by
      simp only [admitPlan, bind_ok, hq, hv, hs, ok.injEq, exists_eq_left', exists_const,
        true_and]
    rw [hwrite, writeAdmission_iff prim hc hready,
      hchecked.fit_iff]
    constructor
    · rintro ⟨hop,hd,hcr,hrev⟩
      exact ⟨hop,hd,hcr,hrev⟩
    · exact fun hw => ⟨hw.operation,hw.digests,hw.created,hw.revoked⟩

/-- The tables of every reachable store meet their constraints. -/
theorem consistent_reachable {quarantine : Option ℤ} (ops : List Op) :
    Consistent (storeAfter prim alerts now quarantine ops) := by
  have hrows := rows_reachable prim alerts now quarantine ops
  refine ⟨hrows.unique,hrows.owned,?_⟩
  refine storeAfter_induction
    (fun _ store => ∀ x ∈ store.ruleInvocations, (store.admission x.planId).isSome = true)
    (by simp [createdStore]) (fun ops trust input v ih ha x hx => ?_)
    (fun ops op store after ih hk x hx => ?_)
  · have hold : ∀ y ∈ (storeAfter prim alerts now quarantine ops).ruleInvocations,
        ((storeAfter prim alerts now quarantine
          (ops ++ [.admitPlan trust input])).admission y.planId).isSome = true := by
      intro y hy
      obtain ⟨a,haOld⟩ := Option.isSome_iff_exists.mp (ih y hy)
      rw [ha.admits.written.admission_old prim haOld]
      rfl
    cases (AdmissionEvidence.AdmittedAfter.evidenced prim alerts ha).invoked with
    | rule ruleId deliveryId _ _ _ hinvocations _ =>
      rw [hinvocations] at hx
      rcases mem_append.mp hx with hx | hx
      · exact hold x (mem_of_mem_filter hx)
      · rw [mem_singleton.mp hx]
        change (Store.admission _ v.plan["id"]!.text).isSome = true
        rw [ha.admits.written.admission_new prim]
        rfl
    | none _ hinvocations _ =>
      rw [hinvocations] at hx
      exact hold x hx
  · rw [hk.ruleInvocations] at hx
    have hids := map_of_core AdmissionRow.core AdmissionRow.planId (fun _ => rfl)
      hk.admissions
    obtain ⟨a,haOld⟩ := Option.isSome_iff_exists.mp (ih x hx)
    obtain ⟨hm,hid⟩ := rowOf_some _ haOld
    rw [Option.isSome_iff_ne_none]
    intro hnone
    have hin : x.planId ∈ after.admissions.map AdmissionRow.planId := by
      rw [hids, ← hid]
      exact mem_map_of_mem hm
    obtain ⟨b,hb,hbid⟩ := mem_map.mp hin
    exact (rowOf_none _).mp hnone b hb hbid

def twicePlan : Value := samplePlan 45 "KAAAAAAAAAAAAAAAAAAAAA" 3 []
  [sampleAction "rule.create" [("rule", sampleRule 50)],
    sampleAction "rule.create" [("rule", sampleRule 50)]]
  false genesisHead

def twicePlanHash : Digest :=
  digestOfNat 0x79ab6e0f616af4c576d4ea92e6174e73bf301d18b8d7b1f6d1a8569be5a64097

def twiceSignature : Str :=
  bigEndian 32 0xb5755c97798e618926fe41118616e98f1a8827277bd4eda5849607bf8929e8ad ++
    bigEndian 32 0xbac710e7cb07289023625065faa108db9db3ef348d5d16c3a482613aecb0fc31

def twicePrimitives : Primitives :=
  tablePrimitives [(ownerDer, ownerHash),
      (rulePrefix ++ canonicalBytes (sampleRule 50), firstRuleHash),
      (planPrefix ++ canonicalBytes twicePlan, twicePlanHash)]
    [ownerPoint] [(ownerPoint, twicePlanHash, twiceSignature)]

def twiceTrust : TrustStore :=
  okValue (validateTrust twicePrimitives (trustDocument [ownerEntry]) .production) emptyTrust

def twiceInput : AdmitInput :=
  clientInput (sampleEnvelope twicePlan ownerKeyId twiceSignature) [] 1767312300

/-- Neither creation meets a stored rule, so the dry run admits the plan; the second
insertion meets the first. -/
theorem repeated_creation_refused :
    isAdmit (verifyOnly twicePrimitives noAlerts (createdStore 1767312000 none) twiceTrust
      twiceInput) = true ∧
    (admitPlan twicePrimitives noAlerts (createdStore 1767312000 none) twiceTrust
      twiceInput).isOk = false := by
  decide +kernel

def twoRulesInput : AdmitInput :=
  clientInput (sampleEnvelope createPlan ownerKeyId createSignature)
    [] 1767312300

theorem two_creations_predicted : ∃ v,
    verifyOnly revokePrimitives noAlerts (createdStore 1767312000 none)
      revokeTrust twoRulesInput = .ok (.admitted v) ∧
    Writable revokePrimitives (createdStore 1767312000 none) v twoRulesInput := by
  have hok : (validateTrust revokePrimitives (trustDocument [ownerEntry])
      .production).isOk = true := by decide +kernel
  have htrust : validateTrust revokePrimitives (trustDocument [ownerEntry])
      .production = .ok revokeTrust := by
    rw [revokeTrust]
    exact eq_ok_okValue _ hok
  have hdry : isAdmit (verifyOnly revokePrimitives noAlerts
      (createdStore 1767312000 none) revokeTrust twoRulesInput) = true ∧
      (admitPlan revokePrimitives noAlerts (createdStore 1767312000 none)
        revokeTrust twoRulesInput).isOk = true := by decide +kernel
  obtain ⟨v,hv⟩ := isAdmit_iff.mp hdry.1
  have hstore : Consistent (createdStore 1767312000 none) :=
    consistent_reachable revokePrimitives noAlerts []
  refine ⟨v,hv,(dry_run_predicts_iff revokePrimitives noAlerts _ hstore
    (trustDocument [ownerEntry]) .production _ htrust _ v hv).mp ?_⟩
  cases hwrite : admitPlan revokePrimitives noAlerts (createdStore 1767312000 none)
      revokeTrust twoRulesInput with
  | ok result => exact ⟨result,rfl⟩
  | error e =>
    rw [hwrite] at hdry
    cases hdry.2

end Permanu.AdmissionDryRun
