import PermanuAgent.AdmissionMarks

/-!
# The first result of a revocation

The mark names the plan and not the action, so the first result of any of its
revoking actions settles every rule the plan revokes, and the later ones find
nothing to settle. What a run of results leaves is therefore decided by that
first result, while each action keeps the last result recorded for it.
-/

set_option autoImplicit false

namespace Permanu.AdmissionSettlement
open ByteText JsonValue PlanText PlanSchema List Option Value
open PlanTrust (TrustStore validateTrust emptyTrust)
open PlanCrypto PlanVerify
open PlanAuthority ResultSteps TableRows StepRuns
open AdmissionStore AdmissionAdmit AdmissionWrite
open AdmissionReconcile AdmissionRun AdmissionSpecs
open AdmissionResults AdmissionRevocations
open AdmissionMarks

/-- Each rule the plan revokes has the state of its own action. -/
def SettledEach (store : Store) (planId : Str) : Prop :=
  ∀ e ∈ revocations store planId, ∃ r ∈ store.rules, r.ruleId = e.1 ∧
    (r.revokedAt ≠ none ↔ e.2 = some .succeeded) ∧
    (e.2 ≠ some .succeeded → r.revokedAt = none ∧ r.revokedPlanId = none)

instance (store : Store) (planId : Str) : Decidable (SettledEach store planId) :=
  inferInstanceAs (Decidable (∀ _ ∈ _, ∃ _ ∈ _, _ ∧ _ ∧ _))

def lastOutcome (planId : Str) (index : ℕ) (results : List Result) : Option Outcome :=
  results.foldl (fun last r => if r.planId = planId ∧ r.actionIndex = index then some r.outcome
    else last) none

theorem lastOutcome_concat (planId : Str) (index : ℕ) (results : List Result) (r : Result) :
    lastOutcome planId index (results ++ [r]) =
      if r.planId = planId ∧ r.actionIndex = index then some r.outcome
      else lastOutcome planId index results := by
  simp [lastOutcome]

theorem lastOutcome_mem (planId : Str) (index : ℕ) (results : List Result)
    (h : lastOutcome planId index results ≠ none) :
    ∃ r ∈ results, r.planId = planId ∧ r.actionIndex = index := by
  induction results using List.reverseRecOn with
  | nil => exact absurd rfl h
  | append_singleton results r ih =>
    rw [lastOutcome_concat] at h
    split_ifs at h with hr
    · exact ⟨r,by simp,hr⟩
    · obtain ⟨s,hs,hk⟩ := ih h
      exact ⟨s,by simp [hs],hk⟩

def Outcomes (store : Store) (planId : Str) (results : List Result) : Prop :=
  ∀ x ∈ store.actions, x.planId = planId → x.outcome = lastOutcome planId x.actionIndex results

theorem mem_of_ended {rows after : List ActionRow}
    (h : after.map ActionRow.ended = rows.map ActionRow.ended) {x : ActionRow} (hx : x ∈ after) :
    ∃ y ∈ rows, y.planId = x.planId ∧ y.actionIndex = x.actionIndex ∧ y.outcome = x.outcome := by
  obtain ⟨y,hy,heq⟩ := mem_of_core h hx
  simp only [ActionRow.ended, ActionRow.mk.injEq] at heq
  exact ⟨y,hy,heq.1,heq.2.1,heq.2.2.2.2.2.1⟩

theorem Outcomes.records {store after : Store} {results : List Result} {planId : Str}
    (h : Outcomes store planId []) (hr : Records store results after) :
    Outcomes after planId results := by
  induction hr with
  | start => exact h
  | idle _ hi ih =>
    intro x hx hp
    obtain ⟨y,hy,hplan,hindex,ho⟩ := mem_of_ended hi.outcomes hx
    rw [← ho, ← hindex]
    exact ih y hy (hplan.trans hp)
  | @result middle last earlier r _ hs ih =>
    intro x hx hp
    obtain ⟨z,hz,hplan,hindex,ho⟩ := mem_of_ended hs.outcomes hx
    obtain ⟨y,hy,rfl⟩ := (mem_updateWhere _ _).mp hz
    rw [lastOutcome_concat]
    by_cases ha : isAction r.planId r.actionIndex y = true
    · rw [if_pos ha] at hplan hindex ho
      have hkey := isAction_iff.mp ha
      simp only [ActionRow.key, Prod.mk.injEq] at hkey
      rw [if_pos ⟨hkey.1.symm.trans (hplan.trans hp),hkey.2.symm.trans hindex⟩]
      exact ho.symm
    · rw [if_neg ha] at hplan hindex ho
      rw [if_neg, ← ho, ← hindex]
      · exact ih y hy (hplan.trans hp)
      · rintro ⟨hrp,hri⟩
        apply ha
        rw [isAction_iff, ActionRow.key, hplan, hindex, hp, hrp, hri]

def ofPlan (store : Store) (planId : Str) (r : Result) : Bool :=
  r.planId == planId && ofRevoke store r

def Decided (first : Option Result) (planId : Str) (r : RuleRow) : Prop :=
  match first with
  | none => pendingFor planId r = true
  | some result =>
    if result.outcome = .succeeded then r.revokedAt ≠ none
    else r.revokedAt = none ∧ r.revokedPlanId = none

def Decides (first : Option Result) (planId : Str) (store : Store) : Prop :=
  ∀ e ∈ revocations store planId, ∃ r ∈ store.rules, r.ruleId = e.1 ∧ Decided first planId r

/-- A rule that was settled once is not pending for any plan. -/
theorem Decided.settled {planId : Str} {result : Result} {r : RuleRow}
    (h : Decided (some result) planId r) {other : Str} : pendingFor other r = false := by
  simp only [Decided] at h
  by_contra hp
  obtain ⟨hplan,hat⟩ := pendingFor_iff.mp (by simpa using hp)
  split_ifs at h
  · exact h hat
  · rw [h.2] at hplan
    cases hplan

theorem Kept.revocation_named {store after : Store} {planId : Str} {e : Str × Option Outcome}
    (h : Kept store after) (he : e ∈ revocations after planId) :
    ∃ outcome, (e.1, outcome) ∈ revocations store planId := by
  obtain ⟨x,hx,hp,hrule,_⟩ := mem_revocations.mp he
  obtain ⟨y,hy,hcore⟩ := mem_of_core h.actions hx
  refine ⟨y.outcome,mem_revocations.mpr ⟨y,hy,?_,?_,rfl⟩⟩
  · exact (show y.core.planId = x.core.planId by rw [hcore]).trans hp
  · rw [← hrule, AdmissionRevocations.Kept.revokedRule_eq h]
    exact show revokedRule store y.core = revokedRule store x.core by rw [hcore]

theorem Decides.idle {store after : Store} {planId : Str} {first : Option Result}
    (h : Decides first planId store) (hi : Idle store after) : Decides first planId after := by
  intro e he
  obtain ⟨outcome,hold⟩ := Kept.revocation_named hi.kept he
  rw [hi.rules]
  exact h (e.1, outcome) hold

/-- A result of the plan's revoking actions decides if none did before. -/
theorem Decided.settles {store after : Store} {planId : Str} {result : Result} {r : RuleRow}
    {first : Option Result} (hs : Settles store after result) (hr : r ∈ store.rules)
    (h : Decided first planId r) : ∃ s ∈ after.rules, s.ruleId = r.ruleId ∧
      Decided (first.or (if ofPlan store planId result then some result else none)) planId s := by
  obtain ⟨time,hrules⟩ := hs.rules
  change after.rules = if ofRevoke store result then
    settledRules result.planId result.outcome time store.rules else store.rules at hrules
  cases first with
  | some f =>
    refine ⟨r,?_,rfl,h⟩
    rw [hrules]
    split_ifs
    · exact settledRules_mem _ _ _ _ r hr h.settled
    · exact hr
  | none =>
    by_cases hrev : ofRevoke store result = true
    · rw [if_pos hrev] at hrules
      by_cases hp : result.planId = planId
      · have hof : ofPlan store planId result = true := by simp [ofPlan, hp, hrev]
        have hpend : pendingFor result.planId r = true := hp ▸ h
        obtain ⟨_,hat⟩ := pendingFor_iff.mp h
        rw [if_pos hof, hrules]
        by_cases ho : result.outcome = .succeeded
        · refine ⟨{ r with revokedAt := some time },?_,rfl,by simp [Decided, ho]⟩
          rw [settledRules, if_pos ho, mem_updateWhere]
          exact ⟨r,hr,(if_pos hpend).symm⟩
        · refine ⟨{ r with revokedPlanId := none },?_,rfl,by simp [Decided, ho, hat]⟩
          rw [settledRules, if_neg ho, mem_updateWhere]
          exact ⟨r,hr,(if_pos hpend).symm⟩
      · have hof : ¬ ofPlan store planId result = true := by simp [ofPlan, hp]
        rw [if_neg hof, hrules]
        exact ⟨r,(settledRules_other (Ne.symm hp) h).mpr hr,rfl,h⟩
    · have hof : ¬ ofPlan store planId result = true := by simp [ofPlan, hrev]
      rw [if_neg hrev] at hrules
      rw [if_neg hof, hrules]
      exact ⟨r,hr,rfl,h⟩

theorem Decides.records {store after : Store} {results : List Result} {planId : Str}
    (h : Decides none planId store) (hr : Records store results after) :
    Decides (results.find? (ofPlan store planId)) planId after := by
  induction hr with
  | start => exact h
  | idle _ hi ih => exact ih.idle hi
  | @result middle last earlier r hbefore hs ih =>
    intro e he
    obtain ⟨outcome,hold⟩ := Kept.revocation_named hs.kept he
    obtain ⟨row,hrow,hid,hd⟩ := ih _ hold
    obtain ⟨s,hm,hsid,hds⟩ := Decided.settles hs hrow hd
    have hsame : ofPlan middle planId r = ofPlan store planId r := by
      rw [ofPlan, ofPlan, AdmissionMarks.Kept.ofRevoke_eq hbefore.kept]
    refine ⟨s,hm,hsid.trans hid,?_⟩
    rw [find?_append, find?_singleton, ← hsame]
    exact hds

theorem Records.revoked_stays {store after : Store} {results : List Result} {r : RuleRow}
    (h : Records store results after) (hr : r ∈ store.rules) (hat : r.revokedAt ≠ none) :
    r ∈ after.rules := by
  induction h with
  | start => exact hr
  | idle _ hi ih => rwa [hi.rules]
  | result _ hs ih =>
    obtain ⟨time,hrules⟩ := hs.rules
    rw [hrules]
    split_ifs
    · refine settledRules_mem _ _ _ _ r ih ?_
      by_contra hp
      exact hat (pendingFor_iff.mp (by simpa using hp)).2
    · exact ih

theorem revoked_stays {r : RuleRow} (prim : Primitives) (alerts : AlertSpecs) {now : ℤ}
    {quarantine : Option ℤ} {ops : List Op} {later : List Op}
    (hr : r ∈ (storeAfter prim alerts now quarantine ops).rules) (hat : r.revokedAt ≠ none) :
    r ∈ (storeAfter prim alerts now quarantine (ops ++ later)).rules := by
  induction later using List.reverseRecOn with
  | nil => rwa [append_nil]
  | append_singleton later op ih =>
    have hrows := rows_reachable prim alerts now quarantine (ops ++ later)
    rw [← append_assoc, storeAfter_concat]
    rcases step_effect prim alerts op hrows.keyed with ⟨trust,input,v,rfl,ha⟩ | ⟨time,rfl⟩ | hrec
    · obtain ⟨_,_,_,hp,_⟩ :=
        revocations_recorded prim alerts now quarantine (ops ++ later) r ih hat
      exact (ruleEffects_effect _ ha.written.rules).stay r ih (by simp [hp])
    · simp only [step, expireWindows, expirePlans_rules]
      exact ih
    · exact Records.revoked_stays hrec ih hat

/-- No rule plan passes the checks with a rule that was revoked. -/
theorem revoked_refused {store : Store} {r : RuleRow} (prim : Primitives) (hrows : RuleRows store)
    (hr : r ∈ store.rules) (hat : r.revokedAt ≠ none) {trust : TrustStore} {input : AdmitInput}
    {invocation : Value} (hid : invocation["rule_id"]!.text = r.ruleId) {record : RuleRecord} :
    verifyRule prim invocation (txContext store trust input) ≠ .ok record := by
  intro h
  simp only [verifyRule, txContext, bind_ok, okOr_ok, ensure_ok, hid] at h
  obtain ⟨found,hfound,record',rfl,_,_,_,hlive,_⟩ := h
  simp [storedRule_revoked hrows hr hfound, isSome_iff_ne_none.mpr hat] at hlive

def firstRevoke (p : Value) (results : List Result) : Option Result :=
  results.find? fun r => r.planId == p["id"]!.text && isRevoking (p["actions"]!)[r.actionIndex]!

/-- Every revoking action of the plan ends with a success if the first of their results is
one, and without if it is not. -/
def FirstDecides (p : Value) (results : List Result) : Prop :=
  ∀ i < p["actions"]!.items.length, isRevoking (p["actions"]!)[i]! = true →
    (lastOutcome p["id"]!.text i results = some .succeeded ↔
      (firstRevoke p results).map Result.outcome = some .succeeded)

instance (p : Value) (results : List Result) : Decidable (FirstDecides p results) :=
  inferInstanceAs (Decidable (∀ i < _, _ → _))

theorem item_getElem? {i : ℕ} {v : Value} (h : isRevoking v[i]! = true) :
    v.items[i]? = some v[i]! := by
  cases hi : v.items[i]? with
  | some a => rw [item_of_getElem? hi]
  | none =>
    cases v with
    | array items =>
      have hnull : (array items)[i]! = .null := by
        change (items[i]?).getD .null = .null
        rw [show items[i]? = none from hi]
        rfl
      rw [hnull] at h
      cases h
    | _ => cases h

/-- The revoking actions of a new plan are those of its text. -/
theorem Written.ofPlan_eq (prim : Primitives) {store after : Store} {v : VerifiedPlan}
    {input : AdmitInput} {signatures : List Value} (hw : Written prim store v input after)
    (h : RuleRows store) (hp : parseEnvelope prim input.envelope = .ok (v.plan, signatures))
    (r : Result) :
    ofPlan after v.plan["id"]!.text r =
      (r.planId == v.plan["id"]!.text && isRevoking (v.plan["actions"]!)[r.actionIndex]!) := by
  have hvalid := validatePlan_actions (parseEnvelope_ok hp).1
  by_cases hplan : r.planId = v.plan["id"]!.text
  · rw [ofPlan, hplan, beq_self_eq_true, Bool.true_and, Bool.true_and, Bool.eq_iff_iff]
    constructor
    · intro hrev
      obtain ⟨x,hx,hk⟩ := (Option.any_eq_true _ _).mp hrev
      have ha : isAction r.planId r.actionIndex x = true := find?_some hx
      have hkey := isAction_iff.mp ha
      simp only [ActionRow.key, Prod.mk.injEq] at hkey
      have hmem : x ∈ after.actions := mem_of_find?_eq_some hx
      rw [hw.actions, mem_append] at hmem
      rcases hmem with hold | hnew
      · exact absurd (hkey.1.trans hplan) (Written.unowned hw h hold)
      · obtain ⟨a,ham,hat,hkind,_,_⟩ := mem_actionRows hvalid hnew
        obtain ⟨kind,hstr,_⟩ := actionOk_kind (hvalid a ham)
        rw [isRevoke, hkind, hstr] at hk
        rw [← hkey.2, hat, isRevoking, is_iff, hstr]
        exact congrArg string (beq_iff_eq.mp hk)
    · intro hrev
      obtain ⟨x,hx,hindex,hkind,hxp,_⟩ :=
        actionRows_at hvalid (item_getElem? hrev)
      have hmem : x ∈ after.actions := by
        rw [hw.actions]
        exact mem_append_right _ hx
      have ha : isAction r.planId r.actionIndex x = true := by
        rw [isAction_iff, ActionRow.key, hindex, hxp, hplan]
      have hk : isRevoke x = true := by
        rw [isRevoke, hkind, is_iff.mp hrev]
        exact beq_self_eq_true _
      rw [ofRevoke, Keyed.actionRow_eq (h.written hw hp).keyed hmem ha]
      exact hk
  · rw [ofPlan, beq_eq_false_iff_ne.mpr hplan, Bool.false_and, Bool.false_and]

/-- A plan just admitted marks the rules it revokes, and none of its actions has ended. -/
theorem Written.undecided (prim : Primitives) {store after : Store} {v : VerifiedPlan}
    {input : AdmitInput} {signatures : List Value} (hw : Written prim store v input after)
    (h : RuleRows store) (hp : parseEnvelope prim input.envelope = .ok (v.plan, signatures)) :
    Outcomes after v.plan["id"]!.text [] ∧ Decides none v.plan["id"]!.text after := by
  have hvalid := validatePlan_actions (parseEnvelope_ok hp).1
  constructor
  · intro x hx hplan
    rw [hw.actions, mem_append] at hx
    rcases hx with hold | hnew
    · exact absurd hplan (Written.unowned hw h hold)
    · obtain ⟨_,_,_,_,_,hnone⟩ := mem_actionRows hvalid hnew
      exact hnone
  · have hopen : ∀ e ∈ revocations after v.plan["id"]!.text, e.2 = none := by
      intro e he
      obtain ⟨_,_,_,_,hnone⟩ := (Written.revocations_new hw h hp).mp he
      exact hnone
    exact (Marks.written h (fun hne => absurd rfl hne) hw hp).whileOpen hopen

/-- Each revocation of the plan is the last result of one of its revoking actions. -/
theorem Written.revocation_at {results : List Result} {e : Str × Option Outcome} {last : Store}
    (prim : Primitives) {store after : Store} {v : VerifiedPlan} {input : AdmitInput}
    {signatures : List Value} (hw : Written prim store v input after) (h : RuleRows store)
    (hp : parseEnvelope prim input.envelope = .ok (v.plan, signatures)) (hk : Kept after last)
    (ho : Outcomes last v.plan["id"]!.text results) (he : e ∈ revocations last v.plan["id"]!.text) :
    ∃ i < v.plan["actions"]!.items.length, isRevoking (v.plan["actions"]!)[i]! = true ∧
      e.2 = lastOutcome v.plan["id"]!.text i results := by
  obtain ⟨x,hx,hplan,hrule,hout⟩ := mem_revocations.mp he
  have hrev : isRevoke x = true := by
    by_contra hnot
    rw [revokedRule, if_neg hnot] at hrule
    cases hrule
  have hof : ofPlan after v.plan["id"]!.text ⟨v.plan["id"]!.text,x.actionIndex,.failed⟩ = true := by
    obtain ⟨y,hy,hcore⟩ := mem_of_core hk.actions hx
    have hkey : ActionRow.key y = ActionRow.key x :=
      show ActionRow.key y.core = ActionRow.key x.core by rw [hcore]
    have ha : isAction v.plan["id"]!.text x.actionIndex y = true := by
      rw [isAction_iff, hkey, ActionRow.key, hplan]
    have hyr : isRevoke y = true :=
      (show isRevoke y.core = isRevoke x.core by rw [hcore]).trans hrev
    rw [ofPlan, ofRevoke, beq_self_eq_true, Bool.true_and,
      Keyed.actionRow_eq (h.written hw hp).keyed hy ha]
    exact hyr
  rw [Written.ofPlan_eq prim hw h hp, Bool.and_eq_true] at hof
  refine ⟨x.actionIndex,?_,hof.2,?_⟩
  · exact (List.getElem?_eq_some_iff.mp (item_getElem? hof.2)).1
  · rw [← hout]
    exact ho x hx hplan

/-- Each revoking action of the plan has its revocation. -/
theorem Written.revocation_of {results : List Result} {i : ℕ} {last : Store} (prim : Primitives)
    {store after : Store} {v : VerifiedPlan} {input : AdmitInput} {signatures : List Value}
    (hw : Written prim store v input after)
    (hp : parseEnvelope prim input.envelope = .ok (v.plan, signatures)) (hk : Kept after last)
    (hrows : RuleRows last) (ho : Outcomes last v.plan["id"]!.text results)
    (hrev : isRevoking (v.plan["actions"]!)[i]! = true) :
    ∃ e ∈ revocations last v.plan["id"]!.text,
      e.2 = lastOutcome v.plan["id"]!.text i results := by
  have hvalid := validatePlan_actions (parseEnvelope_ok hp).1
  obtain ⟨y,hy,hindex,hkind,hplan,_⟩ := actionRows_at hvalid (item_getElem? hrev)
  have hmem : y ∈ after.actions := by
    rw [hw.actions]
    exact mem_append_right _ hy
  obtain ⟨x,hx,hcore⟩ := mem_of_core hk.actions.symm hmem
  have hkey : ActionRow.key x = ActionRow.key y :=
    show ActionRow.key x.core = ActionRow.key y.core by rw [hcore]
  simp only [ActionRow.key, Prod.mk.injEq] at hkey
  have hxr : isRevoke x = true := by
    rw [show isRevoke x = isRevoke y from show isRevoke x.core = isRevoke y.core by rw [hcore],
      isRevoke, hkind, is_iff.mp hrev]
    exact beq_self_eq_true _
  obtain ⟨rule,hrule⟩ := isSome_iff_exists.mp (hrows.named x hx hxr)
  refine ⟨(rule, x.outcome),mem_revocations.mpr
    ⟨x,hx,hkey.1.trans hplan,hrule,rfl⟩,?_⟩
  rw [ho x hx (hkey.1.trans hplan), hkey.2, hindex]

/-- A run of results after an admission leaves each rule with the state of its own action
exactly if the first result of the revoking actions agrees with the last result of each.
Then a rule whose own revocation succeeded passes the checks of no later rule plan. -/
theorem revocations_settle_iff (prim : Primitives) (alerts : AlertSpecs) (now : ℤ)
    (quarantine : Option ℤ) (before : List Op) (trust : TrustStore) (input : AdmitInput)
    (v : VerifiedPlan)
    (ha : AdmittedAfter prim alerts now quarantine (before ++ [.admitPlan trust input]) before
      trust input v) (ops : List Op) (hops : ∀ op ∈ ops, isResultOp op = true) :
    let admitted := before ++ [.admitPlan trust input]
    let store := storeAfter prim alerts now quarantine (admitted ++ ops)
    let planId := v.plan["id"]!.text
    (∀ x ∈ store.actions, x.planId = planId → x.outcome ≠ none) →
    (SettledEach store planId ↔ FirstDecides v.plan
      (runResults prim alerts (storeAfter prim alerts now quarantine admitted) ops)) ∧
    (SettledEach store planId → ∀ e ∈ revocations store planId, e.2 = some .succeeded →
      ∀ later trust' input' invocation record, invocation["rule_id"]!.text = e.1 →
        verifyRule prim invocation (txContext
          (storeAfter prim alerts now quarantine (admitted ++ ops ++ later)) trust' input') ≠
          .ok record) := by
  intro admitted store planId hdone
  have hbefore := rows_reachable prim alerts now quarantine before
  have hrows : RuleRows store := rows_reachable prim alerts now quarantine (admitted ++ ops)
  have hstart := rows_reachable prim alerts now quarantine admitted
  have hw := ha.admits.written
  obtain ⟨signatures,hp⟩ := Admits.parsed prim alerts ha.admits
  obtain ⟨hout,hdec⟩ := Written.undecided prim hw hbefore hp
  have hrec : Records (storeAfter prim alerts now quarantine admitted)
      (runResults prim alerts (storeAfter prim alerts now quarantine admitted) ops) store := by
    have hrun := run_records prim alerts (storeAfter prim alerts now quarantine admitted)
      hstart.keyed hops
    rwa [storeAfter, ← run_append] at hrun
  generalize runResults prim alerts (storeAfter prim alerts now quarantine admitted) ops =
    results at hrec ⊢
  have hlast := hout.records hrec
  have hfirst := hdec.records hrec
  rw [show ofPlan (storeAfter prim alerts now quarantine admitted) v.plan["id"]!.text = _ from
    funext (Written.ofPlan_eq prim hw hbefore hp)] at hfirst
  change Decides (firstRevoke v.plan results) planId store at hfirst
  -- an action that has ended has a result, so the first one is known
  have hknown : ∀ i, isRevoking (v.plan["actions"]!)[i]! = true →
      lastOutcome planId i results ≠ none → ∃ first, firstRevoke v.plan results = some first := by
    intro i hrev hne
    obtain ⟨r,hr,hrp,hri⟩ := lastOutcome_mem _ _ _ hne
    rw [← isSome_iff_exists, firstRevoke, find?_isSome]
    exact ⟨r,hr,by rw [hrp, hri, hrev, beq_self_eq_true]; rfl⟩
  have hended : ∀ e ∈ revocations store planId, e.2 ≠ none := by
    intro e he
    obtain ⟨x,hx,hxp,_,hxo⟩ := mem_revocations.mp he
    exact hxo ▸ hdone x hx hxp
  refine ⟨⟨fun hsettled i _ hrev => ?_,fun hcond e he => ?_⟩,
    fun hsettled e he hsucc later trust' input' invocation record hid => ?_⟩
  · obtain ⟨e,he,heo⟩ := Written.revocation_of prim hw hp hrec.kept hrows hlast hrev
    obtain ⟨first,hf⟩ := hknown i hrev (heo ▸ hended e he)
    obtain ⟨r,hr,hrid,hdecided⟩ := hfirst e he
    obtain ⟨s,hs,hsid,hiff,_⟩ := hsettled e he
    obtain rfl := inj_on_of_nodup_map hrows.unique hr hs (hrid.trans hsid.symm)
    rw [← heo, ← hiff, hf, map_some, Option.some.injEq]
    simp only [hf, Decided] at hdecided
    split_ifs at hdecided with ho
    · exact ⟨fun _ => ho,fun _ => hdecided⟩
    · exact ⟨fun hat => absurd hdecided.1 hat,fun hsucc => absurd hsucc ho⟩
  · obtain ⟨i,hi,hrev,heo⟩ := Written.revocation_at prim hw hbefore hp hrec.kept hlast he
    obtain ⟨first,hf⟩ := hknown i hrev (heo ▸ hended e he)
    obtain ⟨r,hr,hrid,hdecided⟩ := hfirst e he
    have hagree := hcond i hi hrev
    rw [hf, map_some, Option.some.injEq, ← heo] at hagree
    refine ⟨r,hr,hrid,?_⟩
    simp only [hf, Decided] at hdecided
    split_ifs at hdecided with ho
    · have hsucc := hagree.mpr ho
      exact ⟨⟨fun _ => hsucc,fun _ => hdecided⟩,fun hne => absurd hsucc hne⟩
    · have hfail : e.2 ≠ some .succeeded := fun hsucc => ho (hagree.mp hsucc)
      exact ⟨⟨fun hat => absurd hdecided.1 hat,fun hsucc => absurd hsucc hfail⟩,fun _ => hdecided⟩
  · obtain ⟨r,hr,hrid,hiff,_⟩ := hsettled e he
    have hat := hiff.mpr hsucc
    exact revoked_refused prim (rows_reachable prim alerts now quarantine _)
      (revoked_stays prim alerts hr hat) hat (hid.trans hrid.symm)

def revokeBothPlan : Value := samplePlan 44 "JAAAAAAAAAAAAAAAAAAAAA" 3 []
  [sampleRevoke 50 firstRuleHash, sampleRevoke 51 secondRuleHash] false (hex createHead.val)

def revokeBothHash : Digest :=
  digestOfNat 0x1bbd2e119d10423e0be34f7841922fa7a65ed176ce996f9c9f5efe8415652bae

def revokeBothSignature : Str :=
  bigEndian 32 0xe37967e08c77b55ee5efe47902cffb199db8fc8be39bc4388bdf3f8e9d241fa3 ++
    bigEndian 32 0x12643991e246cfc409c7bf1e1d821daa578e10c70ee4fbd6aeaef96c2759f6dd

def revokeBothPrimitives : Primitives :=
  tablePrimitives [(ownerDer, ownerHash),
      (rulePrefix ++ canonicalBytes (sampleRule 50), firstRuleHash),
      (rulePrefix ++ canonicalBytes (sampleRule 51), secondRuleHash),
      (planPrefix ++ canonicalBytes createPlan, createPlanHash),
      (planPrefix ++ canonicalBytes revokeBothPlan, revokeBothHash),
      (headPreimage genesisHead createPlanHash, createHead),
      (headPreimage (hex createHead.val) revokeBothHash,
        digestOfNat 0xcdc442f665fa02b67c79c8fb0b081241f4053d130f9059f9feb203ca6961a6cc)]
    [ownerPoint] [(ownerPoint, createPlanHash, createSignature),
      (ownerPoint, revokeBothHash, revokeBothSignature)]

def revokeBothTrust : TrustStore :=
  okValue (validateTrust revokeBothPrimitives (trustDocument [ownerEntry]) .production) emptyTrust

def createOps : List Op := [.admitPlan revokeBothTrust
  (clientInput (sampleEnvelope createPlan ownerKeyId createSignature) [] 1767312300)]

def revokeBothInput : AdmitInput :=
  clientInput (sampleEnvelope revokeBothPlan ownerKeyId revokeBothSignature) [] 1767312360

def bothResults (first second : Outcome) : List Op :=
  [.finishAction (ident 44).text 0 first 1767312400,
    .finishAction (ident 44).text 1 second 1767312401]

def bothStore (first second : Outcome) : Store :=
  storeAfter revokeBothPrimitives noAlerts 1767312000 none
    (createOps ++ [.admitPlan revokeBothTrust revokeBothInput] ++ bothResults first second)

/-- The first revocation fails and the second succeeds: both marks are gone, and the rule
whose revocation succeeded is as it was before. -/
theorem second_revocation_lost :
    let store := bothStore .failed .succeeded
    revocations store (ident 44).text =
      [((ident 50).text, some .failed), ((ident 51).text, some .succeeded)] ∧
    ¬ SettledEach store (ident 44).text ∧
    ∀ r ∈ store.rules, r.revokedAt = none ∧ r.revokedPlanId = none := by
  decide +kernel

/-- Both revocations succeed, and both rules are revoked. -/
theorem both_revocations_settle :
    SettledEach (bothStore .succeeded .succeeded) revokeBothPlan["id"]!.text := by
  have hrun : isFresh (admitPlan revokeBothPrimitives noAlerts (storeAfter revokeBothPrimitives
        noAlerts 1767312000 none createOps) revokeBothTrust revokeBothInput) = true ∧
      (parseEnvelope revokeBothPrimitives revokeBothInput.envelope).toOption.map Prod.fst =
        some revokeBothPlan ∧
      (∀ x ∈ (bothStore .succeeded .succeeded).actions,
        x.planId = revokeBothPlan["id"]!.text → x.outcome ≠ none) ∧
      FirstDecides revokeBothPlan (runResults revokeBothPrimitives noAlerts
        (storeAfter revokeBothPrimitives noAlerts 1767312000 none
          (createOps ++ [.admitPlan revokeBothTrust revokeBothInput]))
        (bothResults .succeeded .succeeded)) := by
    decide +kernel
  obtain ⟨hfresh,hplan,hdone,hfirst⟩ := hrun
  obtain ⟨v,hv⟩ := admittedAfter_of_fresh hfresh
  have hp := AdmittedAfter.plan_eq revokeBothPrimitives noAlerts hv hplan
  have hsettle := revocations_settle_iff revokeBothPrimitives noAlerts 1767312000 none createOps
    revokeBothTrust revokeBothInput v hv (bothResults .succeeded .succeeded)
      (by simp [bothResults, isResultOp])
  rw [hp] at hsettle
  exact (hsettle hdone).1.mpr hfirst

end Permanu.AdmissionSettlement
