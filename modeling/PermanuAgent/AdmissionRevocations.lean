import PermanuAgent.AdmissionRules
import PermanuAgent.AdmissionResults

/-!
# The marks of a revocation

A plan that revokes a rule only marks it; the end of the revoking action
records the revocation or drops the mark. The mark names the plan, so what is
kept along a run is stated for each plan: while none of its revoking actions
has ended it marks exactly the rules they name, and from the first end on it
marks none.
-/

set_option autoImplicit false

namespace Permanu.AdmissionRevocations
open ByteText JsonValue PlanJcs PlanText PlanSchema List Option Prod Value
open PlanTrust (TrustStore)
open PlanActions PlanCrypto PlanVerify
open PlanAuthority ResultSteps TableRows
open AdmissionStore AdmissionAdmit AdmissionWrite
open AdmissionReconcile AdmissionRun AdmissionRules
open AdmissionResults

def namedRule (envelope : Str) (index : ℕ) : Option Str :=
  (parseStrict envelope maxSignedPlanBytes).bind fun e =>
    ((((e["plan"]!)["actions"]!)[index]!)["params"]!)["rule_id"]!.asStr

def revokedRule (store : Store) (x : ActionRow) : Option Str :=
  if isRevoke x then
    (store.admission x.planId).bind fun a => namedRule a.signedPlanJson x.actionIndex
  else none

def revocation (store : Store) (planId : Str) (x : ActionRow) : Option (Str × Option Outcome) :=
  if x.planId = planId then (revokedRule store x).map (·, x.outcome) else none

def revocations (store : Store) (planId : Str) : List (Str × Option Outcome) :=
  store.actions.filterMap (revocation store planId)

def pendingFor (planId : Str) (r : RuleRow) : Bool :=
  r.revokedPlanId == some planId && r.revokedAt.isNone

theorem pendingFor_iff {planId : Str} {r : RuleRow} :
    pendingFor planId r = true ↔ r.revokedPlanId = some planId ∧ r.revokedAt = none := by
  simp [pendingFor]

theorem mem_revocations {e : Str × Option Outcome} {store : Store} {planId : Str} :
    e ∈ revocations store planId ↔ ∃ x ∈ store.actions, x.planId = planId ∧
      revokedRule store x = some e.1 ∧ x.outcome = e.2 := by
  simp only [revocations, revocation, mem_filterMap]
  constructor
  · rintro ⟨x,hx,he⟩
    split_ifs at he with hp
    obtain ⟨rule,hr,rfl⟩ := map_eq_some_iff.mp he
    exact ⟨x,hx,hp,hr,rfl⟩
  · rintro ⟨x,hx,hp,hr,ho⟩
    exact ⟨x,hx,by rw [if_pos hp, hr, map_some, ho]⟩

theorem Kept.revokedRule_eq {store after : Store} (h : Kept store after) (x : ActionRow) :
    revokedRule after x = revokedRule store x := by
  have hsame := congrArg (fun text => text.bind fun text => namedRule text x.actionIndex)
    (find?_of_core h.admissions (fun a => decide (a.planId = x.planId)) AdmissionRow.signedPlanJson
      (fun _ => rfl) (fun _ => rfl))
  simp only [bind_map] at hsame
  exact congrArg (fun rule => if isRevoke x then rule else none) hsame

/-- The revocations are read off the actions with their outcomes. -/
theorem revocations_ended (store : Store) (planId : Str) :
    revocations store planId =
      (store.actions.map ActionRow.ended).filterMap (revocation store planId) := by
  rw [revocations, filterMap_map]
  rfl

theorem revocations_of_ended {store after : Store} (h : Kept store after) {rows : List ActionRow}
    (ho : after.actions.map ActionRow.ended = rows.map ActionRow.ended) {planId : Str} :
    revocations after planId = rows.filterMap (revocation store planId) := by
  have hsame : revocation after planId = revocation store planId := by
    funext x
    simp only [revocation, Kept.revokedRule_eq h]
  rw [revocations_ended, ho, hsame, filterMap_map]
  rfl

theorem Idle.revocations_eq {store after : Store} (h : Idle store after) {planId : Str} :
    revocations after planId = revocations store planId :=
  revocations_of_ended h.kept h.outcomes

theorem Settles.revocations_eq {store after : Store} {r : Result} (h : Settles store after r)
    (planId : Str) :
    revocations after planId = store.actions.filterMap fun x =>
      revocation store planId (if isAction r.planId r.actionIndex x then
        { x with outcome := some r.outcome } else x) := by
  rw [revocations_of_ended h.kept h.outcomes, updateWhere, filterMap_map]
  rfl

theorem Keyed.actionRow_eq {store : Store} (h : Keyed store) {planId : Str} {index : ℕ}
    {x : ActionRow} (hx : x ∈ store.actions) (ha : isAction planId index x = true) :
    Store.actionRow store planId index = some x := by
  cases hf : Store.actionRow store planId index with
  | none => exact absurd ha (by simpa using find?_eq_none.mp hf x hx)
  | some y => rw [h.eq (mem_of_find?_eq_some hf) hx (find?_some hf) ha]

/-- A result of another plan, or of an action that revokes nothing, ends no revocation. -/
theorem Settles.revocations_other {store after : Store} {r : Result} (h : Settles store after r)
    (hkeyed : Keyed store) {planId : Str} (hother : planId ≠ r.planId ∨
      (Store.actionRow store r.planId r.actionIndex).any isRevoke = false) :
    revocations after planId = revocations store planId := by
  rw [Settles.revocations_eq h planId, revocations]
  apply filterMap_congr
  intro x hx
  by_cases ha : isAction r.planId r.actionIndex x = true
  · rw [if_pos ha]
    have hplan : x.planId = r.planId := congrArg fst (isAction_iff.mp ha)
    rcases hother with hne | hnot
    · have hxp : x.planId ≠ planId := fun heq => hne (heq.symm.trans hplan)
      simp [revocation, hxp]
    · rw [Keyed.actionRow_eq hkeyed hx ha, any_some] at hnot
      have hended : isRevoke { x with outcome := some r.outcome } = false := hnot
      simp [revocation, revokedRule, hnot, hended]
  · rw [if_neg ha]

theorem mem_settledRules (planId : Str) (outcome : Outcome) (time : Str) (rules : List RuleRow)
    (r : RuleRow) (h : r ∈ settledRules planId outcome time rules) :
    ∃ s ∈ rules, s.ruleId = r.ruleId ∧
      (r = s ∧ pendingFor planId s = false ∨ pendingFor planId s = true ∧
        r = if outcome = .succeeded then { s with revokedAt := some time }
          else { s with revokedPlanId := none }) := by
  simp only [settledRules] at h
  split_ifs at h with ho
  all_goals
    obtain ⟨s,hs,rfl⟩ := (mem_updateWhere _ _).mp h
    by_cases hp : pendingFor planId s = true
    · have hp' := hp
      rw [pendingFor] at hp'
      refine ⟨s,hs,?_,.inr ⟨hp,?_⟩⟩
      · rw [if_pos hp']
      · simp [hp', ho]
    · have hp' := hp
      rw [pendingFor] at hp'
      exact ⟨s,hs,by rw [if_neg hp'],.inl ⟨by rw [if_neg hp'],by simpa using hp⟩⟩

theorem settledRules_mem (planId : Str) (outcome : Outcome) (time : Str) (rules : List RuleRow)
    (r : RuleRow) (h : r ∈ rules) (hp : pendingFor planId r = false) :
    r ∈ settledRules planId outcome time rules := by
  simp only [settledRules]
  split_ifs
  all_goals
    refine (mem_updateWhere _ _).mpr ⟨r,h,?_⟩
    rw [pendingFor] at hp
    simp [hp]

theorem settledRules_closed (planId : Str) (outcome : Outcome) (time : Str) (rules : List RuleRow)
    (r : RuleRow) (h : r ∈ settledRules planId outcome time rules) :
    pendingFor planId r = false := by
  obtain ⟨s,_,_,⟨rfl,hp⟩ | ⟨_,rfl⟩⟩ := mem_settledRules planId outcome time rules r h
  · exact hp
  · split_ifs <;> simp [pendingFor]

theorem settledRules_other {planId other : Str} (hne : other ≠ planId) {outcome : Outcome}
    {time : Str} {rules : List RuleRow} {r : RuleRow} (hp : pendingFor other r = true) :
    r ∈ settledRules planId outcome time rules ↔ r ∈ rules := by
  have hplan := pendingFor_iff.mp hp
  constructor
  · intro h
    obtain ⟨s,hs,_,⟨rfl,_⟩ | ⟨hps,rfl⟩⟩ := mem_settledRules planId outcome time rules r h
    · exact hs
    · by_cases ho : outcome = .succeeded <;> simp [ho] at hplan
  · intro h
    apply settledRules_mem planId outcome time rules r h
    simp [pendingFor, hplan.1, hne]

structure RuleRows (store : Store) : Prop where
  keyed : Keyed store
  owned : ∀ x ∈ store.actions, (store.admission x.planId).isSome = true
  named : ∀ x ∈ store.actions, isRevoke x = true → (revokedRule store x).isSome = true
  unique : (store.rules.map RuleRow.ruleId).Nodup
  marked : ∀ r ∈ store.rules, ∀ planId, r.revokedPlanId = some planId →
    ∃ outcome, (r.ruleId, outcome) ∈ revocations store planId

structure Marks (store : Store) (planId : Str) : Prop where
  whileOpen : (∀ e ∈ revocations store planId, e.2 = none) → ∀ e ∈ revocations store planId,
    ∃ r ∈ store.rules, r.ruleId = e.1 ∧ pendingFor planId r = true
  onceEnded : (∃ e ∈ revocations store planId, e.2 ≠ none) →
    ∀ r ∈ store.rules, pendingFor planId r = false

theorem Marks.of_eq {store after : Store} {planId : Str} (h : Marks store planId)
    (hr : revocations after planId = revocations store planId)
    (hrules : ∀ r, pendingFor planId r = true → (r ∈ after.rules ↔ r ∈ store.rules)) :
    Marks after planId := by
  refine ⟨fun hopen e he => ?_,fun hended r hm => ?_⟩
  · rw [hr] at hopen he
    obtain ⟨r,hm,hid,hp⟩ := h.whileOpen hopen e he
    exact ⟨r,(hrules r hp).mpr hm,hid,hp⟩
  · rw [hr] at hended
    by_contra hp
    have hp : pendingFor planId r = true := by simpa using hp
    simp [h.onceEnded hended r ((hrules r hp).mp hm)] at hp

theorem Marks.idle {store after : Store} {planId : Str} (h : Marks store planId)
    (hi : Idle store after) : Marks after planId :=
  h.of_eq (Idle.revocations_eq hi) (fun r _ => by rw [hi.rules])

/-- The end of a revoking action is the end of the plan's marks. -/
theorem Settles.ended {store after : Store} {r : Result} (h : Settles store after r)
    (hrows : RuleRows store)
    (hrevoke : (Store.actionRow store r.planId r.actionIndex).any isRevoke = true) :
    (∃ e ∈ revocations after r.planId, e.2 ≠ none) ∧
      ∀ s ∈ after.rules, pendingFor r.planId s = false := by
  obtain ⟨time,hrules⟩ := h.rules
  obtain ⟨x,hx,hk⟩ := (Option.any_eq_true _ _).mp hrevoke
  have hmem := mem_of_find?_eq_some hx
  have ha : isAction r.planId r.actionIndex x = true := find?_some hx
  have hplan : x.planId = r.planId := congrArg fst (isAction_iff.mp ha)
  obtain ⟨rule,hrule⟩ := isSome_iff_exists.mp (hrows.named x hmem hk)
  refine ⟨⟨(rule, some r.outcome),?_,by simp⟩,fun s hs => ?_⟩
  · rw [Settles.revocations_eq h, mem_filterMap]
    refine ⟨x,hmem,?_⟩
    have hended : revokedRule store { x with outcome := some r.outcome } = some rule := hrule
    rw [if_pos ha, revocation, if_pos hplan, hended]
    rfl
  · rw [hrules, if_pos hrevoke] at hs
    exact settledRules_closed _ _ _ _ s hs

theorem Marks.settles {store after : Store} {r : Result} {planId : Str} (h : Marks store planId)
    (hrows : RuleRows store) (hs : Settles store after r) : Marks after planId := by
  by_cases hrevoke : (Store.actionRow store r.planId r.actionIndex).any isRevoke = true
  · by_cases hp : planId = r.planId
    · subst hp
      obtain ⟨⟨e,he,hne⟩,hclosed⟩ := Settles.ended hs hrows hrevoke
      exact ⟨fun hopen => absurd (hopen e he) hne,fun _ => hclosed⟩
    · refine h.of_eq (Settles.revocations_other hs hrows.keyed (.inl hp)) (fun s hps => ?_)
      obtain ⟨time,hrules⟩ := hs.rules
      rw [hrules, if_pos hrevoke]
      exact settledRules_other hp hps
  · obtain ⟨time,hrules⟩ := hs.rules
    rw [if_neg hrevoke] at hrules
    exact h.of_eq (Settles.revocations_other hs hrows.keyed (.inr (by simpa using hrevoke)))
      (fun s _ => by rw [hrules])

def MarksFrom (store after : Store) : Prop :=
  ∀ r ∈ after.rules, ∀ planId, r.revokedPlanId = some planId →
    ∃ s ∈ store.rules, s.ruleId = r.ruleId ∧ s.revokedPlanId = some planId

theorem RuleRows.kept {store after : Store} (h : RuleRows store) (hk : Kept store after)
    (hm : MarksFrom store after) :
    RuleRows after := by
  have hids : after.rules.map RuleRow.ruleId = store.rules.map RuleRow.ruleId :=
    map_of_core RuleRow.core RuleRow.ruleId (fun _ => rfl) hk.rules
  have hfound : ∀ planId, (after.admission planId).isSome = (store.admission planId).isSome := by
    intro planId
    simpa only [isSome_map, Store.admission, rowOf] using congrArg isSome
      (find?_of_core hk.admissions (fun a => decide (a.planId = planId))
      AdmissionRow.planId (fun _ => rfl) (fun _ => rfl))
  refine ⟨h.keyed.kept hk,fun x hx => ?_,fun x hx hrev => ?_,hids ▸ h.unique,fun r hr p hp => ?_⟩
  · obtain ⟨y,hy,hcore⟩ := mem_of_core hk.actions hx
    have hplan : y.planId = x.planId := show y.core.planId = x.core.planId by rw [hcore]
    rw [hfound, ← hplan]
    exact h.owned y hy
  · obtain ⟨y,hy,hcore⟩ := mem_of_core hk.actions hx
    have hsame : revokedRule store x = revokedRule store y :=
      show revokedRule store x.core = revokedRule store y.core by rw [hcore]
    have hkind : isRevoke y = isRevoke x := show isRevoke y.core = isRevoke x.core by rw [hcore]
    rw [Kept.revokedRule_eq hk, hsame]
    exact h.named y hy (hkind ▸ hrev)
  · obtain ⟨s,hs,hid,hsp⟩ := hm r hr p hp
    obtain ⟨outcome,he⟩ := h.marked s hs p hsp
    obtain ⟨y,hy,hyp,hyr,_⟩ := mem_revocations.mp he
    obtain ⟨x,hx,hcore⟩ := mem_of_core hk.actions.symm hy
    refine ⟨x.outcome,mem_revocations.mpr ⟨x,hx,?_,?_,rfl⟩⟩
    · exact (show x.core.planId = y.core.planId by rw [hcore]).trans hyp
    · rw [Kept.revokedRule_eq hk, ← hid, ← hyr]
      exact show revokedRule store x.core = revokedRule store y.core by rw [hcore]

theorem Idle.marksFrom {store after : Store} (h : Idle store after) : MarksFrom store after := by
  intro r hr p hp
  rw [h.rules] at hr
  exact ⟨r,hr,rfl,hp⟩

theorem Settles.marksFrom {store after : Store} {r : Result} (h : Settles store after r) :
    MarksFrom store after := by
  intro s hs p hp
  obtain ⟨time,hrules⟩ := h.rules
  rw [hrules] at hs
  split_ifs at hs
  · obtain ⟨t,ht,hid,⟨rfl,_⟩ | ⟨hpt,rfl⟩⟩ := mem_settledRules _ _ _ _ s hs
    · exact ⟨s,ht,rfl,hp⟩
    · refine ⟨t,ht,hid,?_⟩
      by_cases ho : r.outcome = .succeeded
      · simpa [ho] using hp
      · simp [ho] at hp
  · exact ⟨s,hs,rfl,hp⟩

theorem Records.rows {store after : Store} {results : List Result} (h : Records store results after)
    (hrows : RuleRows store) : RuleRows after := by
  induction h with
  | start => exact hrows
  | idle _ hi ih => exact ih.kept hi.kept (Idle.marksFrom hi)
  | result _ hs ih => exact ih.kept hs.kept (Settles.marksFrom hs)

theorem Records.marks {store after : Store} {planId : Str} {results : List Result}
    (h : Records store results after) (hrows : RuleRows store) (hm : Marks store planId) :
    Marks after planId := by
  induction h with
  | start => exact hm
  | idle _ hi ih => exact ih.idle hi
  | result hbefore hs ih => exact ih.settles (Records.rows hbefore hrows) hs

def isRevoking (action : Value) : Bool := action["kind"]!.is "rule.revoke"

structure RuleEffect (v : VerifiedPlan) (actions : List Value) (rules after : List RuleRow) :
    Prop where
  stay : ∀ r ∈ rules, r.revokedPlanId ≠ none → r ∈ after
  origin : ∀ r ∈ after, ∀ planId, r.revokedPlanId = some planId → r ∈ rules ∨
    planId = v.plan["id"]!.text ∧ ∃ a ∈ actions, isRevoking a = true ∧
      (a["params"]!)["rule_id"]!.text = r.ruleId
  marked : ∀ a ∈ actions, isRevoking a = true → ∃ r ∈ after,
    r.ruleId = (a["params"]!)["rule_id"]!.text ∧ pendingFor v.plan["id"]!.text r = true
  recorded : ∀ r ∈ after, r.revokedAt ≠ none → r ∈ rules
  unique : (rules.map RuleRow.ruleId).Nodup → (after.map RuleRow.ruleId).Nodup

theorem ruleEffect_effect {prim : Primitives} {action : Value} {v : VerifiedPlan}
    {rules after : List RuleRow} (h : ruleEffect prim v action rules = .ok after) :
    RuleEffect v [action] rules after := by
  simp only [ruleEffect] at h
  split_ifs at h with hc hr
  · have hnot : isRevoking action = false := by
      rw [isRevoking, is_iff.mp hc]
      decide
    simp only [createRule, bind_ok, okOr_ok] at h
    obtain ⟨text,_,creator,_,hins⟩ := h
    obtain ⟨hfresh,rfl⟩ := (insertNew_eq_some _).mp hins
    refine ⟨fun r hm _ => by simp [hm],fun r hm planId hp => ?_,by simp [hnot],fun r hm hp => ?_,
      fun hn => ?_⟩
    · rcases mem_append.mp hm with hm | hm
      · exact .inl hm
      · rw [mem_singleton.mp hm] at hp
        cases hp
    · rcases mem_append.mp hm with hm | hm
      · exact hm
      · rw [mem_singleton.mp hm] at hp
        exact absurd rfl hp
    · rw [map_append, nodup_append]
      refine ⟨hn,by simp,?_⟩
      rintro id hid _ hnew rfl
      obtain ⟨r,hm,rfl⟩ := mem_map.mp hid
      have hold := hfresh r hm
      simp only [map_cons, map_nil, mem_singleton] at hnew
      simp [hnew] at hold
  · simp only [markRevoked, bind_ok, ensure_ok, pure_ok, beq_iff_eq] at h
    obtain ⟨_,hcount,rfl⟩ := h
    refine ⟨fun r hm hp => ?_,fun r hm planId hp => ?_,fun a ha _ => ?_,fun r hm hp => ?_,
      fun hn => ?_⟩
    · refine (mem_updateWhere _ _).mpr ⟨r,hm,?_⟩
      have hnone : r.revokedPlanId.isNone = false := by
        simpa [isSome_iff_ne_none] using hp
      simp [revocable, hnone]
    · obtain ⟨s,hs,rfl⟩ := (mem_updateWhere _ _).mp hm
      split_ifs at hp ⊢ with hrev
      · simp only [revocable, Bool.and_eq_true, beq_iff_eq] at hrev
        exact .inr ⟨(Option.some.inj hp).symm,action,by simp,hr,hrev.1.1.1.symm⟩
      · exact .inl hs
    · obtain rfl := mem_singleton.mp ha
      obtain ⟨s,hs,hrev⟩ := countP_pos_iff.mp (hcount ▸ Nat.one_pos)
      refine ⟨_,(mem_updateWhere _ _).mpr ⟨s,hs,rfl⟩,?_⟩
      rw [if_pos hrev]
      simp only [revocable, Bool.and_eq_true, beq_iff_eq] at hrev
      exact ⟨hrev.1.1.1,by simp [pendingFor, hrev.1.2]⟩
    · obtain ⟨s,hs,rfl⟩ := (mem_updateWhere _ _).mp hm
      split_ifs at hp ⊢ with hrev
      · simp only [revocable, Bool.and_eq_true, isNone_iff_eq_none] at hrev
        exact absurd hrev.1.2 hp
      · exact hs
    · rwa [map_updateWhere _ _ _ (by intro _; rfl)]
  · cases h
    have hnot : isRevoking action = false := by simpa [isRevoking] using hr
    exact ⟨fun r hm _ => hm,fun r hm _ _ => .inl hm,by simp [hnot],fun r hm _ => hm,id⟩

theorem ruleEffects_effect {prim : Primitives} {v : VerifiedPlan} {actions : List Value}
    {after : List RuleRow} (rules : List RuleRow)
    (h : ruleEffects prim v actions rules = .ok after) : RuleEffect v actions rules after := by
  induction actions generalizing rules with
  | nil =>
    cases h
    exact ⟨fun r hm _ => hm,fun r hm _ _ => .inl hm,by simp,fun r hm _ => hm,id⟩
  | cons action rest ih =>
    simp only [ruleEffects, bind_ok] at h
    obtain ⟨next,hn,h⟩ := h
    have hone := ruleEffect_effect hn
    have hrest := ih next h
    refine ⟨fun r hm hp => hrest.stay r (hone.stay r hm hp) hp,fun r hm planId hp => ?_,?_,
      fun r hm hp => hone.recorded r (hrest.recorded r hm hp) hp,
      fun hnodup => hrest.unique (hone.unique hnodup)⟩
    · rcases hrest.origin r hm planId hp with hm | ⟨hplan,a,ha,hrev⟩
      · rcases hone.origin r hm planId hp with hm | ⟨hplan,a,ha,hrev⟩
        · exact .inl hm
        · exact .inr ⟨hplan,a,by simp [mem_singleton.mp ha],hrev⟩
      · exact .inr ⟨hplan,a,by simp [ha],hrev⟩
    · refine forall_mem_cons.2 ⟨fun hrev => ?_,hrest.marked⟩
      obtain ⟨r,hm,hid,hp⟩ := hone.marked action (by simp) hrev
      have hplan := (pendingFor_iff.mp hp).1
      exact ⟨r,hrest.stay r hm (by simp [hplan]),hid,hp⟩

theorem kindsOf_eq {p : Value} (h : ∀ action ∈ p["actions"]!.items, actionOk action = true) :
    kindsOf p = p["actions"]!.items.map fun a => a["kind"]!.text := by
  rw [kindsOf]
  generalize p["actions"]!.items = items at h
  induction items with
  | nil => rfl
  | cons action rest ih =>
    obtain ⟨kind,hk,_⟩ := actionOk_kind (h action (by simp))
    rw [filterMap_cons, map_cons, ih (fun a ha => h a (by simp [ha])), hk]
    rfl

theorem item_of_getElem? {a : Value} {i : ℕ} {v : Value} (h : v.items[i]? = some a) :
    v[i]! = a := by
  cases v with
  | array items =>
    change (items[i]?).getD .null = a
    rw [show items[i]? = some a from h]
    rfl
  | _ => simp [items, asArray] at h

theorem mem_actionRows {p : Value} {x : ActionRow}
    (h : ∀ action ∈ p["actions"]!.items, actionOk action = true) (hx : x ∈ actionRows p) :
    ∃ a ∈ p["actions"]!.items,
      (p["actions"]!)[x.actionIndex]! = a ∧ x.kind = a["kind"]!.text ∧
      x.planId = p["id"]!.text ∧ x.outcome = none := by
  rw [actionRows, kindsOf_eq h, mem_mapIdx] at hx
  obtain ⟨i,hi,rfl⟩ := hx
  rw [length_map] at hi
  refine ⟨p["actions"]!.items.get ⟨i,hi⟩,get_mem _ _,?_,by simp,rfl,rfl⟩
  exact item_of_getElem? (by simp)

theorem actionRows_at {a : Value} {i : ℕ} {p : Value}
    (h : ∀ action ∈ p["actions"]!.items, actionOk action = true)
    (hi : p["actions"]!.items[i]? = some a) : ∃ x ∈ actionRows p,
      x.actionIndex = i ∧ x.kind = a["kind"]!.text ∧ x.planId = p["id"]!.text ∧
      x.outcome = none := by
  have hlt : i < (kindsOf p).length := by
    rw [kindsOf_eq h, length_map]
    exact (List.getElem?_eq_some_iff.mp hi).1
  refine ⟨_,mem_mapIdx.mpr ⟨i,hlt,rfl⟩,rfl,?_,rfl,rfl⟩
  have hkind : (kindsOf p)[i]? = some a["kind"]!.text := by
    rw [kindsOf_eq h, getElem?_map, hi]
    rfl
  exact (List.getElem?_eq_some_iff.mp hkind).2

theorem actionRows_planId {p : Value} : ∀ x ∈ actionRows p, x.planId = p["id"]!.text := by
  intro x hx
  obtain ⟨i,hi,rfl⟩ := mem_mapIdx.mp hx
  rfl

theorem actionRows_keyed (p : Value) : ((actionRows p).map ActionRow.key).Nodup := by
  rw [List.Nodup, pairwise_iff_getElem]
  intro i j hi hj hij heq
  simp only [getElem_map, actionRows, getElem_mapIdx, ActionRow.key, mk.injEq] at heq
  omega

/-- The rule a revoking action names, as its row reads it back. -/
theorem revoking_rule {action : Value} (hok : actionOk action = true)
    (hr : isRevoking action = true) :
    ∃ ruleId, (action["params"]!)["rule_id"]! = .string ruleId := by
  have hcheck := actionOk_param "rule_id" uuid7 hok
    (is_iff.mp hr) (fun _ => rfl) rfl (by simp)
  obtain ⟨ruleId,h,_⟩ := check_pattern _ hcheck
  exact ⟨ruleId,h⟩

/-- The rows of the new plan revoke what its actions name. -/
theorem Written.revokedRule_new {prim : Primitives} {x : ActionRow} {store after : Store}
    {v : VerifiedPlan} {input : AdmitInput} {signatures : List Value}
    (hw : Written prim store v input after)
    (hp : parseEnvelope prim input.envelope = .ok (v.plan, signatures))
    (hx : x ∈ actionRows v.plan) :
    revokedRule after x = if isRevoke x then
      (((v.plan["actions"]!)[x.actionIndex]!)["params"]!)["rule_id"]!.asStr else none := by
  obtain ⟨envelope,hparse,henv⟩ := (parseEnvelope_ok hp).2.2
  rw [revokedRule, actionRows_planId x hx, Written.admission_new prim hw]
  simp only [bind_some, admissionRow, namedRule, hparse, henv]

theorem Written.revokedRule_old {prim : Primitives} {x : ActionRow} {store after : Store}
    {v : VerifiedPlan} {input : AdmitInput} (hw : Written prim store v input after)
    (hx : (store.admission x.planId).isSome = true) :
    revokedRule after x = revokedRule store x := by
  obtain ⟨a,ha⟩ := isSome_iff_exists.mp hx
  rw [revokedRule, revokedRule, ha, Written.admission_old prim hw ha]

theorem Written.unowned {prim : Primitives} {x : ActionRow} {store after : Store} {v : VerifiedPlan}
    {input : AdmitInput} (hw : Written prim store v input after) (h : RuleRows store)
    (hx : x ∈ store.actions) : x.planId ≠ v.plan["id"]!.text := by
  intro heq
  obtain ⟨a,ha⟩ := isSome_iff_exists.mp (h.owned x hx)
  obtain ⟨hmem,hkey⟩ := rowOf_some _ ha
  exact (hw.fresh a hmem).1 (hkey.trans heq)

theorem Written.revocations_new {e : Str × Option Outcome} {prim : Primitives} {store after : Store}
    {v : VerifiedPlan} {input : AdmitInput} {signatures : List Value}
    (hw : Written prim store v input after) (h : RuleRows store)
    (hp : parseEnvelope prim input.envelope = .ok (v.plan, signatures)) :
    e ∈ revocations after v.plan["id"]!.text ↔
      ∃ a ∈ v.plan["actions"]!.items, isRevoking a = true ∧
        (a["params"]!)["rule_id"]! = .string e.1 ∧ e.2 = none := by
  have hvalid := validatePlan_actions (parseEnvelope_ok hp).1
  rw [mem_revocations]
  constructor
  · rintro ⟨x,hx,hplan,hrule,ho⟩
    rw [hw.actions, mem_append] at hx
    rcases hx with hx | hx
    · exact absurd hplan (Written.unowned hw h hx)
    · obtain ⟨a,ha,hat,hkind,_,hnone⟩ := mem_actionRows hvalid hx
      rw [Written.revokedRule_new hw hp hx, hat] at hrule
      split_ifs at hrule with hrev
      refine ⟨a,ha,?_,asStr_eq_some.mp hrule,ho.symm.trans hnone⟩
      obtain ⟨kind,hk,_⟩ := actionOk_kind (hvalid a ha)
      rw [isRevoke, hkind, hk] at hrev
      rw [isRevoking, is_iff, hk]
      exact congrArg string (beq_iff_eq.mp hrev)
  · rintro ⟨a,ha,hrev,hrule,ho⟩
    obtain ⟨i,hi⟩ := mem_iff_getElem?.mp ha
    obtain ⟨x,hx,hindex,hkind,hplan,hnone⟩ := actionRows_at hvalid hi
    have hat : (v.plan["actions"]!)[x.actionIndex]! = a := by
      rw [hindex]
      exact item_of_getElem? hi
    refine ⟨x,by rw [hw.actions]; exact mem_append_right _ hx,hplan,?_,hnone.trans ho.symm⟩
    have hx' : isRevoke x = true := by
      rw [isRevoke, hkind, is_iff.mp hrev]
      exact beq_self_eq_true _
    rw [Written.revokedRule_new hw hp hx, if_pos hx', hat, hrule]
    rfl

theorem Written.revocations_old {planId : Str} {prim : Primitives} {store after : Store}
    {v : VerifiedPlan} {input : AdmitInput} (hw : Written prim store v input after)
    (h : RuleRows store) (hne : planId ≠ v.plan["id"]!.text) :
    revocations after planId = revocations store planId := by
  rw [revocations, hw.actions, filterMap_append]
  have hnew : (actionRows v.plan).filterMap (revocation after planId) = [] := by
    rw [filterMap_eq_nil_iff]
    intro x hx
    rw [revocation, if_neg (fun heq => hne (heq.symm.trans (actionRows_planId x hx)))]
  rw [hnew, append_nil, revocations]
  apply filterMap_congr
  intro x hx
  simp only [revocation, Written.revokedRule_old hw (h.owned x hx)]

theorem RuleRows.written {prim : Primitives} {store after : Store} {v : VerifiedPlan}
    {input : AdmitInput} {signatures : List Value} (h : RuleRows store)
    (hw : Written prim store v input after)
    (hp : parseEnvelope prim input.envelope = .ok (v.plan, signatures)) : RuleRows after := by
  have hvalid := validatePlan_actions (parseEnvelope_ok hp).1
  have heffect := ruleEffects_effect _ hw.rules
  refine ⟨?_,fun x hx => ?_,fun x hx hrev => ?_,heffect.unique h.unique,fun r hr planId hm => ?_⟩
  · rw [Keyed, hw.actions, map_append, nodup_append]
    refine ⟨h.keyed,actionRows_keyed v.plan,?_⟩
    rintro _ hk _ hk' rfl
    obtain ⟨x,hx,rfl⟩ := mem_map.mp hk
    obtain ⟨y,hy,heq⟩ := mem_map.mp hk'
    exact Written.unowned hw h hx ((congrArg fst heq).symm.trans (actionRows_planId y hy))
  · rw [hw.actions, mem_append] at hx
    rcases hx with hx | hx
    · obtain ⟨a,ha⟩ := isSome_iff_exists.mp (h.owned x hx)
      rw [Written.admission_old prim hw ha]
      rfl
    · rw [actionRows_planId x hx, Written.admission_new prim hw]
      rfl
  · rw [hw.actions, mem_append] at hx
    rcases hx with hx | hx
    · rw [Written.revokedRule_old hw (h.owned x hx)]
      exact h.named x hx hrev
    · obtain ⟨a,ha,hat,hkind,_,_⟩ := mem_actionRows hvalid hx
      rw [Written.revokedRule_new hw hp hx, if_pos hrev, hat]
      obtain ⟨kind,hk,_⟩ := actionOk_kind (hvalid a ha)
      rw [isRevoke, hkind, hk] at hrev
      obtain ⟨ruleId,hrule⟩ := revoking_rule (hvalid a ha)
        (is_iff.mpr (hk.trans (congrArg string (beq_iff_eq.mp hrev))))
      rw [hrule]
      rfl
  · rcases heffect.origin r hr planId hm with hold | ⟨rfl,a,ha,hrev,hid⟩
    · obtain ⟨outcome,he⟩ := h.marked r hold planId hm
      have hne : planId ≠ v.plan["id"]!.text := by
        rintro rfl
        obtain ⟨x,hx,hplan,_⟩ := mem_revocations.mp he
        exact Written.unowned hw h hx hplan
      exact ⟨outcome,by rwa [Written.revocations_old hw h hne]⟩
    · obtain ⟨ruleId,hrule⟩ := revoking_rule (hvalid a ha) hrev
      refine ⟨none,(Written.revocations_new hw h hp).mpr ⟨a,ha,hrev,?_,rfl⟩⟩
      rw [hrule] at hid ⊢
      exact congrArg string hid

/-- A new plan marks the rules it revokes, and leaves the marks of the others. -/
theorem Marks.written {planId : Str} {prim : Primitives} {store after : Store} {v : VerifiedPlan}
    {input : AdmitInput} {signatures : List Value} (hrows : RuleRows store)
    (h : planId ≠ v.plan["id"]!.text → Marks store planId) (hw : Written prim store v input after)
    (hp : parseEnvelope prim input.envelope = .ok (v.plan, signatures)) : Marks after planId := by
  have heffect := ruleEffects_effect _ hw.rules
  by_cases hplan : planId = v.plan["id"]!.text
  · subst hplan
    refine ⟨fun _ e he => ?_,fun ⟨e,he,hne⟩ => ?_⟩
    · obtain ⟨a,ha,hrev,hrule,_⟩ := (Written.revocations_new hw hrows hp).mp he
      obtain ⟨r,hr,hid,hpend⟩ := heffect.marked a ha hrev
      exact ⟨r,hr,by rw [hid, hrule]; rfl,hpend⟩
    · obtain ⟨_,_,_,_,hnone⟩ := (Written.revocations_new hw hrows hp).mp he
      exact absurd hnone hne
  · refine (h hplan).of_eq (Written.revocations_old hw hrows hplan) (fun r hpend => ?_)
    have hmark := (pendingFor_iff.mp hpend).1
    constructor
    · intro hr
      rcases heffect.origin r hr planId hmark with hold | ⟨heq,_⟩
      · exact hold
      · exact absurd heq hplan
    · exact fun hr => heffect.stay r hr (by simp [hmark])

end Permanu.AdmissionRevocations
