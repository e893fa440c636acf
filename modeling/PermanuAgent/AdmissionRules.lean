import PermanuAgent.AdmissionSpecs
import PermanuAgent.JsonRoundTrip

/-!
# The stored rules

A rule is stored as the canonical text of the value its plan created, and every
later check reads it back from that text. In every reachable store what is read
is a rule that passed the schema.
-/

set_option autoImplicit false

namespace Permanu.AdmissionRules
open ByteText JsonValue PlanJcs PlanSchema PlanActions List Option
open PlanCrypto PlanVerify PlanAuthority
open ResultSteps TableRows JsonOrder JsonRoundTrip
open AdmissionStore AdmissionAdmit AdmissionWrite AdmissionRun

variable (prim : Primitives) (alerts : AlertSpecs)

/-- A parameter of an action whose kind has fixed parameters only. -/
theorem actionOk_param {action : Value} {kind : String} (name : String) {fields : Fields}
    (shape : Shape) (hok : actionOk action = true) (hk : action["kind"]! = .string (str kind))
    (hf : ∀ params, paramsOf (str kind) params = some fields)
    (ho : optionalParamsFor (str kind) = []) (hm : (name,shape) ∈ fields) :
    check shape (action["params"]!)[name]! = true := by
  obtain ⟨kind',hk',hp⟩ := actionOk_kind hok
  obtain rfl : str kind = kind' := Value.string.inj (hk.symm.trans hk')
  cases hget : action.get? (str "params") with
  | none => simp [paramsOk, hget, hf] at hp
  | some params =>
    have hparams : action["params"]! = params := by simp [Value.getElem_text, Value.get, hget]
    simp only [paramsOk, hget, hf, ho, withoutOptional, foldl_nil, Bool.and_eq_true] at hp
    rw [hparams]
    exact check_field name shape hp.2 hm

variable {ruleId text : Str} {action p : Value} {actions signatures : List Value}
  {old row : RuleRow} {v : VerifiedPlan} {after rules : List RuleRow} {now : ℤ}
  {quarantine : Option ℤ} {ops : List Op} {record : RuleRecord}

theorem parseEnvelope_ordered
    (h : parseEnvelope prim text = .ok (p, signatures)) : Ordered p ∧ depth p < 128 := by
  simp only [parseEnvelope] at h
  split at h
  · cases h
  · rename_i envelope henv
    split_ifs at h
    split at h
    · cases h
    · split_ifs at h
      obtain ⟨rfl,_⟩ := Prod.mk.inj (Except.ok.inj h)
      obtain ⟨ho,hd⟩ := parseStrict_ordered henv
      obtain ⟨hp,hle⟩ := ho.get
      exact ⟨hp,hle.trans_lt hd⟩

structure CreatedRule (rule : Value) : Prop where
  valid : standingRule rule = true
  ordered : Ordered rule
  shallow : depth rule < 128

theorem createdRule
    (h : parseEnvelope prim text = .ok (p, signatures)) (hm : action ∈ p["actions"]!.items)
    (hk : action["kind"]!.is "rule.create" = true) : CreatedRule (action["params"]!)["rule"]! := by
  have hvalid := (parseEnvelope_ok h).1
  have hok := validatePlan_actions hvalid action hm
  obtain ⟨ho,hd⟩ := parseEnvelope_ordered prim h
  obtain ⟨ho₁,hd₁⟩ := ho.get
  obtain ⟨ho₂,hd₂⟩ := ho₁.items hm
  obtain ⟨ho₃,hd₃⟩ := ho₂.get
  obtain ⟨ho₄,hd₄⟩ := ho₃.get
  refine ⟨?_,ho₄,by omega⟩
  exact actionOk_param "rule" rule hok
    (Value.is_iff.mp hk) (fun _ => rfl) rfl (by simp)

def StoredRule (row : RuleRow) : Prop :=
  ∃ rule, CreatedRule rule ∧ canonicalize rule = some row.rule ∧ rule["id"]!.text = row.ruleId

theorem rule_of_core (h : old.core = row.core) :
    old.rule = row.rule ∧ old.ruleId = row.ruleId := by
  simp only [RuleRow.core, RuleRow.mk.injEq] at h
  exact ⟨h.1,h.2.2.2.2.2.1⟩

theorem ruleEffect_rows
    (h : ruleEffect prim v action rules = .ok after) (hr : row ∈ after) :
    (∃ old ∈ rules, old.core = row.core) ∨ action["kind"]!.is "rule.create" = true ∧
      canonicalize (action["params"]!)["rule"]! = some row.rule ∧
      ((action["params"]!)["rule"]!)["id"]!.text = row.ruleId := by
  simp only [ruleEffect] at h
  split_ifs at h with hc hv
  · simp only [createRule, bind_ok, okOr_ok] at h
    obtain ⟨text,ht,creator,_,hins⟩ := h
    obtain ⟨_,rfl⟩ := (insertNew_eq_some _).mp hins
    rcases mem_append.mp hr with hr | hr
    · exact .inl ⟨row,hr,rfl⟩
    · rw [mem_singleton.mp hr]
      exact .inr ⟨hc,ht,rfl⟩
  · simp only [markRevoked, bind_ok, ensure_ok, pure_ok] at h
    obtain ⟨_,_,rfl⟩ := h
    obtain ⟨old,hold,rfl⟩ := (mem_updateWhere _ _).mp hr
    refine .inl ⟨old,hold,?_⟩
    split_ifs <;> rfl
  · cases h
    exact .inl ⟨row,hr,rfl⟩

theorem ruleEffects_rows (rules : List RuleRow)
    (h : ruleEffects prim v actions rules = .ok after) (hr : row ∈ after) :
    (∃ old ∈ rules, old.core = row.core) ∨ ∃ action ∈ actions,
      action["kind"]!.is "rule.create" = true ∧
      canonicalize (action["params"]!)["rule"]! = some row.rule ∧
      ((action["params"]!)["rule"]!)["id"]!.text = row.ruleId := by
  induction actions generalizing rules with
  | nil =>
    cases h
    exact .inl ⟨row,hr,rfl⟩
  | cons action rest ih =>
    simp only [ruleEffects, bind_ok] at h
    obtain ⟨next,hn,h⟩ := h
    rcases ih next h with ⟨old,hold,hcore⟩ | ⟨a,ha,hrest⟩
    · rcases ruleEffect_rows prim hn hold with ⟨first,hf,hc⟩ | ⟨hk,ht,hid⟩
      · exact .inl ⟨first,hf,hc.trans hcore⟩
      · obtain ⟨hrule,hruleId⟩ := rule_of_core hcore
        exact .inr ⟨action,by simp,hk,hrule ▸ ht,hid.trans hruleId⟩
    · exact .inr ⟨a,by simp [ha],hrest⟩

theorem StoredRule.of_core (h : StoredRule old) (hc : old.core = row.core) :
    StoredRule row := by
  obtain ⟨rule,hr,ht,hid⟩ := h
  obtain ⟨hrule,hruleId⟩ := rule_of_core hc
  exact ⟨rule,hr,hrule ▸ ht,hid.trans hruleId⟩

/-- Every rule of a reachable store was valid when it was created. -/
theorem rules_stored :
    ∀ row ∈ (storeAfter prim alerts now quarantine ops).rules, StoredRule row := by
  refine storeAfter_induction
    (fun _ store => ∀ row ∈ store.rules, StoredRule row) ?_ ?_ ?_
  · simp [createdStore]
  · intro ops trust input v ih ha row hr
    obtain ⟨signatures,_,_,f⟩ := verifySignedPlan_admit ha.admits.verified
    rcases ruleEffects_rows prim _ ha.admits.written.rules hr with
      ⟨old,hold,hc⟩ | ⟨action,hm,hk,ht,hid⟩
    · exact (ih old hold).of_core hc
    · exact ⟨_,createdRule prim f.envelope hm hk,ht,hid⟩
  · intro ops op store after ih hk row hr
    obtain ⟨old,hold,hc⟩ := mem_of_core hk.rules hr
    exact (ih old hold).of_core hc

theorem storedRule_valid
    (h : storedRule (storeAfter prim alerts now quarantine ops) ruleId = .ok (some record)) :
    standingRule record.rule = true := by
  simp only [storedRule] at h
  split at h
  · cases h
  · rename_i row hrow
    simp only [bind_ok, okOr_ok, pure_ok, some.injEq] at h
    obtain ⟨rule,hparse,rfl⟩ := h
    obtain ⟨hmem,_⟩ := rowOf_some _ hrow
    obtain ⟨created,hc,ht,_⟩ := rules_stored prim alerts row hmem
    rw [parseStrict_canonical hc.ordered hc.shallow ht hparse]
    exact hc.valid

def ruleText (rules : List RuleRow) (ruleId : Str) : Option Str :=
  (rowOf RuleRow.ruleId ruleId rules).map RuleRow.rule

theorem storedRule_text {store : Store}
    (h : storedRule store ruleId = .ok (some record)) :
    ∃ text, ruleText store.rules ruleId = some text ∧
      parseStrict text (64 * 1024) = some record.rule := by
  simp only [storedRule] at h
  split at h
  · cases h
  · rename_i row hrow
    simp only [bind_ok, okOr_ok, pure_ok, some.injEq] at h
    obtain ⟨rule,hparse,rfl⟩ := h
    exact ⟨row.rule,by rw [ruleText, hrow]; rfl,hparse⟩

theorem ruleText_core (rules : List RuleRow) (ruleId : Str) :
    ruleText (rules.map RuleRow.core) ruleId = ruleText rules ruleId := by
  simp only [ruleText, rowOf, find?_map, Option.map_map]
  rfl

theorem ruleText_of_core
    (h : rules.map RuleRow.core <+: after.map RuleRow.core)
    (ht : ruleText rules ruleId = some text) : ruleText after ruleId = some text := by
  obtain ⟨new,hnew⟩ := h
  rw [← ruleText_core] at ht ⊢
  obtain ⟨row,hrow,hrule⟩ := map_eq_some_iff.mp ht
  simp only [rowOf] at hrow
  rw [← hnew, ruleText, rowOf, find?_append, hrow]
  exact congrArg some hrule

theorem ruleEffects_core (rules : List RuleRow)
    (h : ruleEffects prim v actions rules = .ok after) :
    rules.map RuleRow.core <+: after.map RuleRow.core := by
  induction actions generalizing rules with
  | nil =>
    cases h
    exact prefix_refl _
  | cons action rest ih =>
    simp only [ruleEffects, bind_ok] at h
    obtain ⟨next,hn,h⟩ := h
    apply List.IsPrefix.trans _ (ih next h)
    simp only [ruleEffect] at hn
    split_ifs at hn with hc hv
    · simp only [createRule, bind_ok, okOr_ok] at hn
      obtain ⟨_,_,_,_,hins⟩ := hn
      obtain ⟨_,rfl⟩ := (insertNew_eq_some _).mp hins
      rw [map_append]
      exact prefix_append _ _
    · simp only [markRevoked, bind_ok, ensure_ok, pure_ok] at hn
      obtain ⟨_,_,rfl⟩ := hn
      rw [map_updateWhere _ _ _ (by intro _; rfl) _]
    · cases hn
      exact prefix_refl _

end Permanu.AdmissionRules
