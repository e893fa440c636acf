import PermanuAgent.AdmissionRules

/-!
# What a standing rule can change

A plan authored by a standing rule carries no signature. In every reachable
store it can change only the image of a service the rule lists, to the image
built for the commit of its evidence, or the replicas of such a service, up to
the rule's own limit, in an environment that nothing in force protects.
-/

set_option autoImplicit false

namespace Permanu.AdmissionConfinement
open ByteText JsonValue PlanJcs PlanSchema PlanSpec JsonOrder List Except
open PlanText PlanActions PlanCrypto PlanTrust PlanVerify
open PlanAuthority PlanBinding ResultSteps TableRows
open AdmissionStore AdmissionDefinitions
open AdmissionAdmit AdmissionWrite AdmissionRun AdmissionSpecs
open AdmissionRules

section
variable (store : Store) (projectId environment : Str)

def protections : List AdmittedAction :=
  (admittedActions store ["env.protection.set"]).filter
    fun action => action.scope.1 == projectId && action.scope.2.1 == environment

/-- What is in force is every setting that did not fail, down to the newest applied one. -/
theorem mem_currentAndPending {history : List AdmittedAction} {a : AdmittedAction} :
    a ∈ currentAndPending history ↔ ∃ newer older, history = newer ++ a :: older ∧
      a.void = false ∧ ∀ b ∈ newer, b.succeeded = false := by
  induction history with
  | nil => simp [currentAndPending]
  | cons first rest ih =>
    -- a setting after the first is in force when the first is not applied
    have hcons : (∃ newer older, first :: rest = newer ++ a :: older ∧ a.void = false ∧
        ∀ b ∈ newer, b.succeeded = false) ↔
        (a = first ∧ first.void = false) ∨
          (first.succeeded = false ∧ a ∈ currentAndPending rest) := by
      constructor
      · rintro ⟨newer,older,hsplit,hv,hnewer⟩
        cases newer with
        | nil =>
          obtain ⟨rfl,_⟩ := List.cons.inj hsplit
          exact .inl ⟨rfl,hv⟩
        | cons b newer =>
          obtain ⟨rfl,hrest⟩ := List.cons.inj hsplit
          exact .inr ⟨hnewer _ (by simp),
            ih.mpr ⟨newer,older,hrest,hv,fun b hb => hnewer b (by simp [hb])⟩⟩
      · rintro (⟨rfl,hv⟩ | ⟨hs,hm⟩)
        · exact ⟨[],rest,rfl,hv,by simp⟩
        · obtain ⟨newer,older,rfl,hv,hnewer⟩ := ih.mp hm
          exact ⟨first :: newer,older,rfl,hv,by simpa using ⟨hs,hnewer⟩⟩
    rw [hcons, currentAndPending]
    by_cases hv : first.void = true
    · have hs : first.succeeded = false := by
        simp only [AdmittedAction.void, Bool.and_eq_true, Bool.not_eq_true'] at hv
        exact hv.2
      simp [hv, hs]
    · by_cases hs : first.succeeded = true
      · simp [hv, hs]
      · simp only [hv, hs, Bool.false_eq_true, if_false, mem_cons]
        simp

/-- Every setting that would protect the environment failed or is superseded by an applied one. -/
def Unprotected : Prop :=
  ∀ newer a older, protections store projectId environment = newer ++ a :: older →
    a.params["protected"]! = .bool true → a.void = true ∨ ∃ b ∈ newer, b.succeeded = true

theorem environmentProtected_false (h : environmentProtected store projectId environment = false) :
    Unprotected store projectId environment := by
  intro newer a older hsplit hp
  by_contra hforce
  rw [not_or] at hforce
  obtain ⟨hvoid,hnewer⟩ := hforce
  have hm : a ∈ currentAndPending (protections store projectId environment) :=
    mem_currentAndPending.mpr ⟨newer,older,hsplit,by simpa using hvoid,
      fun b hb => by simpa using fun hs => hnewer ⟨b,hb,hs⟩⟩
  have hany : environmentProtected store projectId environment = true :=
    any_eq_true.mpr ⟨a,hm,by simp [hp]⟩
  rw [h] at hany
  cases hany

end

def SameBut (field : String) (v base : Value) : Prop :=
  ∀ k : Str, k ≠ str field → v.get? k = base.get? k

variable {base p rule spec : Value} {actions : List Value} {ctx : PolicyContext} {s : Str}

theorem rebasesOnto_sameBut {v : Value} {field : String}
    (h : rebasesOnto v base field = true) : SameBut field v base := by
  intro k hk
  rw [← get?_set_ne hk, beq_iff_eq.mp h]

theorem SameBut.field {field : String} {v : Value} (h : SameBut field v base) (name : String)
    (hn : name ≠ field) : v[name]! = base[name]! := by
  have hs : str name ≠ str field := fun he => hn (str_injective he)
  simp only [Value.getElem_text, Value.get, h (str name) hs]

theorem SameBut.elevated {field : String} {v : Value} (h : SameBut field v base)
    (hf : field = "image_digest_hex" ∨ field = "replicas") :
    specElevated v = specElevated base := by
  have hcap := h.field "cap_add" (by rcases hf with rfl | rfl <;> decide)
  have hpriv := h.field "privileged" (by rcases hf with rfl | rfl <;> decide)
  have hnet := h.field "network" (by rcases hf with rfl | rfl <;> decide)
  simp only [specElevated, hcap, hpriv, hnet]

theorem forActions_ok (p : Value → Bool) (step : Value → Policy Unit)
    (h : forActions p step actions = .ok ()) : ∀ a ∈ actions, p a = true → step a = .ok () := by
  induction actions with
  | nil => simp
  | cons action rest ih =>
    simp only [forActions] at h
    split_ifs at h with hk
    · simp only [bind_ok] at h
      obtain ⟨_,hs,hr⟩ := h
      exact forall_mem_cons.mpr ⟨fun _ => hs,ih hr⟩
    · exact forall_mem_cons.mpr ⟨fun hp => absurd hp hk,ih h⟩

theorem checkReplicas_ok {limits : Value} {specs : Specs}
    (h : checkReplicas limits specs actions = .ok ()) :
    ∀ a ∈ actions, ∃ spec, pinnedSpec specs a = .ok spec ∧
      ∀ most, limits["max_replicas"]!.asI64 = some most →
        spec["replicas"]!.asI64.getD (2^63 - 1) ≤ most := by
  induction actions with
  | nil => simp
  | cons action rest ih =>
    simp only [checkReplicas, bind_ok, ensure_ok] at h
    obtain ⟨spec,hspec,_,hmost,hr⟩ := h
    refine forall_mem_cons.mpr ⟨⟨spec,hspec,fun most hm => ?_⟩,ih hr⟩
    simpa [hm] using hmost

structure RuleChecks (p rule : Value) (ctx : PolicyContext) (specs : Specs) : Prop where
  scope : ruleScopeOk p rule = true
  unprotected : ctx.environmentProtected p["project_id"]!.text p["environment"]!.text = .ok false
  capped : rule["allowed_kinds"]!.items.any (·.is "scale") = true →
    (rule["limits"]!)["max_replicas"]! ≠ .null
  replicas : ∀ a ∈ p["actions"]!.items, ∃ spec, pinnedSpec specs a = .ok spec ∧
    ∀ most, (rule["limits"]!)["max_replicas"]!.asI64 = some most →
      spec["replicas"]!.asI64.getD (2^63 - 1) ≤ most
  deploys : ∀ a ∈ p["actions"]!.items, isDeploy a = true →
    checkDeploySpec ctx ((p["invocation"]!)["evidence"]!)["commit_sha"]!.text specs a = .ok ()
  scales : ∀ a ∈ p["actions"]!.items, isScale a = true → checkScaleSpec ctx specs a = .ok ()

theorem checkRule_ok {specs : Specs}
    (h : checkRule p rule ctx specs = .ok ()) : RuleChecks p rule ctx specs := by
  simp only [checkRule, bind_ok, ensure_ok] at h
  obtain ⟨_,_,_,_,_,_,_,hscope,isProtected,hprot,_,hnot,_,hcap,_,hrep,_,_,_,_,_,_,_,hdep,hscale⟩ :=
    h
  refine ⟨hscope,?_,?_,checkReplicas_ok hrep,forActions_ok _ _ hdep,
    forActions_ok _ _ hscale⟩
  · rw [hprot]
    simpa using hnot
  · intro hany hnull
    simp [hany, hnull, Value.isNull] at hcap

theorem asI64_number {v : Value} {n : ℤ} (h : v.asI64 = some n) : v = .number n := by
  cases v with
  | number m =>
    simp only [Value.asI64] at h
    split_ifs at h
    exact congrArg Value.number (Option.some.inj h)
  | _ => cases h

theorem standingRule_limits (h : standingRule rule = true) : check (.object
    [("max_replicas", .nullable (.int 1 1000)), ("max_invocations_per_hour", .int 1 120)])
      rule["limits"]! = true := by
  simp only [standingRule, Bool.and_eq_true] at h
  exact check_field "limits" _ h.1 (by simp [ruleFields])

/-- The replicas of a rule are null or a number of the range that the schema gives. -/
theorem standingRule_replicas (h : standingRule rule = true)
    (hn : (rule["limits"]!)["max_replicas"]! ≠ .null) :
    ∃ most, (rule["limits"]!)["max_replicas"]!.asI64 = some most ∧ most ≤ 1000 := by
  have hcheck := check_field "max_replicas" (.nullable (.int 1 1000)) (standingRule_limits h)
    (by simp)
  simp only [check, Bool.or_eq_true, Option.any_eq_true, Bool.and_eq_true, decide_eq_true_eq]
    at hcheck
  rcases hcheck with hnull | ⟨most,hm,_,hle⟩
  · cases hv : (rule["limits"]!)["max_replicas"]! <;> simp_all [Value.isNull]
  · exact ⟨most,hm,hle⟩

theorem get?_of_string {v : Value} {k : String} (h : v[k]! = .string s) :
    v.get? (str k) = some (.string s) := by
  rw [Value.getElem_text, Value.get] at h
  cases hg : v.get? (str k) with
  | none => simp [hg] at h
  | some w => simpa [hg] using h

/-- The service of an action that names one is among those of the plan. -/
theorem planned_service {prim : Primitives} {action : Value} (hv : validatePlan prim p = true)
    (hm : action ∈ p["actions"]!.items) (hs : (action["params"]!)["service_id"]! = .string s) :
    .string s ∈ p["service_ids"]!.items := by
  simp only [validatePlan, planRulesHold, Bool.and_eq_true, sameSet, all_eq_true] at hv
  obtain ⟨_,⟨⟨⟨⟨_,hsub,_⟩,_⟩,_⟩,_⟩⟩ := hv
  have hin := hsub s (mem_filterMap.mpr ⟨action,hm,by
    rw [get?_of_string hs]
    rfl⟩)
  have hmem : s ∈ stringSet p["service_ids"]! := by simpa using hin
  obtain ⟨item,hitem,htext⟩ := mem_filterMap.mp hmem
  rwa [Value.asStr_eq_some.mp htext] at hitem

theorem ruleScope_service (h : ruleScopeOk p rule = true)
    (hs : .string s ∈ p["service_ids"]!.items) :
    .string s ∈ (rule["scope"]!)["service_ids"]!.items := by
  simp only [ruleScopeOk, Bool.and_eq_true, all_eq_true] at h
  obtain ⟨⟨⟨_,hall⟩,_⟩,_⟩ := h
  simpa [stringIn] using hall (.string s) hs

section Context
variable {store : Store} {trust : TrustStore} {input : AdmitInput} {specs : Specs} {action : Value}

theorem lastSpec_ok {prior : Value}
    (h : lastSpec (txContext store trust input) action = .ok prior) :
    lastAdmittedSpec store (action["params"]!)["service_id"]!.text = .ok (some prior) := by
  simp only [lastSpec, bind_ok, okOr_ok] at h
  obtain ⟨base,hb,rfl⟩ := h
  exact hb

theorem checkDeploySpec_ok {commitSha : Str}
    (h : checkDeploySpec (txContext store trust input) commitSha specs action = .ok ()) :
    ∃ spec prior build, pinnedSpec specs action = .ok spec ∧
      lastAdmittedSpec store (action["params"]!)["service_id"]!.text = .ok (some prior) ∧
      buildOf store (action["params"]!)["service_id"]!.text commitSha = some build ∧
      spec["image_digest_hex"]! = .string build.imageDigestHex ∧
      SameBut "image_digest_hex" spec prior := by
  simp only [checkDeploySpec, bind_ok, okOr_ok, ensure_ok, txContext, ok.injEq] at h
  obtain ⟨spec,hspec,prior,hprior,_,rfl,image,himage,_,hdigest,hbase⟩ := h
  obtain ⟨build,hbuild,rfl⟩ := Option.map_eq_some_iff.mp himage
  exact ⟨spec,prior,build,hspec,lastSpec_ok hprior,hbuild,by simpa using hdigest,
    rebasesOnto_sameBut hbase⟩

theorem checkScaleSpec_ok (h : checkScaleSpec (txContext store trust input) specs action = .ok ()) :
    ∃ spec prior, pinnedSpec specs action = .ok spec ∧
      lastAdmittedSpec store (action["params"]!)["service_id"]!.text = .ok (some prior) ∧
      SameBut "replicas" spec prior := by
  simp only [checkScaleSpec, bind_ok, ensure_ok] at h
  obtain ⟨spec,hspec,prior,hprior,hbase⟩ := h
  exact ⟨spec,prior,hspec,lastSpec_ok hprior,rebasesOnto_sameBut hbase⟩

end Context

/-- One action of a rule plan, with the spec it names and the one current before. -/
structure RuleChange (store after : Store) (p rule action : Value) (service digest text : Str)
    (spec prior : Value) : Prop where
  kind : action["kind"]! = .string (str "deploy") ∨ action["kind"]! = .string (str "scale")
  serviceOf : (action["params"]!)["service_id"]! = .string service
  listed : .string service ∈ (rule["scope"]!)["service_ids"]!.items
  named : (action["params"]!)["spec_digest_hex"]! = .string digest
  stored : specText after digest = some text
  read : parseStrict text maxSpecBytes = some spec
  before : lastAdmittedSpec store service = .ok (some prior)
  /-- A deploy changes the image alone, to the one built for the commit. -/
  deploy : action["kind"]! = .string (str "deploy") → SameBut "image_digest_hex" spec prior ∧
    ∃ build, buildOf store service ((p["invocation"]!)["evidence"]!)["commit_sha"]!.text =
      some build ∧
      spec["image_digest_hex"]! = .string build.imageDigestHex
  scale : action["kind"]! = .string (str "scale") → SameBut "replicas" spec prior
  capped : (rule["limits"]!)["max_replicas"]! ≠ .null → ∃ most replicas : ℤ,
    (rule["limits"]!)["max_replicas"]! = .number most ∧ spec["replicas"]! = .number replicas ∧
      replicas ≤ most
  unelevated : specElevated spec = false
  unelevatedBefore : specElevated prior = false

/-- The effect of an admitted rule plan. -/
structure Confined (store after : Store) (trust : TrustStore) (p rule : Value) : Prop where
  target : p["targets"]!.items = [.string trust.serverId]
  project : p["project_id"]! = (rule["scope"]!)["project_id"]!
  environment : p["environment"]! = (rule["scope"]!)["environment"]!
  unprotected : Unprotected store p["project_id"]!.text p["environment"]!.text
  scaleCapped : rule["allowed_kinds"]!.items.any (·.is "scale") = true →
    (rule["limits"]!)["max_replicas"]! ≠ .null
  actions : ∀ action ∈ p["actions"]!.items, ∃ service digest text spec prior,
    RuleChange store after p rule action service digest text spec prior
  current : ∀ row ∈ after.serviceSpecs, row ∈ store.serviceSpecs ∨
    ∃ action ∈ p["actions"]!.items, (action["params"]!)["service_id"]! = .string row.serviceId ∧
      (action["params"]!)["spec_digest_hex"]! = .string row.specDigestHex

variable (prim : Primitives) (alerts : AlertSpecs)

section Admitted
variable {now : ℤ} {quarantine : Option ℤ} {ops before : List Op} {trust : TrustStore}
  {input : AdmitInput} {v : VerifiedPlan}

/-- The spec an action pins is stored under its digest after the admission. -/
theorem AdmittedAfter.stored (hfree : CollisionFree prim (submittedSpecs ops))
    (h : AdmittedAfter prim alerts now quarantine ops before trust input v) {action : Value}
    (hm : action ∈ v.plan["actions"]!.items) (hp : pinsSpec action = true)
    (hs : pinnedSpec v.specs action = .ok spec) :
    ∃ digest text, (action["params"]!)["spec_digest_hex"]! = .string digest ∧
      specText (storeAfter prim alerts now quarantine (before ++ [.admitPlan trust input])) digest =
        some text ∧ parseStrict text maxSpecBytes = some spec ∧
      (digest, (spec, text)) ∈ v.specs := by
  have hb := AdmittedAfter.bound prim alerts h
  obtain ⟨e,he,hd,_⟩ := AdmittedAfter.pinned prim alerts h hm hp
  -- the action's digest finds the spec the plan carries under it
  have hspec : e.2.1 = spec := by
    simp only [pinnedSpec, okOr_ok, hd, Value.text, Value.asStr, Option.getD_some,
      lookup_of_mem hb.nodup he, Option.map_some, Option.some.injEq] at hs
    exact hs
  obtain ⟨row,hrow,hkey⟩ := exists_key_insertSpecs v (formatTimestamp input.now) he
  rw [← h.admits.written.specs] at hrow
  have hall := (specs_from prim alerts now quarantine (before ++ [.admitPlan trust input])).1
  cases hfound : rowOf SpecRow.key e.1
      (storeAfter prim alerts now quarantine (before ++ [.admitPlan trust input])).specs with
  | none => exact absurd hkey ((rowOf_none _).mp hfound row hrow)
  | some first =>
    obtain ⟨hfirst,hfirstKey⟩ := rowOf_some _ hfound
    have hfrom : SpecFrom prim alerts now quarantine ops first := by
      obtain ⟨b,t,i,u,e',hadm,hrest⟩ := hall first hfirst
      exact ⟨b,t,i,u,e',⟨hadm.within.trans h.within,hadm.admits⟩,hrest⟩
    have htext := (stored_spec prim alerts hfree h he hfrom hfirstKey).1
    refine ⟨e.1,e.2.2,hd,?_,?_,?_⟩
    · rw [specText, hfound, Option.map_some, htext]
    · rw [← hspec]
      exact (parseSpec_some prim (hb.entries e he).parsed).1
    · rw [← hspec]
      exact he

theorem ruleKind_pins {action : Value}
    (hk : action["kind"]! = .string (str "deploy") ∨ action["kind"]! = .string (str "scale")) :
    pinsSpec action = true ∧ pinnedService action = (action["params"]!)["service_id"]! := by
  rcases hk with hk | hk
  all_goals
    have hup : isUpgradeSpec action = false := by
      simp only [isUpgradeSpec, hk]
      rfl
    rw [pinsSpec, pinnedService, hup, hk]
    exact ⟨by decide,rfl⟩

theorem ruleKind_service {action : Value} (hok : actionOk action = true)
    (hk : action["kind"]! = .string (str "deploy") ∨ action["kind"]! = .string (str "scale")) :
    ∃ service, (action["params"]!)["service_id"]! = .string service := by
  have hcheck : check uuid7 (action["params"]!)["service_id"]! = true := by
    rcases hk with hk | hk <;>
      exact actionOk_param "service_id" uuid7 hok hk (fun _ => rfl) rfl (by simp)
  obtain ⟨service,hs,_⟩ := check_pattern _ hcheck
  exact ⟨service,hs⟩

/-- The prior spec of an action and how the named one differs from it. -/
theorem RuleChecks.changed {action : Value} {store : Store} {specs : Specs}
    (hc : RuleChecks p rule (txContext store trust input) specs) (hm : action ∈ p["actions"]!.items)
    (hspec : pinnedSpec specs action = .ok spec)
    (hk : action["kind"]! = .string (str "deploy") ∨ action["kind"]! = .string (str "scale")) :
    ∃ prior, lastAdmittedSpec store (action["params"]!)["service_id"]!.text = .ok (some prior) ∧
      specElevated spec = specElevated prior ∧
      (action["kind"]! = .string (str "deploy") → SameBut "image_digest_hex" spec prior ∧
        ∃ build, buildOf store (action["params"]!)["service_id"]!.text
          ((p["invocation"]!)["evidence"]!)["commit_sha"]!.text = some build ∧
          spec["image_digest_hex"]! = .string build.imageDigestHex) ∧
      (action["kind"]! = .string (str "scale") → SameBut "replicas" spec prior) := by
  have hne : (Value.string (str "deploy") : Value) ≠ .string (str "scale") := by decide
  rcases hk with hk | hk
  · obtain ⟨spec',prior,build,hs,hprior,hbuild,himage,hsame⟩ :=
      checkDeploySpec_ok (hc.deploys action hm (Value.is_iff.mpr hk))
    obtain rfl : spec = spec' := ok.inj (hspec.symm.trans hs)
    refine ⟨prior,hprior,hsame.elevated (.inl rfl),fun _ => ⟨hsame,build,hbuild,himage⟩,
      fun hscale => ?_⟩
    exact absurd (hk.symm.trans hscale) hne
  · obtain ⟨spec',prior,hs,hprior,hsame⟩ :=
      checkScaleSpec_ok (hc.scales action hm (Value.is_iff.mpr hk))
    obtain rfl : spec = spec' := ok.inj (hspec.symm.trans hs)
    refine ⟨prior,hprior,hsame.elevated (.inr rfl),fun hdeploy => ?_,fun _ => hsame⟩
    exact absurd (hdeploy.symm.trans hk) hne

theorem RuleChecks.cap {action : Value} {specs : Specs}
    (hc : RuleChecks p rule ctx specs) (hv : standingRule rule = true)
    (hm : action ∈ p["actions"]!.items) (hspec : pinnedSpec specs action = .ok spec)
    (hn : (rule["limits"]!)["max_replicas"]! ≠ .null) :
    ∃ most replicas : ℤ, (rule["limits"]!)["max_replicas"]! = .number most ∧
      spec["replicas"]! = .number replicas ∧ replicas ≤ most := by
  obtain ⟨most,hmost,hle⟩ := standingRule_replicas hv hn
  obtain ⟨spec',hs,hall⟩ := hc.replicas action hm
  obtain rfl : spec = spec' := ok.inj (hspec.symm.trans hs)
  have hcap := hall most hmost
  cases hr : spec["replicas"]!.asI64 with
  | none =>
    rw [hr, Option.getD_none] at hcap
    omega
  | some replicas =>
    rw [hr, Option.getD_some] at hcap
    exact ⟨most,replicas,asI64_number hmost,asI64_number hr,hcap⟩

theorem rule_change (hfree : CollisionFree prim (submittedSpecs ops))
    (h : AdmittedAfter prim alerts now quarantine ops before trust input v)
    (hv : standingRule rule = true) (hplan : validatePlan prim v.plan = true)
    (hc : RuleChecks v.plan rule (txContext (storeAfter prim alerts now quarantine before) trust
      input) v.specs)
    (hkinds : ∀ a ∈ v.plan["actions"]!.items,
      a["kind"]! = .string (str "deploy") ∨ a["kind"]! = .string (str "scale"))
    (action : Value) (hm : action ∈ v.plan["actions"]!.items) :
    ∃ service digest text spec prior,
      RuleChange (storeAfter prim alerts now quarantine before)
        (storeAfter prim alerts now quarantine (before ++ [.admitPlan trust input])) v.plan rule
        action service digest text spec prior := by
  have hk := hkinds action hm
  obtain ⟨spec,hspec,_⟩ := hc.replicas action hm
  obtain ⟨service,hs⟩ := ruleKind_service (validatePlan_actions hplan action hm) hk
  obtain ⟨digest,text,hd,hstored,hread,hmem⟩ :=
    AdmittedAfter.stored prim alerts hfree h hm (ruleKind_pins hk).1 hspec
  obtain ⟨prior,hprior,helev,hdeploy,hscale⟩ := hc.changed hm hspec hk
  have hunelevated : specElevated spec = false := by
    by_contra he
    obtain ⟨a,ha,hkind,_⟩ :=
      (AdmittedAfter.bound prim alerts h).elevating prim hmem (by simpa using he)
    rcases hkinds a ha with hk' | hk' <;> exact absurd (hkind.symm.trans hk') (by decide)
  have htext : (action["params"]!)["service_id"]!.text = service := by rw [hs]; rfl
  rw [htext] at hprior hdeploy
  exact ⟨service,digest,text,spec,prior,hk,hs,
    ruleScope_service hc.scope (planned_service hplan hm hs),hd,hstored,
    hread,hprior,hdeploy,hscale,hc.cap hv hm hspec,hunelevated,helev ▸ hunelevated⟩

end Admitted

/-- A plan of a standing rule, admitted in any reachable store, changes only the image or
the replica count of services the rule lists, within the rule's limits. -/
theorem rule_plan_confined (now : ℤ) (quarantine : Option ℤ) (ops before : List Op)
    (trust : TrustStore) (input : AdmitInput) (v : VerifiedPlan)
    (hfree : CollisionFree prim (submittedSpecs ops))
    (h : AdmittedAfter prim alerts now quarantine ops before trust input v)
    (hr : (v.plan["author"]!)["kind"]! = .string (str "rule")) :
    ∃ record, storedRule (storeAfter prim alerts now quarantine before)
        (v.plan["invocation"]!)["rule_id"]!.text = .ok (some record) ∧
      Confined (storeAfter prim alerts now quarantine before)
        (storeAfter prim alerts now quarantine (before ++ [.admitPlan trust input])) trust v.plan
        record.rule := by
  obtain ⟨signatures,digest,rule,f⟩ := verifySignedPlan_admit h.admits.verified
  have hauthor : isRulePlan v.plan = true := by
    rw [isRulePlan, hr]
    exact beq_self_eq_true _
  obtain ⟨record,hsome,hverify⟩ := f.rule_some prim hauthor
  have hstored := (verifyRule_ok prim hverify).1
  have hvalid := storedRule_valid prim alerts hstored
  have hnames := f.names
  rw [hsome, checkNamesOrRule] at hnames
  have hc := checkRule_ok hnames
  -- the rule allows deploy and scale only
  have hkinds : ∀ a ∈ v.plan["actions"]!.items,
      a["kind"]! = .string (str "deploy") ∨ a["kind"]! = .string (str "scale") := by
    intro a ha
    obtain ⟨kind,hk,_⟩ := actionOk_kind (validatePlan_actions (f.valid prim) a ha)
    have hkind := checkKinds_mem f.kinds kind (mem_kindsOf ha hk)
    simp only [hsome, checkKind, ensure_ok, ruleAllowsKind, Bool.and_eq_true, kindIn, ruleEligible,
      any_cons, any_nil, Bool.or_false, Bool.or_eq_true, beq_iff_eq] at hkind
    rcases hkind.2 with rfl | rfl
    · exact .inl hk
    · exact .inr hk
  have hscope := hc.scope
  simp only [ruleScopeOk, Bool.and_eq_true, beq_iff_eq] at hscope
  refine ⟨record,hstored,?_,hscope.1.1.1.1.1.1.2,hscope.1.1.1.1.1.2,?_,hc.capped,
    rule_change prim alerts hfree h hvalid (f.valid prim) hc hkinds,?_⟩
  · obtain ⟨target,ht⟩ := length_eq_one_iff.mp hscope.1.1.1.1.2
    have hself := f.target
    rw [targetsSelf, ht, contains_iff_mem, mem_singleton] at hself
    rw [ht, ← hself]
    rfl
  · exact environmentProtected_false _ _ _ (ok.inj hc.unprotected)
  · intro row hrow
    rw [h.admits.written.serviceSpecs] at hrow
    rcases mem_currentRows _ hrow with hold | ⟨a,ha,_,rfl⟩
    · exact .inl hold
    · refine .inr ⟨a,ha,?_,?_⟩
      · obtain ⟨service,hs⟩ := ruleKind_service (validatePlan_actions (f.valid prim) a ha)
          (hkinds a ha)
        rw [serviceSpecRow, (ruleKind_pins (hkinds a ha)).2, hs]
        rfl
      · obtain ⟨e,_,hd,_⟩ := AdmittedAfter.pinned prim alerts h ha
          (ruleKind_pins (hkinds a ha)).1
        rw [serviceSpecRow, hd]
        rfl

def ownerPlan : Value := samplePlan 40 "FAAAAAAAAAAAAAAAAAAAAA" 3 [ident 10]
  [sampleDeploy (ident 10) 20 .null webSpecHash,
    sampleAction "rule.create" [("rule", sampleRule 50)]]
  false genesisHead

def ownerPlanHash : Digest :=
  digestOfNat 0x159432f4ffe369068a175f3f35ae329132fe311a7fb93309f2610f807ef4fb31

def ownerPlanSignature : Str :=
  bigEndian 32 0x2f4bdcf036e5346e253058ff851ddfe36c3e8ca4793ea83d1ea4506367155bd8 ++
    bigEndian 32 0x2bd690cec73d9dca125fcff69a7f741df6469e3d0691962e31197b3d461f2292

def ownerHead : Digest :=
  digestOfNat 0x0476498fa33457c2edaa94caabb11e981d6eda8dd9cf53f8e630369a3508d855

def builtSpec : Value := sampleSpec (ident 10) 8 1 false

def builtSpecHash : Digest :=
  digestOfNat 0x29a9cbd2db59e84541e4078e1c456551e0434e883b039212fb6efc011debe5b4

def scaledSpec : Value := sampleSpec (ident 10) 7 2 false

def scaledSpecHash : Digest :=
  digestOfNat 0xdeeaa5b9464ba372b4861550d48e55af82c220ccd2a17f67d1c21ff2aa9a3795

def pushCommit : Str := hex (bigEndian 20 0xc0ffee)

def pushInvocation : Value := .obj
  [("rule_id", ident 50), ("rule_digest_hex", hashText firstRuleHash), ("trigger", .txt "git.push"),
    ("evidence", .obj
      [("provider", .txt "github"), ("repo", .txt "acme/app"), ("ref", .txt "refs/heads/main"),
        ("commit_sha", .string pushCommit), ("commit_time", .txt "2026-01-02T00:04:00Z"),
        ("delivery_id", .txt "delivery-1"), ("body_digest_hex", hashText (digestOfNat 9)),
        ("received_at", .txt "2026-01-02T00:05:00Z")])]

def pushPlan : Value := ((samplePlan 41 "GAAAAAAAAAAAAAAAAAAAAA" 3 [ident 10]
  [sampleDeploy (ident 10) 21 (.string pushCommit) builtSpecHash, sampleAction "scale"
    [("service_id", ident 10), ("replicas", .number 2),
      ("spec_digest_hex", hashText scaledSpecHash)]]
  false (hex ownerHead.val)).set "author" (.obj
    [("kind", .txt "rule"), ("agent_session_id", .null)])).set "invocation" pushInvocation

def pushPlanHash : Digest :=
  digestOfNat 0xf029f9c253160412b05de9be4864a70247448506fdfbe26a729c637a4cf4e2af

def pushPrimitives : Primitives :=
  tablePrimitives
    [(ownerDer, ownerHash), (rulePrefix ++ canonicalBytes (sampleRule 50), firstRuleHash),
      (specPrefix ++ canonicalBytes webSpec, webSpecHash),
      (specPrefix ++ canonicalBytes builtSpec, builtSpecHash),
      (specPrefix ++ canonicalBytes scaledSpec, scaledSpecHash),
      (planPrefix ++ canonicalBytes ownerPlan, ownerPlanHash),
      (planPrefix ++ canonicalBytes pushPlan, pushPlanHash),
      (headPreimage genesisHead ownerPlanHash, ownerHead),
      (headPreimage (hex ownerHead.val) pushPlanHash,
        digestOfNat 0xb706344eb88ad99969e8bfd31f71621fc4ad5eec0fdfc0a8a992782cea285558)]
    [ownerPoint] [(ownerPoint, ownerPlanHash, ownerPlanSignature)]

def pushTrust : TrustStore :=
  okValue (validateTrust pushPrimitives (trustDocument [ownerEntry]) .production) emptyTrust

def pushInput : AdmitInput where
  envelope := canonicalBytes (.obj [("plan", pushPlan), ("signatures", .array [])])
  specs := [canonicalBytes builtSpec, canonicalBytes scaledSpec]
  sealedSecrets := []
  submitter := .agentWebhook
  now := 1767312360
  random := []
  buildStarts := []

def pushOps : List Op :=
  [.admitPlan pushTrust (clientInput (sampleEnvelope ownerPlan ownerKeyId ownerPlanSignature)
      [canonicalBytes webSpec] 1767312300),
    .insertDelivery ⟨str "delivery-1",str "github",str "push",(hashText (digestOfNat 9)).text,
      str "acme/app",str "refs/heads/main",pushCommit,str "2026-01-02T00:04:00Z",
      [str "production"],str "2026-01-02T00:05:00Z",str "2026-01-02T00:20:00Z",.pending⟩,
    .recordBuild ⟨str "build-1",(ident 10).text,pushCommit,(hashText (digestOfNat 8)).text,
      str "delivery-1",str "2026-01-02T00:05:30Z"⟩]

def pushStore : Store := storeAfter pushPrimitives noAlerts 1767312000 none pushOps

theorem push_confined : ∃ (v : VerifiedPlan) (record : RuleRecord), v.plan = pushPlan ∧
    storedRule pushStore (v.plan["invocation"]!)["rule_id"]!.text = .ok (some record) ∧
    Confined pushStore (storeAfter pushPrimitives noAlerts 1767312000 none
      (pushOps ++ [.admitPlan pushTrust pushInput])) pushTrust v.plan record.rule := by
  have hrun : isFresh (admitPlan pushPrimitives noAlerts pushStore pushTrust pushInput) = true ∧
      (parseEnvelope pushPrimitives pushInput.envelope).toOption.map Prod.fst = some pushPlan ∧
      ∀ a ∈ submittedSpecs (pushOps ++ [.admitPlan pushTrust pushInput]),
        ∀ b ∈ submittedSpecs (pushOps ++ [.admitPlan pushTrust pushInput]),
          digestHex pushPrimitives specPrefix a = digestHex pushPrimitives specPrefix b →
            a = b := by
    decide +kernel
  obtain ⟨hfresh,hplan,hfree⟩ := hrun
  obtain ⟨v,hv⟩ := admittedAfter_of_fresh hfresh
  have hp := AdmittedAfter.plan_eq pushPrimitives noAlerts hv hplan
  obtain ⟨record,hr⟩ := rule_plan_confined pushPrimitives noAlerts 1767312000 none _ pushOps
    pushTrust pushInput v hfree hv (by rw [hp]; decide +kernel)
  exact ⟨v,record,hp,hr⟩

end Permanu.AdmissionConfinement
