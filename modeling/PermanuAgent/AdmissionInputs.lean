import PermanuAgent.AdmissionSpecs

/-!
# The inputs of a plan

An input of a plan must be followed by a deploy or a restart of each service it affects,
and a secret of the whole environment affects the services whose spec binds it. The check
keeps one spec for each service. A plan may supply several for one service, and of these
the check sees only the last in the order of their digests.
-/

set_option autoImplicit false

namespace Permanu.AdmissionInputs
open ByteText JsonValue PlanJcs PlanText PlanCrypto PlanSpec PlanActions PlanVerify
open PlanAuthority List
open ResultSteps TableRows AdmissionStore AdmissionAdmit AdmissionSpecs

def suppliedFor (specs : Specs) (service : Str) : Specs :=
  (byDigest specs).filter fun entry => entry.2.1["service_id"]!.asStr = some service

/-- An input affects the service it names. Without one it affects each service for which a spec
of the plan binds the secret, or the last admitted spec if the plan supplies none. -/
def Affects (store : Store) (v : VerifiedPlan) (params : Value) (service : Str) : Prop :=
  match params["service_id"]!.asStr with
  | some named => service = named
  | none =>
    (∃ entry ∈ suppliedFor v.specs service, bindsSecret params["name"]!.text entry.2.1) ∨
    suppliedFor v.specs service = [] ∧
      ∃ text spec, (service,text) ∈ currentSpecs store (planScope v.plan) ∧
        parseStrict text maxSpecBytes = some spec ∧ bindsSecret params["name"]!.text spec

/-- A spec of the plan for the service binds the secret of the environment, and the last one
does not. -/
def Overridden (v : VerifiedPlan) (params : Value) (service : Str) : Prop :=
  params["service_id"]!.asStr = none ∧
  (∃ entry ∈ suppliedFor v.specs service, bindsSecret params["name"]!.text entry.2.1) ∧
  ∃ last ∈ (suppliedFor v.specs service).getLast?, ¬ bindsSecret params["name"]!.text last.2.1

/-- Each such service is deployed or restarted after the input. -/
def Followed (v : VerifiedPlan) (affected : Value → Str → Prop) : Prop :=
  ∀ before action later, v.plan["actions"]!.items = before ++ action :: later →
    kindIn inputKinds action["kind"]!.text → ∀ service, affected action["params"]! service →
      composedBy later service

theorem mem_parseSpecTexts {texts : List (Str × Str)} {parsed : List (Str × Value)}
    {service text : Str} {spec : Value} (h : parseSpecTexts texts = .ok parsed)
    (hmem : (service,text) ∈ texts) (hspec : parseStrict text maxSpecBytes = some spec) :
    (service,spec) ∈ parsed := by
  induction texts generalizing parsed with
  | nil => cases hmem
  | cons entry rest ih =>
    simp only [parseSpecTexts, bind_ok, okOr_ok, pure_ok] at h
    obtain ⟨first,hfirst,others,hothers,rfl⟩ := h
    rcases mem_cons.1 hmem with rfl | hmem
    · rw [Option.some.inj (hspec.symm.trans hfirst)]
      exact mem_cons_self
    · exact mem_cons_of_mem _ (ih hothers hmem)

variable {service : Str} {spec : Value} {known : List (Str × Value)}

theorem mem_overrideSpec {entry : Str × Value × Str} (h : (service,spec) ∈ known)
    (hother : entry.2.1["service_id"]!.asStr ≠ some service) :
    (service,spec) ∈ overrideSpec known entry := by
  unfold overrideSpec
  split
  · next other hservice =>
    refine mem_upsert_of_ne _ _ (fun hsame => hother ?_) h
    rw [hservice]
    exact congrArg some hsame.symm
  · exact h

/-- Each supplied spec takes the place of the one before it. -/
theorem mem_overrideSpecs {specs : Specs} :
    (∀ last ∈ (suppliedFor specs service).getLast?,
      (service,last.2.1) ∈ overrideSpecs known specs) ∧
    (suppliedFor specs service = [] → ∀ spec, (service,spec) ∈ known →
      (service,spec) ∈ overrideSpecs known specs) := by
  unfold suppliedFor overrideSpecs
  induction byDigest specs using List.reverseRecOn with
  | nil => simp
  | append_singleton rest entry ih =>
    rw [foldl_append, filter_append]
    by_cases hservice : entry.2.1["service_id"]!.asStr = some service
    · simp [hservice, overrideSpec, mem_upsert_self]
    · simp only [hservice, filter_cons, decide_false, Bool.false_eq_true, if_false, filter_nil,
        append_nil, foldl_cons, foldl_nil]
      exact ⟨fun last hlast => mem_overrideSpec (ih.1 last hlast) hservice,
        fun hnone spec hspec => mem_overrideSpec (ih.2 hnone spec hspec) hservice⟩

theorem checkInputs_composed {specs : List (Str × Value)} {before later actions : List Value}
    {action : Value} (h : checkInputs specs actions = .ok ())
    (hsplit : actions = before ++ action :: later)
    (hkind : kindIn inputKinds action["kind"]!.text) :
    ∀ service ∈ affectedServices specs action["params"]!, composedBy later service := by
  induction before generalizing actions with
  | nil =>
    subst hsplit
    simp only [nil_append, checkInputs, hkind, if_true, bind_ok, ensure_ok, all_eq_true] at h
    exact h.choose_spec.1
  | cons first rest ih =>
    subst hsplit
    rw [cons_append, checkInputs] at h
    split at h
    · obtain ⟨-,-,h⟩ := bind_ok.1 h
      exact ih h rfl
    · exact ih h rfl

/-- In a plan that passes the check every input is followed by the services it affects exactly
when it is followed by those that bind its secret only in a spec that another one overrides. -/
theorem inputs_followed_iff (store : Store) (v : VerifiedPlan) :
    (checkInputComposition store v = .ok () → Followed v (Affects store v)) ↔
      (checkInputComposition store v = .ok () → Followed v (Overridden v)) := by
  constructor
  · intro h hok before action later hsplit hkind service hover
    refine h hok before action later hsplit hkind service ?_
    rw [Affects, hover.1]
    exact .inl hover.2.1
  · intro h hok before action later hsplit hkind service haffects
    have hinput : v.plan["actions"]!.items.any fun a => kindIn inputKinds a["kind"]!.text := by
      rw [hsplit]
      simp [hkind]
    have hcheck := hok
    rw [checkInputComposition, if_pos hinput, bind_ok] at hcheck
    obtain ⟨known,hknown,hcheck⟩ := hcheck
    have hcomposed := checkInputs_composed hcheck hsplit hkind
    unfold Affects at haffects
    unfold affectedServices at hcomposed
    cases hnamed : (action["params"]!)["service_id"]!.asStr with
    | some named =>
      rw [hnamed] at haffects hcomposed
      exact hcomposed service (by simp [haffects])
    | none =>
      rw [hnamed] at haffects hcomposed
      -- a service whose spec the check sees and that binds the secret
      have hseen : ∀ spec, (service,spec) ∈ overrideSpecs known v.specs →
          bindsSecret (action["params"]!)["name"]!.text spec → composedBy later service :=
        fun spec hspec hbinds => hcomposed service
          (mem_map.2 ⟨_,mem_filter.2 ⟨hspec,hbinds⟩,rfl⟩)
      obtain ⟨hlast,hkept⟩ := mem_overrideSpecs
      rcases haffects with ⟨entry,hentry,hbinds⟩ | ⟨hnone,text,spec,hmem,hparse,hbinds⟩
      · have hsome := getLast?_eq_some_getLast (ne_nil_of_mem hentry)
        by_cases hfinal : bindsSecret (action["params"]!)["name"]!.text
            ((suppliedFor v.specs service).getLast (ne_nil_of_mem hentry)).2.1
        · exact hseen _ (hlast _ hsome) hfinal
        · exact h hok before action later hsplit hkind service
            ⟨hnamed,⟨entry,hentry,hbinds⟩,_,hsome,hfinal⟩
      · exact hseen spec (hkept hnone spec (mem_parseSpecTexts hknown hmem hparse)) hbinds

def tokenSpec : Value := .object (((sampleSpec (ident 10) 13 1 false).asObject.getD []).map
  fun member => if member.1 = str "env" then
    (member.1,.obj [("API_TOKEN",.obj [("kind",.txt "secret"), ("ref",.txt "API_TOKEN")])])
  else member)

def tokenSpecHash : Digest :=
  digestOfNat 0x0a07b8eeb82f7961ce9742dc40fe5d7ec819bf7f0b5ea5bd2d8d2bc43ea2dd40

def tokenPlan : Value := samplePlan 2 "CAAAAAAAAAAAAAAAAAAAAA" 3 [ident 10]
  [sampleDeploy (ident 10) 20 .null tokenSpecHash, sampleDeploy (ident 10) 21 .null webSpecHash,
    sampleAction "secret.unset" [("service_id",.null), ("name",.txt "API_TOKEN")]] false genesisHead

def tokenVerified : VerifiedPlan := ⟨tokenPlan,[],[],(bindSpecs
  (tablePrimitives [(specPrefix ++ canonicalBytes tokenSpec,tokenSpecHash),
    (specPrefix ++ canonicalBytes webSpec,webSpecHash)] [] []) tokenPlan
  [canonicalBytes tokenSpec, canonicalBytes webSpec]).getD []⟩

/-- The plan passes although a spec it supplies binds the secret and no deploy follows. -/
theorem overridden_spec_unfollowed :
    tokenVerified.specs.length = 2 ∧
      checkInputComposition (createdStore 0 none) tokenVerified = .ok () ∧
      ¬ Followed tokenVerified (Affects (createdStore 0 none) tokenVerified) := by
  refine ⟨by decide +kernel,by decide +kernel,fun h => ?_⟩
  have hcomposed := h (tokenPlan["actions"]!.items.take 2) ((tokenPlan["actions"]!)[2]!) []
    (by decide +kernel) (by decide +kernel) (ident 10).text
    (.inl (by decide +kernel : ∃ entry ∈ suppliedFor tokenVerified.specs (ident 10).text,
      bindsSecret (str "API_TOKEN") entry.2.1))
  cases hcomposed

end Permanu.AdmissionInputs
