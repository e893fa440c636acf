import PermanuAgent.AdmissionPolicies

/-!
# The destinations that policies use

A destination may be deleted when no policy uses it. The check folds the admitted settings
and deletions into one destination for each resource, as if all that may still apply had
applied. What is in use is the applied policy together with everything admitted after it,
so the check misses a policy that a newer undecided change follows.
-/

set_option autoImplicit false

namespace Permanu.AdmissionDestinations
open ByteText JsonValue PlanCrypto PlanAuthority List
open ResultSteps TableRows AdmissionStore AdmissionDefinitions AdmissionRun AdmissionSpecs
open AdmissionPolicies

/-- The preconditions accept the plan, and it deletes the destination. -/
def Deletes (store : Store) (p reference : Value) : Prop :=
  definitionPreconditions store p = .ok () ∧ ∃ action ∈ p["actions"]!.items,
    action["kind"]!.text = str "backup.destination.delete" ∧
      (action["params"]!)["destination_ref"]! = reference

/-- No applied policy, and none admitted after it that may still apply, names the destination. -/
def Unused (store : Store) (reference : Value) : Prop :=
  ∀ resource, ∀ policy ∈ backupPolicies store resource, policy["destination_ref"]! ≠ reference

def newestPolicy (store : Store) (resource : Str) : Option AdmittedAction :=
  (admittedActions store policyKinds).find? fun a =>
    !a.void && a.params["resource_id"]!.text == resource

/-- No policy in use that another change for its resource follows names the destination. -/
def FollowedUnused (store : Store) (reference : Value) : Prop :=
  ∀ resource, ∀ a ∈ currentAndPending (policyHistory store resource), isSet a = true →
    newestPolicy store resource ≠ some a → a.params["destination_ref"]! ≠ reference

variable {store : Store}

/-- The destination of a resource's newest policy is among those the check looks at. -/
theorem mem_policyDestinations {resource : Str} {a : AdmittedAction}
    (h : newestPolicy store resource = some a) (hset : isSet a = true) :
    (resource,a.params["destination_ref"]!) ∈ policyDestinations store := by
  unfold newestPolicy at h
  unfold policyDestinations
  rw [show ["backup.policy.set", "backup.policy.delete"] = policyKinds from rfl, filter_reverse,
    foldl_reverse]
  generalize admittedActions store policyKinds = actions at h ⊢
  induction actions with
  | nil => cases h
  | cons b rest ih =>
    by_cases hvoid : b.void = true
    · rw [find?_cons_of_neg (by simp [hvoid])] at h
      rw [filter_cons_of_neg (by simp [hvoid])]
      exact ih h
    rw [filter_cons_of_pos (by simp [hvoid]), foldr_cons]
    by_cases hsame : b.params["resource_id"]!.text = resource
    · rw [find?_cons_of_pos (by simp [hvoid, hsame])] at h
      obtain rfl := Option.some.inj h
      rw [if_pos (by simpa [isSet] using hset), hsame]
      exact mem_upsert_self _ _
    · rw [find?_cons_of_neg (by simp [hsame])] at h
      split
      · exact mem_upsert_of_ne _ _ (Ne.symm hsame) (ih h)
      · exact mem_filter.2 ⟨ih h,by simpa using Ne.symm hsame⟩

theorem definitionSteps_mem {before actions : List Value} {s : CronState}
    (h : definitionSteps store before s actions = .ok ()) {action : Value}
    (hmem : action ∈ actions) :
    ∃ earlier jobs next, definitionStep store earlier jobs action = .ok next := by
  induction actions generalizing before s with
  | nil => cases hmem
  | cons first rest ih =>
    obtain ⟨next,hfirst,hrest⟩ := bind_ok.1 h
    rcases mem_cons.1 hmem with rfl | hmem
    · exact ⟨_,_,next,hfirst⟩
    · exact ih hrest hmem

theorem Deletes.checked {p reference : Value} (h : Deletes store p reference) :
    destinationInUse store reference = false := by
  obtain ⟨hok,action,hmem,hkind,rfl⟩ := h
  obtain ⟨earlier,jobs,next,hstep⟩ := definitionSteps_mem hok hmem
  simp only [definitionStep, hkind] at hstep
  rw [if_neg (by decide), if_neg (by decide), if_neg (by decide), if_neg (by decide),
    if_neg (by decide), if_neg (by decide), if_neg (by decide), if_pos trivial, bind_ok] at hstep
  obtain ⟨_,hensure,-⟩ := hstep
  simpa using hensure

/-- A destination whose deletion is accepted is unused exactly when no policy in use that another
change follows names it. -/
theorem deleted_destination_unused_iff (store : Store) (p reference : Value) :
    (Deletes store p reference → Unused store reference) ↔
      (Deletes store p reference → FollowedUnused store reference) := by
  constructor
  · intro h hdeletes resource a ha hset _
    exact h hdeletes resource a.params (mem_map.2 ⟨a,mem_filter.2 ⟨ha,hset⟩,rfl⟩)
  · intro h hdeletes resource policy hpolicy
    obtain ⟨a,ha,rfl⟩ := mem_map.1 hpolicy
    obtain ⟨ha,hset⟩ := mem_filter.1 ha
    by_cases hnewest : newestPolicy store resource = some a
    · have hunused := hdeletes.checked
      rw [destinationInUse, any_eq_false] at hunused
      simpa using hunused _ (mem_policyDestinations hnewest hset)
    · exact h hdeletes resource a ha hset hnewest

def retirePlan : Value := samplePlan 63 "SAAAAAAAAAAAAAAAAAAAAA" 5 []
  [sampleAction "backup.policy.delete" [("resource_id",ident 10)]] false (hex protectPlanHead.val)

def retirePlanHash : Digest :=
  digestOfNat 0xedcc7db27550aab130bb6b194ee9a38eab4c62c1556cbd1f726980b6218f9927

def retirePlanSignature : Str :=
  bigEndian 32 0x988857698f96c78f008735c58a1b525f5e222b281f7c59677bfd6becfe34dabf ++
    bigEndian 32 0xd873b8e5bb5753da29c89b03f017ffb3762804958c59005552ecc36e89826bc6

def retirePrimitives : Primitives :=
  { policyPrimitives with
    sha256 := fun bytes =>
      if bytes = planPrefix ++ canonicalBytes retirePlan then retirePlanHash
      else if bytes = headPreimage (hex protectPlanHead.val) retirePlanHash then
        digestOfNat 0xc304f1c8b67218450ab8d28273e8cdc1b12c9435ff587b7a27d7e7def865026e
      else policyPrimitives.sha256 bytes
    ecdsaVerifies := fun point digest signature =>
      (point,digest,signature) = (ownerPoint,retirePlanHash,retirePlanSignature) ||
        policyPrimitives.ecdsaVerifies point digest signature }

def retireOps : List Op := protectedOps ++ [.admitPlan policyTrust
  (clientInput (sampleEnvelope retirePlan ownerKeyId retirePlanSignature) [] 1767312420)]

/-- The applied policy names the destination, and with its deletion pending the destination
may go. -/
theorem applied_destination_deleted :
    Deletes (storeAfter retirePrimitives noAlerts 1767312000 none retireOps)
      (.obj [("actions",.array [sampleAction "backup.destination.delete"
        [("destination_ref",.txt "offsite")]])]) (.txt "offsite") ∧
    ¬ Unused (storeAfter retirePrimitives noAlerts 1767312000 none retireOps) (.txt "offsite") := by
  have hrun : backupPolicies (storeAfter retirePrimitives noAlerts 1767312000 none retireOps)
        (ident 10).text = [samplePolicy 7] ∧
      definitionPreconditions (storeAfter retirePrimitives noAlerts 1767312000 none retireOps)
        (.obj [("actions",.array [sampleAction "backup.destination.delete"
          [("destination_ref",.txt "offsite")]])]) = .ok () := by
    decide +kernel
  refine ⟨⟨hrun.2,_,mem_cons_self,by decide,by decide⟩,fun h => ?_⟩
  refine h (ident 10).text (samplePolicy 7) ?_ (by decide)
  rw [hrun.1]
  exact mem_cons_self

end Permanu.AdmissionDestinations
