import PermanuAgent.AdmissionRun
import PermanuAgent.PlanAuthority

/-!
# The calls that carry a plan

SubmitSignedPlan, CancelOperation and Shell carry a signed plan. Each reads the envelope
before it is verified and refuses a plan of the wrong shape. What is left passes a rate
limit and the checks of the staged artifacts, and is then verified and admitted.

The unverified reading and the strict one see the same plan whenever the strict one
accepts the text. So a plan that is admitted has the shape that was checked.
-/

set_option autoImplicit false

namespace Permanu.PlanSubmission
open ByteText JsonValue JsonReader PlanText PlanCrypto List Option Value
open PlanActions PlanTrust PlanVerify PlanJcs ResultSteps

open AdmissionStore AdmissionAdmit AdmissionWrite AdmissionRun

structure SignedPlan where
  envelope : Str
  specs : List Str
  sealedSecrets : List Str
  deriving DecidableEq, Repr

inductive Status where
  | invalidArgument (message : String)
  | notFound (message : String)
  | failedPrecondition (message : Str)
  | unavailable (message : Str)
  | rateLimited (message : String)
  | limitExceeded (message : String)
  | artifactNotStaged
  | notSupportedYet (action : Str)
  | plan (code : PlanCode)
  deriving DecidableEq, Repr

structure OperationRef where
  operationId : Str
  planDigestHex : Str
  acceptedAt : Str
  deduplicated : Bool
  planId : Str
  deriving DecidableEq, Repr

def envelopeActions (envelope : Str) : Option (List Value) :=
  (readJson envelope).bind fun parsed => (parsed["plan"]!)["actions"]!.asArray

def holdsKind (envelope : Str) (kind : String) : Bool :=
  ((envelopeActions envelope).map fun actions => actions.any fun a => a["kind"]!.is kind).getD false

def shellParams (envelope : Str) : Option Value :=
  match envelopeActions envelope with
  | some [action] => if action["kind"]!.is "shell.open" then some action["params"]! else none
  | _ => none

def namesTarget (target : AdmissionRow) (parsed : Value) : Bool :=
  match (parsed["plan"]!)["actions"]!.items with
  | [action] => action["kind"]!.is "operation.cancel" &&
      (action["params"]!)["plan_id"]! == .string target.planId &&
      (action["params"]!)["plan_digest_hex"]! == .string target.planDigestHex
  | _ => false

def stagesArtifacts (action : Value) : Bool :=
  action["kind"]!.is "agent.update" ||
    (action["kind"]!.is "component.update" && !(action["params"]!)["component"]!.is "os_packages")

def updateDigests (envelope : Str) : List Str :=
  (((envelopeActions envelope).getD []).filter stagesArtifacts).map fun a =>
    (a["params"]!)["bundle_manifest_digest_hex"]!.text

def unsupportedAction (action : Value) : Option Str :=
  let component := (action["params"]!)["component"]!
  if action["kind"]!.is "agent.update" then some (str "agent.update")
  else if action["kind"]!.is "component.update" &&
      (component.is "runner" || component.is "permanu-env") then
    some (str "component.update(" ++ component.text ++ str ")")
  else none

def notSupportedYet (envelope : Str) : Option Str :=
  if maxSignedPlanBytes < envelope.length then none
  else (envelopeActions envelope).bind fun actions => actions.findSome? unsupportedAction

inductive Limit where
  | submissions
  | hostShell
  deriving DecidableEq, Repr

def Limit.message : Limit → String
  | .submissions => "at most 10 plan submissions per minute"
  | .hostShell => "at most 20 host shell opens per hour"

structure Limits where
  submissions : List ℤ
  hostShells : List ℤ
  deriving DecidableEq, Repr

def submissionsPerMinute : ℕ := 10
def hostShellsPerHour : ℕ := 20

def takeSlot (entries : List ℤ) (limit : ℕ) (window now : ℤ) : List ℤ × Bool :=
  let recent := entries.dropWhile fun taken => decide (window < now - taken)
  if limit ≤ recent.length then (recent,false) else (recent ++ [now],true)

def Limits.take (limits : Limits) (now : ℤ) : Limit → Limits × Bool
  | .submissions =>
    let taken := takeSlot limits.submissions submissionsPerMinute (60 * 1000000000) now
    ({ limits with submissions := taken.1 },taken.2)
  | .hostShell =>
    let taken := takeSlot limits.hostShells hostShellsPerHour (3600 * 1000000000) now
    ({ limits with hostShells := taken.1 },taken.2)

/-- The checks before an admission; `staged` are the staged sets of an agent with a staging root. -/
def gate (limits : Limits) (limit : Limit) (instant : ℤ) (staged : Option (List Str))
    (plan : Option SignedPlan) : Limits × Except Status SignedPlan :=
  let taken := limits.take instant limit
  (taken.1,
    if !taken.2 then .error (.rateLimited limit.message)
    else match plan, staged with
      | none, _ => .error (.plan .parse)
      | some plan, some staged =>
        if (updateDigests plan.envelope).all staged.contains then .ok plan
        else .error .artifactNotStaged
      | some plan, none =>
        match notSupportedYet plan.envelope with
        | some action => .error (.notSupportedYet action)
        | none => .ok plan)

variable (prim : Primitives) (alerts : AlertSpecs)

inductive TrustState where
  | valid (store : TrustStore)
  | invalid
  | absent

structure Host where
  trust : TrustState
  sshHostKeyDigests : List Str
  ageRecipient : Str
  now : ℤ
  buildStarts : List (Str × ℤ)

def specTexts (specs : List Str) : Policy (List Str) :=
  if maxSpecs < specs.length || specs.any (fun text => (chars text).isNone) then
    .error .specMismatch
  else .ok specs

def verify (store : Store) (host : Host) (plan : SignedPlan) : Policy (Value × Str) := do
  let specs ← specTexts plan.specs
  let parsed : Policy (Value × Str) := do
    let (p,_) ← parseEnvelope prim plan.envelope
    let digest ← planDigestHex prim p
    return (p,digest)
  match host.trust with
  | .valid trust =>
    match ← verifyOnly prim alerts store trust
        ⟨plan.envelope,specs,plan.sealedSecrets,.client,host.now,[],host.buildStarts⟩ with
    | .admitted v => return (v.plan,v.digestHex)
    | .deduped _ _ => parsed
  | .invalid => .error .trustStoreInvalid
  | .absent => do
    let _ ← verifyBootstrap prim plan.envelope host.sshHostKeyDigests host.ageRecipient host.now
    parsed

def verifiedExisting (store : Store) (host : Host) (plan : SignedPlan) :
    Except Status (Option OperationRef) :=
  match parseEnvelope prim plan.envelope with
  | .error code => .error (.plan code)
  | .ok (candidate,_) =>
    match store.admission candidate["id"]!.text with
    | none => .ok none
    | some existing =>
      match verify prim alerts store host plan with
      | .error code => .error (.plan code)
      | .ok (verified,digest) =>
        if verified["id"]!.asStr = some existing.planId ∧ digest = existing.planDigestHex then
          .ok (some ⟨existing.operationId,existing.planDigestHex,existing.admittedAt,true,
            existing.planId⟩)
        else .error (.plan .replay)

def submitChecks (store : Store) (host : Host) (plan : Option SignedPlan) :
    Except Status (Option OperationRef) :=
  match plan with
  | none => .ok none
  | some plan =>
    if holdsKind plan.envelope "shell.open" then .error (.plan .execPrecondition)
    else verifiedExisting prim alerts store host plan

def cancelChecks (store : Store) (operationId : Str) (plan : Option SignedPlan) :
    Except Status SignedPlan :=
  if !uuid7 operationId then .error (.invalidArgument "operation_id must be a UUIDv7")
  else match store.admissions.find? fun row => row.operationId == operationId with
    | none => .error (.notFound "unknown operation")
    | some target =>
      match plan with
      | none => .error (.plan .parse)
      | some plan =>
        match readJson plan.envelope with
        | none => .error (.plan .parse)
        | some parsed =>
          if namesTarget target parsed then .ok plan else .error (.plan .execPrecondition)

/-- The answer of the trust file, read again for the admission and written by a bootstrap, and what
the admission draws. -/
structure Draw where
  trust : Policy TrustStore
  now : ℤ
  random : Str
  buildStarts : List (Str × ℤ)

def Draw.input (draw : Draw) (plan : SignedPlan) (submitter : Submitter) : AdmitInput :=
  ⟨plan.envelope,plan.specs,plan.sealedSecrets,submitter,draw.now,draw.random,draw.buildStarts⟩

def submit (store : Store) (draw : Draw) (plan : SignedPlan) (submitter : Submitter) :
    Policy (Store × Admission) := do
  let _ ← specTexts plan.specs
  ensure (decide (plan.sealedSecrets.length ≤ maxSealedSecrets)) .execPrecondition
  ensure (decide (plan.envelope.length ≤ maxSignedPlanBytes)) .parse
  let trust ← draw.trust
  admitPlan prim alerts store trust (draw.input plan submitter)

section shapes

variable {prim} {text : Str} {p : Value} {signatures : List Value}

/-- The strict reading of an envelope and the one before it give the same plan. -/
theorem parseEnvelope_readJson (h : parseEnvelope prim text = .ok (p,signatures)) :
    ∃ parsed, readJson text = some parsed ∧ p = parsed["plan"]! := by
  unfold parseEnvelope at h
  cases hstrict : parseStrict text maxSignedPlanBytes with
  | none =>
    rw [hstrict] at h
    cases h
  | some envelope =>
    rw [hstrict] at h
    have hread : readJson text = some envelope := by
      unfold parseStrict at hstrict
      split at hstrict
      · cases hstrict
      split at hstrict
      · cases hstrict
      split at hstrict
      · cases hstrict
      cases hvalue : readJson text with
      | none =>
        rw [hvalue] at hstrict
        cases hstrict
      | some value =>
        rw [hvalue] at hstrict
        dsimp only at hstrict
        split at hstrict
        · exact hstrict
        · cases hstrict
    refine ⟨envelope,hread,?_⟩
    dsimp only at h
    split at h
    · cases h
    split at h
    · cases h
    split at h
    · cases h
    split at h
    · cases h
    · cases h
      rfl

theorem kindsOf_shellParams (h : parseEnvelope prim text = .ok (p,signatures))
    (hshell : (shellParams text).isSome = true) : kindsOf p = [str "shell.open"] := by
  obtain ⟨parsed,hread,rfl⟩ := parseEnvelope_readJson h
  obtain ⟨params,hparams⟩ := isSome_iff_exists.1 hshell
  unfold shellParams at hparams
  split at hparams
  · next action hactions =>
    split at hparams
    · next hkind =>
      rw [envelopeActions, hread, bind_some] at hactions
      rw [kindsOf, items, hactions, getD_some, filterMap_cons,
        is_iff.1 hkind]
      rfl
    · cases hparams
  · cases hparams

theorem kindsOf_holdsKind (h : parseEnvelope prim text = .ok (p,signatures)) {kind : String}
    (hkind : holdsKind text kind = false) : str kind ∉ kindsOf p := by
  obtain ⟨parsed,hread,rfl⟩ := parseEnvelope_readJson h
  intro hmem
  obtain ⟨action,haction,hname⟩ := mem_filterMap.1 hmem
  rw [holdsKind, envelopeActions, hread, bind_some] at hkind
  rw [items] at haction
  cases hactions : (parsed["plan"]!)["actions"]!.asArray with
  | none =>
    rw [hactions] at haction
    cases haction
  | some actions =>
    rw [hactions] at haction hkind
    have hfound : action["kind"]!.is kind = true := by
      rw [is_iff]
      cases hvalue : action["kind"]! with
      | string name =>
        rw [hvalue] at hname
        exact congrArg string (Option.some.inj hname)
      | _ =>
        rw [hvalue] at hname
        cases hname
    exact Bool.eq_false_iff.1 hkind (any_eq_true.2 ⟨action,haction,hfound⟩)

end shapes

section admissions

variable {prim} {alerts} {store after : Store} {draw : Draw} {plan : SignedPlan}
  {submitter : Submitter} {result : Admission}

theorem writeAdmission_planId {v : VerifiedPlan} {input : AdmitInput} {supplied : List (Str × Str)}
    (h : writeAdmission prim store v input supplied = .ok (after,result)) :
    result.planId = v.plan["id"]!.text := by
  simp only [writeAdmission, bind_ok, pure_ok, Prod.mk.injEq] at h
  obtain ⟨_,-,_,-,_,-,_,-,_,-,_,-,_,-,-,rfl⟩ := h
  rfl

/-- A submission answers with an admission that is known, or it admits the plan of its envelope. -/
theorem submit_ok (h : submit prim alerts store draw plan submitter = .ok (after,result)) :
    result.deduplicated = true ∧ after = store ∨
      result.deduplicated = false ∧ ∃ trust v,
        Admits prim alerts store trust (draw.input plan submitter) v after ∧
        result.planId = v.plan["id"]!.text := by
  simp only [submit, bind_ok] at h
  obtain ⟨_,-,_,-,_,-,trust,-,h⟩ := h
  rcases admitPlan_ok prim h with hknown | ⟨hfresh,v,hv⟩
  · exact .inl hknown
  · refine .inr ⟨hfresh,trust,v,hv,?_⟩
    have hverified := hv.verified
    obtain ⟨supplied,hsupplied⟩ := hv.ready
    simp only [admitPlan, bind_ok] at h
    obtain ⟨_,-,verdict,hverdict,h⟩ := h
    rw [hverified] at hverdict
    cases hverdict
    dsimp only at h
    rw [hsupplied] at h
    exact writeAdmission_planId h

end admissions

end Permanu.PlanSubmission
