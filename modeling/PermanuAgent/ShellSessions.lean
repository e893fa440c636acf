import PermanuAgent.PlanSubmission
import PermanuAgent.RunnerRequests

/-!
# Shell sessions

A Shell call takes one of four slots before anything else. It checks that its plan is one
shell.open, has the plan admitted, binds the action, and sends the runner a shell_open
request whose connection is the session. The slot is given back when the session has
ended, when the call is refused and when its client leaves.

Calls interleave at every point where one waits. An admission that has begun is written
even when the client of its call has left. The executor, the webhooks and the reconciler
work on the same store and the same runner. The agent may start again at any point.
-/

set_option autoImplicit false

namespace Permanu.ShellSessions
open ByteText JsonReader PlanCrypto PlanTrust List
open PlanVerify PlanActions PlanAuthority TableRows
open AdmissionStore AdmissionAdmit AdmissionRun PlanSubmission
open RunnerRequests

def maxShells : ℕ := 4
def shellLimitMessage : String := "at most 4 concurrent shells"

inductive RunnerRequest where
  | shellOpen (plan : PlanRef)
  | executor (request : Request)
  deriving DecidableEq, Repr

def RunnerRequest.op : RunnerRequest → String
  | .shellOpen _ => "shell_open"
  | .executor (.bindPlan _) => "bind_plan"
  | .executor (.runOp op _) => op.name

def RunnerRequest.plan : RunnerRequest → PlanRef
  | .shellOpen plan => plan
  | .executor request => request.plan

inductive Rpc where
  | shell
  | submitSignedPlan
  | cancelOperation
  deriving DecidableEq, Repr

inductive ClientFrame where
  | «open» (plan : Option SignedPlan)
  | other
  deriving DecidableEq, Repr

inductive Ending where
  | refused (status : Status)
  | accepted (operation : OperationRef)
  | closed
  | dropped
  deriving DecidableEq, Repr

inductive Phase where
  | checked (plan : Option SignedPlan) (limit : Limit)
  /-- The client has left; the admission may still be written. -/
  | left (plan : Option SignedPlan) (limit : Limit)
  | admitted (planId : Str)
  | binding (record : AdmissionRow) (action : ActionRow)
  | bound (record : AdmissionRow) (action : ActionRow)
  | opening (plan : PlanRef)
  | session (plan : PlanRef)
  | ended (ending : Ending)
  deriving DecidableEq, Repr

def Phase.holdsSlot : Phase → Bool
  | .left _ _ | .ended _ => false
  | .checked _ _ | .admitted _ | .binding _ _ | .bound _ _ | .opening _ | .session _ => true

def Phase.connected : Phase → Bool
  | .opening _ | .session _ => true
  | .checked _ _ | .left _ _ | .admitted _ | .binding _ _ | .bound _ _ | .ended _ => false

structure Call where
  rpc : Rpc
  fresh : Option Str
  phase : Phase
  deriving DecidableEq, Repr

def Call.slots (call : Call) : ℕ := if call.rpc = .shell ∧ call.phase.holdsSlot = true then 1 else 0

structure World where
  store : Store
  limits : Limits
  permits : ℕ
  calls : List Call
  /-- The requests to the runner, each with the call that made it. -/
  sent : List (Option ℕ × RunnerRequest)

def start (now : ℤ) (quarantine : Option ℤ) : World :=
  ⟨createdStore now quarantine,⟨[],[]⟩,maxShells,[],[]⟩

def World.join (w : World) (call : Call) : World := { w with calls := w.calls ++ [call] }

def World.refuse (w : World) (rpc : Rpc) (status : Status) : World :=
  w.join ⟨rpc,none,.ended (.refused status)⟩

def World.set (w : World) (i : ℕ) (call : Call) : World := { w with calls := w.calls.set i call }

def World.finish (w : World) (i : ℕ) (call : Call) (ending : Ending) : World :=
  { w.set i { call with phase := .ended ending } with permits := w.permits + call.slots }

def World.send (w : World) (call : Option ℕ) (request : RunnerRequest) : World :=
  { w with sent := w.sent ++ [(call,request)] }

def shell (w : World) : Option ClientFrame → World
  | some (.open plan) =>
    if w.permits = 0 then w.refuse .shell (.limitExceeded shellLimitMessage)
    else match plan with
      | none => w.refuse .shell (.plan .parse)
      | some plan =>
        match shellParams plan.envelope with
        | none => w.refuse .shell (.plan .execPrecondition)
        | some params =>
          let limit := if params["service_id"]!.isNull then .hostShell else .submissions
          { w.join ⟨.shell,none,.checked (some plan) limit⟩ with permits := w.permits - 1 }
  | some .other | none => w.refuse .shell (.invalidArgument "the first frame must be ShellOpen")

def beginSubmit (prim : Primitives) (alerts : AlertSpecs) (w : World) (rpc : Rpc) (host : Host)
    (plan : Option SignedPlan) : World :=
  match submitChecks prim alerts w.store host plan with
  | .error status => w.refuse rpc status
  | .ok (some operation) => w.join ⟨rpc,none,.ended (.accepted operation)⟩
  | .ok none => w.join ⟨rpc,none,.checked plan .submissions⟩

def submitSignedPlan (prim : Primitives) (alerts : AlertSpecs) (w : World) (host : Host)
    (plan : Option SignedPlan) : World :=
  beginSubmit prim alerts w .submitSignedPlan host plan

def cancelOperation (prim : Primitives) (alerts : AlertSpecs) (w : World) (host : Host)
    (operationId : Str) (plan : Option SignedPlan) : World :=
  match cancelChecks w.store operationId plan with
  | .error status => w.refuse .cancelOperation status
  | .ok plan => beginSubmit prim alerts w .cancelOperation host (some plan)

def afterAdmission (w : World) (i : ℕ) (call : Call) (admission : Admission) : World :=
  if admission.deduplicated then
    match call.phase, call.rpc with
    | .left _ _, _ => w.finish i call .dropped
    -- One signed shell.open opens one session.
    | _, .shell => w.finish i call (.refused (.plan .execPrecondition))
    | _, _ => w.finish i call (.accepted ⟨admission.operationId,admission.planDigestHex,
        admission.admittedAt,true,admission.planId⟩)
  else
    let fresh := { call with fresh := some admission.planId }
    match call.phase, call.rpc with
    | .left _ _, _ => w.finish i fresh .dropped
    | _, .shell => w.set i { fresh with phase := .admitted admission.planId }
    | _, _ => w.finish i fresh (.accepted ⟨admission.operationId,admission.planDigestHex,
        admission.admittedAt,false,admission.planId⟩)

def admitLimited (prim : Primitives) (alerts : AlertSpecs) (w : World) (i : ℕ) (call : Call)
    (limit : Limit) (instant : ℤ) (staged : Option (List Str)) (draw : Draw)
    (plan : Option SignedPlan) : World :=
  let gated := gate w.limits limit instant staged plan
  match gated.2 with
  | .error status => World.finish { w with limits := gated.1 } i call (.refused status)
  | .ok plan =>
    match submit prim alerts w.store draw plan .client with
    | .error code => World.finish { w with limits := gated.1 } i call (.refused (.plan code))
    | .ok (store,admission) =>
      afterAdmission { w with limits := gated.1, store := store } i call admission

def bindShell (w : World) (i : ℕ) (call : Call) (planId : Str) : World :=
  match w.store.admission planId with
  | none => w.finish i call (.refused (.failedPrecondition (str "admission not found")))
  | some record =>
    match (actionsOf w.store planId).find? fun a =>
        a.actionIndex == 0 && a.kind == str "shell.open" with
    | none => w.finish i call (.refused (.failedPrecondition (str "no shell.open action")))
    | some action =>
      if action.finishedAt.isSome then
        w.finish i call (.refused (.failedPrecondition (str "the shell.open action already ended")))
      else if action.consumedAt.isSome then w.set i { call with phase := .bound record action }
      else
        (w.set i { call with phase := .binding record action }).send (some i)
          (.executor (.bindPlan (planRef record action)))

def bound (w : World) (i : ℕ) (call : Call) (record : AdmissionRow) (action : ActionRow)
    (answer : Answer) : World :=
  match answer.result with
  | .ok () => w.set i { call with phase := .bound record action }
  | .error failure =>
    if failure.code = str "E_PLAN_CONSUMED" then
      w.set i { call with phase := .bound record action }
    else w.finish i call (.refused (.failedPrecondition (describe failure)))

inductive FirstLine where
  | failed (message : Str)
  | ready
  | other (code : Str)
  | closed
  deriving DecidableEq, Repr

def opened (w : World) (i : ℕ) (call : Call) (plan : PlanRef) : FirstLine → World
  | .failed message => w.finish i call (.refused (.unavailable
      (str "the runner did not open the shell: " ++ message)))
  | .ready => w.set i { call with phase := .session plan }
  | .other code =>
    if code = str "E_SHELL_LIMIT" then
      w.finish i call (.refused (.limitExceeded shellLimitMessage))
    else w.finish i call (.refused (.failedPrecondition
      (str "the runner refused the shell (" ++ code ++ str ")")))
  | .closed => w.finish i call (.refused (.unavailable (str "the runner closed the shell")))

def drop (w : World) (i : ℕ) (call : Call) : World :=
  match call.phase with
  | .checked plan limit =>
    { w.set i { call with phase := .left plan limit } with permits := w.permits + call.slots }
  | .admitted _ | .binding _ _ | .bound _ _ | .opening _ => w.finish i call .dropped
  | .left _ _ | .session _ | .ended _ => w

def Call.cut (call : Call) : Call :=
  match call.phase with
  | .ended _ => call
  | _ => { call with phase := .ended .dropped }

def restart (w : World) : World := { w with calls := w.calls.map Call.cut, permits := maxShells }

inductive Event where
  | shell (first : Option ClientFrame)
  | submitSignedPlan (host : Host) (plan : Option SignedPlan)
  | cancelOperation (host : Host) (operationId : Str) (plan : Option SignedPlan)
  | admission (call : ℕ) (instant : ℤ) (staged : Option (List Str)) (draw : Draw)
  | bindShell (call : ℕ)
  | bound (call : ℕ) (answer : Answer)
  | openShell (call : ℕ)
  | opened (call : ℕ) (line : FirstLine)
  | closed (call : ℕ)
  | dropped (call : ℕ)
  | executor (request : Request)
  | webhook (trust : TrustStore) (input : AdmitInput)
  | store (op : Op)
  | restart

def writtenByRule (envelope : Str) : Bool :=
  (readJson envelope).any fun parsed => isRulePlan parsed["plan"]!

def admits : Op → Bool
  | .admitPlan _ _ => true
  | _ => false

def onCall (w : World) (i : ℕ) (act : Call → World) : World :=
  match w.calls[i]? with
  | some call => act call
  | none => w

def step (prim : Primitives) (alerts : AlertSpecs) (w : World) : Event → World
  | .shell first => shell w first
  | .submitSignedPlan host plan => submitSignedPlan prim alerts w host plan
  | .cancelOperation host operationId plan => cancelOperation prim alerts w host operationId plan
  | .admission i instant staged draw => onCall w i fun call =>
    match call.phase with
    | .checked plan limit | .left plan limit =>
      admitLimited prim alerts w i call limit instant staged draw plan
    | _ => w
  | .bindShell i => onCall w i fun call =>
    match call.phase with
    | .admitted planId => bindShell w i call planId
    | _ => w
  | .bound i answer => onCall w i fun call =>
    match call.phase with
    | .binding record action => bound w i call record action answer
    | _ => w
  | .openShell i => onCall w i fun call =>
    match call.phase with
    | .bound record action =>
      (w.set i { call with phase := .opening (planRef record action) }).send (some i)
        (.shellOpen (planRef record action))
    | _ => w
  | .opened i line => onCall w i fun call =>
    match call.phase with
    | .opening plan => opened w i call plan line
    | _ => w
  | .closed i => onCall w i fun call =>
    match call.phase with
    | .session _ => w.finish i call .closed
    | _ => w
  | .dropped i => onCall w i (drop w i)
  | .executor request => w.send none (.executor request)
  | .webhook trust input =>
    if writtenByRule input.envelope then
      { w with store := AdmissionRun.step prim alerts w.store (.admitPlan trust input) }
    else w
  | .store op =>
    if admits op then w else { w with store := AdmissionRun.step prim alerts w.store op }
  | .restart => restart w

def opensShell (planId : Str) (entry : Option ℕ × RunnerRequest) : Bool :=
  entry.2.op == "shell_open" && entry.2.plan.planId == planId

/-- The shell plans of the store, the requests for sessions and the open sessions. -/
structure OneSession (w : World) : Prop where
  alone : ∀ row ∈ w.store.admissions, str "shell.open" ∈ row.actionKinds →
    row.actionKinds = [str "shell.open"]
  submitted : ∀ row ∈ w.store.admissions, str "shell.open" ∈ row.actionKinds →
    (∃ call ∈ w.calls, call.fresh = some row.planId) ∧
      ∀ call ∈ w.calls, call.fresh = some row.planId → call.rpc = .shell
  once : ∀ planId, w.sent.countP (opensShell planId) ≤ 1
  /-- Every request for a session is that of a Shell call, for the plan that it admitted. -/
  requested : ∀ entry ∈ w.sent, entry.2.op = "shell_open" →
    ∃ i call row, entry.1 = some i ∧ w.calls[i]? = some call ∧ call.rpc = .shell ∧
      row ∈ w.store.admissions ∧ row.actionKinds = [str "shell.open"] ∧
      call.fresh = some row.planId ∧ entry.2.plan.planId = row.planId
  sessions : w.calls.countP (fun call => call.phase.connected) ≤ maxShells

def Phase.early : Phase → Bool
  | .checked _ _ | .left _ _ | .admitted _ | .binding _ _ | .bound _ _ => true
  | .opening _ | .session _ | .ended _ => false

def shapeOk (rpc : Rpc) (plan : Option SignedPlan) : Prop :=
  ∀ signed ∈ plan, if rpc = .shell then (shellParams signed.envelope).isSome = true
    else holdsKind signed.envelope "shell.open" = false

def Call.Ok (call : Call) : Prop :=
  match call.phase with
  | .checked plan _ | .left plan _ => call.fresh = none ∧ shapeOk call.rpc plan
  | .admitted planId => call.rpc = .shell ∧ call.fresh = some planId
  | .binding record _ | .bound record _ => call.rpc = .shell ∧ call.fresh = some record.planId
  | .opening plan | .session plan => call.rpc = .shell ∧ call.fresh = some plan.planId
  | .ended _ => True

def kindsOk (rpc : Rpc) (kinds : List Str) : Prop :=
  if rpc = .shell then kinds = [str "shell.open"] else str "shell.open" ∉ kinds

def listed (store : Store) : List (Str × List Str) :=
  store.admissions.map fun row => (row.planId,row.actionKinds)

abbrev View := Rpc × Option Str

def Call.view (call : Call) : View := (call.rpc,call.fresh)

structure Sound (plans : List (Str × List Str)) (views : List View)
    (sent : List (Option ℕ × RunnerRequest)) : Prop where
  distinct : ∀ (i j : ℕ) (view other : View) planId, views[i]? = some view →
    views[j]? = some other → view.2 = some planId → other.2 = some planId → i = j
  known : ∀ view ∈ views, ∀ planId, view.2 = some planId → planId ∈ plans.map Prod.fst
  kinds : ∀ view ∈ views, ∀ plan ∈ plans, view.2 = some plan.1 → kindsOk view.1 plan.2
  shells : ∀ plan ∈ plans, str "shell.open" ∈ plan.2 → (Rpc.shell,some plan.1) ∈ views
  owned : ∀ entry ∈ sent, entry.2.op = "shell_open" → ∃ i, entry.1 = some i ∧
    views[i]? = some (.shell,some entry.2.plan.planId)
  once : ∀ planId, sent.countP (opensShell planId) ≤ 1

theorem getElem?_set_cases {α : Type} {j : ℕ} {items : List α} {other : α} {i : ℕ} {next : α}
    (h : (items.set i next)[j]? = some other) :
    j = i ∧ other = next ∨ j ≠ i ∧ items[j]? = some other := by
  by_cases hj : j = i
  · subst hj
    rw [getElem?_set_self'] at h
    cases hold : items[j]? with
    | none =>
      rw [hold] at h
      cases h
    | some before =>
      rw [hold] at h
      exact .inl ⟨rfl,(Option.some.inj h).symm⟩
  · rw [getElem?_set_ne (Ne.symm hj)] at h
    exact .inr ⟨hj,h⟩

theorem getElem?_join_cases {α : Type} {j : ℕ} {items : List α} {other : α} {next : α}
    (h : (items ++ [next])[j]? = some other) : other = next ∨ items[j]? = some other := by
  rcases Nat.lt_or_ge j items.length with hless | hmore
  · rw [getElem?_append_left hless] at h
    exact .inr h
  · rw [getElem?_append_right hmore] at h
    exact .inl (mem_singleton.1 (mem_of_getElem? h))

theorem Sound.join {plans : List (Str × List Str)} {views : List View}
    {sent : List (Option ℕ × RunnerRequest)} {rpc : Rpc} (h : Sound plans views sent) :
    Sound plans (views ++ [(rpc,none)]) sent := by
  have hback : ∀ {view : View} {planId : Str}, view ∈ views ++ [(rpc,none)] →
      view.2 = some planId → view ∈ views := by
    intro view planId hview hplan
    rcases mem_append.1 hview with hold | hlast
    · exact hold
    · rw [mem_singleton.1 hlast] at hplan
      cases hplan
  refine ⟨?_,?_,?_,?_,?_,h.once⟩
  · intro j k a b planId ha hb hplana hplanb
    rcases getElem?_join_cases ha with rfl | ha'
    · cases hplana
    rcases getElem?_join_cases hb with rfl | hb'
    · cases hplanb
    exact h.distinct j k a b planId ha' hb' hplana hplanb
  · exact fun view hview planId hplan => h.known view (hback hview hplan) planId hplan
  · exact fun view hview plan hplan hsame => h.kinds view (hback hview hsame) plan hplan hsame
  · exact fun plan hplan hshell => mem_append_left _ (h.shells plan hplan hshell)
  · intro entry hentry hop
    obtain ⟨j,hfrom,hview⟩ := h.owned entry hentry hop
    obtain ⟨hlength,-⟩ := List.getElem?_eq_some_iff.1 hview
    exact ⟨j,hfrom,(getElem?_append_left hlength).trans hview⟩

/-- No request for a session names a plan that is not listed. -/
theorem Sound.unasked {planId : Str} {plans : List (Str × List Str)} {views : List View}
    {sent : List (Option ℕ × RunnerRequest)} (h : Sound plans views sent)
    (hnew : planId ∉ plans.map Prod.fst) : sent.countP (opensShell planId) = 0 := by
  refine countP_eq_zero.2 fun entry hentry hopens => hnew ?_
  rw [opensShell, Bool.and_eq_true, beq_iff_eq, beq_iff_eq] at hopens
  obtain ⟨j,-,hview⟩ := h.owned entry hentry hopens.1
  exact hopens.2 ▸ h.known _ (mem_of_getElem? hview) _ rfl

/-- A plan that no call has admitted, without a shell.open. -/
theorem Sound.plan {planId : Str} {kinds : List Str} {plans : List (Str × List Str)}
    {views : List View} {sent : List (Option ℕ × RunnerRequest)} (h : Sound plans views sent)
    (hnew : planId ∉ plans.map Prod.fst) (hkinds : str "shell.open" ∉ kinds) :
    Sound (plans ++ [(planId,kinds)]) views sent := by
  refine { h with known := ?_, kinds := ?_, shells := ?_ }
  · intro view hview found hplan
    rw [map_append]
    exact mem_append_left _ (h.known view hview found hplan)
  · intro view hview
    refine forall_mem_append.2 ⟨h.kinds view hview,forall_mem_singleton.2 fun hsame => ?_⟩
    exact absurd (h.known view hview planId hsame) hnew
  · exact forall_mem_append.2
      ⟨h.shells,forall_mem_singleton.2 fun hshell => absurd hshell hkinds⟩

theorem Sound.admission {planId : Str} {kinds : List Str} {plans : List (Str × List Str)}
    {views : List View} {sent : List (Option ℕ × RunnerRequest)} {i : ℕ} {rpc : Rpc}
    (h : Sound plans views sent) (hview : views[i]? = some (rpc,none))
    (hnew : planId ∉ plans.map Prod.fst) (hkinds : kindsOk rpc kinds) :
    Sound (plans ++ [(planId,kinds)]) (views.set i (rpc,some planId)) sent := by
  have hkeep : ∀ {j : ℕ} {service : Rpc} {found : Str}, views[j]? = some (service,some found) →
      (views.set i (rpc,some planId))[j]? = some (service,some found) := by
    intro j service found hother
    rw [getElem?_set_ne]
    · exact hother
    · rintro rfl
      rw [hview] at hother
      cases hother
  have hself : (rpc,some planId) ∈ views.set i (rpc,some planId) := by
    obtain ⟨hlength,-⟩ := List.getElem?_eq_some_iff.1 hview
    exact mem_set hlength _
  refine ⟨?_,?_,?_,?_,?_,h.once⟩
  · intro j k a b found ha hb hplana hplanb
    rcases getElem?_set_cases ha with ⟨rfl,rfl⟩ | ⟨-,ha'⟩ <;>
      rcases getElem?_set_cases hb with ⟨rfl,rfl⟩ | ⟨-,hb'⟩
    · rfl
    · cases hplana
      exact absurd (h.known b (mem_of_getElem? hb') planId hplanb) hnew
    · cases hplanb
      exact absurd (h.known a (mem_of_getElem? ha') planId hplana) hnew
    · exact h.distinct j k a b found ha' hb' hplana hplanb
  · intro view hmem found hplan
    rw [map_append]
    rcases mem_or_eq_of_mem_set hmem with hold | rfl
    · exact mem_append_left _ (h.known view hold found hplan)
    · cases hplan
      exact mem_append_right _ mem_cons_self
  · intro view hmem plan hplan hsame
    rcases mem_or_eq_of_mem_set hmem with hold | rfl <;>
      rcases mem_append.1 hplan with hlisted | hlast
    · exact h.kinds view hold plan hlisted hsame
    · rw [mem_singleton.1 hlast] at hsame
      exact absurd (h.known view hold planId hsame) hnew
    · obtain rfl := Option.some.inj hsame
      exact absurd (mem_map.2 ⟨plan,hlisted,rfl⟩) hnew
    · rw [mem_singleton.1 hlast]
      exact hkinds
  · intro plan hplan hshell
    rcases mem_append.1 hplan with hlisted | hlast
    · obtain ⟨j,hj⟩ := getElem?_of_mem (h.shells plan hlisted hshell)
      exact mem_of_getElem? (hkeep hj)
    · rw [mem_singleton.1 hlast] at hshell ⊢
      have hrpc : rpc = .shell := by
        by_contra hother
        rw [kindsOk, if_neg hother] at hkinds
        exact hkinds hshell
      exact hrpc ▸ hself
  · intro entry hentry hop
    obtain ⟨j,hfrom,hother⟩ := h.owned entry hentry hop
    exact ⟨j,hfrom,hkeep hother⟩

theorem executor_op {request : Request} : (RunnerRequest.executor request).op ≠ "shell_open" := by
  cases request with
  | bindPlan plan => exact (by decide : "bind_plan" ≠ "shell_open")
  | runOp op plan => exact op.name_ne_shellOpen

theorem countP_executor {sent : List (Option ℕ × RunnerRequest)} (sender : Option ℕ)
    (request : Request) (planId : Str) :
    (sent ++ [(sender,RunnerRequest.executor request)]).countP (opensShell planId) =
      sent.countP (opensShell planId) := by
  have hnone : opensShell planId (sender,RunnerRequest.executor request) = false := by
    rw [opensShell, beq_eq_false_iff_ne.2 executor_op, Bool.false_and]
  rw [countP_append, countP_singleton, hnone]
  rfl

/-- A request of the executor, or the binding of a shell. -/
theorem Sound.executor {request : Request} {sender : Option ℕ} {plans : List (Str × List Str)}
    {views : List View} {sent : List (Option ℕ × RunnerRequest)} (h : Sound plans views sent) :
    Sound plans views (sent ++ [(sender,.executor request)]) := by
  refine { h with owned := ?_, once := ?_ }
  · exact forall_mem_append.2
      ⟨h.owned,forall_mem_singleton.2 fun hop => absurd hop executor_op⟩
  · intro planId
    rw [countP_executor]
    exact h.once planId

theorem countP_shellOpen {sent : List (Option ℕ × RunnerRequest)} (sender : Option ℕ)
    (plan : PlanRef) (planId : Str) :
    (sent ++ [(sender,RunnerRequest.shellOpen plan)]).countP (opensShell planId) =
      sent.countP (opensShell planId) + if plan.planId = planId then 1 else 0 := by
  rw [countP_append, countP_singleton]
  congr 1
  show (if ("shell_open" == "shell_open" && plan.planId == planId) = true then 1 else 0) = _
  rw [beq_self_eq_true, Bool.true_and]
  simp only [beq_iff_eq]

theorem Sound.ask {plans : List (Str × List Str)} {views : List View}
    {sent : List (Option ℕ × RunnerRequest)} {i : ℕ} (h : Sound plans views sent) {plan : PlanRef}
    (hview : views[i]? = some (.shell,some plan.planId))
    (hnone : sent.countP (opensShell plan.planId) = 0) :
    Sound plans views (sent ++ [(some i,.shellOpen plan)]) := by
  refine { h with owned := ?_, once := ?_ }
  · exact forall_mem_append.2 ⟨h.owned,forall_mem_singleton.2 fun _ => ⟨i,rfl,hview⟩⟩
  · intro planId
    rw [countP_shellOpen]
    split
    · next hsame =>
      rw [← hsame, hnone]
    · exact h.once planId

theorem listed_kept {after : Store} {store : Store} (h : Kept store after) :
    listed after = listed store :=
  TableRows.map_of_core AdmissionRow.core _ (fun _ => rfl) h.admissions

theorem sum_slots_set {calls : List Call} {i : ℕ} {call : Call} (next : Call)
    (hcall : calls[i]? = some call) :
    ((calls.set i next).map Call.slots).sum + call.slots =
      (calls.map Call.slots).sum + next.slots := by
  induction calls generalizing i with
  | nil => cases hcall
  | cons first rest ih =>
    cases i with
    | zero =>
      obtain rfl := Option.some.inj hcall
      simp only [set_cons_zero, map_cons, sum_cons]
      omega
    | succ i =>
      have hrest := ih hcall
      simp only [set_cons_succ, map_cons, sum_cons]
      omega

def World.views (w : World) : List View := w.calls.map Call.view

structure Inv (w : World) : Prop where
  slots : w.permits + (w.calls.map Call.slots).sum = maxShells
  ok : ∀ call ∈ w.calls, call.Ok
  /-- A call that has not asked for its session yet has no request for it. -/
  early : ∀ call ∈ w.calls, call.phase.early = true → ∀ planId, call.fresh = some planId →
    w.sent.countP (opensShell planId) = 0
  sound : Sound (listed w.store) w.views w.sent

theorem World.views_get {w : World} {i : ℕ} {call : Call} (hcall : w.calls[i]? = some call) :
    w.views[i]? = some call.view := by
  rw [World.views, getElem?_map, hcall]
  rfl

theorem World.views_set {w : World} {i : ℕ} {call : Call} (hcall : w.calls[i]? = some call)
    (phase : Phase) :
    (w.set i { call with phase := phase }).views = w.views := by
  obtain ⟨hlength,hget⟩ := List.getElem?_eq_some_iff.1 (World.views_get hcall)
  show (w.calls.set i { call with phase := phase }).map Call.view = w.views
  rw [map_set]
  exact hget ▸ set_getElem_self hlength

theorem Inv.join {permits : ℕ} {w : World} (h : Inv w) {rpc : Rpc} (phase : Phase)
    (hok : Call.Ok ⟨rpc,none,phase⟩) (hslots : permits + Call.slots ⟨rpc,none,phase⟩ = w.permits) :
    Inv { w.join ⟨rpc,none,phase⟩ with permits := permits } := by
  refine ⟨?_,?_,?_,?_⟩
  · have htotal := h.slots
    show permits + ((w.calls ++ [Call.mk rpc none phase]).map Call.slots).sum = maxShells
    rw [map_append, sum_append, map_singleton, sum_singleton]
    omega
  · exact forall_mem_append.2 ⟨h.ok,forall_mem_singleton.2 hok⟩
  · exact forall_mem_append.2
      ⟨h.early,forall_mem_singleton.2 fun _ planId hplan => (nomatch hplan)⟩
  · show Sound (listed w.store) ((w.calls ++ [Call.mk rpc none phase]).map Call.view) w.sent
    rw [map_append]
    exact h.sound.join

theorem slots_ended (rpc : Rpc) (fresh : Option Str) (ending : Ending) :
    Call.slots ⟨rpc,fresh,.ended ending⟩ = 0 := if_neg fun hheld => (nomatch hheld.2)

theorem Inv.refuse {w : World} (h : Inv w) {rpc : Rpc} {status : Status} :
    Inv (w.refuse rpc status) :=
  h.join (.ended (.refused status)) trivial (by rw [slots_ended, Nat.add_zero])

/-- A call becomes another one, and its plan may join the listed ones. -/
theorem Inv.change {permits : ℕ} {w : World} {i : ℕ} {call next : Call} (h : Inv w)
    (hcall : w.calls[i]? = some call) {store : Store} {limits : Limits} (hok : next.Ok)
    (hslots : permits + next.slots = w.permits + call.slots)
    (hearly : next.phase.early = true → ∀ planId, next.fresh = some planId →
      w.sent.countP (opensShell planId) = 0)
    (hsound : Sound (listed store) ((w.calls.set i next).map Call.view) w.sent) :
    Inv { w with
      store := store, limits := limits, permits := permits, calls := w.calls.set i next } := by
  refine ⟨?_,?_,?_,hsound⟩
  · have hsum := sum_slots_set next hcall
    have htotal := h.slots
    show permits + ((w.calls.set i next).map Call.slots).sum = maxShells
    omega
  · intro other hother
    rcases mem_or_eq_of_mem_set hother with hold | rfl
    · exact h.ok other hold
    · exact hok
  · intro other hother
    rcases mem_or_eq_of_mem_set hother with hold | rfl
    · exact h.early other hold
    · exact hearly

theorem Inv.set {permits : ℕ} {phase : Phase} {w : World} {i : ℕ} {call : Call} (h : Inv w)
    (hcall : w.calls[i]? = some call) (hok : Call.Ok { call with phase := phase })
    (hearly : phase.early = true → call.phase.early = true)
    (hslots : permits + Call.slots { call with phase := phase } = w.permits + call.slots) :
    Inv { w.set i { call with phase := phase } with permits := permits } := by
  refine h.change hcall hok hslots ?_ ?_
  · exact fun hphase => h.early call (mem_of_getElem? hcall) (hearly hphase)
  · show Sound (listed w.store) (w.set i { call with phase := phase }).views w.sent
    rw [World.views_set hcall]
    exact h.sound

theorem Inv.finish {w : World} {i : ℕ} {call : Call} (h : Inv w) (hcall : w.calls[i]? = some call)
    (ending : Ending) : Inv (w.finish i call ending) :=
  h.set hcall trivial
    (fun hphase => (nomatch hphase)) (by rw [slots_ended, Nat.add_zero])

theorem Inv.advance {phase : Phase} {w : World} {i : ℕ} {call : Call} (h : Inv w)
    (hcall : w.calls[i]? = some call) (hheld : call.phase.holdsSlot = true)
    (hholds : phase.holdsSlot = true) (hok : Call.Ok { call with phase := phase })
    (hearly : phase.early = true → call.phase.early = true) :
    Inv (w.set i { call with phase := phase }) := by
  have hslots : ({ call with phase := phase } : Call).slots = call.slots := by
    rw [Call.slots, Call.slots, hheld, hholds]
  exact h.set hcall hok hearly (by rw [hslots])

theorem Inv.limits {w : World} (h : Inv w) (limits : Limits) : Inv { w with limits := limits } :=
  ⟨h.slots,h.ok,h.early,h.sound⟩

theorem Inv.executor {request : Request} {sender : Option ℕ} {w : World} (h : Inv w) :
    Inv (w.send sender (.executor request)) := by
  refine ⟨h.slots,h.ok,?_,h.sound.executor⟩
  intro call hcall hphase planId hplan
  show (w.sent ++ [(sender,RunnerRequest.executor request)]).countP (opensShell planId) = 0
  rw [countP_executor]
  exact h.early call hcall hphase planId hplan

theorem Inv.shell {w : World} (h : Inv w) (first : Option ClientFrame) : Inv (shell w first) := by
  match first with
  | none => exact h.refuse
  | some .other => exact h.refuse
  | some (.open plan) =>
    simp only [ShellSessions.shell]
    split
    · exact h.refuse
    next hfree =>
    cases plan with
    | none => exact h.refuse
    | some plan =>
      dsimp only
      cases hparams : shellParams plan.envelope with
      | none => exact h.refuse
      | some params =>
        dsimp only
        refine h.join (.checked (some plan) _) ⟨rfl,?_⟩ ?_
        · intro signed hsigned
          obtain rfl := Option.mem_some_iff.1 hsigned
          rw [if_pos rfl, hparams]
          rfl
        · rw [Call.slots, if_pos ⟨rfl,rfl⟩]
          omega

theorem Inv.beginSubmit {prim : Primitives} {alerts : AlertSpecs} {w : World} (h : Inv w)
    {rpc : Rpc} (hrpc : rpc ≠ .shell) (host : Host) (plan : Option SignedPlan) :
    Inv (beginSubmit prim alerts w rpc host plan) := by
  rw [ShellSessions.beginSubmit]
  split
  · exact h.refuse
  · exact h.join (.ended _) trivial (by rw [slots_ended, Nat.add_zero])
  next hchecks =>
    refine h.join (.checked plan _) ⟨rfl,?_⟩ ?_
    rotate_left
    · rw [Call.slots, if_neg fun hheld => hrpc hheld.1, Nat.add_zero]
    intro signed hsigned
    rw [if_neg hrpc]
    obtain rfl := Option.mem_def.1 hsigned
    rw [submitChecks] at hchecks
    split at hchecks
    · cases hchecks
    next hkind => exact Bool.eq_false_iff.2 hkind

theorem Inv.cancelOperation {prim : Primitives} {alerts : AlertSpecs} {w : World} (h : Inv w)
    (host : Host) (operationId : Str) (plan : Option SignedPlan) :
    Inv (cancelOperation prim alerts w host operationId plan) := by
  rw [ShellSessions.cancelOperation]
  split
  · exact h.refuse
  · exact h.beginSubmit (by decide) host _

/-- An admission lists its plan last, and the plan was not listed before. -/
theorem admits_listed {prim : Primitives} {alerts : AlertSpecs} {after : Store} {store : Store}
    {trust : TrustStore} {input : AdmitInput} {v : VerifiedPlan}
    (h : Admits prim alerts store trust input v after) :
    v.plan["id"]!.text ∉ (listed store).map Prod.fst ∧
      listed after = listed store ++ [(v.plan["id"]!.text,kindsOf v.plan)] := by
  constructor
  · intro hold
    rw [listed, map_map] at hold
    obtain ⟨row,hrow,hsame⟩ := mem_map.1 hold
    exact (h.written.fresh row hrow).1 hsame
  · rw [listed, h.written.admissions, map_append]
    rfl

/-- The plan that a submission admits is new, and has the kinds that its call checks. -/
theorem submit_listed {prim : Primitives} {alerts : AlertSpecs} {after : Store} {draw : Draw}
    {store : Store} {plan : SignedPlan} {result : Admission} {rpc : Rpc}
    (hshape : shapeOk rpc (some plan))
    (h : submit prim alerts store draw plan .client = .ok (after,result)) :
    result.deduplicated = true ∧ after = store ∨
      result.deduplicated = false ∧ result.planId ∉ (listed store).map Prod.fst ∧
        ∃ kinds, listed after = listed store ++ [(result.planId,kinds)] ∧ kindsOk rpc kinds := by
  rcases submit_ok h with hknown | ⟨hfresh,trust,v,hadmits,hplan⟩
  · exact .inl hknown
  · obtain ⟨hnew,hlisted⟩ := admits_listed hadmits
    rw [hplan]
    refine .inr ⟨hfresh,hnew,_,hlisted,?_⟩
    obtain ⟨signatures,digest,rule,facts⟩ := verifySignedPlan_admit hadmits.verified
    have hchecked := hshape plan rfl
    rw [kindsOk]
    split at hchecked
    · next hshell =>
      rw [if_pos hshell]
      exact kindsOf_shellParams facts.envelope hchecked
    · next hother =>
      rw [if_neg hother]
      exact kindsOf_holdsKind facts.envelope hchecked

theorem Inv.fresh {planId : Str} {kinds : List Str} {permits : ℕ} {w : World} {i : ℕ} {call : Call}
    (h : Inv w) (hcall : w.calls[i]? = some call) (hold : call.fresh = none) {store : Store}
    (hnew : planId ∉ (listed w.store).map Prod.fst)
    (hlisted : listed store = listed w.store ++ [(planId,kinds)]) (hkinds : kindsOk call.rpc kinds)
    (phase : Phase) (hok : Call.Ok ⟨call.rpc,some planId,phase⟩)
    (hslots : permits + Call.slots ⟨call.rpc,some planId,phase⟩ = w.permits + call.slots)
    {limits : Limits} :
    Inv { w with
      store := store, limits := limits, permits := permits
      calls := w.calls.set i ⟨call.rpc,some planId,phase⟩ } := by
  refine h.change hcall hok hslots ?_ ?_
  · intro _ found hplan
    obtain rfl := Option.some.inj hplan
    exact h.sound.unasked hnew
  · have hview := World.views_get hcall
    rw [Call.view, hold] at hview
    rw [hlisted, map_set]
    exact h.sound.admission hview hnew hkinds

theorem Inv.afterAdmission {prim : Primitives} {alerts : AlertSpecs} {draw : Draw} {w : World}
    {i : ℕ} {call : Call} (h : Inv w) (hcall : w.calls[i]? = some call) (hold : call.fresh = none)
    (hwaits : (∃ plan limit, call.phase = .checked plan limit) ∨
      ∃ plan limit, call.phase = .left plan limit) {plan : SignedPlan}
    (hshape : shapeOk call.rpc (some plan)) {store : Store} {admission : Admission}
    (limits : Limits)
    (hsubmit : submit prim alerts w.store draw plan .client = .ok (store,admission)) :
    Inv (afterAdmission { w with limits := limits, store := store } i call admission) := by
  rcases submit_listed hshape hsubmit with ⟨hknown,rfl⟩ | ⟨hfresh,hnew,kinds,hlisted,hkinds⟩
  · have hfinish := fun ending => (h.limits limits).finish hcall ending
    rw [ShellSessions.afterAdmission, if_pos hknown]
    split <;> exact hfinish _
  · rw [ShellSessions.afterAdmission, if_neg (by simp [hfresh])]
    have hended : ∀ ending, Inv (World.finish { w with limits := limits, store := store } i
        { call with fresh := some admission.planId } ending) := by
      intro ending
      refine h.fresh hcall hold hnew hlisted hkinds
        (.ended ending) trivial ?_
      rw [slots_ended]
      rfl
    dsimp only
    split
    · exact hended _
    · next hrpc hstays =>
      have hheld : call.phase.holdsSlot = true := by
        rcases hwaits with ⟨found,limit,hphase⟩ | ⟨found,limit,hphase⟩
        · rw [hphase]
          rfl
        · exact absurd hphase (hstays found limit)
      refine h.fresh hcall hold hnew hlisted hkinds
        (.admitted admission.planId) ⟨hrpc,rfl⟩ ?_
      rw [Call.slots, Call.slots, hheld]
      rfl
    · exact hended _

theorem Inv.admitLimited {prim : Primitives} {alerts : AlertSpecs} {w : World} {i : ℕ} {call : Call}
    (h : Inv w) (hcall : w.calls[i]? = some call)
    (hwaits : (∃ plan limit, call.phase = .checked plan limit) ∨
      ∃ plan limit, call.phase = .left plan limit) {plan : Option SignedPlan}
    (hold : call.fresh = none) (hshape : shapeOk call.rpc plan) (limit : Limit) (instant : ℤ)
    (staged : Option (List Str)) (draw : Draw) :
    Inv (admitLimited prim alerts w i call limit instant staged draw plan) := by
  have hgate : ∀ signed, (gate w.limits limit instant staged plan).2 = .ok signed →
      plan = some signed := by
    intro signed hgated
    simp only [gate] at hgated
    split at hgated
    · cases hgated
    split at hgated
    · cases hgated
    · split at hgated
      · cases hgated
        rfl
      · cases hgated
    · split at hgated
      · cases hgated
      · cases hgated
        rfl
  have hlimits : Inv { w with limits := (gate w.limits limit instant staged plan).1 } := h.limits _
  simp only [ShellSessions.admitLimited]
  split
  · exact hlimits.finish hcall _
  next signed hgated =>
    split
    · exact hlimits.finish hcall _
    next store admission hsubmit =>
      exact h.afterAdmission hcall hold hwaits (hgate signed hgated ▸ hshape) _ hsubmit

theorem Inv.bindShell {planId : Str} {w : World} {i : ℕ} {call : Call} (h : Inv w)
    (hcall : w.calls[i]? = some call) (hphase : call.phase = .admitted planId) :
    Inv (bindShell w i call planId) := by
  have hok := h.ok call (mem_of_getElem? hcall)
  rw [Call.Ok, hphase] at hok
  rw [ShellSessions.bindShell]
  split
  · exact h.finish hcall _
  next record hrecord =>
    have hplan : record.planId = planId := (rowOf_some _ hrecord).2
    have hbound : call.rpc = .shell ∧ call.fresh = some record.planId := ⟨hok.1,hplan ▸ hok.2⟩
    split
    · exact h.finish hcall _
    next action haction =>
      split
      · exact h.finish hcall _
      split
      · exact h.advance hcall (by rw [hphase]; rfl) rfl hbound (fun _ => by rw [hphase]; rfl)
      · refine Inv.executor ?_
        exact h.advance hcall (by rw [hphase]; rfl) rfl hbound (fun _ => by rw [hphase]; rfl)

theorem Inv.bound {action : ActionRow} {record : AdmissionRow} {w : World} {i : ℕ} {call : Call}
    (h : Inv w) (hcall : w.calls[i]? = some call) (hphase : call.phase = .binding record action)
    (answer : Answer) :
    Inv (bound w i call record action answer) := by
  have hok := h.ok call (mem_of_getElem? hcall)
  rw [Call.Ok, hphase] at hok
  have hbound : Inv (w.set i { call with phase := .bound record action }) :=
    h.advance hcall (by rw [hphase]; rfl) rfl hok (fun _ => by rw [hphase]; rfl)
  rw [ShellSessions.bound]
  split
  · exact hbound
  · split
    · exact hbound
    · exact h.finish hcall _

theorem Inv.openShell {action : ActionRow} {record : AdmissionRow} {w : World} {i : ℕ} {call : Call}
    (h : Inv w) (hcall : w.calls[i]? = some call) (hphase : call.phase = .bound record action) :
    Inv ((w.set i { call with phase := .opening (planRef record action) }).send (some i)
      (.shellOpen (planRef record action))) := by
  have hok := h.ok call (mem_of_getElem? hcall)
  rw [Call.Ok, hphase] at hok
  have hset : Inv (w.set i { call with phase := .opening (planRef record action) }) :=
    h.advance hcall (by rw [hphase]; rfl) rfl hok (fun hearly => (nomatch hearly))
  have hview : w.views[i]? = some (.shell,some (planRef record action).planId) := by
    rw [World.views_get hcall, Call.view, hok.1, hok.2]
    rfl
  have hnone := h.early call (mem_of_getElem? hcall) (by rw [hphase]; rfl) _ hok.2
  refine ⟨hset.slots,hset.ok,?_,hset.sound.ask ?_ hnone⟩
  · intro other hother hearly planId hplan
    show (w.sent ++ [(some i,RunnerRequest.shellOpen (planRef record action))]).countP
      (opensShell planId) = 0
    have hquiet : w.sent.countP (opensShell planId) = 0 :=
      hset.early other hother hearly planId hplan
    rw [countP_shellOpen, hquiet, if_neg]
    rintro rfl
    -- two calls with one plan are the same call, and this one has asked
    obtain ⟨j,hj⟩ := getElem?_of_mem hother
    rcases getElem?_set_cases hj with ⟨-,rfl⟩ | ⟨hne,hbefore⟩
    · cases hearly
    · exact hne (h.sound.distinct j i _ _ _ (World.views_get hbefore) hview hplan rfl)
  · rwa [World.views_set hcall]

theorem Inv.opened {w : World} {i : ℕ} {call : Call} (h : Inv w) (hcall : w.calls[i]? = some call)
    {plan : PlanRef} (hphase : call.phase = .opening plan) (line : FirstLine) :
    Inv (opened w i call plan line) := by
  have hok := h.ok call (mem_of_getElem? hcall)
  rw [Call.Ok, hphase] at hok
  cases line with
  | failed message => exact h.finish hcall _
  | ready => exact h.advance hcall (by rw [hphase]; rfl) rfl hok (fun hearly => (nomatch hearly))
  | other code =>
    simp only [ShellSessions.opened]
    split <;> exact h.finish hcall _
  | closed => exact h.finish hcall _

theorem Inv.drop {w : World} {i : ℕ} {call : Call} (h : Inv w) (hcall : w.calls[i]? = some call) :
    Inv (drop w i call) := by
  have hok := h.ok call (mem_of_getElem? hcall)
  rw [ShellSessions.drop]
  split
  next plan limit hphase =>
    rw [Call.Ok, hphase] at hok
    refine h.set hcall hok (fun _ => by rw [hphase]; rfl) ?_
    have hnone : ({ call with phase := .left plan limit } : Call).slots = 0 :=
      if_neg fun hheld => (nomatch hheld.2)
    rw [hnone, Nat.add_zero]
  all_goals first | exact h.finish hcall _ | exact h

theorem Inv.webhook {prim : Primitives} {alerts : AlertSpecs} {w : World} (h : Inv w)
    {trust : TrustStore} {input : AdmitInput} (hrule : writtenByRule input.envelope = true) :
    Inv { w with store := AdmissionRun.step prim alerts w.store (.admitPlan trust input) } := by
  refine ⟨h.slots,h.ok,h.early,?_⟩
  rcases step_cases prim (.admitPlan trust input) with
    ⟨_,_,v,hop,hadmits⟩ | hkept
  · cases hop
    obtain ⟨hnew,hlisted⟩ := admits_listed hadmits
    rw [hlisted]
    refine h.sound.plan hnew fun hshell => ?_
    obtain ⟨signatures,digest,rule,facts⟩ := verifySignedPlan_admit hadmits.verified
    obtain ⟨parsed,hread,hplan⟩ := parseEnvelope_readJson facts.envelope
    rw [writtenByRule, hread, Option.any_some, ← hplan] at hrule
    obtain ⟨record,hsome,-⟩ := facts.rule_some prim hrule
    have hkind := checkKinds_mem facts.kinds _ hshell
    rw [hsome, checkKind, ResultSteps.ensure_ok, ruleAllowsKind, Bool.and_eq_true] at hkind
    exact absurd hkind.2 (by decide)
  · rw [listed_kept hkept]
    exact h.sound

theorem Inv.store {prim : Primitives} {alerts : AlertSpecs} {w : World} (h : Inv w) {op : Op}
    (hop : admits op = false) :
    Inv { w with store := AdmissionRun.step prim alerts w.store op } := by
  refine ⟨h.slots,h.ok,h.early,?_⟩
  rcases step_cases prim op with ⟨_,_,_,rfl,-⟩ | hkept
  · cases hop
  · rw [listed_kept hkept]
    exact h.sound

theorem cut_ended {call : Call} : ∃ ending, call.cut = { call with phase := .ended ending } := by
  rw [Call.cut]
  split
  next ending hphase => exact ⟨ending,by rw [← hphase]⟩
  · exact ⟨.dropped,rfl⟩

theorem cut_slots (calls : List Call) : ((calls.map Call.cut).map Call.slots).sum = 0 := by
  induction calls with
  | nil => rfl
  | cons call rest ih =>
    obtain ⟨ending,hcut⟩ := cut_ended
    rw [map_cons, map_cons, sum_cons, hcut, slots_ended, ih]

theorem Inv.restart {w : World} (h : Inv w) : Inv (restart w) := by
  refine ⟨?_,?_,?_,?_⟩
  · show maxShells + ((w.calls.map Call.cut).map Call.slots).sum = maxShells
    rw [cut_slots, Nat.add_zero]
  · intro call hcall
    obtain ⟨before,-,rfl⟩ := mem_map.1 hcall
    obtain ⟨ending,hcut⟩ := cut_ended
    rw [hcut]
    trivial
  · intro call hcall hearly
    obtain ⟨before,-,rfl⟩ := mem_map.1 hcall
    obtain ⟨ending,hcut⟩ := cut_ended
    rw [hcut] at hearly
    cases hearly
  · show Sound (listed w.store) ((w.calls.map Call.cut).map Call.view) w.sent
    have hviews : (w.calls.map Call.cut).map Call.view = w.views := by
      rw [map_map]
      refine map_congr_left fun call _ => ?_
      obtain ⟨ending,hcut⟩ := cut_ended
      show call.cut.view = call.view
      rw [hcut]
      rfl
    rw [hviews]
    exact h.sound

theorem Inv.onCall {w : World} (h : Inv w) (i : ℕ) {act : Call → World}
    (hact : ∀ call, w.calls[i]? = some call → Inv (act call)) : Inv (onCall w i act) := by
  rw [ShellSessions.onCall]
  split
  next call hcall => exact hact call hcall
  · exact h

theorem Inv.step {prim : Primitives} {alerts : AlertSpecs} {w : World} (h : Inv w) (event : Event) :
    Inv (step prim alerts w event) := by
  cases event with
  | shell first => exact h.shell first
  | submitSignedPlan host plan => exact h.beginSubmit (by decide) host plan
  | cancelOperation host operationId plan => exact h.cancelOperation host operationId plan
  | admission i instant staged draw =>
    refine h.onCall i fun call hcall => ?_
    have hok := h.ok call (mem_of_getElem? hcall)
    rw [Call.Ok] at hok
    split
    next plan limit hphase =>
      rw [hphase] at hok
      exact h.admitLimited hcall (.inl ⟨plan,limit,hphase⟩) hok.1 hok.2 limit instant staged draw
    next plan limit hphase =>
      rw [hphase] at hok
      exact h.admitLimited hcall (.inr ⟨plan,limit,hphase⟩) hok.1 hok.2 limit instant staged draw
    · exact h
  | bindShell i =>
    refine h.onCall i fun call hcall => ?_
    split
    next planId hphase => exact h.bindShell hcall hphase
    · exact h
  | bound i answer =>
    refine h.onCall i fun call hcall => ?_
    split
    next record action hphase => exact h.bound hcall hphase answer
    · exact h
  | openShell i =>
    refine h.onCall i fun call hcall => ?_
    split
    next record action hphase => exact h.openShell hcall hphase
    · exact h
  | opened i line =>
    refine h.onCall i fun call hcall => ?_
    split
    next plan hphase => exact h.opened hcall hphase line
    · exact h
  | closed i =>
    refine h.onCall i fun call hcall => ?_
    split
    · exact h.finish hcall .closed
    · exact h
  | dropped i => exact h.onCall i fun call hcall => h.drop hcall
  | executor request => exact h.executor
  | webhook trust input =>
    simp only [ShellSessions.step]
    split
    next hrule => exact h.webhook hrule
    · exact h
  | store op =>
    simp only [ShellSessions.step]
    split
    · exact h
    next hop => exact h.store (Bool.eq_false_iff.2 hop)
  | restart => exact h.restart

theorem start_inv {now : ℤ} {quarantine : Option ℤ} : Inv (start now quarantine) := by
  refine ⟨rfl,?_,?_,fun _ _ _ _ _ h => (nomatch h),?_,?_,?_,?_,fun _ => Nat.zero_le 1⟩
  all_goals exact fun _ h => (nomatch h)

theorem connected_le_slots {calls : List Call} (hok : ∀ call ∈ calls, call.Ok) :
    calls.countP (fun call => call.phase.connected) ≤ (calls.map Call.slots).sum := by
  induction calls with
  | nil => exact le_rfl
  | cons call rest ih =>
    have hrest := ih fun other hother => hok other (mem_cons_of_mem _ hother)
    rw [countP_cons, map_cons, sum_cons]
    have hself : (if call.phase.connected = true then 1 else 0) ≤ call.slots := by
      have hcall := hok call mem_cons_self
      rw [Call.Ok] at hcall
      split
      next hconnected =>
        rw [Call.slots]
        cases hphase : call.phase with
        | opening plan | session plan =>
          rw [hphase] at hcall
          exact (if_pos ⟨hcall.1,rfl⟩).ge
        | _ =>
          rw [hphase] at hconnected
          cases hconnected
      · exact Nat.zero_le _
    omega

theorem Inv.oneSession {w : World} (h : Inv w) : OneSession w := by
  have hlisted : ∀ row ∈ w.store.admissions, (row.planId,row.actionKinds) ∈ listed w.store :=
    fun row hrow => mem_map.2 ⟨row,hrow,rfl⟩
  have hkinds : ∀ call ∈ w.calls, ∀ row ∈ w.store.admissions, call.fresh = some row.planId →
      kindsOk call.rpc row.actionKinds :=
    fun call hcall row hrow =>
      h.sound.kinds call.view (mem_map_of_mem hcall) _ (hlisted row hrow)
  have hshell : ∀ row ∈ w.store.admissions, str "shell.open" ∈ row.actionKinds →
      ∃ call ∈ w.calls, call.view = (.shell,some row.planId) := by
    intro row hrow hkind
    exact mem_map.1 (h.sound.shells _ (hlisted row hrow) hkind)
  refine ⟨?_,?_,h.sound.once,?_,?_⟩
  · intro row hrow hkind
    obtain ⟨call,hcall,hview⟩ := hshell row hrow hkind
    obtain ⟨hrpc,hfresh⟩ : call.rpc = .shell ∧ call.fresh = some row.planId :=
      Prod.ext_iff.1 hview
    have hshape := hkinds call hcall row hrow hfresh
    rwa [kindsOk, if_pos hrpc] at hshape
  · intro row hrow hkind
    obtain ⟨call,hcall,hview⟩ := hshell row hrow hkind
    refine ⟨⟨call,hcall,(Prod.ext_iff.1 hview).2⟩,?_⟩
    intro other hother hsame
    by_contra hservice
    have hshape := hkinds other hother row hrow hsame
    rw [kindsOk, if_neg hservice] at hshape
    exact hshape hkind
  · intro entry hentry hop
    obtain ⟨i,hfrom,hview⟩ := h.sound.owned entry hentry hop
    have hknown := h.sound.known _ (mem_of_getElem? hview) _ rfl
    rw [listed, map_map] at hknown
    obtain ⟨row,hrow,hplan⟩ := mem_map.1 hknown
    have hplanId : row.planId = entry.2.plan.planId := hplan
    rw [World.views, getElem?_map] at hview
    obtain ⟨call,hcall,hsame⟩ := Option.map_eq_some_iff.1 hview
    rw [← hplanId] at hsame
    obtain ⟨hrpc,hfresh⟩ : call.rpc = .shell ∧ call.fresh = some row.planId :=
      Prod.ext_iff.1 hsame
    have hshape := hkinds call (mem_of_getElem? hcall) row hrow hfresh
    rw [hrpc, kindsOk, if_pos rfl] at hshape
    exact ⟨i,call,row,hfrom,hcall,hrpc,hrow,hshape,hfresh,hplanId.symm⟩
  · have hle := connected_le_slots h.ok
    have htotal := h.slots
    omega

/-- In every run of calls on one store: a plan with a shell.open has no other action, came through
a Shell call and leads to at most one request for a session; every such request is made by the
Shell call that admitted its plan; and at most four sessions are open. -/
theorem one_session_per_shell_plan (prim : Primitives) (alerts : AlertSpecs) (now : ℤ)
    (quarantine : Option ℤ) (events : List Event) :
    OneSession (StepRuns.run (step prim alerts) (start now quarantine) events) :=
  (StepRuns.run_invariant (step prim alerts) Inv start_inv
    (fun _ event h => h.step event) events).oneSession

/-- No slot is lost: at every moment the free ones and those that calls hold are all there are. -/
theorem shell_slots_conserved (prim : Primitives) (alerts : AlertSpecs) (now : ℤ)
    (quarantine : Option ℤ) (events : List Event) :
    let w := StepRuns.run (step prim alerts) (start now quarantine) events
    w.permits + (w.calls.map Call.slots).sum = maxShells :=
  (StepRuns.run_invariant (step prim alerts) Inv start_inv (fun _ event h => h.step event)
    events).slots

end Permanu.ShellSessions
