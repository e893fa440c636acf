import PermanuAgent.AdmissionMarks

/-!
# The outcome of an admission

An admission ends when the last of its actions has a result, with the worst of
their outcomes. A result of the log still replaces the one of its action after
that, but the admission is not written again, so it keeps saying what the
actions say only while such late results repeat what is recorded.
-/

set_option autoImplicit false

namespace Permanu.AdmissionOutcomes
open ByteText JsonValue PlanText PlanActions PlanCrypto List Function
open PlanSchema PlanVerify PlanAuthority TableRows
open StepRuns AdmissionStore AdmissionAdmit AdmissionWrite
open AdmissionReconcile AdmissionRun
open AdmissionResults AdmissionRevocations AdmissionMarks
open AdmissionSpecs

theorem actionRows_open {p : Value} : ∀ x ∈ actionRows p, x.finishedAt = none := by
  intro x hx
  obtain ⟨i,hi,rfl⟩ := mem_mapIdx.mp hx
  rfl

theorem actionRows_nonempty {prim : Primitives} {p : Value} (h : validatePlan prim p = true) :
    ∃ x, x ∈ actionRows p := by
  have hcheck := h
  simp only [validatePlan, Bool.and_eq_true] at hcheck
  have hlen : 1 ≤ p["actions"]!.items.length := by
    have ha := check_field "actions" (.custom actionsOk) hcheck.1 (by simp [planFields])
    simp only [PlanSchema.check, actionsOk, Option.any_eq_true, Bool.and_eq_true] at ha
    obtain ⟨items,hi,hsize,_⟩ := ha
    rw [Value.items, hi]
    simp only [PlanSchema.within, Bool.and_eq_true, decide_eq_true_eq] at hsize
    exact hsize.1
  apply exists_mem_of_length_pos
  rw [actionRows, length_mapIdx, kindsOf_length (validatePlan_actions h)]
  exact hlen

def severities : List Outcome := [.failed, .expired, .rolledBack, .cancelled]

inductive Worst (outcomes : List (Option Outcome)) : Outcome → Prop
  | severe (before after : List Outcome) (o : Outcome) : severities = before ++ o :: after →
      some o ∈ outcomes → (∀ w ∈ before, some w ∉ outcomes) → Worst outcomes o
  | success : (∀ w ∈ severities, some w ∉ outcomes) → Worst outcomes .succeeded

theorem admissionOutcome_worst {outcomes : List (Option Outcome)} :
    Worst outcomes (admissionOutcome outcomes) := by
  rw [admissionOutcome]
  cases h : ([.failed, .expired, .rolledBack, .cancelled] : List Outcome).find?
      fun o => outcomes.contains (some o) with
  | none =>
    refine .success fun w hw => ?_
    have := find?_eq_none.mp h w hw
    simpa using this
  | some o =>
    obtain ⟨hfound,before,after,hsplit,hnone⟩ := find?_eq_some_iff_append.mp h
    refine .severe before after o hsplit (by simpa using hfound) fun w hw => ?_
    simpa using hnone w hw

def rowsOf (store : Store) (planId : Str) : List ActionRow :=
  store.actions.filter fun x => x.planId == planId

variable {x : ActionRow} {after : Store} {actionIndex : ℕ} {outcome : Outcome} {line : ConsumedLine}

theorem mem_rowsOf {store : Store} {planId : Str} :
    x ∈ rowsOf store planId ↔ x ∈ store.actions ∧ x.planId = planId := by
  simp [rowsOf]

def standing (x : ActionRow) : Bool × Option Outcome := (x.finishedAt.isSome, x.outcome)

structure Aggregated (store : Store) (a : AdmissionRow) : Prop where
  whileOpen : a.finishedAt = none → ∃ x ∈ rowsOf store a.planId, x.finishedAt = none
  onceEnded : a.finishedAt ≠ none → (∀ x ∈ rowsOf store a.planId, x.finishedAt ≠ none) ∧
    a.outcome = some (admissionOutcome ((rowsOf store a.planId).map ActionRow.outcome))

def Aggregates (store : Store) : Prop := ∀ a ∈ store.admissions, Aggregated store a

theorem Aggregated.of_standings {store : Store} {a : AdmissionRow} (h : Aggregated store a)
    (hs : (rowsOf after a.planId).map standing = (rowsOf store a.planId).map standing) :
    Aggregated after a := by
  have hdone : ∀ x y : ActionRow, standing y = standing x →
    (y.finishedAt = none ↔ x.finishedAt = none) := by
    intro x y hxy
    have := congrArg Prod.fst hxy
    simp only [standing] at this
    rw [← Option.not_isSome_iff_eq_none, ← Option.not_isSome_iff_eq_none, this]
  refine ⟨fun ho => ?_,fun he => ⟨fun x hx => ?_,?_⟩⟩
  · obtain ⟨x,hx,hnone⟩ := h.whileOpen ho
    obtain ⟨y,hy,hxy⟩ := mem_of_core hs.symm hx
    exact ⟨y,hy,(hdone x y hxy).mpr hnone⟩
  · obtain ⟨y,hy,hxy⟩ := mem_of_core hs hx
    exact fun hnone => (h.onceEnded he).1 y hy ((hdone x y hxy).mpr hnone)
  · have houts : (rowsOf after a.planId).map ActionRow.outcome =
        (rowsOf store a.planId).map ActionRow.outcome := by
      have := congrArg (List.map Prod.snd) hs
      simpa [map_map, comp_def, standing] using this
    rw [houts]
    exact (h.onceEnded he).2

theorem foldr_laterText_isSome (times : List (Option Str)) (hne : times ≠ [])
    (h : ∀ t ∈ times, t ≠ none) : times.foldr laterText none ≠ none := by
  cases times with
  | nil => exact absurd rfl hne
  | cons t rest =>
    obtain ⟨x,rfl⟩ := Option.ne_none_iff_exists'.mp (h t mem_cons_self)
    rw [foldr_cons]
    cases rest.foldr laterText none with
    | none => simp [laterText]
    | some y =>
      simp only [laterText]
      split_ifs
      · exact Option.some_ne_none y
      · exact Option.some_ne_none x

/-- The check after a result brings the admission of the plan in line with its actions,
if it is still open. -/
theorem finishAdmissionIfDone_aggregates (planId : Str) (store : Store)
    (hopen : ∀ a ∈ store.admissions, a.planId = planId → a.finishedAt = none →
      rowsOf store planId ≠ [])
    (hother : ∀ a ∈ store.admissions, ¬ (a.planId = planId ∧ a.finishedAt = none) →
      Aggregated store a) : Aggregates (finishAdmissionIfDone planId store).1 := by
  have hrows : (store.actions.filter fun r => r.planId == planId) = rowsOf store planId := rfl
  simp only [finishAdmissionIfDone, hrows]
  split
  · rename_i hwait
    intro a ha
    by_cases hthis : a.planId = planId ∧ a.finishedAt = none
    · have hne := hopen a ha hthis.1 hthis.2
      refine ⟨fun _ => ?_,fun he => absurd hthis.2 he⟩
      simp only [Bool.or_eq_true, List.isEmpty_iff, hne, false_or, any_eq_true,
        Option.isNone_iff_eq_none] at hwait
      rw [hthis.1]
      exact hwait
    · exact hother a ha hthis
  · rename_i hwait
    simp only [Bool.or_eq_true, List.isEmpty_iff, any_eq_true, Option.isNone_iff_eq_none,
      not_or, not_exists, not_and] at hwait
    intro b hb
    obtain ⟨a,ha,rfl⟩ := (mem_updateWhere _ _).mp hb
    by_cases hthis : a.planId = planId ∧ a.finishedAt = none
    · have hthis' : (a.planId == planId && a.finishedAt.isNone) = true := by simp [hthis]
      rw [if_pos hthis']
      have hlatest := foldr_laterText_isSome ((rowsOf store planId).map ActionRow.finishedAt)
        (by simpa using hwait.1) (by simpa using hwait.2)
      refine ⟨fun hnone => absurd hnone hlatest,fun _ => ⟨?_,?_⟩⟩
      · rw [hthis.1]
        exact hwait.2
      · rw [hthis.1]
        rfl
    · have hthis' : ¬ (a.planId == planId && a.finishedAt.isNone) = true := by simpa using hthis
      rw [if_neg hthis']
      exact (hother a ha hthis).of_standings rfl

section Result
variable {store : Store} {planId : Str} {p : ActionRow → Bool} {f : ActionRow → ActionRow}

/-- A result ends actions of one plan and then checks the admission of that plan. -/
theorem result_aggregates (hp : ∀ x, p x = true → x.planId = planId)
    (hf : ∀ x, (f x).planId = x.planId) (h : Aggregates store)
    (hsame : ∀ a ∈ store.admissions, a.planId = planId → a.finishedAt ≠ none →
      ∀ x ∈ rowsOf store planId, p x = true → standing (f x) = standing x)
    {rules : List RuleRow} :
    Aggregates (finishAdmissionIfDone planId
      { store with actions := updateWhere p f store.actions, rules := rules }).1 := by
  have hplan : ∀ other, rowsOf
      { store with actions := updateWhere p f store.actions, rules := rules } other =
      (rowsOf store other).map fun x => if p x then f x else x := by
    intro other
    simp only [rowsOf, updateWhere, filter_map]
    congr 1
    apply filter_congr
    intro x _
    simp only [comp]
    split_ifs
    · rw [hf]
    · rfl
  apply finishAdmissionIfDone_aggregates
  · intro a ha hthis hnone
    obtain ⟨x,hx,_⟩ := (h a ha).whileOpen hnone
    rw [hplan, ← hthis]
    intro hnil
    rw [map_eq_nil_iff] at hnil
    rw [hnil] at hx
    cases hx
  · intro a ha hthis
    refine (h a ha).of_standings ?_
    rw [hplan, map_map]
    apply map_congr_left
    intro x hx
    simp only [comp]
    split_ifs with hpx
    · have hxplan := mem_rowsOf.mp hx
      have hid : a.planId = planId := hxplan.2.symm.trans (hp x hpx)
      have hended : a.finishedAt ≠ none := fun hnone => hthis ⟨hid,hnone⟩
      exact hsame a ha hid hended x (hid ▸ hx) hpx
    · rfl

/-- The settlement between the two touches the rules only. -/
theorem settled_aggregates (hp : ∀ x, p x = true → x.planId = planId)
    (hf : ∀ x, (f x).planId = x.planId) (h : Aggregates store)
    (hsame : ∀ a ∈ store.admissions, a.planId = planId → a.finishedAt ≠ none →
      ∀ x ∈ rowsOf store planId, p x = true → standing (f x) = standing x)
    {time : Str} :
    Aggregates (finishAdmissionIfDone planId (settleRuleRevoke planId actionIndex outcome time
      { store with actions := updateWhere p f store.actions })).1 := by
  simp only [settleRuleRevoke]
  split_ifs <;> exact result_aggregates hp hf h hsame

end Result

theorem isAction_plan {planId : Str}
    (h : isAction planId actionIndex x = true) : x.planId = planId :=
  congrArg Prod.fst (isAction_iff.mp h)

theorem finishAction_aggregates {planId : Str} {now : ℤ}
    {store : Store} (h : Aggregates store) :
    Aggregates (finishAction planId actionIndex outcome now store).1 := by
  -- an ended admission has no unfinished action left for the call to find
  have hsame : ∀ a ∈ store.admissions, a.planId = planId → a.finishedAt ≠ none →
      ∀ x ∈ rowsOf store planId, (isAction planId actionIndex x && x.finishedAt.isNone) = true →
        standing { x with
          finishedAt := some (formatTimestamp now)
          outcome := some outcome } = standing x := by
    intro a ha hid hended x hx hopen
    rw [Bool.and_eq_true, Option.isNone_iff_eq_none] at hopen
    exact absurd hopen.2 (((h a ha).onceEnded hended).1 x (hid ▸ hx))
  have hp : ∀ x, (isAction planId actionIndex x && x.finishedAt.isNone) = true →
      x.planId = planId := by
    intro x hx
    rw [Bool.and_eq_true] at hx
    exact isAction_plan hx.1
  simp only [finishAction]
  split_ifs
  · exact settled_aggregates hp (by intro _; rfl) h hsame
  · exact result_aggregates hp (by intro _; rfl) h hsame

/-- A result that comes after the end of its admission says what the action already says. -/
def RepeatsLate (store : Store) (line : ConsumedLine) : Prop :=
  ∀ r, lineResult store line = some r → (∃ a ∈ store.admissions, a.planId = r.planId ∧
    a.finishedAt ≠ none) → ∀ x ∈ store.actions, isAction r.planId r.actionIndex x = true →
      x.outcome = some r.outcome

theorem lineResult_outcome {store : Store} {r : Result} (outcome : Outcome)
    (h : lineResult store line = some r) (ho : line.outcome.bind outcomeOf = some outcome) :
    r.outcome = outcome := by
  rw [lineResult] at h
  split_ifs at h
  rw [ho] at h
  exact congrArg Result.outcome (Option.some.inj h).symm

def AllRepeatLate : List ConsumedLine → Store → Prop
  | [], _ => True
  | line::rest, store => RepeatsLate store line ∧ AllRepeatLate rest (afterLine store line)

theorem applyConsumed_aggregates {store : Store} (h : Aggregates store) :
    Aggregates (applyConsumed line store).1 := by
  intro a ha
  refine (h a ha).of_standings ?_
  simp only [applyConsumed, rowsOf, updateWhere, filter_map]
  rw [map_map]
  have hfilter : store.actions.filter ((fun x : ActionRow => x.planId == a.planId) ∘ fun r =>
      if (isAction line.planId line.actionIndex r && r.consumedSeq.isNone) = true then
        { r with consumedAt := some line.time, consumedSeq := some line.seq } else r) =
      store.actions.filter fun x => x.planId == a.planId := by
    apply filter_congr
    intro x _
    simp only [comp]
    split_ifs <;> rfl
  rw [hfilter]
  apply map_congr_left
  intro x _
  simp only [comp]
  split_ifs <;> rfl

theorem afterLine_aggregates {store : Store} (h : Aggregates store)
    (hr : RepeatsLate store line) : Aggregates (afterLine store line) := by
  simp only [afterLine, applyLine]
  split_ifs with hk hn hc hres
  · exact h
  · exact applyConsumed_aggregates h
  · simp only [applyResult]
    cases ho : line.outcome.bind outcomeOf with
    | none => exact h
    | some outcome =>
      have hnames : namesAdmission store line = true := by simpa using hn
      have hresult : lineResult store line = some ⟨line.planId,line.actionIndex,outcome⟩ := by
        simp only [lineResult, hnames, hres, beq_self_eq_true, Bool.and_self, if_true, ho,
          Option.map_some]
      refine settled_aggregates (fun x hx => isAction_plan hx) (by intro _; rfl) h
        fun a ha hid hended x hx hpx => ?_
      have hrepeat := hr _ hresult ⟨a,ha,hid,hended⟩ x (mem_rowsOf.mp hx).1 hpx
      have hdone := ((h a ha).onceEnded hended).1 x (hid ▸ hx)
      rw [standing, standing, hrepeat, Option.isSome_iff_ne_none.mpr hdone]
      rfl
  · exact h
  · exact h

theorem applyLines_aggregates {lines : List ConsumedLine} (lastSeq : ℕ) (store : Store)
    (h : Aggregates store) (hr : AllRepeatLate lines store) :
    Aggregates (applyLines lastSeq lines store).1 := by
  induction lines generalizing lastSeq store with
  | nil => exact h
  | cons line rest ih =>
    rw [applyLines_cons]
    exact ih line.seq _ (afterLine_aggregates h hr.1) hr.2

variable (prim : Primitives) (alerts : AlertSpecs)

/-- A new admission is open and so are all its actions, of which there is one at least. -/
theorem Admits.aggregates {store : Store} {trust : PlanTrust.TrustStore} {input : AdmitInput}
    {v : VerifiedPlan} (ha : Admits prim alerts store trust input v after) (h : Aggregates store) :
    Aggregates after := by
  have hw := ha.written
  obtain ⟨signatures,hp⟩ := Admits.parsed prim alerts ha
  have hvalid := (parseEnvelope_ok hp).1
  have hrows : ∀ planId, rowsOf after planId =
      rowsOf store planId ++ (actionRows v.plan).filter (fun x => x.planId == planId) := by
    intro planId
    rw [rowsOf, hw.actions, filter_append]
    rfl
  intro a hm
  rw [hw.admissions] at hm
  rcases mem_append.mp hm with hold | hnew
  · refine (h a hold).of_standings ?_
    have hnone : (actionRows v.plan).filter (fun x => x.planId == a.planId) = [] := by
      rw [filter_eq_nil_iff]
      intro x hx
      have hid := (hw.fresh a hold).1
      rw [actionRows_planId x hx]
      simpa using fun heq => hid heq.symm
    rw [hrows, hnone, append_nil]
  · rw [mem_singleton.mp hnew]
    refine ⟨fun _ => ?_,fun he => absurd rfl he⟩
    obtain ⟨x,hx⟩ := actionRows_nonempty hvalid
    refine ⟨x,?_,actionRows_open x hx⟩
    rw [hrows]
    refine mem_append_right _ (mem_filter.mpr ⟨hx,?_⟩)
    rw [actionRows_planId x hx]
    simp [admissionRow]

section
variable (now : ℤ) (quarantine : Option ℤ) (ops : List Op)

/-- No call of the run ends an execution window. -/
def NoWindowEnds : Prop :=
  ∀ before time, before ++ [.expireWindows time] <+: ops →
    windowEnded time (storeAfter prim alerts now quarantine before) = []

/-- Every result line of the run that comes after the end of its admission repeats the
outcome of its action. -/
def LateResultsRepeat : Prop :=
  ∀ before read time, before ++ [.reconcile read time] <+: ops →
    let store := storeAfter prim alerts now quarantine before
    AllRepeatLate (newLines ((store.cursor.map Cursor.lastSeq).getD 0) read.lines) store

theorem outside_aggregates {store : Store} {op : Op} (hop : op.isOutside = true)
    (h : Aggregates store) : Aggregates (step prim alerts store op) := by
  rcases step_outside prim hop with ⟨_,_,v,_,hv⟩ | ⟨deliveries,rejected,builds,heq⟩
  · exact Admits.aggregates prim alerts hv h
  · rw [heq]
    exact fun a ha => (h a ha).of_standings rfl

theorem aggregates_reachable :
    NoWindowEnds prim alerts now quarantine ops → LateResultsRepeat prim alerts now quarantine ops →
      Aggregates (storeAfter prim alerts now quarantine ops) := by
  refine run_induction (step prim alerts) (fun ops store =>
    NoWindowEnds prim alerts now quarantine ops → LateResultsRepeat prim alerts now quarantine ops →
      Aggregates store) (fun _ _ a ha => by cases ha) (fun ops op ih hw hr => ?_)
  have hstore := ih (fun before time h => hw before time (h.trans (prefix_append ops [op])))
    (fun before read time h => hr before read time (h.trans (prefix_append ops [op])))
  cases op with
  | reconcile read time =>
    have hlines := applyLines_aggregates
      (((run (step prim alerts) (createdStore now quarantine) ops).cursor.map Cursor.lastSeq).getD
        0)
      _ hstore (hr ops read time (prefix_refl _))
    intro a ha
    exact (hlines a ha).of_standings rfl
  | finishAction planId index outcome time =>
    exact finishAction_aggregates hstore
  | expireWindows time =>
    have hnone : windowEnded time (run (step prim alerts) (createdStore now quarantine) ops) = [] :=
      hw ops time (prefix_refl _)
    simp only [step, expireWindows, hnone]
    exact hstore
  | _ => exact outside_aggregates prim alerts rfl hstore

end

/-- Once every action of an admission has a result, the admission has ended with the
worst of their outcomes, as long as results that come after its end change none. -/
theorem admission_outcome_aggregates (now : ℤ) (quarantine : Option ℤ) (ops : List Op)
    (hw : NoWindowEnds prim alerts now quarantine ops)
    (hr : LateResultsRepeat prim alerts now quarantine ops) :
    ∀ a ∈ (storeAfter prim alerts now quarantine ops).admissions,
      (∀ x ∈ rowsOf (storeAfter prim alerts now quarantine ops) a.planId, x.finishedAt ≠ none) →
      a.finishedAt ≠ none ∧ ∃ o, a.outcome = some o ∧
        Worst ((rowsOf (storeAfter prim alerts now quarantine ops) a.planId).map ActionRow.outcome)
          o := by
  intro a ha hdone
  have h := aggregates_reachable prim alerts now quarantine ops hw hr a ha
  have hended : a.finishedAt ≠ none := by
    intro hnone
    obtain ⟨x,hx,hopen⟩ := h.whileOpen hnone
    exact hdone x hx hopen
  exact ⟨hended,_,(h.onceEnded hended).2,admissionOutcome_worst⟩

def resultLine (seq : ℕ) (planId digest : Str) (actionIndex : ℕ) (outcome : Outcome) :
    ConsumedLine :=
  ⟨seq,str "2026-01-02T00:10:00Z",str "result",planId,digest,actionIndex,
    some (str outcome.text),none⟩

def createdOps : List Op :=
  [.admitPlan revokeTrust
      (clientInput (sampleEnvelope createPlan ownerKeyId createSignature) [] 1767312300),
    .finishAction (ident 42).text 0 .succeeded 1767312310,
    .finishAction (ident 42).text 1 .succeeded 1767312320]

def lateRead (outcome : Outcome) : LogRead :=
  ⟨[resultLine 1 (ident 42).text (hex createPlanHash.val) 0 outcome],[],none,0⟩

/-- The log then reports that the first one failed. The action follows the log, the
admission does not. -/
theorem late_failure_unnoticed :
    let store := storeAfter revokePrimitives noAlerts 1767312000 none
      (createdOps ++ [.reconcile (lateRead .failed) 1767312400])
    store.admissions.map AdmissionRow.outcome = [some .succeeded] ∧
    (rowsOf store (ident 42).text).map ActionRow.outcome = [some .failed, some .succeeded] ∧
    ¬ Worst ((rowsOf store (ident 42).text).map ActionRow.outcome) .succeeded := by
  intro store
  have heval : store.admissions.map AdmissionRow.outcome = [some .succeeded] ∧
      (rowsOf store (ident 42).text).map ActionRow.outcome = [some .failed, some .succeeded] := by
    decide +kernel
  refine ⟨heval.1,heval.2,fun hworst => ?_⟩
  rw [heval.2] at hworst
  cases hworst with
  | severe before after _ hsplit hm hnone =>
    have : Outcome.succeeded ∈ severities := hsplit ▸ by simp
    exact absurd this (by decide)
  | success hnone => exact hnone .failed (by decide) (by decide)

/-- A late result that agrees leaves everything in line. -/
theorem late_repetition_agrees :
    let store := storeAfter revokePrimitives noAlerts 1767312000 none
      (createdOps ++ [.reconcile (lateRead .succeeded) 1767312400])
    ∀ a ∈ store.admissions, (∀ x ∈ rowsOf store a.planId, x.finishedAt ≠ none) →
      a.finishedAt ≠ none ∧ ∃ o, a.outcome = some o ∧
        Worst ((rowsOf store a.planId).map ActionRow.outcome) o := by
  have hwindow : NoWindowEnds revokePrimitives noAlerts 1767312000 none
      (createdOps ++ [.reconcile (lateRead .succeeded) 1767312400]) := by
    intro before time h
    have hm := h.subset (mem_append_right before (mem_singleton_self _))
    simp [createdOps] at hm
  have hstore : (storeAfter revokePrimitives noAlerts 1767312000 none createdOps).cursor = none ∧
      ∀ x ∈ (storeAfter revokePrimitives noAlerts 1767312000 none createdOps).actions,
        x.outcome = some .succeeded := by decide +kernel
  have hlate : LateResultsRepeat revokePrimitives noAlerts 1767312000 none
      (createdOps ++ [.reconcile (lateRead .succeeded) 1767312400]) := by
    intro before read time h
    rcases prefix_concat_iff.mp h with heq | hin
    · obtain ⟨rfl,hop⟩ := append_inj' heq rfl
      obtain ⟨rfl,rfl⟩ := Op.reconcile.inj (List.cons.inj hop).1
      simp only [hstore.1]
      refine ⟨fun r hr _ x hx _ => ?_,trivial⟩
      rw [hstore.2 x hx, lineResult_outcome .succeeded hr (by decide)]
    · have hm := hin.subset (mem_append_right before (mem_singleton_self _))
      simp [createdOps] at hm
  exact admission_outcome_aggregates revokePrimitives noAlerts 1767312000 none _ hwindow hlate

end Permanu.AdmissionOutcomes
