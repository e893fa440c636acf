import PermanuAgent.AdmissionRun

/-!
# The results of a pass

A pass over the consumed log and a call of the agent both come down to single
results, each written on its action and settled against the rules its plan
marks, with steps between them that touch neither outcomes nor rules. A run of
such calls is described by the list of the results it recorded.
-/

set_option autoImplicit false

namespace Permanu.AdmissionResults
open ByteText PlanText PlanActions PlanCrypto List
open TableRows StepRuns AdmissionStore AdmissionAdmit
open AdmissionReconcile AdmissionRun

structure Result where
  planId : Str
  actionIndex : ℕ
  outcome : Outcome
  deriving DecidableEq, Repr

def ActionRow.ended (x : ActionRow) : ActionRow :=
  { x with consumedAt := none, finishedAt := none, consumedSeq := none, resultSeq := none }

def isRevoke (x : ActionRow) : Bool := x.kind == str "rule.revoke"

structure Idle (store after : Store) : Prop where
  kept : Kept store after
  outcomes : after.actions.map ActionRow.ended = store.actions.map ActionRow.ended
  rules : after.rules = store.rules

/-- The action of the result gets its outcome, and the rules of its plan are settled if
it revokes. -/
structure Settles (store after : Store) (r : Result) : Prop where
  kept : Kept store after
  outcomes : after.actions.map ActionRow.ended = (updateWhere (isAction r.planId r.actionIndex)
    (fun x => { x with outcome := some r.outcome }) store.actions).map ActionRow.ended
  rules : ∃ time, after.rules =
    if (Store.actionRow store r.planId r.actionIndex).any isRevoke then
      settledRules r.planId r.outcome time store.rules
    else store.rules

inductive Records : Store → List Result → Store → Prop
  | start (store : Store) : Records store [] store
  | idle {store middle after : Store} {results : List Result} :
      Records store results middle → Idle middle after → Records store results after
  | result {store middle after : Store} {results : List Result} {r : Result} :
      Records store results middle → Settles middle after r → Records store (results ++ [r]) after

theorem Records.trans {a b c : Store} {first second : List Result} (hab : Records a first b)
    (hbc : Records b second c) : Records a (first ++ second) c := by
  induction hbc with
  | start => simpa using hab
  | idle _ hi ih => exact .idle ih hi
  | result _ hs ih =>
    rw [← append_assoc]
    exact .result ih hs

variable {store after : Store}

theorem Records.kept {results : List Result}
    (h : Records store results after) : Kept store after := by
  induction h with
  | start => exact Kept.refl
  | idle _ hi ih => exact ih.trans hi.kept
  | result _ hs ih => exact ih.trans hs.kept

theorem finishAdmissionIfDone_idle {planId : Str} :
    Idle store (finishAdmissionIfDone planId store).1 := by
  refine ⟨finishAdmissionIfDone_kept,?_,?_⟩
  all_goals
    simp only [finishAdmissionIfDone]
    split_ifs <;> rfl

theorem Settles.idle {middle : Store} {r : Result} (h : Settles store middle r)
    (hi : Idle middle after) : Settles store after r :=
  ⟨h.kept.trans hi.kept,hi.outcomes.trans h.outcomes,hi.rules ▸ h.rules⟩

variable {x : ActionRow} {line : ConsumedLine}

section
variable (planId : Str) (actionIndex : ℕ) (outcome : Outcome)

theorem settleRuleRevoke_rules (time : Str)
    (store : Store) : (settleRuleRevoke planId actionIndex outcome time store).rules =
      if (Store.actionRow store planId actionIndex).any isRevoke then
        settledRules planId outcome time store.rules
      else store.rules := by
  change (if (Store.actionRow store planId actionIndex).any isRevoke then
    { store with rules := settledRules planId outcome time store.rules } else store).rules = _
  split_ifs <;> rfl

theorem settleRuleRevoke_actions (time : Str) (store : Store) :
    (settleRuleRevoke planId actionIndex outcome time store).actions = store.actions := by
  simp only [settleRuleRevoke]
  split_ifs <;> rfl

def ActionRow.key (x : ActionRow) : Str × ℕ := (x.planId, x.actionIndex)

def Keyed (store : Store) : Prop := (store.actions.map ActionRow.key).Nodup

theorem Keyed.kept (h : Keyed store) (hk : Kept store after) : Keyed after := by
  have hkeys : after.actions.map ActionRow.key = store.actions.map ActionRow.key :=
    map_of_core ActionRow.core ActionRow.key (fun _ => rfl) hk.actions
  rwa [Keyed, hkeys]

theorem isAction_iff {planId : Str} {actionIndex : ℕ} :
    isAction planId actionIndex x = true ↔ ActionRow.key x = (planId, actionIndex) := by
  simp [isAction, ActionRow.key]

theorem Keyed.eq (h : Keyed store) {planId : Str} {actionIndex : ℕ}
    {y : ActionRow} (hx : x ∈ store.actions) (hy : y ∈ store.actions)
    (hxa : isAction planId actionIndex x = true) (hya : isAction planId actionIndex y = true) :
    x = y := by
  rw [isAction_iff] at hxa hya
  exact inj_on_of_nodup_map h hx hy (hxa.trans hya.symm)

theorem countP_eq_one (h : Keyed store) {planId : Str} {actionIndex : ℕ} (hx : x ∈ store.actions)
    (ho : (isAction planId actionIndex x && x.finishedAt.isNone) = true) :
    store.actions.countP (fun y => isAction planId actionIndex y && y.finishedAt.isNone) = 1 := by
  rw [Bool.and_eq_true] at ho
  -- the rows counted are copies of one row of a list without duplicates
  have hcount :
      store.actions.countP (fun y => isAction planId actionIndex y && y.finishedAt.isNone) =
        store.actions.count x := by
    apply countP_congr
    intro y hy
    constructor
    · intro hyo
      rw [Bool.and_eq_true] at hyo
      simp [h.eq hy hx hyo.1 ho.1]
    · intro heq
      rw [beq_iff_eq.mp heq, ho.1, ho.2]
      rfl
  rw [hcount]
  exact count_eq_one_of_mem (List.Nodup.of_map _ h) hx

/-- Ending the rows of an action, and settling the rules of its plan, records one result. -/
theorem settleRuleRevoke_settles {time : Str} (p : ActionRow → Bool) (f : ActionRow → ActionRow)
    (hp : ∀ x ∈ store.actions, p x = isAction planId actionIndex x)
    (hcore : ∀ x, (f x).core = x.core)
    (hf : ∀ x, ActionRow.ended (f x) = ActionRow.ended { x with outcome := some outcome }) :
    Settles store (settleRuleRevoke planId actionIndex outcome time
      { store with actions := updateWhere p f store.actions }) ⟨planId,actionIndex,outcome⟩ := by
  refine ⟨?_,?_,time,?_⟩
  · refine Kept.trans ?_ settleRuleRevoke_kept
    exact { Kept.refl with actions := map_updateWhere _ _ _ hcore _ }
  · rw [settleRuleRevoke_actions]
    simp only [updateWhere, map_map]
    apply map_congr_left
    intro x hx
    simp only [Function.comp, hp x hx]
    split_ifs
    · exact hf x
    · rfl
  · rw [settleRuleRevoke_rules]
    have hkind : ∀ x, (f x).kind = x.kind := fun x =>
      show (f x).core.kind = x.core.kind by rw [hcore]
    have hkey : ∀ x, ActionRow.key (f x) = ActionRow.key x := fun x =>
      show ActionRow.key (f x).core = ActionRow.key x.core by rw [hcore]
    have hmatch : isAction planId actionIndex ∘ (fun x => if p x then f x else x) =
        isAction planId actionIndex := by
      funext x
      rw [Bool.eq_iff_iff, Function.comp, isAction_iff, isAction_iff]
      split_ifs
      · rw [hkey]
      · rfl
    have hfound : (Store.actionRow { store with actions := updateWhere p f store.actions } planId
        actionIndex).any isRevoke = (Store.actionRow store planId actionIndex).any isRevoke := by
      simp only [Store.actionRow, updateWhere, find?_map, hmatch]
      cases store.actions.find? (isAction planId actionIndex) with
      | none => rfl
      | some x =>
        simp only [Option.map_some, Option.any_some, isRevoke]
        split_ifs
        · rw [hkind]
        · rfl
    exact if_congr (by rw [hfound]) rfl rfl

def lineResult (store : Store) (line : ConsumedLine) : Option Result :=
  if namesAdmission store line && line.event == str "result" then
    (line.outcome.bind outcomeOf).map (Result.mk line.planId line.actionIndex)
  else none

theorem applyConsumed_idle :
    Idle store (applyConsumed line store).1 := by
  refine ⟨{ Kept.refl with actions := map_updateWhere _ _ _ (by intro _; rfl) _ },?_,rfl⟩
  exact map_updateWhere _ _ _ (by intro _; rfl) _

theorem applyLine_records :
    Records store (lineResult store line).toList (applyLine line store).1 := by
  simp only [applyLine, lineResult]
  by_cases hn : namesAdmission store line = true
  · by_cases hc : line.event = str "consumed"
    · simp only [hn, hc, Bool.not_true, Bool.false_eq_true, if_false, if_true, beq_iff_eq,
        Bool.true_and]
      exact .idle (.start store) applyConsumed_idle
    · by_cases hr : line.event = str "result"
      · simp only [hn, hr, Bool.not_true, Bool.false_eq_true, if_false, if_true,
          beq_self_eq_true, Bool.and_self, applyResult]
        cases line.outcome.bind outcomeOf with
        | none => exact .start store
        | some outcome =>
          refine Records.result (.start store) ?_
          exact (settleRuleRevoke_settles _ _ outcome _ _ (fun _ _ => rfl)
            (by intro _; rfl) (by intro _; rfl)).idle finishAdmissionIfDone_idle
      · simp only [hn, hc, hr, Bool.not_true, Bool.false_eq_true, if_false, Bool.true_and,
          beq_iff_eq]
        exact .start store
  · simp only [hn, Bool.not_false, if_true, Bool.false_and, Bool.false_eq_true, if_false]
    exact .start store

def afterLine (store : Store) (line : ConsumedLine) : Store :=
  if kindIn actionEvents line.event then (applyLine line store).1 else store

def linesResults : List ConsumedLine → Store → List Result
  | [], _ => []
  | line::rest, store => (lineResult store line).toList ++ linesResults rest (afterLine store line)

theorem afterLine_records :
    Records store (lineResult store line).toList (afterLine store line) := by
  simp only [afterLine]
  split_ifs with hk
  · exact applyLine_records
  · -- a result line is an action event
    have hr : ¬ line.event = str "result" := by
      intro hr
      exact hk (by rw [hr]; decide)
    simp only [lineResult, beq_eq_false_iff_ne.mpr hr, Bool.and_false, Bool.false_eq_true, if_false]
    exact .start store

theorem applyLines_cons {line : ConsumedLine} {rest : List ConsumedLine} {lastSeq : ℕ}
    {store : Store} :
    (applyLines lastSeq (line::rest) store).1 =
      (applyLines line.seq rest (afterLine store line)).1 := by
  simp only [applyLines, afterLine]
  split_ifs <;> rfl

theorem applyLines_records {lines : List ConsumedLine} (lastSeq : ℕ) (store : Store) :
    Records store (linesResults lines store) (applyLines lastSeq lines store).1 := by
  induction lines generalizing lastSeq store with
  | nil => exact .start store
  | cons line rest ih =>
    rw [linesResults, applyLines_cons]
    exact afterLine_records.trans (ih line.seq _)

def opResults (store : Store) : Op → List Result
  | .reconcile read _ =>
    linesResults (newLines ((store.cursor.map Cursor.lastSeq).getD 0) read.lines) store
  | .finishAction planId actionIndex outcome _ =>
    if store.actions.countP (fun x => isAction planId actionIndex x && x.finishedAt.isNone) = 1 then
      [⟨planId,actionIndex,outcome⟩]
    else []
  | _ => []

def isResultOp : Op → Bool
  | .reconcile _ _ | .finishAction _ _ _ _ => true
  | _ => false

theorem finishAction_records {now : ℤ} (hkeyed : Keyed store) :
    Records store (opResults store (.finishAction planId actionIndex outcome now))
      (finishAction planId actionIndex outcome now store).1 := by
  simp only [opResults, finishAction]
  split_ifs with hc
  · -- the one unfinished row is the only row of the action
    have hp : ∀ x ∈ store.actions, (isAction planId actionIndex x && x.finishedAt.isNone) =
        isAction planId actionIndex x := by
      intro x hx
      obtain ⟨y,hy,hopen⟩ := countP_pos_iff.mp (hc ▸ Nat.one_pos)
      rw [Bool.and_eq_true] at hopen
      by_cases ha : isAction planId actionIndex x = true
      · rw [hkeyed.eq hx hy ha hopen.1, hopen.1, hopen.2]
        rfl
      · simp [ha]
    exact .result (.start store)
      ((settleRuleRevoke_settles planId actionIndex outcome _ _ hp (by intro _; rfl)
        (by intro _; rfl)).idle
      finishAdmissionIfDone_idle)
  · have hnone : ∀ x ∈ store.actions,
        (isAction planId actionIndex x && x.finishedAt.isNone) = false := by
      intro x hx
      by_contra hopen
      exact hc (countP_eq_one hkeyed hx (by simpa using hopen))
    have hsame : updateWhere (fun x => isAction planId actionIndex x && x.finishedAt.isNone)
        (fun x => { x with finishedAt := some (formatTimestamp now), outcome := some outcome })
        store.actions = store.actions := by
      conv_rhs => rw [← map_id store.actions]
      apply map_congr_left
      intro x hx
      simp [hnone x hx]
    rw [hsame]
    exact .idle (.start store) finishAdmissionIfDone_idle

end

variable (prim : Primitives) (alerts : AlertSpecs)

theorem resultOp_records {op : Op} (hkeyed : Keyed store)
    (h : isResultOp op = true) :
    Records store (opResults store op) (step prim alerts store op) := by
  cases op with
  | reconcile read now =>
    refine .idle (applyLines_records ((store.cursor.map Cursor.lastSeq).getD 0) store) ?_
    exact ⟨{ Kept.refl with },rfl,rfl⟩
  | finishAction planId actionIndex outcome now =>
    exact finishAction_records planId actionIndex outcome hkeyed
  | _ => cases h

def runResults : Store → List Op → List Result
  | _, [] => []
  | store, op::rest => opResults store op ++ runResults (step prim alerts store op) rest

theorem run_records (store : Store) {ops : List Op} (hkeyed : Keyed store)
    (h : ∀ op ∈ ops, isResultOp op = true) :
    Records store (runResults prim alerts store ops) (run (step prim alerts) store ops) := by
  induction ops generalizing store with
  | nil => exact .start store
  | cons op rest ih =>
    have hop := resultOp_records prim alerts hkeyed (h op (by simp))
    exact hop.trans (ih _ (hkeyed.kept hop.kept) (fun o ho => h o (by simp [ho])))

end Permanu.AdmissionResults
