import PermanuAgent.PlanSpec
import PermanuAgent.StepRuns

/-!
# The steps of a CI job

The step loop of a CI job. A step's condition sees only whether a step failed
before it, and the loop is left at a failure that is not tolerated, so a condition
means what it says only for the steps the loop still comes to.
-/

set_option autoImplicit false

namespace Permanu.CiSteps

open ByteText PlanSpec StepRuns

structure CiStep where
  stepId : Str
  stepIndex : ℕ
  ifExpr : Str
  continueOnError : Bool

def normalizeCiIfExprAtom (expr : Str) : Str :=
  if ["true", "false", "success()", "failure()", "always()", "cancelled()"].any
      fun word => toLower expr = str word then toLower expr
  else expr

def normalizeCiIfExpr (expr : Str) : Str :=
  match ((trim expr).dropPrefix? (str "$\x7b\x7b")).bind (stripSuffix · "\x7d\x7d") with
  | some inner => normalizeCiIfExprAtom (trim inner)
  | none => normalizeCiIfExprAtom (trim expr)

def parseStartsWithGithubRef (expr : Str) : Option Str := do
  let rest ← expr.dropPrefix? (str "startsWith(github.ref,")
  let argument ← stripSuffix (trim rest) ")"
  let quoted ← (trim argument).dropPrefix? (str "'")
  stripSuffix quoted "'"

def shouldRunCiStep (ref expr : Str) (sawFailure : Bool) : Bool :=
  let expr := normalizeCiIfExpr expr
  if expr = [] ∨ expr = str "true" then true
  else if expr = str "false" then false
  else if expr = str "success()" then !sawFailure
  else if expr = str "failure()" then sawFailure
  else if expr = str "always()" then true
  else if expr = str "cancelled()" then false
  else (parseStartsWithGithubRef expr).any (·.isPrefixOf ref)

inductive Status
  | success
  | failure
  | skipped
  deriving DecidableEq

/-- What the loop has so far. It is left once it has the index of a failed step. -/
structure Loop where
  failedStepIndex : Option ℕ
  /-- The statuses in the order in which they are inserted. -/
  statuses : List (Str × Status)
  sawFailure : Bool
  deriving DecidableEq

def Loop.start : Loop := ⟨none,[],false⟩

def Loop.insert (loop : Loop) (step : CiStep) (status : Status) : Loop :=
  { loop with statuses := loop.statuses ++ [(step.stepId,status)] }

def Loop.fail (loop : Loop) (step : CiStep) : Loop :=
  { loop.insert step .failure with
    sawFailure := true
    failedStepIndex := if step.continueOnError then none else some step.stepIndex }

def executes (ref : Str) (loop : Loop) (expr : Str) : Bool :=
  loop.failedStepIndex.isNone && shouldRunCiStep ref expr loop.sawFailure

/-- One round for a step and the outcome it has if it is executed. -/
def executeRound (ref : Str) (loop : Loop) (round : CiStep × Bool) : Loop :=
  if executes ref loop round.1.ifExpr then
    if round.2 then loop.insert round.1 .success else loop.fail round.1
  else if loop.failedStepIndex.isNone then loop.insert round.1 .skipped
  else loop

/-- The condition of a step means what it says in what the loop has before it. -/
structure Meant (ref : Str) (loop : Loop) (step : CiStep) : Prop where
  always : normalizeCiIfExpr step.ifExpr = str "always()" → executes ref loop step.ifExpr
  failure : normalizeCiIfExpr step.ifExpr = str "failure()" →
    (executes ref loop step.ifExpr ↔ ∃ id, (id,Status.failure) ∈ loop.statuses)
  empty : normalizeCiIfExpr step.ifExpr = [] →
    (executes ref loop step.ifExpr ↔ executes ref loop (str "success()"))
  settled : loop.failedStepIndex.isSome → executes ref loop step.ifExpr ∨
    ∀ outcome, executeRound ref loop (step,outcome) = loop.insert step .skipped

/-- The loop comes to the step, and no step failed before one without a condition. -/
def Allowed (loop : Loop) (step : CiStep) : Prop :=
  loop.failedStepIndex = none ∧ (normalizeCiIfExpr step.ifExpr = [] → loop.sawFailure = false)

variable (ref : Str) {loop : Loop}

def Tells (loop : Loop) : Prop :=
  loop.sawFailure = true ↔ ∃ id, (id,Status.failure) ∈ loop.statuses

theorem executeRound_tells (round : CiStep × Bool) (h : Tells loop) :
    Tells (executeRound ref loop round) := by
  unfold executeRound
  split_ifs
  · simpa [Tells, Loop.insert] using h
  · simp [Tells, Loop.insert, Loop.fail]
  · simpa [Tells, Loop.insert] using h
  · exact h

theorem run_tells (rounds : List (CiStep × Bool)) :
    Tells (run (executeRound ref) Loop.start rounds) := by
  apply run_invariant
  · simp [Tells, Loop.start]
  · exact fun _ round h => executeRound_tells ref round h

theorem not_meant_of_left {step : CiStep} (h : loop.failedStepIndex ≠ none) :
    ¬ Meant ref loop step := by
  intro hm
  obtain ⟨index,hleft⟩ := Option.ne_none_iff_exists'.mp h
  rcases hm.settled (by simp [hleft]) with hrun | hskip
  · simp [executes, hleft] at hrun
  · have hsame := congrArg (fun l => l.statuses.length) (hskip true)
    simp [executeRound, executes, hleft, Loop.insert] at hsame

theorem normalize_success : normalizeCiIfExpr (str "success()") = str "success()" := by decide

theorem meant_iff_allowed (step : CiStep) (h : Tells loop) :
    Meant ref loop step ↔ Allowed loop step := by
  by_cases hleft : loop.failedStepIndex = none
  · have hsuccess : executes ref loop (str "success()") = !loop.sawFailure := by
      simp only [executes, hleft, shouldRunCiStep, normalize_success]
      rfl
    constructor
    · intro hm
      refine ⟨hleft,fun hempty => ?_⟩
      have hsame := hm.empty hempty
      rw [hsuccess] at hsame
      simpa [executes, hleft, shouldRunCiStep, hempty] using hsame
    · intro ha
      constructor
      · intro hexpr
        simp only [executes, hleft, shouldRunCiStep, hexpr]
        rfl
      · intro hexpr
        rw [← show _ ↔ _ from h]
        simp only [executes, hleft, shouldRunCiStep, hexpr]
        rfl
      · intro hexpr
        rw [hsuccess, ha.2 hexpr]
        simp [executes, hleft, shouldRunCiStep, hexpr]
      · simp [hleft]
  · exact iff_of_false (not_meant_of_left ref hleft) fun ha => hleft ha.1

/-- Every condition of a job means what it says iff the loop is not left before the
last step and no step without a condition comes after a failed one. -/
theorem conditions_meant_iff (ref : Str) (rounds : List (CiStep × Bool)) :
    (∀ before round, before ++ [round] <+: rounds →
      Meant ref (run (executeRound ref) Loop.start before) round.1) ↔
    ∀ before round, before ++ [round] <+: rounds →
      Allowed (run (executeRound ref) Loop.start before) round.1 :=
  forall₃_congr fun before round _ => meant_iff_allowed ref round.1 (run_tells ref before)

def sampleStep (index : ℕ) (expr : String) (continueOnError : Bool) : CiStep :=
  ⟨decimal index,index,str expr,continueOnError⟩

/-- After a failure the step that is always to run has no status; after a tolerated
one a step without a condition is executed where `success()` is skipped. -/
theorem failure_ends_loop_and_empty_runs :
    (run (executeRound []) Loop.start
      [(sampleStep 0 "" false,false), (sampleStep 1 "always()" false,true)]).statuses =
        [(str "0",.failure)] ∧
    (run (executeRound []) Loop.start
      [(sampleStep 0 "" true,false), (sampleStep 1 "" false,true),
        (sampleStep 2 "success()" false,true)]).statuses =
        [(str "0",.failure), (str "1",.success), (str "2",.skipped)] :=
  ⟨by decide,by decide⟩

end Permanu.CiSteps
