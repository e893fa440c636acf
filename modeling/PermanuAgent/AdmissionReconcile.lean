import PermanuAgent.AdmissionStore

/-!
# The ends of an action

Three writers end an action: a result line of the runner's consumed log, the
agent itself and the end of the execution window. The log is applied from its
cursor on, in the order of its sequence numbers, and wins over what the agent
recorded. The end of a revoking action settles the revocation of its plan.
-/

set_option autoImplicit false

namespace Permanu.AdmissionReconcile
open ByteText PlanText PlanActions TableRows
open AdmissionStore

structure ConsumedLine where
  seq : ℕ
  time : Str
  event : Str
  planId : Str
  planDigestHex : Str
  actionIndex : ℕ
  outcome : Option Str
  cleanup : Option Str
  deriving DecidableEq, Repr

inductive ReconcileEffect where
  | consumed (planId : Str) (actionIndex : ℕ)
  | actionFinished (planId : Str) (actionIndex : ℕ) (outcome : Outcome) (cleanup : Option Str)
  | admissionFinished (planId : Str) (outcome : Outcome)
  | unexplained (detail : Str)
  deriving DecidableEq, Repr

structure LogRead where
  lines : List ConsumedLine
  problems : List Str
  inode : Option ℕ
  offset : ℕ
  deriving DecidableEq, Repr

def isAction (planId : Str) (actionIndex : ℕ) (r : ActionRow) : Bool :=
  r.planId == planId && r.actionIndex == actionIndex

def Store.actionRow (store : Store) (planId : Str) (actionIndex : ℕ) : Option ActionRow :=
  store.actions.find? (isAction planId actionIndex)

def settledRules (planId : Str) (outcome : Outcome) (time : Str) (rules : List RuleRow) :
    List RuleRow :=
  let pending := fun r : RuleRow => r.revokedPlanId == some planId && r.revokedAt.isNone
  if outcome = .succeeded then
    updateWhere pending (fun r => { r with revokedAt := some time }) rules
  else updateWhere pending (fun r => { r with revokedPlanId := none }) rules

section
variable (planId : Str) (actionIndex : ℕ) (outcome : Outcome)

def settleRuleRevoke (time : Str) (store : Store) : Store :=
  if (Store.actionRow store planId actionIndex).any fun r => r.kind == str "rule.revoke" then
    { store with rules := settledRules planId outcome time store.rules }
  else store

def admissionOutcome (outcomes : List (Option Outcome)) : Outcome :=
  (([.failed, .expired, .rolledBack, .cancelled] : List Outcome).find?
    fun o => outcomes.contains (some o)).getD .succeeded

def laterText (a b : Option Str) : Option Str :=
  match a, b with
  | some x, some y => if leText x y then some y else some x
  | some x, none => some x
  | none, y => y

def finishAdmissionIfDone (planId : Str) (store : Store) : Store × Option Outcome :=
  let rows := store.actions.filter fun r => r.planId == planId
  if rows.isEmpty || rows.any fun r => r.finishedAt.isNone then (store, none)
  else
    let latest := (rows.map ActionRow.finishedAt).foldr laterText none
    let outcome := admissionOutcome (rows.map ActionRow.outcome)
    let open' := fun r : AdmissionRow => r.planId == planId && r.finishedAt.isNone
    let ended := updateWhere open'
      (fun r => { r with finishedAt := latest, outcome := some outcome }) store.admissions
    ({ store with admissions := ended },
      if store.admissions.countP open' = 1 then some outcome else none)

def actionEvents : List String := ["consumed", "op", "result"]
def cleanups : List String := ["done", "failed", "none"]

def recordResult (time : Str) (seq : ℕ) (store : Store) : Store :=
  let ended := updateWhere (isAction planId actionIndex)
    (fun r => { r with finishedAt := some time, outcome := some outcome, resultSeq := some seq })
    store.actions
  { store with actions := ended }

def namesAdmission (store : Store) (line : ConsumedLine) : Bool :=
  (Store.actionRow store line.planId line.actionIndex).isSome
    && (store.admission line.planId).any fun a => a.planDigestHex == line.planDigestHex

def unexplainedSeq (seq : ℕ) (problem : String) : ReconcileEffect :=
  .unexplained (str "consumed.log seq " ++ decimal seq ++ str problem)

def applyConsumed (line : ConsumedLine) (store : Store) : Store × List ReconcileEffect :=
  let fresh := fun r => isAction line.planId line.actionIndex r && r.consumedSeq.isNone
  let started := updateWhere fresh
    (fun r => { r with consumedAt := some line.time, consumedSeq := some line.seq }) store.actions
  ({ store with actions := started },
    if store.actions.countP fresh = 1 then [.consumed line.planId line.actionIndex] else [])

def applyResult (line : ConsumedLine) (store : Store) : Store × List ReconcileEffect :=
  match line.outcome.bind outcomeOf with
  | none => (store, [unexplainedSeq line.seq " has an unknown outcome"])
  | some outcome =>
    let recorded := recordResult line.planId line.actionIndex outcome line.time line.seq store
    let settled := settleRuleRevoke line.planId line.actionIndex outcome line.time recorded
    let (finished, ended) := finishAdmissionIfDone line.planId settled
    (finished, .actionFinished line.planId line.actionIndex outcome
        (line.cleanup.filter fun cl => outcome = .cancelled && kindIn cleanups cl)
      :: (ended.map (.admissionFinished line.planId)).toList)

def applyLine (line : ConsumedLine) (store : Store) : Store × List ReconcileEffect :=
  if !namesAdmission store line then
    (store, [unexplainedSeq line.seq " names an unknown admission"])
  else if line.event = str "consumed" then applyConsumed line store
  else if line.event = str "result" then applyResult line store
  else (store, [])

def insertLine (line : ConsumedLine) : List ConsumedLine → List ConsumedLine
  | [] => [line]
  | l::rest =>
    if line.seq < l.seq then line::l::rest
    else if line.seq = l.seq then line::rest
    else l::insertLine line rest

def newLines (lastSeq : ℕ) (lines : List ConsumedLine) : List ConsumedLine :=
  (lines.filter fun line => lastSeq < line.seq).foldr insertLine []

def applyLines : ℕ → List ConsumedLine → Store → Store × ℕ × List ReconcileEffect
  | lastSeq, [], store => (store, lastSeq, [])
  | lastSeq, line::rest, store =>
    let gap := if line.seq = lastSeq + 1 then [] else
      [.unexplained (str "consumed.log seq gap " ++ decimal lastSeq ++ str " -> "
        ++ decimal line.seq)]
    let (applied, effects) :=
      if kindIn actionEvents line.event then applyLine line store else (store, [])
    let (final, seq, later) := applyLines line.seq rest applied
    (final, seq, gap ++ effects ++ later)

def reconcile (read : LogRead) (now : ℤ) (store : Store) : Store × List ReconcileEffect :=
  let lastSeq := (store.cursor.map Cursor.lastSeq).getD 0
  let (applied, seq, effects) := applyLines lastSeq (newLines lastSeq read.lines) store
  ({ applied with cursor := some ⟨seq,read.inode,read.offset,formatTimestamp now⟩ },
    read.problems.map .unexplained ++ effects)

def finishAction (now : ℤ) (store : Store) : Store × Bool :=
  let time := formatTimestamp now
  let unfinished := fun r => isAction planId actionIndex r && r.finishedAt.isNone
  let changed := store.actions.countP unfinished = 1
  let ended := updateWhere unfinished
    (fun r => { r with finishedAt := some time, outcome := some outcome }) store.actions
  let recorded := { store with actions := ended }
  let settled := if changed then settleRuleRevoke planId actionIndex outcome time recorded
    else recorded
  ((finishAdmissionIfDone planId settled).1, changed)

end

def executionWindowSeconds : ℤ := 3600

def unconsumed (r : ActionRow) : Bool := r.consumedAt.isNone && r.finishedAt.isNone

def windowEnded (now : ℤ) (store : Store) : List Str :=
  (store.admissions.filter fun a => a.finishedAt.isNone
    && ltText a.admittedAt (formatTimestamp (now - executionWindowSeconds))
    && store.actions.any fun r => r.planId == a.planId && unconsumed r).map AdmissionRow.planId

def expirePlan (time : Str) (store : Store) (planId : Str) : Store :=
  { store with
    actions := updateWhere (fun r => r.planId == planId && unconsumed r)
      (fun r => { r with finishedAt := some time, outcome := some .expired }) store.actions
    admissions := updateWhere (fun r => r.planId == planId && r.finishedAt.isNone)
      (fun r => { r with finishedAt := some time, outcome := some .expired }) store.admissions }

def expireWindows (now : ℤ) (store : Store) : Store × List Str :=
  let ended := windowEnded now store
  (ended.foldl (expirePlan (formatTimestamp now)) store, ended)

end Permanu.AdmissionReconcile
