import PermanuAgent.CronPasses

/-!
# Manual runs and recovery

The manual runs of admitted actions, their reservations and the recovery of interrupted
attempts come down to moves as well. Where a sequence has to spare the queued chains, the
lemma names what the state and the view of the step must satisfy.
-/

set_option autoImplicit false

namespace Permanu.CronScheduler
open ByteText PlanText AdmissionDefinitions List OrderedMap
open OpsStore CronJobs
open RunnerRequests (RunnerFailure)

variable {row : Row CronRun} {unfinished : Unfinished} {r : ManualCronReservation}

variable {grants : List Grant}

variable {operationId : Str}

section Manual
variable {env : Env} {spared : Prop} {w w' : World} {view : View} {run : CronRun}
  {id cronId planId slot : Str} {chain : Chain} {ops : Store CronRun} {action : AdmittedAction}

def listed (keep : Row CronRun → Bool) (limit : ℕ) (w : World) : List (Row CronRun) :=
  (w.ops.records.reverse.filter fun row => row.kind == .cronRun && keep row).take limit

theorem mem_listed {keep : Row CronRun → Bool} {limit : ℕ} (h : row ∈ listed keep limit w) :
    row ∈ w.ops.records ∧ keep row = true := by
  have hfilter := mem_filter.mp (mem_of_mem_take h)
  rw [Bool.and_eq_true] at hfilter
  exact ⟨mem_reverse.mp hfilter.1,hfilter.2.2⟩

theorem list_eq (h : Owned env w) (keep : Row CronRun → Bool) (limit : ℕ) :
    list env keep limit w = (w,listed keep limit w) := by
  unfold list
  rw [if_pos]
  · rfl
  · rw [all_eq_true]
    intro row hrow
    exact (h.rows row (mem_listed hrow).1).valid

def isOpen (row : Row CronRun) : Bool :=
  decide (row.status ∈ [RunStatus.running.code, RunStatus.pending.code])

theorem openRuns_eq (h : Owned env w) : openRuns env w = (w,listed isOpen 10000 w) :=
  list_eq h isOpen 10000

theorem RowOk.isOpen (h : RowOk env grants row) :
    isOpen row = true ↔ row.body.status.isFinal = false := by
  have hvalid := h.valid
  simp only [validRow, Bool.and_eq_true, beq_iff_eq] at hvalid
  rw [CronScheduler.isOpen, ← hvalid.2]
  cases row.body.status <;> decide

theorem ManualRun.same (manual : ManualRun env w run) {other : CronRun} (same : SameRun other run) :
    ManualRun env w other := by
  refine ⟨same.trigger.trans manual.trigger,?_⟩
  rw [same.id, same.cronId, same.planId]
  exact manual.issued

theorem endedManual_same (view : View) (action : AdmittedAction) (run : CronRun) :
    SameRun (endedManual view action run) run := by
  unfold endedManual
  simp only
  split
  · exact ⟨rfl,rfl,rfl,rfl⟩
  · split <;> exact ⟨rfl,rfl,rfl,rfl⟩

theorem closeManual_ops (cronId id : Str) (w : World) : (closeManual cronId id w).ops = w.ops := by
  have hgive : (w.giveBack id).ops = w.ops := by
    unfold World.giveBack
    split <;> rfl
  unfold closeManual
  simp only
  split
  · rcases endChain_cases with ⟨heq,_⟩ | ⟨next,_,_,heq⟩
    all_goals
      rw [heq]
      exact hgive
  · exact hgive

theorem openManual_ops (w : World) : (openManual env run cronId w).ops = w.ops := by
  unfold openManual
  split <;> rfl

theorem Put.keeps {old new : Store CronRun} (hput : Put env old new run slot)
    (hrow : row ∈ old.records) (hid : row.id ≠ run.id) : row ∈ new.records := by
  obtain ⟨seq,time,hrows⟩ := hput.rows
  exact (hrows row).mpr (.inr ⟨hrow,hid⟩)

def KeepsOthers (id : Str) (w w' : World) : Prop :=
  ∀ row ∈ w.ops.records, row.id ≠ id → row ∈ w'.ops.records

theorem settleManual_moves (view : View) (h : Owned env w) (manual : ManualRun env w run)
    (hplan : run.planId = action.planId) :
    Moves env spared w (settleManual env view action run.cronId run w) ∧
      KeepsOthers run.id w (settleManual env view action run.cronId run w) := by
  have hfailed : Moves env spared w w.failed ∧ KeepsOthers run.id w w.failed :=
    ⟨.of_background background_failed,fun _ hrow _ => hrow⟩
  unfold settleManual
  simp only
  rw [← hplan]
  split
  · split
    · have hbegun : ManualRun env w (begun view.now run) := manual.same ⟨rfl,rfl,rfl,rfl⟩
      rcases save_cases h with ⟨ops,hput,hsave⟩ | hsave
      · rw [hsave]
        have hstored : Background env w (World.store w ops) := .put hput hbegun.rowUse
        refine ⟨(Moves.of_background hstored).tail
          (.opened (begun view.now run) ⟨hbegun.trigger,hbegun.issued⟩),fun row hrow hid => ?_⟩
        simp only [openManual_ops]
        exact hput.keeps hrow hid
      · rw [hsave]
        exact hfailed
    · refine ⟨.single (.opened run manual),fun row hrow _ => ?_⟩
      rw [openManual_ops]
      exact hrow
  · have hsame := endedManual_same view action run
    have hended := manual.same hsame
    rcases save_cases h with ⟨ops,hput,hsave⟩ | hsave
    · rw [hsave]
      refine ⟨?_,fun row hrow hid => ?_⟩
      · rw [← hsame.planId] at hput
        have hstored : Background env w (World.store w ops) := .put hput hended.rowUse
        have hmove : Move env spared (World.store w ops)
            (closeManual (endedManual view action run).cronId (endedManual view action run).id
              (World.store w ops)) := .settled _ ⟨hended.trigger,hended.issued⟩
        rw [hsame.cronId] at hmove
        exact (Moves.of_background hstored).tail hmove
      · rw [closeManual_ops]
        exact hput.keeps hrow (hsame.id.symm ▸ hid)
    · rw [hsave]
      exact hfailed

structure Tracks (w : World) (unfinished : Unfinished) : Prop where
  recorded : ∀ entry ∈ unfinished, entry.2 ∈ w.ops.records
  keys : ∀ entry ∈ unfinished, entry.1 = (entry.2.subject,entry.2.slot)

def actionJob (action : AdmittedAction) : Str := action.params["cron_id"]!.text

def actionKey (action : AdmittedAction) : Str × Str := (actionJob action,manualSlot action.planId)

theorem existing_manual (h : Owned env w) (hrow : row ∈ w.ops.records)
    (hsubject : row.subject = cronId) (hslot : row.slot = manualSlot planId) :
    ManualRun env w row.body ∧ row.body.id = row.id ∧ row.body.cronId = cronId ∧
      row.body.planId = planId := by
  have hok := h.rows row hrow
  obtain ⟨hissued,htrigger,hplan⟩ := hok.manual_of_slot hslot
  refine ⟨⟨htrigger,?_⟩,hok.id_eq,hok.cronId_eq.trans hsubject,hplan⟩
  rw [hok.id_eq, hok.cronId_eq]
  exact hissued

theorem settleExisting_moves (h : Owned env w) {existing : Option (Row CronRun)}
    (hexisting : ∀ row ∈ existing, row ∈ w.ops.records ∧ row.subject = actionJob action ∧
      row.slot = manualSlot action.planId) :
    Moves env spared w (settleExisting env view action (actionJob action) existing w) ∧
      ∀ row ∈ w.ops.records, (∀ found ∈ existing, found.id ≠ row.id) →
        row ∈ (settleExisting env view action (actionJob action) existing w).ops.records := by
  unfold settleExisting
  split
  next found =>
    obtain ⟨hrow,hsubject,hslot⟩ := hexisting found rfl
    obtain ⟨hmanual,hid,hcronId,hplan⟩ := existing_manual h hrow hsubject hslot
    split
    · exact ⟨.refl,fun _ hrow _ => hrow⟩
    · obtain ⟨hmoves,hkeeps⟩ := settleManual_moves view h hmanual hplan
      rw [hcronId] at hmoves hkeeps
      exact ⟨hmoves,fun row hrow hother => hkeeps row hrow (hid.symm ▸ (hother found rfl).symm)⟩
  next =>
    split
    · exact ⟨.refl,fun _ hrow _ => hrow⟩
    · have hissue : Moves env spared w (w.issue (actionJob action) (.manual action.planId)) :=
        .of_background background_issue
      have hmanual : ManualRun env (w.issue (actionJob action) (.manual action.planId))
          (manualRun (fresh env w) action) := ⟨rfl,issued_fresh⟩
      obtain ⟨hmoves,hkeeps⟩ := settleManual_moves view (h.moves hissue) hmanual rfl
      refine ⟨hissue.trans hmoves,fun row hrow _ => hkeeps row hrow ?_⟩
      intro hid
      have hissued : ∃ use, Issued env w.issued row.id row.subject use := by
        cases (h.rows row hrow).use with
        | manual issued _ _ | attempt issued _ _ => exact ⟨_,issued⟩
        | closed use issued _ _ => exact ⟨use,issued⟩
      obtain ⟨use,issued⟩ := hissued
      rw [hid] at issued
      exact fresh_not_issued issued

theorem existingManual_eq (h : Owned env w) (cronId slot : Str) (recorded : Option (Row CronRun)) :
    existingManual env cronId slot recorded w = (w,recorded.or
      ((listed (fun row => row.subject == cronId) 50 w).find? fun row => row.slot == slot)) := by
  unfold existingManual
  cases recorded with
  | some row => rfl
  | none => rw [list_eq h]; rfl

/-- One action of a round over the manual runs, and what the listed records still are. -/
theorem settleAction_moves (h : Owned env w) (htracks : Tracks w unfinished) :
    Moves env spared w (settleAction env view (w,unfinished) action).1 ∧
      Tracks (settleAction env view (w,unfinished) action).1
        (settleAction env view (w,unfinished) action).2 := by
  have hrest : Tracks w (unfinished.filter fun entry => entry.1 != actionKey action) :=
    ⟨fun entry hentry => htracks.recorded entry (mem_filter.mp hentry).1,
      fun entry hentry => htracks.keys entry (mem_filter.mp hentry).1⟩
  unfold settleAction
  simp only
  split
  · exact ⟨.refl,hrest⟩
  rw [existingManual_eq h]
  have hexisting : ∀ row ∈ (unfinished.lookup (actionKey action)).or
      ((listed (fun row => row.subject == actionJob action) 50 w).find? fun row =>
        row.slot == manualSlot action.planId),
      row ∈ w.ops.records ∧ row.subject = actionJob action ∧
        row.slot = manualSlot action.planId := by
    intro row hrow
    rcases Option.or_eq_some_iff.mp hrow with hlookup | ⟨_,hfind⟩
    · have hmem := TableRows.mem_of_lookup hlookup
      have hkey : actionKey action = (row.subject,row.slot) := htracks.keys _ hmem
      rw [actionKey, Prod.mk.injEq] at hkey
      exact ⟨htracks.recorded _ hmem,hkey.1.symm,hkey.2.symm⟩
    · have hslot := find?_some hfind
      obtain ⟨hmem,hsubject⟩ := mem_listed (mem_of_find?_eq_some hfind)
      exact ⟨hmem,by simpa using hsubject,by simpa using hslot⟩
  obtain ⟨hmoves,hkeeps⟩ := settleExisting_moves h hexisting
  refine ⟨hmoves,?_,hrest.keys⟩
  intro entry hentry
  apply hkeeps entry.2 (hrest.recorded entry hentry)
  intro found hfound hid
  obtain ⟨hmem,hsubject,hslot⟩ := hexisting found hfound
  -- a record with the same id is the same record and has the key of the action
  have hsame : found = entry.2 :=
    inj_on_of_nodup_map h.ids hmem (hrest.recorded entry hentry) hid
  have hkey := hrest.keys entry hentry
  rw [← hsame, hsubject, hslot] at hkey
  have hne := (mem_filter.mp hentry).2
  rw [bne_iff_ne] at hne
  exact hne hkey

theorem settleActions_moves {actions : List AdmittedAction} (h : Owned env w)
    (htracks : Tracks w unfinished) :
    Moves env spared w (actions.foldl (settleAction env view) (w,unfinished)).1 := by
  induction actions generalizing w unfinished with
  | nil => exact .refl
  | cons action rest ih =>
    obtain ⟨hmoves,hafter⟩ := settleAction_moves h htracks
    rw [foldl_cons]
    exact hmoves.trans (ih (h.moves hmoves) hafter)

def unfinishedRuns (w : World) : Unfinished :=
  (((listed isOpen 10000 w).filter fun row => row.body.trigger == .manual).map fun row =>
    ((row.subject,row.slot),row)).reverse

theorem unfinishedRuns_tracks : Tracks w (unfinishedRuns w) := by
  have hrow : ∀ entry ∈ unfinishedRuns w, ∃ row ∈ listed isOpen 10000 w,
      entry = ((row.subject,row.slot),row) := by
    intro entry hentry
    obtain ⟨row,hmem,rfl⟩ := mem_map.mp (mem_reverse.mp hentry)
    exact ⟨row,(mem_filter.mp hmem).1,rfl⟩
  constructor
  · intro entry hentry
    obtain ⟨row,hlisted,rfl⟩ := hrow entry hentry
    exact (mem_listed hlisted).1
  · intro entry hentry
    obtain ⟨row,_,rfl⟩ := hrow entry hentry
    rfl

theorem reconcileManual_moves (view : View) (h : Owned env w) :
    Moves env spared w (reconcileManual env view w) := by
  unfold reconcileManual
  rw [openRuns_eq h]
  have hsettled : Moves env spared w
      ((view.admitted ["cron.run"]).foldl (settleAction env view) (w,unfinishedRuns w)).1 :=
    settleActions_moves h unfinishedRuns_tracks
  exact hsettled.trans (fillSlots_moves (h.moves hsettled))

/-- The plan has a record for the job. -/
def Recorded (w : World) (cronId planId : Str) : Prop :=
  ∃ row ∈ w.ops.records, row.subject = cronId ∧ row.slot = manualSlot planId

instance (w : World) (cronId planId : Str) : Decidable (Recorded w cronId planId) :=
  inferInstanceAs (Decidable (∃ row ∈ w.ops.records, _))

structure Continues (env : Env) (w : World) (run recorded : CronRun) (row : Row CronRun) :
    Prop where
  stored : row ∈ w.ops.records ∧ row.subject = run.cronId ∧ row.slot = manualSlot run.planId
  manual : ManualRun env w recorded
  id : recorded.id = row.id
  cronId : recorded.cronId = run.cronId
  planId : recorded.planId = run.planId
  trigger : row.body.trigger = .manual
  final : recorded.status.isFinal = row.body.status.isFinal

/-- The record of a manual run is new, or the first one of its plan for the job goes on. -/
theorem committedRun_cases (h : Owned env w) (runs : run.status.isFinal = false) :
    (committedRun w.ops run = run ∧ ¬ Recorded w run.cronId run.planId) ∨
      ∃ row, Continues env w run (committedRun w.ops run) row := by
  unfold committedRun
  split
  next hnone =>
    refine .inl ⟨rfl,?_⟩
    rintro ⟨row,hrow,hsubject,hslot⟩
    have hmatch := find?_eq_none.mp hnone row hrow
    simp [(h.rows row hrow).kind, hsubject, hslot] at hmatch
  next row hfind =>
    have hrow := mem_of_find?_eq_some hfind
    have hmatch := find?_some hfind
    simp only [Bool.and_eq_true, beq_iff_eq] at hmatch
    obtain ⟨hmanual,hid,hcronId,hplan⟩ := existing_manual h hrow hmatch.1.2 hmatch.2
    refine .inr ⟨row,?_⟩
    have hsame : ∀ recorded : CronRun, SameRun recorded row.body →
        recorded.status.isFinal = row.body.status.isFinal → Continues env w run recorded row :=
      fun recorded same hstatus =>
        ⟨⟨hrow,hmatch.1.2,hmatch.2⟩,hmanual.same same,same.id.trans hid,same.cronId.trans hcronId,
          same.planId.trans hplan,hmanual.trigger,hstatus⟩
    simp only
    split
    · split
      next hpending =>
        have hbody : row.body.status = .pending := hpending
        exact hsame _ ⟨rfl,rfl,rfl,rfl⟩ (runs.trans (by rw [hbody]; rfl))
      · exact hsame _ ⟨rfl,rfl,rfl,rfl⟩ rfl
    · split
      next hpending =>
        exact hsame _ ⟨rfl,rfl,rfl,rfl⟩ (runs.trans (by rw [hpending]; rfl))
      · exact hsame _ ⟨rfl,rfl,rfl,rfl⟩ rfl

def admittedRun (view : View) (id cronId planId operationId : Str) : CronRun :=
  { newRun id cronId 1 .manual .running planId with
    startedAt := some view.now
    operationId := operationId }

/-- A reservation of the plan is for the job, and nothing awaits it unless it becomes a chain. -/
structure Converts (spared : Prop) (w : World) (cronId planId : Str) : Prop where
  own : ∀ r, w.state.manualReservations.get? planId = some r → r.cronId = cronId
  awaited : spared → ∀ r, w.state.manualReservations.get? planId = some r →
    w.state.queued.get? r.cronId = none ∨ ¬ Recorded w r.cronId planId

def saved (w : World) (planId : Str) (ops : Store CronRun) : World :=
  ((World.store w (removeReservation planId ops)).unreserve planId).unsubmit planId

/-- Recording a manual run fails, or the run is saved and opened unless it has ended. -/
theorem commit_cases (h : Owned env w) :
    recordManual.commit env view cronId planId operationId id w = (w.failed,false) ∨
      ∃ recorded ops, Put env w.ops ops recorded (manualSlot planId) ∧
        (recorded = admittedRun view id cronId planId operationId ∧ ¬ Recorded w cronId planId ∨
          ∃ row, Continues env w (admittedRun view id cronId planId operationId) recorded row) ∧
        recordManual.commit env view cronId planId operationId id w =
          (if recorded.status.isFinal then saved w planId ops
            else openManual env recorded cronId (saved w planId ops),true) := by
  have hcases := committedRun_cases h (show
    (admittedRun view id cronId planId operationId).status.isFinal = false from rfl)
  unfold recordManual.commit commitManualRun
  simp only
  generalize hrecorded : committedRun w.ops (admittedRun view id cronId planId operationId) =
    recorded at hcases
  rw [show committedRun w.ops { newRun id cronId 1 .manual .running planId with
    startedAt := some view.now
    operationId := operationId } = recorded from hrecorded]
  cases hops : writeRecord env.len w.ops .cronRun recorded.id recorded.cronId (manualSlot planId)
      recorded.status.code (recorded.startedAt.getD 0) recorded with
  | error e =>
    left
    simp only [newRun, hops]
  | ok ops =>
    right
    refine ⟨recorded,ops,writeRecord_put (fun row hrow => (h.rows row hrow).kind) h.ids hops,
      hcases,?_⟩
    simp only [newRun, hops]
    split <;> rfl

theorem commit_moves (h : Owned env w) (issued : Issued env w.issued id cronId (.manual planId))
    (hconverts : Converts spared w cronId planId) :
    Moves env spared w (recordManual.commit env view cronId planId operationId id w).1 := by
  rcases commit_cases h with heq | ⟨recorded,ops,hput,hcases,heq⟩
  · rw [heq]
    exact .of_background background_failed
  rw [heq]
  have hfacts : ManualRun env w recorded ∧ recorded.cronId = cronId ∧ recorded.planId = planId := by
    rcases hcases with ⟨rfl,_⟩ | ⟨row,hgoes⟩
    · exact ⟨⟨rfl,issued⟩,rfl,rfl⟩
    · exact ⟨hgoes.manual,hgoes.cronId,hgoes.planId⟩
  obtain ⟨hrun,hcronId,hplan⟩ := hfacts
  split
  next hfinal =>
    rcases hcases with ⟨rfl,_⟩ | ⟨row,hgoes⟩
    · cases hfinal
    have hexists : Recorded w cronId planId := ⟨row,hgoes.stored⟩
    have hb : Background env w (World.store w ops) := by
      apply Background.put hput
      rw [← hplan]
      exact hrun.rowUse
    have hlapse : Move env spared (World.store w ops)
        ((World.store w ops).dropReservation planId) := by
      refine .lapsed planId ?_
      intro waits r hr
      rcases hconverts.awaited waits r hr with hfree | hnone
      · exact hfree
      · rw [hconverts.own r hr] at hnone
        exact absurd hexists hnone
    refine ((Moves.of_background hb).tail hlapse).tail (.background ?_)
    exact ⟨⟨_,rfl⟩,rfl,prefix_refl _,fun row hrow => .inl hrow,fun hids => hids,rfl⟩
  next hfinal =>
    subst hplan hcronId
    exact .single (.recorded recorded ops hput hrun hconverts.own)

theorem recordManual_moves (h : Owned env w) (operationId : Str)
    (hconverts : (∀ r, w.state.manualReservations.get? planId = some r → r.cronId = cronId) →
      Converts spared w cronId planId) :
    Moves env spared w (recordManual env view cronId planId operationId w).1 := by
  unfold recordManual
  split
  next r hr =>
    split
    · exact .refl
    next hcronId =>
      rw [not_not] at hcronId
      have hmem := get?_eq_some.mp hr
      obtain ⟨hplan,hissued⟩ := h.reservations planId r hmem
      rw [hcronId, hplan] at hissued
      apply commit_moves h hissued
      apply hconverts
      intro other hother
      rw [hr, Option.some.injEq] at hother
      rw [← hother]
      exact hcronId
  next hnone =>
    have hissue : Moves env spared w (w.issue cronId (.manual planId)) :=
      .of_background background_issue
    have hconverts' := hconverts (by
      intro r hr
      rw [hnone] at hr
      cases hr)
    refine hissue.trans (commit_moves (h.moves hissue) issued_fresh ?_)
    exact ⟨hconverts'.own,hconverts'.awaited⟩

structure Beside (planId : Str) (w w' : World) : Prop where
  queued : w'.state.queued = w.state.queued
  slots : w'.state.slots = w.state.slots
  submitting : ∀ p, p ≠ planId →
    (p ∈ w'.state.manualSubmitting ↔ p ∈ w.state.manualSubmitting)
  rows : ∀ row ∈ w'.ops.records, row ∈ w.ops.records ∨ row.slot = manualSlot planId
  stored : ∀ r ∈ w.ops.manualReservations, r.planId ≠ planId → r ∈ w'.ops.manualReservations

theorem Beside.refl (planId : Str) (w : World) : Beside planId w w :=
  ⟨rfl,rfl,fun _ _ => Iff.rfl,fun _ hrow => .inl hrow,fun _ hr _ => hr⟩

theorem commit_beside (h : Owned env w) (view : View) (cronId planId operationId id : Str) :
    Beside planId w (recordManual.commit env view cronId planId operationId id w).1 := by
  rcases commit_cases h with heq | ⟨recorded,ops,hput,-,heq⟩
  · rw [heq]
    exact ⟨rfl,rfl,fun _ _ => Iff.rfl,fun _ hrow => .inl hrow,fun _ hr _ => hr⟩
  obtain ⟨seq,time,hrows⟩ := hput.rows
  have hsaved : Beside planId w (saved w planId ops) := by
    refine ⟨rfl,rfl,?_,?_,?_⟩
    · intro p hp
      show p ∈ w.state.manualSubmitting.filter (· != planId) ↔ _
      simp [hp]
    · intro row hrow
      rcases (hrows row).mp hrow with rfl | ⟨hold,_⟩
      · exact .inr rfl
      · exact .inl hold
    · intro r hr hplan
      apply mem_filter.mpr
      rw [hput.reservations]
      exact ⟨hr,by simpa using hplan⟩
  rw [heq]
  split
  · exact hsaved
  · unfold openManual
    split
    · exact hsaved
    · exact ⟨hsaved.queued,hsaved.slots,hsaved.submitting,hsaved.rows,hsaved.stored⟩

theorem recordManual_beside (h : Owned env w) :
    Beside planId w (recordManual env view cronId planId operationId w).1 := by
  unfold recordManual
  split
  · split
    · exact .refl planId w
    · exact commit_beside h view cronId planId operationId _
  · have hissue : Owned env (w.issue cronId (.manual planId)) :=
      h.background background_issue
    have hbeside := commit_beside hissue view cronId planId operationId (fresh env w)
    exact ⟨hbeside.queued,hbeside.slots,hbeside.submitting,hbeside.rows,hbeside.stored⟩

theorem dropReservation_beside :
    Beside planId w (w.dropReservation planId) := by
  refine ⟨rfl,rfl,fun _ _ => Iff.rfl,fun _ hrow => .inl hrow,?_⟩
  intro r hr hplan
  exact mem_filter.mpr ⟨hr,by simpa using hplan⟩

theorem remember_eq (h : Owned env w) (hr : r ∈ w.ops.manualReservations) :
    w.remember env r = w := by
  have hmem := (h.stored r).mp hr
  unfold World.remember
  rw [get?_eq_some.mpr hmem]
  rfl

/-- The reservation is not admitted and has run out. -/
def Lapses (view : View) (w : World) (r : ManualCronReservation) : Prop :=
  view.admission r.planId = none ∧ r.expiresAt < view.now ∧ r.planId ∉ w.state.manualSubmitting

instance (view : View) (w : World) (r : ManualCronReservation) : Decidable (Lapses view w r) :=
  inferInstanceAs (Decidable (_ ∧ _))

/-- Nothing waits for the reservation, or it stays until it becomes a chain. -/
def Holds (view : View) (w : World) (r : ManualCronReservation) : Prop :=
  w.state.queued.get? r.cronId = none ∨ ¬ Lapses view w r ∧ ¬ Recorded w r.cronId r.planId

instance (view : View) (w : World) (r : ManualCronReservation) : Decidable (Holds view w r) :=
  inferInstanceAs (Decidable (_ ∨ _))

theorem Holds.beside (h : Holds view w r) (hbeside : Beside planId w w') (hne : r.planId ≠ planId) :
    Holds view w' r := by
  rcases h with hfree | ⟨hlapses,hrecorded⟩
  · exact .inl (by rw [hbeside.queued]; exact hfree)
  · refine .inr ⟨?_,?_⟩
    · rintro ⟨hadmission,hexpired,hsubmitting⟩
      exact hlapses ⟨hadmission,hexpired,fun hmem =>
        hsubmitting ((hbeside.submitting _ hne).mpr hmem)⟩
    · rintro ⟨row,hrow,hsubject,hslot⟩
      rcases hbeside.rows row hrow with hold | hnew
      · exact hrecorded ⟨row,hold,hsubject,hslot⟩
      · exact hne (manualSlot_injective (hslot.symm.trans hnew))

theorem refreshOne_beside (h : Owned env w) (view : View) (hr : r ∈ w.ops.manualReservations) :
    Beside r.planId w (refreshOne env view r w).1 := by
  unfold refreshOne
  simp only [remember_eq h hr]
  split
  · split
    · exact recordManual_beside h
    · exact .refl _ w
  · split
    · exact dropReservation_beside
    · exact .refl _ w

theorem refreshOne_moves (h : Owned env w)
    (hr : r ∈ w.ops.manualReservations) (hholds : spared → Holds view w r) :
    Moves env spared w (refreshOne env view r w).1 := by
  have hget : w.state.manualReservations.get? r.planId = some r :=
    get?_eq_some.mpr ((h.stored r).mp hr)
  unfold refreshOne
  simp only [remember_eq h hr]
  split
  · split
    · apply recordManual_moves h
      intro hown
      refine ⟨hown,?_⟩
      intro waits other hother
      rw [hget, Option.some.injEq] at hother
      rw [← hother]
      exact (hholds waits).imp id And.right
    · exact .refl
  next hnone =>
    split
    next hexpired =>
      refine .single (.lapsed r.planId ?_)
      intro waits other hother
      rw [hget, Option.some.injEq] at hother
      rw [← hother]
      rcases hholds waits with hfree | ⟨hlapses,_⟩
      · exact hfree
      · exact absurd ⟨hnone,hexpired⟩ hlapses
    · exact .refl

theorem refreshAll_moves
    {reservations : List ManualCronReservation} (h : Owned env w)
    (hdistinct : (reservations.map ManualCronReservation.planId).Nodup)
    (hstored : ∀ r ∈ reservations, r ∈ w.ops.manualReservations)
    (hholds : spared → ∀ r ∈ reservations, Holds view w r) :
    Moves env spared w (refreshAll env view reservations w).1 ∧
      (refreshAll env view reservations w).1.state.slots = w.state.slots ∧
      (refreshAll env view reservations w).1.state.queued = w.state.queued := by
  induction reservations generalizing w with
  | nil => exact ⟨.refl,rfl,rfl⟩
  | cons r rest ih =>
    have hr := hstored r mem_cons_self
    have hmoves := refreshOne_moves h hr fun waits => hholds waits r mem_cons_self
    have hbeside := refreshOne_beside h view hr
    rw [map_cons, nodup_cons] at hdistinct
    have hne : ∀ other ∈ rest, other.planId ≠ r.planId := by
      intro other hother hplan
      exact hdistinct.1 (mem_map.mpr ⟨other,hother,hplan⟩)
    unfold refreshAll
    split
    next u hu =>
      rw [hu] at hmoves hbeside
      obtain ⟨hrest,hslots,hqueued⟩ := ih (h.moves hmoves) hdistinct.2
        (fun other hother => hbeside.stored other (hstored other (mem_cons_of_mem r hother))
          (hne other hother))
        (fun waits other hother => (hholds waits other (mem_cons_of_mem r hother)).beside hbeside
          (hne other hother))
      exact ⟨hmoves.trans hrest,hslots.trans hbeside.slots,hqueued.trans hbeside.queued⟩
    next u hu =>
      rw [hu] at hmoves hbeside
      exact ⟨hmoves,hbeside.slots,hbeside.queued⟩

theorem refresh_moves (h : Owned env w)
    (hholds : spared → ∀ r ∈ w.ops.manualReservations, Holds view w r) :
    Moves env spared w (refreshManualReservations env view w).1 ∧
      (refreshManualReservations env view w).1.state.slots = w.state.slots ∧
      (refreshManualReservations env view w).1.state.queued = w.state.queued := by
  have hsorted := perm_insertionSort (fun a b : ManualCronReservation => a.planId ≤ b.planId)
    w.ops.manualReservations
  have hmem : ∀ r ∈ storedReservations w.ops, r ∈ w.ops.manualReservations := fun r hr =>
    hsorted.mem_iff.mp (mem_of_mem_take hr)
  apply refreshAll_moves h
  · apply List.Nodup.sublist ((take_sublist _ _).map _)
    exact (hsorted.map _).nodup_iff.mpr h.storedIds
  · exact hmem
  · exact fun waits r hr => hholds waits r (hmem r hr)

/-- Recovery takes the run up: no chain under its id stands for it, or it is held. -/
def Recovers (w : World) (row : Row CronRun) : Prop :=
  row.body.trigger ≠ .manual ∧
    ((w.state.chains.get? row.id).isSome = false ∨ row.id ∈ w.state.recovering)

instance (w : World) (row : Row CronRun) : Decidable (Recovers w row) :=
  inferInstanceAs (Decidable (_ ∧ _))

theorem recoverRow_known (h : Owned env w) (hrow : row ∈ w.ops.records)
    (hknown : ¬ Recovers w row) :
    recoverRow env view w row = w := by
  have hid := (h.rows row hrow).id_eq
  unfold recoverRow
  simp only
  split
  · rfl
  next htrigger =>
    rw [hid]
    unfold Recovers at hknown
    push Not at hknown
    have hchain := hknown htrigger
    simp [hchain.1, hchain.2]

/-- Recovering one run leaves the others as they were. -/
structure Apart (id : Str) (w w' : World) : Prop where
  queued : w'.state.queued = w.state.queued
  chains : ∀ j, j ≠ id → w'.state.chains.get? j = w.state.chains.get? j
  recovering : ∀ j, j ≠ id → (j ∈ w'.state.recovering ↔ j ∈ w.state.recovering)
  rows : ∀ row ∈ w.ops.records, row.id ≠ id → row ∈ w'.ops.records

theorem Apart.refl (id : Str) (w : World) : Apart id w w :=
  ⟨rfl,fun _ _ => rfl,fun _ _ => Iff.rfl,fun _ hrow _ => hrow⟩

theorem Apart.save (hput : Put env w.ops ops run slot) (w' : World)
    (hops : w'.ops = ops) (hqueued : w'.state.queued = w.state.queued)
    (hchains : ∀ j, j ≠ run.id → w'.state.chains.get? j = w.state.chains.get? j)
    (hrecovering : ∀ j, j ≠ run.id → (j ∈ w'.state.recovering ↔ j ∈ w.state.recovering)) :
    Apart run.id w w' :=
  ⟨hqueued,hchains,hrecovering,fun _ hrow hid => hops ▸ hput.keeps hrow hid⟩

theorem recoverEnded_moves (h : Owned env w) (attempt : Attempt env w.issued run)
    (hslot : ∀ planId, slot ≠ manualSlot planId)
    (hawaited : spared → w.state.queued.get? run.cronId = none) :
    Moves env spared w (recoverEnded env view slot run w) ∧
      Apart run.id w (recoverEnded env view slot run w) := by
  unfold recoverEnded
  rcases save_cases h with ⟨ops,hput,hsave⟩ | hsave
  · rw [hsave]
    have hmoves : Moves env spared w (World.store w ops) :=
      .of_background (.attempt hput attempt hslot)
    have hguard : spared → ∀ chain, (run.id,chain) ∈ w.state.chains.entries →
        w.state.queued.get? chain.cronId = none := by
      intro waits chain hchain
      have howner : chain.cronId = run.cronId := by
        cases (h.chains _ chain hchain).use with
        | attempt issued _ _ | manual issued _ _ _ _ => exact (issued.unique attempt.issued).1
      rw [howner]
      exact hawaited waits
    have hchains : ∀ j, j ≠ run.id → (w.state.chains.erase run.id).get? j = w.state.chains.get? j :=
      fun j hj => get?_erase_ne hj
    simp only
    split
    · refine ⟨hmoves.tail (.recovered run.id _ _ hguard),.save hput _ rfl rfl hchains ?_⟩
      intro j hj
      show j ∈ w.state.recovering.filter (· != run.id) ↔ _
      simp [hj]
    · exact ⟨hmoves.tail (.recovered run.id w.state.recovering w.state.running hguard),
        .save hput _ rfl rfl hchains fun _ _ => Iff.rfl⟩
  · rw [hsave]
    exact ⟨.of_background background_failed,⟨rfl,fun _ _ => rfl,fun _ _ => Iff.rfl,
      fun _ hrow _ => hrow⟩⟩

theorem recoverHeld_moves (h : Owned env w) (attempt : Attempt env w.issued run)
    (hslot : ∀ planId, slot ≠ manualSlot planId) :
    Moves env spared w (recoverHeld env view slot run w) ∧
      Apart run.id w (recoverHeld env view slot run w) := by
  unfold recoverHeld
  rcases save_cases h with ⟨ops,hput,hsave⟩ | hsave
  · rw [hsave]
    have hmoves : Moves env spared w (World.store w ops) :=
      .of_background (.attempt hput attempt hslot)
    have hok : ChainOk env (World.store w ops).issued run.id ⟨run.cronId,run,none,false⟩ :=
      ⟨rfl,.attempt attempt.issued attempt.issued attempt.trigger⟩
    simp only
    split
    · exact ⟨hmoves.tail (.unknown run.id _ w.state.recovering w.state.running hok),
        .save hput _ rfl rfl (fun j hj => get?_insert_ne _ hj) fun _ _ => Iff.rfl⟩
    · refine ⟨hmoves.tail (.unknown run.id _ _ _ hok),
        .save hput _ rfl rfl (fun j hj => get?_insert_ne _ hj) ?_⟩
      intro j hj
      show j ∈ run.id :: w.state.recovering.filter (· != run.id) ↔ _
      simp [hj]
  · rw [hsave]
    exact ⟨.of_background background_failed,⟨rfl,fun _ _ => rfl,fun _ _ => Iff.rfl,
      fun _ hrow _ => hrow⟩⟩

theorem RowOk.attempt (h : RowOk env grants row)
    (hopen : CronScheduler.isOpen row = true) (htrigger : row.body.trigger ≠ .manual) :
    Attempt env grants row.body ∧ ∀ planId, row.slot ≠ manualSlot planId := by
  cases h.use with
  | manual _ trigger _ => exact absurd trigger htrigger
  | attempt issued _ slot =>
    refine ⟨⟨?_,htrigger⟩,slot⟩
    rw [h.id_eq, h.cronId_eq]
    exact issued
  | closed _ _ final _ => exact absurd (h.isOpen.mp hopen) (by simp [final])

/-- A run that recovery takes up ends as the log says, or is held; the others stay. -/
theorem recoverRow_moves (h : Owned env w) (hrow : row ∈ w.ops.records) (hopen : isOpen row = true)
    (hawaited : spared → Recovers w row → w.state.queued.get? row.subject = none) :
    Moves env spared w (recoverRow env view w row) ∧
      Apart row.id w (recoverRow env view w row) := by
  by_cases hrecovers : Recovers w row
  swap
  · rw [recoverRow_known h hrow hrecovers]
    exact ⟨.refl,.refl row.id w⟩
  have hok := h.rows row hrow
  obtain ⟨hattempt,hslot⟩ := hok.attempt hopen hrecovers.1
  have hunknown : ¬ ((w.state.chains.get? row.body.id).isSome &&
      !w.state.recovering.contains row.body.id) = true := by
    rw [hok.id_eq]
    rcases hrecovers.2 with habsent | hheld
    · simp [habsent]
    · simp [hheld]
  unfold recoverRow
  simp only
  rw [if_neg hrecovers.1, if_neg hunknown]
  have hlooked : Background env w (if view.log.isSome = true then w.lookedUp row.body else w) := by
    split
    · exact background_lookedUp
    · exact .of_ghost rfl rfl (prefix_refl _) rfl
  have hsame : (if view.log.isSome = true then w.lookedUp row.body else w).state = w.state ∧
      (if view.log.isSome = true then w.lookedUp row.body else w).ops = w.ops := by
    split
    · unfold World.lookedUp
      split <;> exact ⟨rfl,rfl⟩
    · exact ⟨rfl,rfl⟩
  generalize (if view.log.isSome = true then w.lookedUp row.body else w) = u at hlooked hsame ⊢
  obtain ⟨hstate,hops⟩ := hsame
  have hmoves : Moves env spared w u := .of_background hlooked
  have howned := h.moves hmoves
  have hgrown : ∀ run : CronRun, SameRun run row.body → Attempt env u.issued run := by
    intro run same
    refine ⟨?_,?_⟩
    · rw [same.id, same.cronId]
      exact hattempt.issued.mono hlooked.issued
    · rw [same.trigger]
      exact hattempt.trigger
  have hapart : ∀ {run : CronRun} {v : World}, run.id = row.body.id → Apart run.id u v →
      Apart row.id w v := by
    intro run v hid hv
    rw [hid, hok.id_eq] at hv
    exact ⟨hstate ▸ hv.queued,hstate ▸ hv.chains,hstate ▸ hv.recovering,hops ▸ hv.rows⟩
  split
  next answer _ =>
    have hresult := applyResult_same { row.body with
      runnerRunId := (loggedId view w row.body).getD row.body.runnerRunId } (.ok answer)
    refine And.imp hmoves.trans (hapart hresult.id) (recoverEnded_moves howned ?_ hslot ?_)
    · exact hgrown _ ⟨hresult.id,hresult.cronId,hresult.trigger,hresult.planId⟩
    · intro waits
      rw [hstate]
      rw [hresult.cronId, hok.cronId_eq]
      exact hawaited waits hrecovers
  · exact And.imp hmoves.trans (hapart rfl)
      (recoverHeld_moves howned (hgrown _ ⟨rfl,rfl,rfl,rfl⟩) hslot)

theorem recoverRows_moves {rows : List (Row CronRun)} (h : Owned env w)
    (hdistinct : (rows.map Row.id).Nodup)
    (hrows : ∀ row ∈ rows, row ∈ w.ops.records ∧ isOpen row = true)
    (hawaited : spared → ∀ row ∈ rows, Recovers w row →
      w.state.queued.get? row.subject = none) :
    Moves env spared w (rows.foldl (recoverRow env view) w) := by
  induction rows generalizing w with
  | nil => exact .refl
  | cons row rest ih =>
    obtain ⟨hrow,hopen⟩ := hrows row mem_cons_self
    obtain ⟨hmoves,hapart⟩ := recoverRow_moves h hrow hopen
      fun waits => hawaited waits row mem_cons_self
    rw [map_cons, nodup_cons] at hdistinct
    have hne : ∀ other ∈ rest, other.id ≠ row.id := by
      intro other hother hid
      exact hdistinct.1 (mem_map.mpr ⟨other,hother,hid⟩)
    have hsame : ∀ other ∈ rest, Recovers (recoverRow env view w row) other → Recovers w other := by
      rintro other hother ⟨htrigger,hchain⟩
      rw [hapart.chains _ (hne other hother), hapart.recovering _ (hne other hother)] at hchain
      exact ⟨htrigger,hchain⟩
    refine hmoves.trans (ih (h.moves hmoves) hdistinct.2 ?_ ?_)
    · intro other hother
      obtain ⟨hmem,hotherOpen⟩ := hrows other (mem_cons_of_mem row hother)
      exact ⟨hapart.rows other hmem (hne other hother),hotherOpen⟩
    · intro waits other hother hrecovers
      rw [hapart.queued]
      exact hawaited waits other (mem_cons_of_mem row hother) (hsame other hother hrecovers)

end Manual

end Permanu.CronScheduler
