import PermanuAgent.CronManual

/-!
# The calls of the scheduler

Every call first takes the definitions over and is a sequence of moves from there on. A
call that settles reservations or recovers runs does so at fixed points; what it has to
spare is stated at these points.
-/

set_option autoImplicit false

namespace Permanu.CronScheduler
open ByteText PlanText List OrderedMap Prod World
open OpsStore CronJobs
open RunnerRequests (RunnerFailure)

variable {digestHex : Str} {expiresAt : ℤ}

section Calls
variable {env : Env} {spared : Prop} {w w' : World} {view : View} {run : CronRun}
  {id cronId planId : Str} {chain : Chain}

theorem Owned.reload (h : Owned env w) (view : View) : Owned env (reload view w) :=
  { h with jobs := loadJobs_keys }

variable (env) in
def refreshed (view : View) (w : World) : World :=
  (refreshManualReservations env view (reload view w)).1

variable (env) in
def unended (view : View) (w : World) : List (Row CronRun) :=
  listed isOpen 10000 (refreshed env view w)

theorem refreshed_moves (h : Owned env w)
    (hholds : spared → ∀ r ∈ w.ops.manualReservations, Holds view w r) :
    Moves env spared (reload view w) (refreshed env view w) :=
  (refresh_moves (h.reload view) hholds).1

theorem recover_moves (h : Owned env w)
    (hholds : spared → ∀ r ∈ w.ops.manualReservations, Holds view w r)
    (hawaited : spared → ∀ row ∈ unended env view w, Recovers (refreshed env view w) row →
      (refreshed env view w).state.queued.get? row.subject = none) :
    Moves env spared (reload view w) (recover env view (reload view w)) := by
  have hrefresh := refreshed_moves h hholds
  have howned := (h.reload view).moves hrefresh
  unfold recover
  rw [show openRuns env (refreshManualReservations env view (reload view w)).1 =
    (refreshed env view w,unended env view w) from openRuns_eq howned]
  refine hrefresh.trans (recoverRows_moves howned ?_ ?_ hawaited)
  · have hids := (nodup_reverse.mpr howned.ids)
    rw [← map_reverse] at hids
    exact hids.sublist (((take_sublist _ _).trans filter_sublist).map Row.id)
  · exact fun row hrow => mem_listed hrow

/-- The runner's id of a run in flight goes to its chain and its record. -/
theorem noteRunnerId_moves (view : View) (h : Owned env w)
    (known : (id,chain) ∈ w.state.chains.entries) :
    Moves env spared w (noteRunnerId env view w (id,chain.run)) := by
  unfold noteRunnerId
  simp only
  split
  · exact .of_background background_lookedUp
  next runnerId _ =>
    have hget : w.state.chains.get? id = some chain := get?_eq_some.mpr known
    have hrenamed : Moves env spared w (w.updateChain env id fun chain' =>
        { chain' with run := { chain.run with runnerRunId := runnerId } }) := by
      rw [updateChain, hget]
      exact .single (.renamed id chain _ known ⟨rfl,rfl,rfl,rfl⟩)
    have hissued := hrenamed.frame.issued
    refine hrenamed.trans ?_
    have howned := h.moves hrenamed
    have hok := h.chains id chain known
    generalize (w.updateChain env id fun chain' =>
      { chain' with run := { chain.run with runnerRunId := runnerId } }) = u at howned hissued ⊢
    generalize hslot : (if chain.run.trigger = .manual then manualSlot chain.run.planId
      else slotOf { chain.run with runnerRunId := runnerId }) = slot
    rcases save_cases howned with
      ⟨ops,hput,hsave⟩ | hsave
    · rw [hsave]
      cases hok.use with
      | attempt _ issued trigger =>
        rw [if_neg trigger] at hslot
        refine Moves.of_background (.attempt hput ⟨?_,trigger⟩ ?_)
        · rw [show ({ chain.run with runnerRunId := runnerId } : CronRun).cronId = chain.cronId
            from hok.cronId]
          exact issued.mono hissued
        · rw [← hslot]
          exact slotOf_ne_manualSlot
      | manual issued hid trigger _ _ =>
        rw [if_pos trigger] at hslot
        subst hslot
        have hmanual : ManualRun env u { chain.run with runnerRunId := runnerId } := by
          refine ⟨trigger,?_⟩
          rw [hid, hok.cronId]
          exact issued.mono hissued
        exact Moves.of_background (.put hput hmanual.rowUse)
    · rw [hsave]
      exact Moves.of_background background_failed

theorem save_state (now : ℤ) (run : CronRun) (slot : Str) (w : World) :
    (save env now run slot w).1.state = w.state := by
  unfold save
  split <;> rfl

theorem lookedUp_state (w : World) (run : CronRun) : (w.lookedUp run).state = w.state := by
  unfold lookedUp
  split <;> rfl

theorem noteRunnerId_others {entry : Str × CronRun} (hne : id ≠ entry.1)
    (known : (id,chain) ∈ w.state.chains.entries) :
    (id,chain) ∈ (noteRunnerId env view w entry).state.chains.entries := by
  unfold noteRunnerId
  split
  · rw [lookedUp_state]
    exact known
  · rw [save_state]
    unfold updateChain
    split
    · exact known
    · exact mem_insert.mpr (.inr ⟨hne,known⟩)

theorem noteAll_moves {entries : List (Str × Chain)} (h : Owned env w)
    (hdistinct : (entries.map fst).Nodup)
    (hknown : ∀ entry ∈ entries, entry ∈ w.state.chains.entries) :
    Moves env spared w
      ((entries.map fun entry => (entry.1,entry.2.run)).foldl (noteRunnerId env view) w) := by
  induction entries generalizing w with
  | nil => exact .refl
  | cons entry rest ih =>
    rw [map_cons, nodup_cons] at hdistinct
    have hone : Moves env spared w _ := noteRunnerId_moves view h (hknown entry mem_cons_self)
    refine hone.trans (ih (h.moves hone) hdistinct.2 ?_)
    intro other hother
    refine noteRunnerId_others ?_ (hknown other (mem_cons_of_mem entry hother))
    intro hid
    exact hdistinct.1 (mem_map.mpr ⟨other,hother,hid⟩)

theorem noteRunnerIds_moves (view : View) (h : Owned env w) :
    Moves env spared w (noteRunnerIds env view w) := by
  unfold noteRunnerIds
  split
  · exact .refl
  · apply noteAll_moves h
    · exact w.state.chains.unique.sublist (filter_sublist.map fst)
    · exact fun entry hentry => (mem_filter.mp hentry).1

variable (env) in
/-- What a scheduler pass has to spare, at the points where it could go wrong. -/
structure TickAllowed (spared : Prop) (view : View) (w : World) : Prop where
  holds : spared → ∀ r ∈ w.ops.manualReservations, Holds view w r
  awaited : spared → ∀ row ∈ unended env view w, Recovers (refreshed env view w) row →
    (refreshed env view w).state.queued.get? row.subject = none

theorem background_checkpoint {key value : Str} :
    Background env w { w with ops := trySetMeta w.ops key value } :=
  ⟨⟨_,rfl⟩,rfl,prefix_refl _,fun _ hrow => .inl hrow,fun h => h,rfl⟩

theorem firePass_moves (h : Owned env w) {before : ℕ} {checkpoint : ℤ} :
    Moves env spared w (firePass env view before checkpoint w) := by
  have hfire : Moves env spared w (fireJobs env view checkpoint w) := fireJobs_moves h
  have hretries := hfire.trans (retriesDue_moves view (h.moves hfire))
  have hsettled := hretries.trans (reconcileManual_moves view (h.moves hretries))
  have hnoted : Moves env spared w _ := hsettled.trans (noteRunnerIds_moves view (h.moves hsettled))
  unfold firePass
  simp only
  split
  · exact hnoted
  · exact hnoted.then_background background_checkpoint

theorem tick_moves (h : Owned env w) (hallowed : TickAllowed env spared view w) :
    Moves env spared (reload view w) (tick env view w) := by
  have hrecover := recover_moves h hallowed.holds hallowed.awaited
  have howned := (h.reload view).moves hrecover
  unfold tick
  simp only
  split
  · exact hrecover
  split
  · exact hrecover
  · have hfirst := hrecover.trans (reconcileManual_moves view howned)
    split
    · exact hfirst
    · exact hfirst.trans (firePass_moves ((h.reload view).moves hfirst))

variable (env) in
def reconciled (view : View) (w : World) : World := reconcileManual env view (refreshed env view w)

variable (env) in
/-- What the gate of a manual run has to spare. -/
structure BeginAllowed (spared : Prop) (view : View) (planId : Str) (w : World) : Prop where
  holds : spared → ∀ r ∈ w.ops.manualReservations, Holds view w r
  awaited : spared → ∀ r, (reconciled env view w).state.manualReservations.get? planId = some r →
    (reconciled env view w).state.queued.get? r.cronId = none ∨
      ¬ Recorded (reconciled env view w) r.cronId planId

theorem admitManual_moves (h : Owned env w) (admission : AdmissionRecord) {job : JobDef}
    (hawaited : spared → ∀ r, w.state.manualReservations.get? admission.planId = some r →
      w.state.queued.get? r.cronId = none ∨ ¬ Recorded w r.cronId admission.planId) :
    Moves env spared w (admitManual env view cronId admission job w).1 := by
  unfold admitManual
  simp only
  generalize (if (w.state.manualReservations.get? admission.planId).any
    (fun r => r.cronId == cronId) = true then 1 else 0) = reserved
  split
  · exact .refl
  split
  · exact .refl
  · exact recordManual_moves h _ fun howner => ⟨howner,hawaited⟩

theorem beginAdmittedManual_moves (h : Owned env w) (admission : AdmissionRecord)
    (hallowed : BeginAllowed env spared view admission.planId w) :
    Moves env spared (reload view w) (beginAdmittedManual env view cronId admission w).1 := by
  have hrefresh := refreshed_moves h hallowed.holds
  unfold beginAdmittedManual
  split
  next u hu =>
    obtain rfl : refreshed env view w = u := congrArg fst hu
    exact hrefresh
  next u hu =>
    obtain rfl : refreshed env view w = u := congrArg fst hu
    have hreconcile := hrefresh.trans (reconcileManual_moves view ((h.reload view).moves hrefresh))
    simp only
    split
    · exact hreconcile
    · exact hreconcile.trans
        (admitManual_moves ((h.reload view).moves hreconcile) admission hallowed.awaited)

theorem background_submit : Background env w (w.submit planId) :=
  ⟨⟨_,rfl⟩,rfl,prefix_refl _,fun _ hrow => .inl hrow,fun h => h,rfl⟩

theorem background_unsubmit : Background env w (w.unsubmit planId) :=
  ⟨⟨_,rfl⟩,rfl,prefix_refl _,fun _ hrow => .inl hrow,fun h => h,rfl⟩

theorem reserveNew_moves
    (absent : w.state.manualReservations.get? planId = none) :
    Moves env spared w (reserveNew env cronId planId digestHex expiresAt w).1 := by
  unfold reserveNew
  split
  · exact .refl
  split
  · exact .refl
  split
  · exact .refl
  · have hissue : Moves env spared w (w.issue cronId (.manual planId)) :=
      .of_background background_issue
    refine hissue.trans ?_
    unfold storeReservation
    split
    · exact Moves.of_background background_failed
    · have hreserve : Moves env spared (w.issue cronId (.manual planId))
          (reserve env (w.issue cronId (.manual planId))
            ⟨planId,cronId,digestHex,expiresAt,fresh env w⟩) :=
        .single (.reserved _ absent issued_fresh)
      exact hreserve.then_background background_submit

theorem reserveManual_moves (h : Owned env w)
    (hholds : spared → ∀ r ∈ w.ops.manualReservations, Holds view w r) :
    Moves env spared (reload view w)
      (reserveManual env view cronId planId digestHex expiresAt w).1 := by
  have hrefresh := refreshed_moves h hholds
  unfold reserveManual
  split
  next u hu =>
    obtain rfl : refreshed env view w = u := congrArg fst hu
    exact hrefresh
  next u hu =>
    obtain rfl : refreshed env view w = u := congrArg fst hu
    split
    · exact hrefresh
    split
    · split
      · exact hrefresh
      · exact hrefresh.then_background background_submit
    next hnone =>
      exact hrefresh.trans (reserveNew_moves hnone)

theorem releaseUnadmittedManual_moves
    (hunawaited : spared → view.admission planId = none →
      ∀ r, w.state.manualReservations.get? planId = some r → w.state.queued.get? r.cronId = none) :
    Moves env spared w (releaseUnadmittedManual view planId w) := by
  have hunsubmit : Moves env spared w (w.unsubmit planId) := .of_background background_unsubmit
  unfold releaseUnadmittedManual
  split
  next hnone =>
    refine hunsubmit.tail (.lapsed planId ?_)
    exact fun waits => hunawaited waits (Option.isNone_iff_eq_none.mp hnone)
  · exact hunsubmit

theorem recordSkippedManual_moves (h : Owned env w) {reason : Str} :
    Moves env spared w (recordSkippedManual env view cronId reason w) := by
  have hissue : Moves env spared w (w.issue cronId .skipped) :=
    .of_background background_issue
  refine hissue.then_background ?_
  have howned := h.moves hissue
  unfold recordSkippedManual
  simp only
  rcases save_cases howned with ⟨ops,hput,hsave⟩ | hsave
  · rw [hsave]
    exact .closed hput issued_fresh rfl nil_ne_manualSlot
  · rw [hsave]
    exact background_failed

theorem prune_background {strftime : Str → Option ℤ} {now : Int64} {ops : Store CronRun}
    (hprune : tryPrune strftime w.ops now = .ok ops) : Background env w (store w ops) := by
  unfold tryPrune at hprune
  split at hprune
  · cases hprune
  simp only [Except.ok.injEq] at hprune
  subst hprune
  refine ⟨⟨_,rfl⟩,rfl,prefix_refl _,?_,?_,rfl⟩
  · exact fun row hrow => .inl (mem_filter.mp hrow).1
  · exact fun hids => hids.sublist (filter_sublist.map Row.id)

def Op.base (w : World) : Op → World
  | .tick view | .jobs view | .beginAdmittedManual view _ _ | .reserveManual view _ _ _ _ =>
    CronScheduler.reload view w
  | _ => w

variable (env) in
def Allowed (spared : Prop) (w : World) : Op → Prop
  | .tick view => TickAllowed env spared view w
  | .beginAdmittedManual view _ admission => BeginAllowed env spared view admission.planId w
  | .reserveManual view _ _ _ _ => spared → ∀ r ∈ w.ops.manualReservations, Holds view w r
  | .releaseUnadmittedManual view planId => spared → view.admission planId = none →
    ∀ r, w.state.manualReservations.get? planId = some r → w.state.queued.get? r.cronId = none
  | .recordManual _ cronId planId _ =>
    (∀ r, w.state.manualReservations.get? planId = some r → r.cronId = cronId) →
      Converts spared w cronId planId
  | _ => True

theorem Owned.base (h : Owned env w) (op : Op) : Owned env (op.base w) := by
  cases op with
  | tick view | jobs view | beginAdmittedManual view cronId admission
  | reserveManual view cronId planId digestHex expiresAt => exact h.reload view
  | _ => exact h

theorem step_moves (strftime : Str → Option ℤ) (h : Owned env w) {op : Op}
    (hallowed : Allowed env spared w op) :
    Moves env spared (op.base w) (step env strftime w op) := by
  cases op with
  | tick view => exact tick_moves h hallowed
  | finish view index result =>
    unfold step
    simp only
    split
    · exact .refl
    next call flies => exact finish_moves h flies
  | jobs view => exact .refl
  | beginAdmittedManual view cronId admission =>
    exact beginAdmittedManual_moves h admission hallowed
  | finishAdmittedManual view => exact reconcileManual_moves view h
  | reserveManual view cronId planId digestHex expiresAt => exact reserveManual_moves h hallowed
  | releaseUnadmittedManual view planId => exact releaseUnadmittedManual_moves hallowed
  | recordManual view cronId planId operationId =>
    exact recordManual_moves h operationId hallowed
  | recordSkippedManual view cronId reason => exact recordSkippedManual_moves h
  | prune now =>
    unfold step
    simp only
    split
    · exact .of_background background_failed
    next ops hops => exact .of_background (prune_background hops)

theorem owned_start : Owned env start where
  jobs := fun _ _ h => nomatch h
  chains := fun _ _ h => nomatch h
  queued := fun _ _ h => nomatch h
  slots := fun _ h => nomatch h
  calls := fun _ h => nomatch h
  rows := fun _ h => nomatch h
  ids := nodup_nil
  reservations := fun _ _ h => nomatch h
  stored := fun _ => ⟨fun h => (nomatch h),fun h => (nomatch h)⟩
  storedIds := nodup_nil

/-- Every call is allowed where nothing has to be spared. -/
theorem allowed_unspared (op : Op) : Allowed env False w op := by
  cases op with
  | tick | beginAdmittedManual => constructor <;> exact False.elim
  | recordManual => exact fun own => ⟨own,False.elim⟩
  | reserveManual | releaseUnadmittedManual => exact False.elim
  | _ => trivial

theorem owned_reachable (strftime : Str → Option ℤ) (ops : List Op) :
    Owned env (after env strftime ops) := by
  refine StepRuns.run_invariant (step env strftime) (Owned env) owned_start ?_ ops
  intro w op h
  exact (h.base op).moves (step_moves strftime h (allowed_unspared op))

/-- After any calls the reservations in the store are those in memory, no two records are of
one run, and a record of a run in flight is of the job of the call and of no manual run. -/
theorem runs_recorded_once (env : Env) (strftime : Str → Option ℤ) (ops : List Op) :
    let w := after env strftime ops
    (∀ r, r ∈ w.ops.manualReservations ↔ (r.planId,r) ∈ w.state.manualReservations.entries) ∧
    (w.ops.records.map Row.id).Nodup ∧
    ∀ row ∈ w.ops.records, row.body.id = row.id ∧ row.body.cronId = row.subject ∧
      ∀ call ∈ w.calls, call.run.id = row.id →
        call.job.cronId = row.subject ∧ ∀ planId, row.slot ≠ manualSlot planId := by
  intro w
  have h : Owned env w := owned_reachable strftime ops
  refine ⟨h.stored,h.ids,fun row hrow => ?_⟩
  have hok := h.rows row hrow
  refine ⟨hok.id_eq,hok.cronId_eq,fun call hcall hid => ?_⟩
  have hattempt := hid ▸ (h.calls call hcall).run
  cases hok.use with
  | manual issued => exact nomatch (hattempt.unique issued).2
  | attempt issued _ slot | closed _ issued _ slot => exact ⟨(hattempt.unique issued).1,slot⟩

end Calls

end Permanu.CronScheduler
