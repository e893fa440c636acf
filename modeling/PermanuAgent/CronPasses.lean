import PermanuAgent.CronMoves

/-!
# The passes of a tick

Starting waiting chains, firing a job, the end of an attempt and its retry each come
down to moves of the scheduler, whatever the records and the definitions say.
-/

set_option autoImplicit false

namespace Permanu.CronScheduler
open ByteText PlanText PlanActions AdmissionDefinitions List OrderedMap Option World
open OpsStore CronJobs JsonValue
open RunnerRequests (RunnerFailure)

structure Attempt (env : Env) (grants : List Grant) (run : CronRun) : Prop where
  issued : Issued env grants run.id run.cronId .attempt
  trigger : run.trigger ≠ .manual

variable {now : ℤ} {u : World} {count : ℕ}

section Records
variable {env : Env} {spared : Prop} {w w' : World} {run : CronRun} {slot cronId id : Str}
  {use : Use}
  {ops : Store CronRun}

theorem Background.of_ghost (hstate : w'.state = w.state) (hcalls : w'.calls = w.calls)
    (hissued : w.issued <+: w'.issued) (hops : w'.ops = w.ops) : Background env w w' := by
  refine ⟨⟨w.state.manualSubmitting,hstate⟩,hcalls,hissued,?_,?_,?_⟩
  · rw [hops]
    exact fun row hrow => .inl hrow
  · rw [hops]
    exact id
  · rw [hops]

theorem background_failed : Background env w w.failed :=
  .of_ghost rfl rfl (prefix_refl _) rfl

theorem background_issue :
    Background env w (w.issue cronId use) :=
  .of_ghost rfl rfl issue_grows rfl

theorem background_floorRead : Background env w w.floorRead := by
  unfold floorRead
  split
  · exact background_failed
  · exact .of_ghost rfl rfl (prefix_refl _) rfl

theorem background_lookedUp : Background env w (w.lookedUp run) := by
  unfold lookedUp
  split
  · exact background_failed
  · exact .of_ghost rfl rfl (prefix_refl _) rfl

theorem Background.put (hput : Put env w.ops ops run slot)
    (huse : ∀ seq time, RowUse env w.issued (rowOf seq time run slot)) :
    Background env w (store w ops) := by
  obtain ⟨seq,time,hrows⟩ := hput.rows
  refine ⟨⟨_,rfl⟩,rfl,prefix_refl _,?_,fun _ => hput.ids,hput.reservations⟩
  intro row hrow
  rcases (hrows row).mp hrow with rfl | ⟨hold,_⟩
  · exact .inr (rowOf_ok hput.small (huse seq time))
  · exact .inl hold

theorem Background.attempt (hput : Put env w.ops ops run slot)
    (attempt : Attempt env w.issued run) (hslot : ∀ planId, slot ≠ manualSlot planId) :
    Background env w (store w ops) :=
  .put hput fun _ _ => .attempt attempt.issued attempt.trigger hslot

theorem Background.closed (hput : Put env w.ops ops run slot)
    (issued : Issued env w.issued run.id run.cronId use)
    (final : run.status.isFinal = true) (hslot : ∀ planId, slot ≠ manualSlot planId) :
    Background env w (store w ops) :=
  .put hput fun _ _ => .closed use issued final hslot

theorem save_cases (h : Owned env w) :
    (∃ ops, Put env w.ops ops run slot ∧ save env now run slot w = (store w ops,true)) ∨
      save env now run slot w = (w.failed,false) := by
  unfold save
  split
  next ops hops =>
    exact .inl ⟨ops,writeRecord_put (fun row hrow => (h.rows row hrow).kind) h.ids hops,rfl⟩
  · exact .inr rfl

theorem record_cases (h : Owned env w) (attempt : Attempt env w.issued run) :
    (∃ ops, Background env w (store w ops) ∧
      record env now run w = (store w ops,true)) ∨
      record env now run w = (w.failed,false) := by
  rcases save_cases h with ⟨ops,hput,hsave⟩ | hsave
  · exact .inl ⟨ops,.attempt hput attempt slotOf_ne_manualSlot,hsave⟩
  · exact .inr hsave

theorem record_background (h : Owned env w) (attempt : Attempt env w.issued run) :
    Background env w (record env now run w).1 := by
  rcases record_cases h attempt with ⟨ops,hb,hrecord⟩ | hrecord
  · rw [hrecord]
    exact hb
  · rw [hrecord]
    exact background_failed

theorem Moves.of_background (hb : Background env w w') : Moves env spared w w' :=
  .single (.background hb)

theorem Moves.then_background (hmoves : Moves env spared w w') (hb : Background env w' u) :
    Moves env spared w u := hmoves.tail (.background hb)

/-- What no move changes: the jobs and the ids given out before. -/
structure Frame (w w' : World) : Prop where
  jobs : w'.state.jobs = w.state.jobs
  issued : w.issued <+: w'.issued

theorem Frame.refl (w : World) : Frame w w := ⟨rfl,prefix_refl _⟩

theorem Frame.trans {v : World} (h : Frame w u) (h' : Frame u v) : Frame w v :=
  ⟨h'.jobs.trans h.jobs,h.issued.trans h'.issued⟩

theorem endChain_frame : Frame w (endChain cronId id w) := by
  rcases endChain_cases with ⟨heq,_⟩ | ⟨next,_,_,heq⟩
  all_goals
    rw [heq]
    exact ⟨rfl,prefix_refl _⟩

theorem openManual_frame :
    Frame w (openManual env run cronId w) := by
  unfold openManual
  split
  · exact .refl w
  · exact ⟨rfl,prefix_refl _⟩

theorem closeManual_frame : Frame w (closeManual cronId id w) := by
  have hgive : Frame w (w.giveBack id) := by
    unfold giveBack
    split
    · exact ⟨rfl,prefix_refl _⟩
    · exact .refl w
  unfold closeManual
  simp only
  split
  · exact hgive.trans endChain_frame
  · exact hgive

theorem updateChain_frame (change : Chain → Chain) :
    Frame w (w.updateChain env id change) := by
  unfold updateChain
  split
  · exact .refl w
  · exact ⟨rfl,prefix_refl _⟩

theorem Move.frame (h : Move env spared w w') : Frame w w' := by
  cases h with
  | background hb =>
    obtain ⟨submitting,hstate⟩ := hb.state
    exact ⟨by rw [hstate],hb.issued⟩
  | retried index call time run flies same =>
    have hanswered : Frame w (answered w index).stops := ⟨rfl,prefix_refl _⟩
    exact hanswered.trans (updateChain_frame _)
  | ended index call flies =>
    have hanswered : Frame w (answered w index).stops := ⟨rfl,prefix_refl _⟩
    exact hanswered.trans endChain_frame
  | recorded run ops put manual own =>
    refine Frame.trans ?_ openManual_frame
    exact ⟨rfl,prefix_refl _⟩
  | opened run manual => exact openManual_frame
  | settled run manual => exact closeManual_frame
  | _ => exact ⟨rfl,prefix_refl _⟩

theorem Moves.frame (h : Moves env spared w w') : Frame w w' := by
  induction h with
  | refl => exact .refl w
  | tail _ hmove ih => exact ih.trans hmove.frame

end Records

theorem applyAction_keys {jobs : Jobs} {action : AdmittedAction}
    (h : ∀ cronId job, (cronId,job) ∈ jobs.entries → job.cronId = cronId) :
    ∀ cronId job, (cronId,job) ∈ (applyAction jobs action).entries → job.cronId = cronId := by
  intro cronId job hmem
  unfold applyAction at hmem
  split at hmem
  · exact h cronId job hmem
  split at hmem
  · split at hmem
    · exact h cronId job hmem
    · rcases mem_insert.mp hmem with ⟨rfl,rfl⟩ | ⟨_,hold⟩
      · rfl
      · exact h cronId job hold
  split at hmem
  · exact h cronId job (mem_erase.mp hmem).2
  split at hmem
  · obtain ⟨old,hold,rfl⟩ := mem_mapValues.mp hmem
    have hkey := h cronId old hold
    split <;> exact hkey
  split at hmem
  · obtain ⟨old,hold,rfl⟩ := mem_mapValues.mp hmem
    have hkey := h cronId old hold
    split <;> exact hkey
  · exact h cronId job hmem

theorem loadJobs_keys {actions : List AdmittedAction} :
    ∀ cronId job, (cronId,job) ∈ (loadJobs actions).entries → job.cronId = cronId := by
  refine StepRuns.run_invariant applyAction
    (fun jobs => ∀ cronId job, (cronId,job) ∈ jobs.entries → job.cronId = cronId) ?_ ?_ _
  · exact fun _ _ h => nomatch h
  · exact fun _ _ h => applyAction_keys h

theorem originalJob_cronId {admitted : List String → List AdmittedAction} {ops : Store CronRun}
    {run : CronRun} {job : JobDef} (h : originalJob admitted ops run = some job) :
    job.cronId = run.cronId := by
  unfold originalJob at h
  split at h
  · cases h
  split at h
  · cases h
  · exact loadJobs_keys _ _ (get?_eq_some.mp h)

variable {rest : List Str}

section Passes
variable {env : Env} {spared : Prop} {w w' : World} {view : View} {run : CronRun} {id cronId : Str}
  {chain : Chain} {job : JobDef} {ops : Store CronRun}

/-- The run of a chain in the line is a scheduled attempt. -/
theorem Owned.lined (h : Owned env w) (slots : w.state.slots = id :: rest)
    (known : (id,chain) ∈ w.state.chains.entries) :
    Issued env w.issued id chain.cronId .attempt ∧ Attempt env w.issued chain.run := by
  have hok := h.chains id chain known
  obtain ⟨owner,issued⟩ := h.slots id (slots ▸ mem_cons_self)
  cases hok.use with
  | attempt hid hrun trigger =>
    refine ⟨hid,?_,trigger⟩
    rw [hok.cronId]
    exact hrun
  | manual hid _ _ _ _ =>
    have huse := (issued.unique hid).2
    cases huse

theorem launch_refused (known : (id,chain) ∈ w.state.chains.entries) (waits : chain.waiting = true)
    (slots : w.state.slots = id :: rest) :
    ((((line w rest).setChain env id { chain with waiting := false }).runs.failed.stops.updateChain
      env id fun chain => { chain with waiting := true }).unpopSlot id) = w.failed := by
  have hset : OrderedMap.insert env.order id { chain with waiting := true }
      (OrderedMap.insert env.order id { chain with waiting := false } w.state.chains) =
      w.state.chains := by
    rw [insert_insert _ (OrderedMap.mem_keys.mpr ⟨chain,known⟩)]
    apply OrderedMap.insert_of_mem
    rw [← waits]
    exact known
  have hget : ((((line w rest).setChain env id
      { chain with waiting := false }).runs.failed.stops).state.chains.get? id) =
      some { chain with waiting := false } := get?_insert_self _
  rw [updateChain, hget]
  simp only [unpopSlot, setChain, stops, failed, runs, line,
    hset, ← slots, Nat.add_sub_cancel]

theorem launch_accepted (env : Env) (known : (id,chain) ∈ w.state.chains.entries) (rest : List Str)
    (ops : Store CronRun) (call : Call) :
    updateChain env
      { ((line w rest).setChain env id { chain with waiting := false }).runs with
        ops := ops
        calls := w.calls ++ [call] } id (fun chain => { chain with run := call.run }) =
      { (line (store w ops) rest).runs.setChain env id
        { chain with waiting := false, run := call.run } with calls := w.calls ++ [call] } := by
  have hset : OrderedMap.insert env.order id { chain with waiting := false, run := call.run }
      (OrderedMap.insert env.order id { chain with waiting := false } w.state.chains) =
      OrderedMap.insert env.order id { chain with waiting := false, run := call.run }
        w.state.chains :=
    insert_insert _ (OrderedMap.mem_keys.mpr ⟨chain,known⟩)
  have hget : (OrderedMap.insert env.order id { chain with waiting := false }
      w.state.chains).get? id = some { chain with waiting := false } :=
    get?_insert_self _
  simp only [updateChain, setChain, runs, line, store, hget, hset]

theorem launch_moves (h : Owned env w) (slots : w.state.slots = id :: rest)
    (known : (id,chain) ∈ w.state.chains.entries) (waits : chain.waiting = true)
    (hjob : job.cronId = chain.cronId) :
    Moves env spared w (launch env view job id chain.run
      ((line w rest).setChain env id { chain with waiting := false }).runs) := by
  obtain ⟨_,hattempt⟩ := h.lined slots known
  unfold launch
  simp only
  split
  · rw [launch_refused known waits slots]
    exact .of_background background_failed
  next ops hops =>
    have hput : Put env w.ops ops (begun view.now chain.run)
        (launchSchedule job (begun view.now chain.run)).scheduledFor :=
      putScheduledRecord_put (fun row hrow => (h.rows row hrow).kind) h.ids hops
    have hlaunched : Attempt env w.issued (begun view.now chain.run) :=
      ⟨hattempt.issued,hattempt.trigger⟩
    have hb : Background env w (store w ops) :=
      .attempt hput hlaunched slotOf_ne_manualSlot
    have haccepted := launch_accepted env known rest ops ⟨job,id,begun view.now chain.run⟩
    refine (Moves.of_background hb).trans (.single ?_)
    refine (congrArg (Move env spared (store w ops)) haccepted).mpr ?_
    exact .launched id rest chain _ slots known waits rfl hjob ⟨rfl,rfl,rfl,rfl⟩

theorem startWaiting_moves (h : Owned env w) (slots : w.state.slots = id :: rest)
    (known : (id,chain) ∈ w.state.chains.entries) :
    Moves env spared w (startWaiting env view id chain (line w rest)).1 := by
  obtain ⟨_,hattempt⟩ := h.lined slots known
  unfold startWaiting
  split
  next hgone =>
    have hcancelled : Attempt env (line w rest).issued
        { chain.run with
          status := .cancelled
          error := str "the job was deleted before the run started"
          finishedAt := some view.now } := ⟨hattempt.issued,hattempt.trigger⟩
    unfold cancelWaiting
    simp only
    rcases record_cases (h.line slots) hcancelled with ⟨ops,hb,hrecord⟩ | hrecord
    · rw [hrecord]
      have hstored : Background env w (store w ops) :=
        ⟨⟨_,rfl⟩,rfl,prefix_refl _,hb.rows,hb.ids,hb.reservations⟩
      refine (Moves.of_background hstored).trans (.single ?_)
      exact .cancelled (w := store w ops) id rest chain slots known
        (isNone_iff_eq_none.mp hgone)
    · rw [hrecord]
      refine .of_background (.of_ghost ?_ rfl (prefix_refl _) rfl)
      simp only [unpopSlot, failed, line, ← slots]
  split
  · exact .single (.popped id rest slots)
  next hwaits =>
  split
  · refine .of_background ?_
    have hlooked : Background env (line w rest) ((line w rest).lookedUp chain.run) :=
      background_lookedUp
    obtain ⟨submitting,hstate⟩ := hlooked.state
    refine ⟨⟨submitting,?_⟩,hlooked.calls,hlooked.issued,hlooked.rows,hlooked.ids,
      hlooked.reservations⟩
    rw [unpopSlot, hstate]
    simp only [line, ← slots]
  next job hjob =>
    have hcronId : job.cronId = chain.cronId :=
      (originalJob_cronId hjob).trans (h.chains id chain known).cronId
    exact launch_moves h slots known (by simpa using hwaits) hcronId

theorem fillRound_moves (view : View) (h : Owned env w) :
    Moves env spared w (fillRound env view w).1 := by
  unfold fillRound
  split
  · exact .refl
  split
  · exact .refl
  next id rest slots =>
    simp only
    split
    · exact .single (.popped id rest slots)
    next chain hchain => exact startWaiting_moves h slots (get?_eq_some.mp hchain)

theorem fillRounds_moves {fuel : ℕ} (h : Owned env w) :
    Moves env spared w (fillRounds env view fuel w) := by
  induction fuel generalizing w with
  | zero => exact .refl
  | succ fuel ih =>
    have hround : Moves env spared w (fillRound env view w).1 := fillRound_moves view h
    unfold fillRounds
    split
    next next hnext =>
      rw [hnext] at hround
      exact hround.trans (ih (h.moves hround))
    next next hnext =>
      rw [hnext] at hround
      exact hround

theorem fillSlots_moves (h : Owned env w) : Moves env spared w (fillSlots env view w) :=
  fillRounds_moves h

theorem Moves.then_record (hmoves : Moves env spared w w') (h : Owned env w) (now : ℤ)
    (attempt : Attempt env w'.issued run) : Moves env spared w (record env now run w').1 :=
  hmoves.then_background (record_background (h.moves hmoves) attempt)

theorem startChain_moves (h : Owned env w) (hjob : w.state.jobs.get? job.cronId = some job)
    (henabled : job.enabled = true) (hcronId : run.cronId = job.cronId)
    (attempt : Attempt env w.issued run) (absent : w.state.chains.get? run.id = none) :
    Moves env spared w (startChain env view job run w) := by
  unfold startChain
  rcases record_cases h attempt with ⟨ops,hb,hrecord⟩ | hrecord
  · rw [hrecord]
    simp only
    have hstored : Moves env spared w (store w ops) := .of_background hb
    have hok : ChainOk env (store w ops).issued run.id ⟨job.cronId,run,none,true⟩ := by
      refine ⟨hcronId,.attempt ?_ ?_ attempt.trigger⟩
      all_goals
        rw [← hcronId]
        exact attempt.issued
    split
    · exact hstored.then_record h view.now ⟨attempt.issued,attempt.trigger⟩
    split
    next hqueue =>
      rw [Bool.and_eq_true, beq_iff_eq, decide_eq_true_eq] at hqueue
      have hdefined : ((store w ops).state.jobs.get? job.cronId).any JobDef.enabled = true := by
        rw [show (store w ops).state.jobs.get? job.cronId = some job from hjob]
        exact henabled
      have hmove : Moves env spared w (queue env
          ((store w ops).setChain env run.id ⟨job.cronId,run,none,true⟩) job.cronId run.id) :=
        hstored.tail (.enqueued run.id _ absent hok rfl hqueue.2 hdefined)
      exact hmove.then_record h view.now ⟨attempt.issued,attempt.trigger⟩
    · have hmove : Moves env spared w
          (((store w ops).setChain env run.id ⟨job.cronId,run,none,true⟩).pushSlot run.id) :=
        hstored.tail (.started run.id _ absent hok rfl)
      have hattempt : Attempt env ((store w ops).setChain env run.id
          ⟨job.cronId,run,none,true⟩ |>.pushSlot run.id).issued run := attempt
      have hrecorded := hmove.then_record h view.now hattempt
      exact hrecorded.trans (fillSlots_moves (h.moves hrecorded))
  · rw [hrecord]
    exact .of_background background_failed

theorem fresh_absent (h : Owned env w) : w.state.chains.get? (fresh env w) = none := by
  rw [get?_eq_none, OrderedMap.mem_keys]
  rintro ⟨chain,hchain⟩
  cases (h.chains _ chain hchain).use with
  | attempt issued _ _ | manual issued _ _ _ _ => exact fresh_not_issued issued

theorem startScheduled_moves (view : View) (h : Owned env w)
    (hjob : w.state.jobs.get? job.cronId = some job) (henabled : job.enabled = true) (time : ℤ) :
    Moves env spared w (startScheduled env view job time w) := by
  unfold startScheduled
  split
  · exact .of_background background_floorRead
  have hissue : Moves env spared w (w.issue job.cronId .attempt) :=
    .of_background background_issue
  have hattempt : Attempt env (w.issue job.cronId .attempt).issued
      (scheduledRun (fresh env w) job time) :=
    ⟨issued_fresh,by simp [scheduledRun, newRun]⟩
  have howned := h.moves hissue
  simp only
  split
  · exact hissue.then_background background_failed
  · exact hissue
  next ops hclaim =>
    have hput := claimScheduled_put (fun row hrow => (howned.rows row hrow).kind)
      howned.ids hclaim
    have hb : Background env (w.issue job.cronId .attempt)
        (store (w.issue job.cronId .attempt) ops) :=
      .attempt hput hattempt formatTimestamp_ne_manualSlot
    have hclaimed := hissue.then_background hb
    exact hclaimed.trans
      (startChain_moves (h.moves hclaimed) hjob henabled rfl hattempt (fresh_absent h))

theorem recordMissed_moves (h : Owned env w) {time : ℤ} :
    Moves env spared w (recordMissed env view job time count w) := by
  have hissue : Moves env spared w (w.issue job.cronId .missed) :=
    .of_background background_issue
  have howned := h.moves hissue
  refine hissue.then_background ?_
  unfold recordMissed record
  rcases save_cases howned with ⟨ops,hput,hsave⟩ | hsave
  · rw [hsave]
    exact .closed hput issued_fresh rfl slotOf_ne_manualSlot
  · rw [hsave]
    exact background_failed

theorem recordGap_moves (view : View) (job : JobDef) (h : Owned env w) (first : ℤ) (missed : ℕ) :
    Moves env spared w (recordGap env view job first missed w) := by
  unfold recordGap
  split
  · exact .refl
  split
  · exact .of_background background_floorRead
  · exact recordMissed_moves h

theorem fireLate_moves (h : Owned env w) (hjob : w.state.jobs.get? job.cronId = some job)
    (henabled : job.enabled = true) (next : ℤ → Option ℤ) {first : ℤ} :
    Moves env spared w (fireLate env view job next first count w) := by
  unfold fireLate
  simp only
  split
  · have hgap : Moves env spared w _ := recordGap_moves view job h first (count-1)
    refine hgap.trans (startScheduled_moves view (h.moves hgap) ?_ henabled _)
    rw [hgap.frame.jobs]
    exact hjob
  · exact recordGap_moves view job h first count

theorem fireDue_moves (view : View) (h : Owned env w)
    (hjob : w.state.jobs.get? job.cronId = some job) (henabled : job.enabled = true) (since : ℤ)
    (downtime : Bool) : Moves env spared w (fireDue env view since downtime w job) := by
  unfold fireDue
  split
  · exact .refl
  next next hnext =>
  simp only
  split
  · generalize (fireTimes next view.now 16 16 (max since job.activeFrom)).1 = times
    induction times generalizing w with
    | nil => exact .refl
    | cons time rest ih =>
      have hstart : Moves env spared w _ := startScheduled_moves view h hjob henabled time
      refine hstart.trans (ih (h.moves hstart) ?_)
      rw [hstart.frame.jobs]
      exact hjob
  · split
    · exact .refl
    · exact fireLate_moves h hjob henabled _

theorem fireJobs_moves (h : Owned env w) {checkpoint : ℤ} :
    Moves env spared w (fireJobs env view checkpoint w) := by
  unfold fireJobs
  have hjobs : ∀ job ∈ (w.state.jobs.entries.map Prod.snd).filter JobDef.enabled,
      w.state.jobs.get? job.cronId = some job ∧ job.enabled = true := by
    intro job hjob
    obtain ⟨hlisted,henabled⟩ := mem_filter.mp hjob
    obtain ⟨⟨cronId,other⟩,hmem,rfl⟩ := mem_map.mp hlisted
    rw [get?_eq_some, h.jobs cronId other hmem]
    exact ⟨hmem,henabled⟩
  revert hjobs
  generalize (w.state.jobs.entries.map Prod.snd).filter JobDef.enabled = jobs
  intro hjobs
  induction jobs generalizing w with
  | nil => exact .refl
  | cons job rest ih =>
    obtain ⟨hjob,henabled⟩ := hjobs job mem_cons_self
    have hfire : Moves env spared w _ :=
      fireDue_moves view h hjob henabled (min checkpoint view.now)
      (decide (downtimeSeconds < view.now - checkpoint))
    refine hfire.trans (ih (h.moves hfire) ?_)
    intro other hother
    rw [hfire.frame.jobs]
    exact hjobs other (mem_cons_of_mem job hother)

theorem applyResult_same (run : CronRun) (result : Except RunnerFailure Value) :
    SameRun (applyResult run result).1 run := by
  cases result with
  | error failure | ok answer => exact ⟨rfl,rfl,rfl,rfl⟩

theorem answeredRun_same (view : View) (call : Call) (result : Except RunnerFailure Value)
    (w : World) :
    SameRun (answeredRun view call result w).1 call.run := by
  have hsame := applyResult_same { call.run with
    runnerRunId := if call.run.runnerRunId = [] then
      ((w.state.chains.get? call.chainId).map fun chain => chain.run.runnerRunId).getD []
      else call.run.runnerRunId } result
  exact ⟨hsame.id,hsame.cronId,hsame.trigger,hsame.planId⟩

theorem finish_moves (h : Owned env w) {index : ℕ} {call : Call}
    (flies : w.calls[index]? = some call) {result : Except RunnerFailure Value} :
    Moves env spared w (finish env view call result (answered w index)) := by
  have hcall := h.calls call (mem_of_getElem? flies)
  have hsame := answeredRun_same view call result w
  have hattempt : Attempt env (answered w index).issued (answeredRun view call result w).1 := by
    refine ⟨?_,?_⟩
    · rw [hsame.id, hsame.cronId, hcall.cronId]
      exact hcall.run
    · rw [hsame.trigger]
      exact hcall.trigger
  have hanswered : Owned env (answered w index) := { h.answered with }
  unfold finish
  simp only
  rcases record_cases hanswered hattempt with ⟨ops,hb,hrecord⟩ | hrecord
  · have hstored : Background env w (store w ops) :=
      ⟨⟨_,rfl⟩,rfl,prefix_refl _,hb.rows,hb.ids,hb.reservations⟩
    have hmoves : Moves env spared w (if (answeredRun view call result (answered w index)).2 then
        (store (answered w index) ops).stops.updateChain env call.chainId fun chain =>
          { chain with
            retryAt := some (view.now +
              backoff (answeredRun view call result (answered w index)).1.attempt)
            run := (answeredRun view call result (answered w index)).1 }
        else endChain call.job.cronId call.chainId (store (answered w index) ops).stops) := by
      refine (Moves.of_background hstored).trans (.single ?_)
      split
      · exact .retried index call _ _ flies hsame
      · exact .ended index call flies
    rw [show record env view.now (answeredRun view call result (answered w index)).1
      (answered w index) = _ from hrecord]
    exact hmoves.trans (fillSlots_moves (h.moves hmoves))
  · rw [show record env view.now (answeredRun view call result (answered w index)).1
      (answered w index) = _ from hrecord]
    refine (Moves.of_background background_failed).trans (.single ?_)
    exact .held index call.chainId

/-- A due chain is still as it was when the due ones were listed. -/
theorem retryOne_moves (h : Owned env w) (known : (id,chain) ∈ w.state.chains.entries)
    (rests : chain.retryAt.isSome = true) :
    Moves env spared w (retryOne env view w (id,chain)) := by
  unfold retryOne
  simp only
  split
  next henabled =>
    split
    · exact .of_background background_lookedUp
    next job hjob =>
      have hok := h.chains id chain known
      have hcronId : job.cronId = chain.cronId := (originalJob_cronId hjob).trans hok.cronId
      have hissue : Moves env spared w (w.issue job.cronId .attempt) :=
        .of_background background_issue
      have howned := h.moves hissue
      have hattempt : Attempt env (w.issue job.cronId .attempt).issued
          (retryRun (fresh env w) job chain.run) :=
        ⟨issued_fresh,by simp [retryRun, newRun]⟩
      rcases record_cases howned hattempt with ⟨ops,hb,hrecord⟩ | hrecord
      · rw [hrecord]
        have hget : (store (w.issue job.cronId .attempt) ops).state.chains.get? id = some chain :=
          get?_eq_some.mpr known
        simp only [updateChain, hget]
        have hmove := (hissue.then_background hb).tail (.renewed id chain
          (retryRun (fresh env w) job chain.run) known rests (hcronId ▸ hattempt.issued) hcronId
          hattempt.trigger)
        exact Moves.then_record hmove h view.now ⟨hattempt.issued,hattempt.trigger⟩
      · rw [hrecord]
        exact hissue.then_background background_failed
  next hgone =>
    exact .single (.retryDropped id chain known (Bool.eq_false_of_not_eq_true hgone))

theorem retryOne_others {entry : Str × Chain} (hne : id ≠ entry.1)
    (known : (id,chain) ∈ w.state.chains.entries) :
    (id,chain) ∈ (retryOne env view w entry).state.chains.entries := by
  have hrecord : ∀ (u : World) (run : CronRun), (record env view.now run u).1.state = u.state := by
    intro u run
    unfold record save
    split <;> rfl
  have hlooked : ∀ (u : World) (run : CronRun), (u.lookedUp run).state = u.state := by
    intro u run
    unfold lookedUp
    split <;> rfl
  unfold retryOne
  simp only
  split
  · split
    · rw [hlooked]
      exact known
    next job hjob =>
      split
      next u hu =>
        have hstate :=
          hrecord (w.issue job.cronId .attempt) (retryRun (fresh env w) job entry.2.run)
        rw [hu] at hstate
        rw [hstate]
        exact known
      next u hu =>
        have hstate :=
          hrecord (w.issue job.cronId .attempt) (retryRun (fresh env w) job entry.2.run)
        rw [hu] at hstate
        have hknown : (id,chain) ∈ u.state.chains.entries := by
          rw [hstate]
          exact known
        rw [hrecord]
        unfold updateChain
        split
        · exact hknown
        · exact mem_insert.mpr (.inr ⟨hne,hknown⟩)
  · exact mem_erase.mpr ⟨hne,known⟩

theorem retryAll_moves {due : List (Str × Chain)} (h : Owned env w)
    (hdistinct : (due.map Prod.fst).Nodup)
    (hdue : ∀ entry ∈ due, entry ∈ w.state.chains.entries ∧ entry.2.retryAt.isSome = true) :
    Moves env spared w (due.foldl (retryOne env view) w) := by
  induction due generalizing w with
  | nil => exact .refl
  | cons entry rest ih =>
    obtain ⟨known,rests⟩ := hdue entry mem_cons_self
    rw [map_cons, nodup_cons] at hdistinct
    have hone : Moves env spared w (retryOne env view w entry) := retryOne_moves h known rests
    refine hone.trans (ih (h.moves hone) hdistinct.2 ?_)
    intro other hother
    obtain ⟨hknown,hrests⟩ := hdue other (mem_cons_of_mem entry hother)
    refine ⟨retryOne_others ?_ hknown,hrests⟩
    intro hid
    exact hdistinct.1 (mem_map.mpr ⟨other,hother,hid⟩)

theorem retriesDue_moves (view : View) (h : Owned env w) :
    Moves env spared w (retriesDue env view w) := by
  have hall : Moves env spared w ((w.state.chains.entries.filter fun entry =>
      entry.2.retryAt.any fun time => decide (time ≤ view.now)).foldl (retryOne env view) w) := by
    apply retryAll_moves h
    · exact w.state.chains.unique.sublist (filter_sublist.map Prod.fst)
    · intro entry hentry
      obtain ⟨hmem,hdue⟩ := mem_filter.mp hentry
      refine ⟨hmem,?_⟩
      cases hretry : entry.2.retryAt with
      | none =>
        rw [hretry] at hdue
        cases hdue
      | some time => rfl
  exact hall.trans (fillSlots_moves (h.moves hall))

end Passes

end Permanu.CronScheduler
