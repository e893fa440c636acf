import PermanuAgent.AlertMoves

/-!
# The open alert of a rule

The evaluator finds the open alert of a rule or of a built-in subject through its
memory, never through the store. As long as every firing record is the open episode in
memory, at most one record fires for each rule and each subject, and a rule that is
false twice in a row ends its alert. A restart with a firing record, and a resolved
record over the size limit, break that.
-/

set_option autoImplicit false

namespace Permanu.AlertEvaluator
open ByteText AdmissionDefinitions List OrderedMap StepRuns
open OpsStore AlertRecords

variable {ν : Type} {env : Env ν} {touches resets : Str → Prop} {w w' : World ν}

def Fitting (env : Env ν) (now : ℤ) (w : World ν) : Prop :=
  ∀ id event, loadEvent w.ops id = some event → Fits env now event

variable {now : ℤ}

theorem Fitting.closable (h : Fitting env now w) (r : Str) : Closable env now w r := by
  intro found hfound
  obtain ⟨id,-,hload⟩ := Option.bind_eq_some_iff.1 hfound
  exact h id found hload

theorem standalone_moves {event : BuiltinEvent} {matching : List (RuleDef ν)}
    {summary : Str} {choice : ℕ} (fits : Fitting env now w) :
    Moves env touches resets w (standalone env w event matching summary now choice) := by
  unfold standalone
  split
  · split
    · exact .refl
    · next hfree =>
      exact .tail (.single (.begun w event now summary (by simpa using hfree)))
        (notify_alike _ _ _ _).move
  · split
    · exact .refl
    · next key hkey =>
      split
      · next gone => exact .single (.forgotten w key gone)
      · next found stored =>
        obtain ⟨id,-,hload⟩ := Option.bind_eq_some_iff.1 stored
        exact .tail (.single (.ended w key now found stored (fits id found hload)))
          (notify_alike _ _ _ _).move

theorem builtinRule_moves (event : BuiltinEvent) (summary : Str) (now : ℤ) (w : World ν)
    (rule : RuleDef ν) (fits : event.occurred = false → Closable env now w rule.rule.id) :
    Moves env (fun r => r = rule.rule.id) resets w (builtinRule env event summary now w rule) := by
  unfold builtinRule
  simp only
  split
  · split
    · exact .single (setRuntime_move rfl rfl fun hfiring => ⟨hfiring,.inr (le_refl _)⟩)
    · next hidle =>
      exact openRuleEpisode_moves w rule rfl (by simpa using hidle)
  · next hcounterpart =>
    split
    · exact resolveRuleEpisode_moves w rule rfl (fits (by simpa using hcounterpart))
    · exact .refl

/-- An event that happened just now is the rule's last occurrence. -/
theorem builtinRule_occurred (event : BuiltinEvent) (summary : Str) (now : ℤ) (w : World ν)
    (rule : RuleDef ν) (h : event.occurred = true) :
    ((builtinRule env event summary now w rule).state.runtime rule.rule.id).lastOccurrence =
      now := by
  unfold builtinRule
  simp only [h, if_true]
  split
  · simp [World.setRuntime]
  · rw [openRuleEpisode_alike.runtime]
    simp [World.fire, World.store, World.setRuntime, Runtime.fired]

variable {touches' resets' : Str → Prop}

theorem Move.mono (hmove : Move env touches resets w w')
    (h : ∀ r, touches r → touches' r) (h' : ∀ r, resets r → resets' r) :
    Move env touches' resets' w w' := by
  cases hmove with
  | quiet ops rules builtin draws subjects others episodes firing =>
    exact .quiet ops rules builtin draws subjects
      (fun r hr => others r fun ht => hr (h r ht)) episodes
      fun r hr => ⟨(firing r hr).1,(firing r hr).2.imp_left (h' r)⟩
  | fired rule value now summary may idle => exact .fired w rule value now summary (h _ may) idle
  | resolved rule now found may stored fits =>
    exact .resolved w rule now found (h _ may) stored fits
  | lapsed rule now may gone => exact .lapsed w rule now (h _ may) gone
  | begun event now summary free => exact .begun w event now summary free
  | ended key now found stored fits => exact .ended w key now found stored fits
  | forgotten key gone => exact .forgotten w key gone

theorem Moves.mono (hmoves : Moves env touches resets w w') (h : ∀ r, touches r → touches' r)
    (h' : ∀ r, resets r → resets' r) : Moves env touches' resets' w w' := by
  induction hmoves with
  | refl => exact .refl
  | tail _ hlast ih => exact .tail ih (hlast.mono h h')

/-- The rules of a list with different ids, one after the other. -/
theorem builtinRules_moves (hid : DrawsOnce env) (resets : Str → Prop) {event : BuiltinEvent}
    {summary : Str}
    {rules : List (RuleDef ν)} (hnodup : (rules.map fun rule => rule.rule.id).Nodup) (w : World ν)
    (hw : Sound env w)
    (fits : event.occurred = false → ∀ rule ∈ rules, Closable env now w rule.rule.id) :
    Moves env (fun r => r ∈ rules.map fun rule => rule.rule.id) resets w
      (rules.foldl (builtinRule env event summary now) w) ∧
    (event.occurred = true → ∀ rule ∈ rules,
      ((rules.foldl (builtinRule env event summary now) w).state.runtime
        rule.rule.id).lastOccurrence = now) := by
  induction rules generalizing w with
  | nil => exact ⟨.refl,fun _ _ h => nomatch h⟩
  | cons rule rest ih =>
    rw [map_cons, nodup_cons] at hnodup
    have hfirst : Moves env (fun r => r = rule.rule.id) resets w
        (builtinRule env event summary now w rule) :=
      builtinRule_moves event summary now w rule fun hocc => fits hocc rule mem_cons_self
    have hothers : ∀ other ∈ rest, other.rule.id ≠ rule.rule.id := by
      intro other hother heq
      exact hnodup.1 (heq ▸ mem_map_of_mem hother)
    obtain ⟨hrest,hlast⟩ := ih hnodup.2 (builtinRule env event summary now w rule)
      (hw.moves hid hfirst) fun hocc other hother =>
        (fits hocc other (mem_cons_of_mem rule hother)).moves hid hw hfirst
          (hothers other hother)
    constructor
    · refine .trans (hfirst.mono (fun r hr => ?_) fun _ => id)
        (hrest.mono (fun _ => mem_cons_of_mem _) fun _ => id)
      rw [hr]
      exact mem_cons_self
    · intro hocc other hother
      rcases mem_cons.1 hother with rfl | hother
      · rw [foldl_cons, hrest.runtime hnodup.1]
        exact builtinRule_occurred event summary now w other hocc
      · exact hlast hocc other hother

theorem applyAction_named {defs : Definitions ν} {action : AdmittedAction}
    (h : ∀ entry ∈ defs.rules.entries, entry.2.rule.id = entry.1) :
    ∀ entry ∈ (applyAction env defs action).rules.entries, entry.2.rule.id = entry.1 := by
  unfold applyAction
  split
  · split
    · intro entry hentry
      rcases mem_insert.1 hentry with ⟨hkey,hvalue⟩ | ⟨-,hold⟩
      · rw [hvalue, hkey]
      · exact h entry hold
    · exact h
  · split
    · intro entry hentry
      exact h entry (mem_erase.1 hentry).2
    · split
      · intro entry hentry
        obtain ⟨old,hold,hvalue⟩ := mem_mapValues.1 hentry
        rw [← hvalue]
        split <;> exact h (entry.1,old) hold
      · split
        · exact h
        · split <;> exact h

theorem load_named (env : Env ν) (actions : List AdmittedAction) :
    ∀ entry ∈ (load env actions).rules.entries, entry.2.rule.id = entry.1 := by
  refine StepRuns.run_invariant (applyAction env)
    (fun defs => ∀ entry ∈ defs.rules.entries, entry.2.rule.id = entry.1) ?_ ?_ _
  · exact fun _ h => nomatch h
  · exact fun _ _ h => applyAction_named h

def inForce (env : Env ν) (actions : List AdmittedAction) : List (RuleDef ν) :=
  (load env actions).rules.entries.map Prod.snd

theorem inForce_nodup (env : Env ν) (actions : List AdmittedAction) :
    ((inForce env actions).map fun rule => rule.rule.id).Nodup := by
  have hkeys : (inForce env actions).map (fun rule => rule.rule.id) =
      (load env actions).rules.entries.map Prod.fst := by
    rw [inForce, map_map]
    exact map_congr_left (load_named env actions)
  rw [hkeys]
  exact (load env actions).rules.unique

variable {rule : RuleDef ν}

/-- A resolved episode leaves no firing record that was not there. -/
theorem resolveRuleEpisode_load (hw : Sound env w)
    (fits : Closable env now w rule.rule.id) {id : Str} {event : AlertEvent ν}
    (h : loadEvent (resolveRuleEpisode env w rule now).ops id = some event)
    (hfiring : event.state = .firing) : loadEvent w.ops id = some event := by
  unfold resolveRuleEpisode at h
  split at h
  · exact h
  · next found stored =>
    have halike := tellResolved_alike ((w.lapse rule now).store env now (found.resolvedBy now)) rule
      (found.resolvedBy now) now
    change loadEvent (tellResolved _ _ _ _).ops id = some event at h
    rw [halike.ops] at h
    rcases load_resolved (hw.found stored).2 (fits found stored) h with ⟨-,hnot,-⟩ | ⟨-,hold⟩
    · exact absurd hfiring hnot
    · exact hold

theorem builtinRules_fitting (hid : DrawsOnce env) (event : BuiltinEvent) {summary : Str}
    (hcounterpart : event.occurred = false) {rules : List (RuleDef ν)} (w : World ν)
    (hw : Sound env w) (fits : Fitting env now w) :
    Fitting env now (rules.foldl (builtinRule env event summary now) w) := by
  induction rules generalizing w with
  | nil => exact fits
  | cons rule rest ih =>
    have hmoves : Moves env (fun r => r = rule.rule.id) (fun _ => False) w
        (builtinRule env event summary now w rule) :=
      builtinRule_moves event summary now w rule fun _ => fits.closable rule.rule.id
    refine ih _ (hw.moves hid hmoves) fun id stored hload hfiring => ?_
    refine fits id stored ?_ hfiring
    unfold builtinRule at hload
    simp only [hcounterpart] at hload
    split at hload
    · next hbad => cases hbad
    · split at hload
      · exact resolveRuleEpisode_load hw (fits.closable rule.rule.id) hload hfiring
      · exact hload

theorem builtin_moves (hid : DrawsOnce env) (event : BuiltinEvent) (choice : ℕ) (hw : Sound env w)
    (fits : Fitting env now w) :
    Moves env (fun _ => True) (fun _ => False) (reload env w) (builtin env w event now choice) := by
  unfold builtin
  split
  · exact standalone_moves fits
  · refine Moves.mono (builtinRules_moves hid _ ?_ _ hw.reload
      fun _ rule _ => Fitting.closable (w := reload env w) fits rule.rule.id).1 (fun _ _ => trivial)
      fun _ => id
    exact (inForce_nodup env w.actions).sublist (filter_sublist.map _)

/-- After an event that is not standalone each rule's record still fits, or the rule waits for
an event that happened just now. -/
theorem builtin_ready (hid : DrawsOnce env) (event : BuiltinEvent) {choice : ℕ}
    (hrules : event.standalone = false) (hw : Sound env w) (fits : Fitting env now w)
    (hrule : rule ∈ inForce env w.actions) :
    Ready env now (builtin env w event now choice) rule := by
  have hloaded : Sound env (reload env w) := hw.reload
  unfold builtin
  simp only [hrules]
  set matching := ((reload env w).state.rules.entries.map Prod.snd).filter
    fun rule => rule.matches event with hmatching
  have hsub : matching.Sublist (inForce env w.actions) := filter_sublist
  have hnodup : (matching.map fun rule => rule.rule.id).Nodup :=
    (inForce_nodup env w.actions).sublist (hsub.map _)
  cases hocc : event.occurred with
  | false =>
    exact .inl ((builtinRules_fitting hid event hocc _ hloaded fits).closable _)
  | true =>
    obtain ⟨hmoves,hlast⟩ := builtinRules_moves hid (fun _ => False) hnodup (reload env w) hloaded
      fun hno => absurd (hocc.symm.trans hno) (by decide)
    by_cases hmem : rule ∈ matching
    · refine .inr ⟨?_,hlast hocc rule hmem⟩
      have hmatch := (mem_filter.1 hmem).2
      unfold RuleDef.matches at hmatch
      cases hcondition : rule.rule.condition with
      | event condition => exact ⟨condition,rfl⟩
      | metric condition | log condition => simp [hcondition] at hmatch
    · refine .inl (Closable.moves (w := reload env w) hid hloaded hmoves ?_
        (Fitting.closable (w := reload env w) fits rule.rule.id))
      intro hin
      obtain ⟨other,hother,hsame⟩ := mem_map.1 hin
      have heq := inj_on_of_nodup_map (inForce_nodup env w.actions) (hsub.subset hother) hrule
        hsame
      exact hmem (heq ▸ hother)

def checked (env : Env ν) (w : World ν) (source : AlertSource ν) (now : ℤ) (choice : ℕ) : World ν :=
  checkDropping env (reload env w) source.droppedTotal now choice

theorem checked_spec (hid : DrawsOnce env) {source : AlertSource ν} {choice : ℕ}
    (hw : Sound env w) (fits : Fitting env now w) :
    Moves env (fun _ => True) (fun _ => False) (reload env w) (checked env w source now choice) ∧
    (checked env w source now choice).state.rules = (load env w.actions).rules ∧
    ∀ rule ∈ inForce env w.actions, Ready env now (checked env w source now choice) rule := by
  set seen : World ν := { reload env w with
    state := (seeDropped (reload env w).state source.droppedTotal now).1 } with hseendef
  have hfirst : Moves env (fun _ => True) (fun _ => False) (reload env w) seen :=
    .single (Alike.move ⟨rfl,rfl,rfl,rfl,rfl,rfl⟩)
  have hseen : Sound env seen := hw.reload.moves hid hfirst
  have hfits : Fitting env now seen := fun id event hload => fits id event hload
  unfold checked checkDropping
  simp only
  split
  · exact ⟨hfirst,rfl,fun rule _ => .inl (hfits.closable rule.rule.id)⟩
  · next occurred _ =>
    have hmoves := builtin_moves hid (droppingEvent occurred) choice hseen hfits
    exact ⟨hfirst.trans hmoves,hmoves.rules,
      fun rule hrule => builtin_ready hid _ rfl hseen hfits hrule⟩

theorem evaluate_eq (source : AlertSource ν) (now : ℤ) (choice : ℕ) :
    evaluate env w source now choice =
      ((checked env w source now choice).state.rules.entries.map Prod.snd).foldl
        (evaluateRule env source now) (checked env w source now choice) := rfl

theorem Ready.moves (hid : DrawsOnce env) (hw : Sound env w)
    (hmoves : Moves env touches resets w w') (hr : ¬ touches rule.rule.id)
    (h : Ready env now w rule) : Ready env now w' rule := by
  rcases h with hclosable | ⟨hevent,hlast⟩
  · exact .inl (hclosable.moves hid hw hmoves hr)
  · refine .inr ⟨hevent,?_⟩
    rw [hmoves.runtime hr]
    exact hlast

/-- The rules of a list with different ids are evaluated one after the other. -/
theorem evaluateRules_moves (hid : DrawsOnce env) (source : AlertSource ν)
    {rules : List (RuleDef ν)} (hnodup : (rules.map fun rule => rule.rule.id).Nodup) (w : World ν)
    (hw : Sound env w) (ready : ∀ rule ∈ rules, Ready env now w rule) :
    Moves env (fun r => r ∈ rules.map fun rule => rule.rule.id)
      (fun r => r ∈ rules.map fun rule => rule.rule.id) w
      (rules.foldl (evaluateRule env source now) w) := by
  induction rules generalizing w with
  | nil => exact .refl
  | cons rule rest ih =>
    rw [map_cons, nodup_cons] at hnodup
    have hfirst := evaluateRule_moves source (ready rule mem_cons_self)
    have hrest := ih hnodup.2 (evaluateRule env source now w rule) (hw.moves hid hfirst)
      fun other hother => by
        refine (ready other (mem_cons_of_mem rule hother)).moves hid hw hfirst fun heq => ?_
        exact hnodup.1 (heq ▸ mem_map_of_mem hother)
    have hself : ∀ r, r = rule.rule.id → r ∈ (rule :: rest).map fun rule => rule.rule.id := by
      rintro r rfl
      exact mem_cons_self
    exact (hfirst.mono hself hself).trans
      (hrest.mono (fun _ => mem_cons_of_mem _) fun _ => mem_cons_of_mem _)

theorem evaluate_sound (hid : DrawsOnce env) {source : AlertSource ν} {choice : ℕ}
    (hw : Sound env w) (fits : Fitting env now w) :
    Sound env (evaluate env w source now choice) := by
  obtain ⟨hmoves,hrules,hready⟩ := checked_spec hid hw fits
  have hchecked := hw.reload.moves hid hmoves
  rw [evaluate_eq, hrules]
  exact hchecked.moves hid (evaluateRules_moves hid source
    (inForce_nodup env w.actions) _ hchecked hready)

theorem resolveRuleEpisode_idle :
    ((resolveRuleEpisode env w rule now).state.runtime rule.rule.id).state ≠ .firing := by
  unfold resolveRuleEpisode
  split
  · simp [World.lapse, World.setRuntime, Runtime.resolvedNow]
  · simp [World.settle, World.setRuntime]

theorem resolveRuleEpisode_ended {id : Str} (hid : DrawsOnce env)
    (hw : Sound env w) (fits : Closable env now w rule.rule.id) (h : FiringFor w id rule.rule.id) :
    Ended (resolveRuleEpisode env w rule now) id := by
  have hmoves : Moves env (fun r => r = rule.rule.id) (fun _ => False) w
      (resolveRuleEpisode env w rule now) := resolveRuleEpisode_moves w rule rfl fits
  have hafter : Falling w id rule.rule.id 0 := .inr ⟨h,Nat.zero_le _⟩
  rcases hafter.moves hid hw hmoves fun h => h with hend | ⟨hfiring,-⟩
  · exact hend
  · exact absurd (hfiring.rule (hw.moves hid hmoves)).1 resolveRuleEpisode_idle

variable {times : ℕ}

/-- A reading that is false: the alert has ended or the streak grows, and with a streak of one
it has ended. -/
theorem stepRule_false {id : Str} (value : ν) (forDuration : ℤ) (hid : DrawsOnce env)
    (hw : Sound env w) (fits : Closable env now w rule.rule.id)
    (h : Falling w id rule.rule.id times) :
    Falling (stepRule env w rule (some false) value now forDuration) id rule.rule.id (times + 1) ∧
    (1 ≤ times → Ended (stepRule env w rule (some false) value now forDuration) id) := by
  rcases h with hend | ⟨hfiring,htimes⟩
  · have hafter := hend.moves hid hw (stepRule_moves (some false) value forDuration fits)
    exact ⟨.inl hafter,fun _ => hafter⟩
  · obtain ⟨hstate,hepisode⟩ := hfiring.rule hw
    set runtime := w.state.runtime rule.rule.id with hruntime
    set next : Runtime ν := { runtime with
      lastEvaluated := now
      lastValue := some value
      noDataStreak := 0
      falseStreak := runtime.falseStreak + 1 } with hnext
    have heval : runtime.evaluated (some false) value now forDuration =
        (next,if resolveAfterFalse ≤ runtime.falseStreak + 1 then .resolve else .stay) := by
      simp [Runtime.evaluated, Runtime.failing, hstate, hnext]
    have hmove : Move env (fun r => r = rule.rule.id) (fun _ => False) w
        (w.setRuntime rule.rule.id next) :=
      setRuntime_move rfl rfl fun _ => ⟨hstate,.inr (Nat.le_succ _)⟩
    have hfiring' : FiringFor (w.setRuntime rule.rule.id next) id rule.rule.id :=
      hfiring.of_load rfl
    unfold stepRule
    simp only [← hruntime, heval]
    by_cases hdue : resolveAfterFalse ≤ runtime.falseStreak + 1
    · simp only [if_pos hdue]
      have hended : Ended (resolveRuleEpisode env (w.setRuntime rule.rule.id next) rule now) id :=
        resolveRuleEpisode_ended hid (hw.move hid hmove)
          ((setRuntime_closable (by simp [hnext, hruntime])).2 fits) hfiring'
      exact ⟨.inl hended,fun _ => hended⟩
    · simp only [if_neg hdue]
      refine ⟨.inr ⟨hfiring',?_⟩,fun hone => ?_⟩
      · simpa [World.setRuntime, hnext] using htimes
      · simp only [resolveAfterFalse] at hdue
        omega

/-- The rule is in force, enabled, and its condition is false. -/
def FalseAt (env : Env ν) (w : World ν) (source : AlertSource ν) (now : ℤ) (r : Str) : Prop :=
  ∃ rule ∈ (load env w.actions).rules.get? r, rule.rule.enabled = true ∧
    ∃ read ∈ reading env source rule now, read.1 = some false

theorem evaluateRule_false {source : AlertSource ν} {id : Str}
    {read : Option Bool × ν × ℤ} (hid : DrawsOnce env) (hw : Sound env w)
    (ready : Ready env now w rule) (henabled : rule.rule.enabled = true)
    (hread : reading env source rule now = some read) (hfalse : read.1 = some false)
    (h : Falling w id rule.rule.id times) :
    Falling (evaluateRule env source now w rule) id rule.rule.id (times + 1) ∧
    (1 ≤ times → Ended (evaluateRule env source now w rule) id) := by
  have fits : Closable env now w rule.rule.id := by
    rcases ready with fits | ⟨⟨condition,hevent⟩,-⟩
    · exact fits
    · rw [reading_event hevent] at hread
      cases hread
  obtain ⟨holds,value,forDuration⟩ := read
  cases hfalse
  have hstep := stepRule_false value forDuration hid hw fits h
  have hsound := hw.moves hid (stepRule_moves (some false) value forDuration fits)
  unfold evaluateRule
  rw [if_neg (by simp [henabled]), hread]
  have hlast : Moves env (fun r => r = rule.rule.id) (fun _ => False)
      (stepRule env w rule (some false) value now forDuration)
      (repeatOrRelease (stepRule env w rule (some false) value now forDuration) rule now) :=
    repeatOrRelease_moves _ rule rfl
  exact ⟨hstep.1.moves hid hsound hlast fun h => h,
    fun hone => (hstep.2 hone).moves hid hsound hlast⟩

theorem evaluate_false {source : AlertSource ν} {id r : Str} (choice : ℕ)
    (hid : DrawsOnce env) (hw : Sound env w) (fits : Fitting env now w)
    (hfalse : FalseAt env w source now r) (h : Falling w id r times) :
    Falling (evaluate env w source now choice) id r (times + 1) ∧
    (1 ≤ times → Ended (evaluate env w source now choice) id) := by
  obtain ⟨rule,hrule,henabled,read,hread,hholds⟩ := hfalse
  have hentry := get?_eq_some.1 hrule
  have hname : rule.rule.id = r := load_named env w.actions _ hentry
  subst hname
  obtain ⟨hmoves,hrules,hready⟩ := checked_spec hid hw fits
  have hchecked := hw.reload.moves hid hmoves
  have hloaded : Falling (reload env w) id rule.rule.id times := h
  have hstart := hloaded.moves hid hw.reload hmoves fun h => h
  have hmem : rule ∈ inForce env w.actions := mem_map.2 ⟨_,hentry,rfl⟩
  have hnodup := inForce_nodup env w.actions
  obtain ⟨before,after,hsplit⟩ := append_of_mem hmem
  rw [hsplit, map_append, map_cons, nodup_middle, nodup_cons,
    mem_append, not_or] at hnodup
  obtain ⟨⟨hbefore,hafter⟩,hrest⟩ := hnodup
  have hparts := nodup_append.1 hrest
  rw [hsplit] at hready
  rw [evaluate_eq, hrules]
  show Falling ((inForce env w.actions).foldl _ _) _ _ _ ∧
    (_ → Ended ((inForce env w.actions).foldl _ _) _)
  rw [hsplit, foldl_append, foldl_cons]
  set start := checked env w source now choice with hstartdef
  -- the rules before this one leave its alert and its streak
  have hfirst := evaluateRules_moves hid source hparts.1 start hchecked
    fun other hother => hready other (mem_append_left _ hother)
  have hsound := hchecked.moves hid hfirst
  have hnow := (hready rule (mem_append_right _ mem_cons_self)).moves hid hchecked hfirst hbefore
  have hturn := evaluateRule_false hid hsound hnow henabled hread hholds
    (hstart.moves hid hchecked hfirst hbefore)
  have hstep := evaluateRule_moves source hnow
  have hsound' := hsound.moves hid hstep
  have hlast := evaluateRules_moves hid source hparts.2.1 _ hsound' fun other hother => by
    have hother' : other.rule.id ∈ after.map fun rule => rule.rule.id := mem_map_of_mem hother
    refine ((hready other (mem_append_right _ (mem_cons_of_mem _ hother))).moves hid
      hchecked hfirst fun hin => ?_).moves hid hsound hstep fun heq => ?_
    · exact hparts.2.2 _ hin _ hother' rfl
    · exact hafter (heq ▸ hother')
  exact ⟨hturn.1.moves hid hsound' hlast hafter,
    fun hone => (hturn.2 hone).moves hid hsound' hlast⟩

/-- Every firing record fits once it is resolved, row by row. -/
def Room (env : Env ν) (now : ℤ) (ops : Store (AlertEvent ν)) : Prop :=
  ∀ row ∈ ops.records, row.kind = .alertEvent → row.body.state = .firing →
    env.len (row.body.resolvedBy now) ≤ maxRecordBytes

/-- No record fires. -/
def Silent (ops : Store (AlertEvent ν)) : Prop :=
  ∀ row ∈ ops.records, row.kind = .alertEvent → row.body.state ≠ .firing

/-- A firing record stays within the size limit when it is resolved, and the agent restarts
only when no record fires. -/
def Allowed (env : Env ν) (w : World ν) : Op ν → Prop
  | .evaluate _ now _ => Room env now w.ops
  | .builtin _ now _ => Room env now w.ops
  | .recordActions _ => True
  | .recordDelivery _ _ => True
  | .restart => Silent w.ops

instance (env : Env ν) (now : ℤ) (ops : Store (AlertEvent ν)) : Decidable (Room env now ops) :=
  inferInstanceAs (Decidable (∀ row ∈ ops.records, _))

instance (ops : Store (AlertEvent ν)) : Decidable (Silent ops) :=
  inferInstanceAs (Decidable (∀ row ∈ ops.records, _))

instance (env : Env ν) (w : World ν) : (op : Op ν) → Decidable (Allowed env w op)
  | .evaluate _ now _ => inferInstanceAs (Decidable (Room env now w.ops))
  | .builtin _ now _ => inferInstanceAs (Decidable (Room env now w.ops))
  | .recordActions _ => isTrue trivial
  | .recordDelivery _ _ => isTrue trivial
  | .restart => inferInstanceAs (Decidable (Silent w.ops))

variable {event : AlertEvent ν}

theorem loadEvent_row {ops : Store (AlertEvent ν)} {id : Str} (h : loadEvent ops id = some event) :
    ∃ row ∈ ops.records, row.kind = .alertEvent ∧ row.body = event := by
  obtain ⟨row,hrow,rfl⟩ := Option.map_eq_some_iff.1 h
  refine ⟨row,mem_of_find?_eq_some hrow,?_,rfl⟩
  have hsame := find?_some hrow
  simp only [sameRecord, Bool.and_eq_true, beq_iff_eq] at hsame
  exact hsame.1

theorem Room.fitting (h : Room env now w.ops) : Fitting env now w := by
  intro id event hload
  obtain ⟨row,hrow,hkind,rfl⟩ := loadEvent_row hload
  exact h row hrow hkind

theorem Silent.load {id : Str} (h : Silent w.ops)
    (hload : loadEvent w.ops id = some event) : event.state ≠ .firing := by
  obtain ⟨row,hrow,hkind,rfl⟩ := loadEvent_row hload
  exact h row hrow hkind

/-- What a delivery leaves of an alert: everything but its deliveries. -/
theorem recordDelivery_load {eventId : Str} {result : DeliveryResult} (hw : Sound env w)
    {id : Str} :
    loadEvent (recordDelivery env w eventId result).ops id = loadEvent w.ops id ∨
    ∃ event, loadEvent w.ops id = some event ∧
      loadEvent (recordDelivery env w eventId result).ops id = some (event.delivered result) := by
  unfold recordDelivery
  split
  · exact .inl rfl
  · next event hload =>
    have hname := (hw.records eventId event hload).named
    rcases putEvent_cases env.len with
      hsame | hput
    · exact .inl (by rw [hsame])
    · by_cases hid : id = event.id
      · subst hid
        exact .inr ⟨event,hname ▸ hload,by rw [hput]; exact if_pos rfl⟩
      · exact .inl (by rw [hput]; exact if_neg hid)

theorem recordDelivery_frame {eventId : Str} {result : DeliveryResult} :
    (recordDelivery env w eventId result).state = w.state ∧
    (recordDelivery env w eventId result).draws = w.draws ∧
    (recordDelivery env w eventId result).subjects = w.subjects := by
  unfold recordDelivery
  split <;> exact ⟨rfl,rfl,rfl⟩

/-- An alert after a delivery is one before it, up to its deliveries. -/
theorem recordDelivery_before {eventId id : Str} {result : DeliveryResult}
    (hw : Sound env w) (h : loadEvent (recordDelivery env w eventId result).ops id = some event) :
    ∃ old, loadEvent w.ops id = some old ∧ event = { old with deliveries := event.deliveries } := by
  rcases recordDelivery_load hw with hsame | ⟨old,hold,hnew⟩
  · exact ⟨event,hsame ▸ h,rfl⟩
  · cases hnew.symm.trans h
    exact ⟨old,hold,rfl⟩

theorem Sound.recordDelivery (eventId : Str) (result : DeliveryResult) (h : Sound env w) :
    Sound env (recordDelivery env w eventId result) := by
  obtain ⟨hstate,hdraws,hsubjects⟩ := recordDelivery_frame
  refine ⟨fun id event hload => ?_,fun r id hepisode => ?_,fun id key hkey => ?_⟩
  · obtain ⟨old,hold,heq⟩ := recordDelivery_before h hload
    have hkept : RecordOk env (AlertEvaluator.recordDelivery env w eventId result) id old :=
      (h.records id old hold).kept hdraws.ge (by simp [hsubjects])
        (fun _ hfiring hepisode => by rw [hstate]; exact ⟨hfiring,hepisode⟩) (by simp [hstate])
    rw [heq]
    exact ⟨hkept.named,hkept.drawn,hkept.rule,hkept.builtin⟩
  · rw [hstate] at hepisode
    exact (h.episodes r id hepisode).mono hdraws.ge
  · rw [hsubjects] at hkey
    exact (h.subjects id key hkey).mono hdraws.ge

/-- A restart in silence: no record needs the memory that is lost. -/
theorem Sound.restart (h : Sound env w) (hsilent : Silent w.ops) :
    Sound env { w with state := .initial, tasks := [] } :=
  ⟨fun id event hload => ⟨(h.records id event hload).named,(h.records id event hload).drawn,
      fun hfiring => absurd hfiring (hsilent.load hload),
      fun hfiring => absurd hfiring (hsilent.load hload)⟩,
    fun _ _ hnone => (nomatch hnone),h.subjects⟩

theorem Sound.step {op : Op ν} (hid : DrawsOnce env) (h : Sound env w) (hop : Allowed env w op) :
    Sound env (step env w op) := by
  cases op with
  | evaluate source now choice => exact evaluate_sound hid h (Room.fitting hop)
  | builtin event now choice =>
    exact h.reload.moves hid (builtin_moves hid event choice h (Room.fitting hop))
  | recordActions actions => exact h.quiet rfl rfl rfl rfl (fun _ => rfl) fun _ hr => hr
  | recordDelivery eventId result => exact h.recordDelivery eventId result
  | restart => exact h.restart hop

def Op.evaluates : Op ν → Bool
  | .evaluate _ _ _ => true
  | _ => false

theorem Falling.step {op : Op ν} {id r : Str} (hid : DrawsOnce env) (hw : Sound env w)
    (hop : Allowed env w op) (hother : op.evaluates = false) (h : Falling w id r times) :
    Falling (step env w op) id r times := by
  cases op with
  | evaluate source now choice => cases hother
  | builtin event now choice =>
    have hloaded : Falling (reload env w) id r times := h
    exact hloaded.moves hid hw.reload
      (builtin_moves hid event choice hw (Room.fitting hop)) fun h => h
  | recordActions actions => exact h
  | recordDelivery eventId result =>
    rcases recordDelivery_load hw with hsame | ⟨old,hold,hnew⟩
    · rw [AlertEvaluator.step, Falling, recordDelivery_frame.1]
      exact h.imp (·.of_load hsame) fun h => ⟨h.1.of_load hsame,h.2⟩
    · rcases h with ⟨event,hload,hstate⟩ | ⟨⟨event,hload,hfields⟩,htimes⟩
      · cases hold.symm.trans hload
        exact .inl ⟨_,hnew,hstate⟩
      · cases hold.symm.trans hload
        refine .inr ⟨⟨_,hnew,hfields⟩,?_⟩
        rwa [AlertEvaluator.step, recordDelivery_frame.1]
  | restart =>
    rcases h with hend | ⟨⟨event,hload,hstate,-⟩,-⟩
    · exact .inl hend
    · exact absurd hstate (Silent.load hop hload)

/-- The record fires as the built-in alert of a source, subject and kind. -/
def OpenFor (w : World ν) (id : Str) (key : BuiltinKey) : Prop :=
  ∃ event, loadEvent w.ops id = some event ∧ event.state = .firing ∧
    event.source = key.source.text ∧ event.subjectId = key.subjectId ∧ (id,key) ∈ w.subjects

theorem EventSource.text_ne (source : EventSource) : source.text ≠ ruleSource := by
  cases source <;> decide

/-- In a run in which resolved records stay within the size limit and the agent restarts only
when no record fires, at most one record fires for each rule and for each built-in source,
subject and kind; a firing record of an enabled rule that is false in two evaluations in a row
is resolved. -/
theorem one_open_alert (env : Env ν) (hid : DrawsOnce env) (ops : List (Op ν))
    (h : ∀ before op, before ++ [op] <+: ops →
      Allowed env (run (step env) start before) op) :
    (∀ r id id', FiringFor (run (step env) start ops) id r →
      FiringFor (run (step env) start ops) id' r → id = id') ∧
    (∀ key id id', OpenFor (run (step env) start ops) id key →
      OpenFor (run (step env) start ops) id' key → id = id') ∧
    (∀ before source now choice between source' now' choice' r id,
      ops = before ++ .evaluate source now choice :: between ++ [.evaluate source' now' choice'] →
      (∀ op ∈ between, op.evaluates = false) →
      FiringFor (run (step env) start before) id r →
      FalseAt env (run (step env) start before) source now r →
      FalseAt env (run (step env) start
        (before ++ .evaluate source now choice :: between)) source' now' r →
      Ended (run (step env) start ops) id) := by
  have hsound : ∀ done, done <+: ops → Sound env (run (step env) start done) :=
    fun done hdone => run_invariant_along (Allowed env) (Sound env)
      start_sound (fun _ _ hw hop => hw.step hid hop) done
      fun before op hbefore => h before op (hbefore.trans hdone)
  have hend := hsound ops (prefix_refl ops)
  refine ⟨fun r id id' hfirst hsecond => ?_,fun key id id' hfirst hsecond => ?_,?_⟩
  · have hsame := (hfirst.rule hend).2.symm.trans (hsecond.rule hend).2
    exact Option.some.inj hsame
  · obtain ⟨event,hload,hfiring,hsource,-,hkey⟩ := hfirst
    obtain ⟨event',hload',hfiring',hsource',-,hkey'⟩ := hsecond
    have hopen :=
      (hend.records id event hload).builtin hfiring (hsource ▸ key.source.text_ne) key hkey
    have hopen' := (hend.records id' event' hload').builtin hfiring'
      (hsource' ▸ key.source.text_ne) key hkey'
    exact Option.some.inj (hopen.symm.trans hopen')
  · intro before source now choice between source' now' choice' r id hops hbetween hfiring hfalse
      hfalse'
    subst hops
    have hbegins : before ++ [.evaluate source now choice] <+:
        before ++ .evaluate source now choice :: between ++ [.evaluate source' now' choice'] := by
      simp
    have hfirst := hsound before ((prefix_append before _).trans hbegins)
    have hone := (evaluate_false choice hid hfirst (Room.fitting (h before _ hbegins)) hfalse
      (.inr ⟨hfiring,Nat.zero_le _⟩)).1
    -- the calls in between leave the streak
    have hkept : ∀ calls, calls <+: between →
        Falling (run (step env) start (before ++ .evaluate source now choice :: calls))
          id r 1 := by
      intro calls hcalls
      induction calls using List.reverseRecOn with
      | nil =>
        rw [run_concat]
        exact hone
      | append_singleton calls op ih =>
        obtain ⟨rest,hrest⟩ := hcalls
        have hcall : (before ++ .evaluate source now choice :: calls) ++ [op] <+:
            before ++ .evaluate source now choice :: between ++
              [.evaluate source' now' choice'] :=
          ⟨rest ++ [.evaluate source' now' choice'],by simp [← hrest]⟩
        have hop : op.evaluates = false := hbetween op (by simp [← hrest])
        rw [show before ++ .evaluate source now choice :: (calls ++ [op]) =
          (before ++ .evaluate source now choice :: calls) ++ [op] by simp, run_concat]
        exact (ih ⟨op :: rest,by simp [← hrest]⟩).step hid
          (hsound _ ((prefix_append _ [op]).trans hcall)) (h _ op hcall) hop
    rw [run_concat]
    exact (evaluate_false choice' hid (hsound _ (prefix_append _ _))
      (Room.fitting (h _ _ (prefix_refl _))) hfalse' (hkept between (prefix_refl _))).2
      (le_refl _)

instance (w : World ν) (id r : Str) : Decidable (FiringFor w id r) :=
  decidable_of_iff (∃ event ∈ loadEvent w.ops id, event.state = .firing ∧
    event.source = ruleSource ∧ event.ruleId = r) Iff.rfl

/-- A rule that fires above ninety; `none` is not a number. -/
def sampleSpec : RuleSpec (Option ℤ) where
  severity := .critical
  condition := .metric ⟨str "memory",.gt,some 90,none⟩
  channelIds := []
  repeatInterval := none
  notifyOnResolve := true
  enabled := true

def sampleEnv : Env (Option ℤ) where
  parse := fun text => if text = str "memory > 90" then some sampleSpec else none
  compare := fun op value threshold =>
    match op,value,threshold with
    | .gt,some a,some b => decide (b < a)
    | .gte,some a,some b => decide (b ≤ a)
    | .lt,some a,some b => decide (a < b)
    | .lte,some a,some b => decide (a ≤ b)
    | .eq,some a,some b => decide (a = b)
    | .neq,some a,some b => decide (a ≠ b)
    | _,_,_ => false
  nan := none
  ofCount := fun count => some count
  summaryOf := fun name _ => name
  redacted := id
  len := fun event => 160 + 64 * event.deliveries.length
  newId := fun _ draw => str "alert-" ++ List.replicate draw (byte 'i')

theorem sampleEnv_drawsOnce : DrawsOnce sampleEnv := by
  intro now draw now' draw' h
  have hlength := congrArg List.length h
  simpa [sampleEnv] using hlength

def sampleRuleAction : AdmittedAction :=
  ⟨str "01a0cdb5-3500-7000-8000-000000000001",
    str "1111111111111111111111111111111111111111111111111111111111111111",0,1,
    str "2026-01-01T00:00:00Z",str "op",str "alert.rule.create",
    .object [(str "alert_rule_id",.string (str "rule-1")), (str "name",.string (str "memory")),
      (str "spec",.string (str "memory > 90"))],
    (str "p",str "production",str "e"),some .succeeded,none⟩

def reports (value : ℤ) : AlertSource (Option ℤ) := ⟨fun _ _ => [some value],fun _ _ => 0,0⟩

def missedJob (occurred : Bool) : BuiltinEvent :=
  ⟨.cronMissed,⟨[],[],[],[]⟩,.cronHeartbeat,str "job",occurred,true,[],str "missed"⟩

def sampleCalls : List (Op (Option ℤ)) :=
  [.restart, .recordActions [sampleRuleAction], .evaluate (reports 97) 30 0,
    .evaluate (reports 40) 60 0, .builtin (missedJob true) 70 0, .builtin (missedJob false) 80 0,
    .evaluate (reports 40) 90 0]

theorem one_open_alert_in_turn :
    (∀ r id id', FiringFor (run (step sampleEnv) start sampleCalls) id r →
      FiringFor (run (step sampleEnv) start sampleCalls) id' r → id = id') ∧
    (∀ key id id', OpenFor (run (step sampleEnv) start sampleCalls) id key →
      OpenFor (run (step sampleEnv) start sampleCalls) id' key → id = id') ∧
    (∀ before source now choice between source' now' choice' r id,
      sampleCalls = before ++ .evaluate source now choice :: between ++
        [.evaluate source' now' choice'] →
      (∀ op ∈ between, op.evaluates = false) →
      FiringFor (run (step sampleEnv) start before) id r →
      FalseAt sampleEnv (run (step sampleEnv) start before) source now r →
      FalseAt sampleEnv (run (step sampleEnv) start
        (before ++ .evaluate source now choice :: between)) source' now' r →
      Ended (run (step sampleEnv) start sampleCalls) id) :=
  one_open_alert sampleEnv sampleEnv_drawsOnce sampleCalls
    (along_of_take _ (by decide +kernel))

/-- The rule fires, the agent restarts, and the rule fires again: two records fire for it, and
the first one still does after two evaluations in which the rule is false. -/
theorem restart_leaves_two_alerts :
    (FiringFor (run (step sampleEnv) start
        [.recordActions [sampleRuleAction], .evaluate (reports 97) 30 0, .restart,
          .evaluate (reports 97) 60 0]) (sampleEnv.newId 30 0) (str "rule-1") ∧
      FiringFor (run (step sampleEnv) start
        [.recordActions [sampleRuleAction], .evaluate (reports 97) 30 0, .restart,
          .evaluate (reports 97) 60 0]) (sampleEnv.newId 60 1) (str "rule-1") ∧
      sampleEnv.newId 30 0 ≠ sampleEnv.newId 60 1) ∧
    FiringFor (run (step sampleEnv) start
      [.recordActions [sampleRuleAction], .evaluate (reports 97) 30 0, .restart,
        .evaluate (reports 97) 60 0, .evaluate (reports 40) 90 0, .evaluate (reports 40) 120 0])
      (sampleEnv.newId 30 0) (str "rule-1") := by
  decide +kernel

end Permanu.AlertEvaluator
