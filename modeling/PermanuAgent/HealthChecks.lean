import PermanuAgent.ByteText
import PermanuAgent.OrderedMap
import PermanuAgent.StepRuns

/-!
# The scheduler of health checks

A pass starts a run of every check that is due and marks the check as in flight. The run is
started under the key of its check, made of type and id, but its end clears the first check
of its id, in whatever table is configured by then.
-/

set_option autoImplicit false

namespace Permanu.HealthChecks

open ByteText List OrderedMap StepRuns

structure HealthCheckConfig where
  id : Str
  type : Str
  target : Str
  intervalSeconds : ℤ
  deriving DecidableEq, Repr

structure CheckState where
  config : HealthCheckConfig
  lastRun : Option ℕ
  inFlight : Bool
  deriving DecidableEq, Repr

structure HealthCheckResult where
  checkId : Str
  status : Str
  deriving DecidableEq, Repr

/-- A task that runs a check, and how many configurations were applied when it was started. -/
structure Run where
  applied : ℕ
  check : HealthCheckConfig
  deriving DecidableEq, Repr

structure MonitoringState where
  applied : ℕ
  healthChecks : OrderedMap Str CheckState
  results : List HealthCheckResult
  /-- The tasks that have not ended. -/
  runs : List Run
  deriving DecidableEq

def checkKey (check : HealthCheckConfig) : Str := str "check:" ++ check.type ++ str ":" ++ check.id

/-- In seconds. -/
def checkInterval (check : HealthCheckConfig) : ℕ :=
  if 0 < check.intervalSeconds then check.intervalSeconds.toNat else 10

def healthCheckSupported (check : HealthCheckConfig) : Bool :=
  [str "http", str "tcp", str "process"].contains check.type

def validateIdentifier (value : Str) : Bool :=
  value ≠ [] && value.length ≤ 128 && value.all fun b => isAlphanumeric b || oneOf "-_." b

def validateNoControl (value : Str) : Bool := !value.any fun b => b == 0 || b == 13 || b == 10

def validateCheckTarget (check : HealthCheckConfig) : Bool :=
  validateIdentifier check.id && validateNoControl check.target &&
    if check.type = str "http" then
      startsWith check.target "http://" || startsWith check.target "https://"
    else if check.type = str "tcp" then trim check.target ≠ [] && containsText check.target ":"
    else check.type = str "process" && trim check.target ≠ []

def accepted (checks : List HealthCheckConfig) : List HealthCheckConfig :=
  (checks.take 256).filter fun check => healthCheckSupported check && validateCheckTarget check

/-- The table is a hash map: `before` is the order in which it is iterated. -/
def applyProtoConfig (before : Str → Str → Bool) (checks : List HealthCheckConfig) :
    OrderedMap Str CheckState :=
  (accepted checks).foldl
    (fun table check => table.insert before (checkKey check) ⟨check,none,false⟩) empty

def due (now : ℕ) (state : CheckState) : Bool :=
  !state.inFlight && state.lastRun.all fun last => checkInterval state.config ≤ now - last

def mark (now : ℕ) (state : CheckState) : CheckState :=
  if due now state then { state with lastRun := some now, inFlight := true } else state

def takeDueChecks (now : ℕ) (s : MonitoringState) : MonitoringState where
  applied := s.applied
  healthChecks := s.healthChecks.mapValues fun _ => mark now
  results := s.results
  runs := s.runs ++
    (s.healthChecks.entries.filter fun entry => due now entry.2).map fun entry =>
      ⟨s.applied,entry.2.config⟩

/-- The key of the first check with the id. -/
def found (table : OrderedMap Str CheckState) (id : Str) : Option Str :=
  (table.entries.find? fun entry => entry.2.config.id = id).map Prod.fst

def clear (table : OrderedMap Str CheckState) (id key : Str) (state : CheckState) : CheckState :=
  if found table id = some key then { state with inFlight := false } else state

def completeCheck (result : HealthCheckResult) (s : MonitoringState) : MonitoringState where
  applied := s.applied
  healthChecks := s.healthChecks.mapValues (clear s.healthChecks result.checkId)
  results := s.results.drop (if 4096 ≤ s.results.length then 1 else 0) ++ [result]
  runs := s.runs

inductive Op where
  | apply (before : Str → Str → Bool) (checks : List HealthCheckConfig)
  | pass (now : ℕ)
  | complete (run : Run) (status : Str)

def step (s : MonitoringState) : Op → MonitoringState
  | .apply before checks =>
    { s with applied := s.applied + 1, healthChecks := applyProtoConfig before checks }
  | .pass now => takeDueChecks now s
  | .complete run status =>
    if run ∈ s.runs then
      completeCheck ⟨run.check.id,status⟩ { s with runs := s.runs.erase run }
    else s

def start : MonitoringState := ⟨0,empty,[],[]⟩

/-- A configuration gives checks of different types different ids, and a run that outlives
its configuration ends while no check of its id is in flight. -/
def Allowed (s : MonitoringState) : Op → Prop
  | .apply _ checks =>
    ∀ a ∈ accepted checks, ∀ b ∈ accepted checks, a.id = b.id → a.type = b.type
  | .pass _ => True
  | .complete run _ => run.applied = s.applied ∨ ∀ key state,
    (key,state) ∈ s.healthChecks.entries → state.config.id = run.check.id → state.inFlight = false

def Run.key (run : Run) : ℕ × Str := (run.applied,checkKey run.check)

@[simp] theorem mark_config (now : ℕ) (state : CheckState) :
    (mark now state).config = state.config := by
  unfold mark
  split <;> rfl

@[simp] theorem mark_inFlight (now : ℕ) (state : CheckState) :
    (mark now state).inFlight = (state.inFlight || due now state) := by
  unfold mark
  split <;> simp_all

@[simp] theorem clear_config (table : OrderedMap Str CheckState) (id key : Str)
    (state : CheckState) : (clear table id key state).config = state.config := by
  unfold clear
  split <;> rfl

@[simp] theorem clear_inFlight (table : OrderedMap Str CheckState) (id key : Str)
    (state : CheckState) : (clear table id key state).inFlight =
      (state.inFlight && found table id ≠ some key) := by
  unfold clear
  split <;> simp_all

structure Keyed (table : OrderedMap Str CheckState) : Prop where
  key : ∀ {key state}, (key,state) ∈ table.entries → key = checkKey state.config
  single : ∀ {key state other state'}, (key,state) ∈ table.entries →
    (other,state') ∈ table.entries → state.config.id = state'.config.id → key = other

/-- A run of the present configuration belongs to a check that is in flight. -/
structure Served (s : MonitoringState) : Prop where
  keyed : Keyed s.healthChecks
  past : ∀ run ∈ s.runs, run.applied ≤ s.applied
  once : (s.runs.map Run.key).Nodup
  flying : ∀ run, run.applied = s.applied → (run ∈ s.runs ↔ ∃ state,
    (checkKey run.check,state) ∈ s.healthChecks.entries ∧ state.config = run.check ∧
      state.inFlight = true)

theorem Served.inFlight_iff {s : MonitoringState} (h : Served s) {key : Str} {state : CheckState}
    (hin : (key,state) ∈ s.healthChecks.entries) :
    state.inFlight = true ↔ (⟨s.applied,state.config⟩ : Run) ∈ s.runs := by
  have hkey := h.keyed.key hin
  subst hkey
  rw [h.flying _ rfl]
  constructor
  · exact fun hflying => ⟨state,hin,rfl,hflying⟩
  · rintro ⟨other,hother,-,hflying⟩
    rwa [eq_of_mem hin hother]

theorem Keyed.mapValues {table : OrderedMap Str CheckState} (h : Keyed table)
    {f : Str → CheckState → CheckState} (hf : ∀ key state, (f key state).config = state.config) :
    Keyed (table.mapValues f) := by
  constructor
  · intro key state hin
    obtain ⟨old,hold,rfl⟩ := mem_mapValues.1 hin
    rw [hf]
    exact h.key hold
  · intro key state other state' hin hin' hid
    obtain ⟨old,hold,rfl⟩ := mem_mapValues.1 hin
    obtain ⟨old',hold',rfl⟩ := mem_mapValues.1 hin'
    rw [hf, hf] at hid
    exact h.single hold hold' hid

theorem mem_applyProtoConfig {before : Str → Str → Bool} {checks : List HealthCheckConfig}
    {key : Str} {state : CheckState}
    (h : (key,state) ∈ (applyProtoConfig before checks).entries) :
    state.config ∈ accepted checks ∧ key = checkKey state.config ∧ state.inFlight = false := by
  rw [applyProtoConfig] at h
  generalize accepted checks = rest at h ⊢
  induction rest using reverseRecOn with
  | nil => cases h
  | append_singleton rest check ih =>
    rw [foldl_append] at h
    rcases mem_insert.1 h with ⟨rfl,rfl⟩ | ⟨-,hold⟩
    · exact ⟨by simp,rfl,rfl⟩
    · obtain ⟨hin,hkey,hidle⟩ := ih hold
      exact ⟨mem_append_left _ hin,hkey,hidle⟩

theorem Served.apply {s : MonitoringState} (h : Served s) {before : Str → Str → Bool}
    {checks : List HealthCheckConfig} (hallowed : Allowed s (.apply before checks)) :
    Served (step s (.apply before checks)) where
  keyed := by
    refine ⟨fun hin => (mem_applyProtoConfig hin).2.1,fun hin hin' hid => ?_⟩
    obtain ⟨hcheck,hkey,-⟩ := mem_applyProtoConfig hin
    obtain ⟨hcheck',hkey',-⟩ := mem_applyProtoConfig hin'
    rw [hkey, hkey', checkKey, checkKey, hallowed _ hcheck _ hcheck' hid, hid]
  past run hrun := (h.past run hrun).trans (Nat.le_succ _)
  once := h.once
  flying run happlied := by
    constructor
    · exact fun hrun => absurd (h.past run hrun) (happlied ▸ Nat.not_succ_le_self _)
    · rintro ⟨state,hin,-,hflying⟩
      rw [(mem_applyProtoConfig hin).2.2] at hflying
      cases hflying

theorem mem_started {s : MonitoringState} {now : ℕ} {run : Run} :
    run ∈ (takeDueChecks now s).runs ↔ run ∈ s.runs ∨ ∃ key state,
      (key,state) ∈ s.healthChecks.entries ∧ due now state = true ∧
        run = ⟨s.applied,state.config⟩ := by
  rw [takeDueChecks, mem_append, mem_map]
  refine or_congr_right ⟨?_,?_⟩
  · rintro ⟨⟨key,state⟩,hin,rfl⟩
    obtain ⟨hstate,hdue⟩ := mem_filter.1 hin
    exact ⟨key,state,hstate,hdue,rfl⟩
  · rintro ⟨key,state,hstate,hdue,rfl⟩
    exact ⟨(key,state),mem_filter.2 ⟨hstate,hdue⟩,rfl⟩

theorem Served.pass {s : MonitoringState} (h : Served s) (now : ℕ) :
    Served (takeDueChecks now s) where
  keyed := h.keyed.mapValues fun _ => mark_config now
  past run hrun := by
    rcases mem_started.1 hrun with hold | ⟨_,_,_,_,rfl⟩
    · exact h.past run hold
    · exact le_refl _
  once := by
    rw [takeDueChecks, map_append, map_map, nodup_append]
    refine ⟨h.once,((s.healthChecks.unique.of_map _).filter _).map_on ?_,?_⟩
    · rintro ⟨key,state⟩ hin ⟨other,state'⟩ hin' heq
      have hstate := mem_of_mem_filter hin
      have hstate' := mem_of_mem_filter hin'
      obtain rfl : key = other :=
        (h.keyed.key hstate).trans ((Prod.mk.inj heq).2.trans (h.keyed.key hstate').symm)
      rw [eq_of_mem hstate hstate']
    · -- a check with a run is in flight, so none is started beside it
      rintro _ hold _ hnew rfl
      obtain ⟨run,hrun,heq⟩ := mem_map.1 hold
      obtain ⟨⟨key,state⟩,hin,rfl⟩ := mem_map.1 hnew
      obtain ⟨hstate,hdue⟩ := mem_filter.1 hin
      obtain ⟨happlied,hkey⟩ := Prod.mk.inj heq
      obtain ⟨old,hold,-,hflying⟩ := (h.flying run happlied).1 hrun
      rw [hkey, ← h.keyed.key hstate] at hold
      cases eq_of_mem hold hstate
      simp [due, hflying] at hdue
  flying run happlied := by
    rw [mem_started, h.flying run happlied]
    constructor
    · rintro (⟨state,hin,hconfig,hflying⟩ | ⟨key,state,hin,hdue,rfl⟩)
      · exact ⟨_,mem_mapValues.2 ⟨state,hin,rfl⟩,by simpa using hconfig,by simp [hflying]⟩
      · exact ⟨_,mem_mapValues.2 ⟨state,h.keyed.key hin ▸ hin,rfl⟩,by simp,by simp [hdue]⟩
    · rintro ⟨_,hin,hconfig,hflying⟩
      obtain ⟨old,hold,rfl⟩ := mem_mapValues.1 hin
      rw [mark_config] at hconfig
      rw [mark_inFlight, Bool.or_eq_true] at hflying
      rcases hflying with hflying | hdue
      · exact .inl ⟨old,hold,hconfig,hflying⟩
      · exact .inr ⟨_,old,hold,hdue,by rw [hconfig]; exact congrArg (Run.mk · _) happlied⟩

/-- Where ids are not shared, the end of a run finds the check with its id. -/
theorem Keyed.found_iff {table : OrderedMap Str CheckState} (h : Keyed table) {key id : Str}
    {state : CheckState} (hin : (key,state) ∈ table.entries) :
    found table id = some key ↔ state.config.id = id := by
  rw [found, Option.map_eq_some_iff]
  constructor
  · rintro ⟨⟨_,other⟩,hfind,rfl⟩
    rw [eq_of_mem hin (mem_of_find?_eq_some hfind)]
    simpa using find?_some hfind
  · rintro rfl
    have hsome : (table.entries.find? fun entry => entry.2.config.id = state.config.id).isSome :=
      find?_isSome.2 ⟨(key,state),hin,by simp⟩
    obtain ⟨entry,hfind⟩ := Option.isSome_iff_exists.1 hsome
    refine ⟨entry,hfind,h.single (mem_of_find?_eq_some hfind) hin ?_⟩
    simpa using find?_some hfind

theorem Served.complete {s : MonitoringState} (h : Served s) {run : Run} (hrun : run ∈ s.runs)
    {status : Str} (hallowed : Allowed s (.complete run status)) :
    Served (completeCheck ⟨run.check.id,status⟩ { s with runs := s.runs.erase run }) where
  keyed := h.keyed.mapValues (clear_config _ _)
  past other hother := h.past other (mem_of_mem_erase hother)
  once := h.once.sublist (erase_sublist.map _)
  flying other happlied := by
    change other ∈ s.runs.erase run ↔ _
    rw [(h.once.of_map _).mem_erase_iff, h.flying other happlied]
    -- of the checks in flight only that of the run has its id
    have hid : ∀ state, (checkKey other.check,state) ∈ s.healthChecks.entries →
        state.config = other.check → state.inFlight = true →
        (other = run ↔ found s.healthChecks run.check.id = some (checkKey other.check)) := by
      intro state hin hconfig hflying
      rw [h.keyed.found_iff hin, hconfig]
      refine ⟨fun hsame => by rw [hsame],fun hid => ?_⟩
      rcases hallowed with hcurrent | hidle
      · obtain ⟨state',hin',hconfig',-⟩ := (h.flying run hcurrent).1 hrun
        have hkey := h.keyed.single hin hin' (by rw [hconfig, hid, hconfig'])
        rw [hkey] at hin
        rw [eq_of_mem hin hin', hconfig'] at hconfig
        exact congrArg₂ Run.mk (happlied.trans hcurrent.symm) hconfig.symm
      · rw [hidle _ state hin (hconfig ▸ hid)] at hflying
        cases hflying
    constructor
    · rintro ⟨hne,state,hin,hconfig,hflying⟩
      rw [Ne, hid state hin hconfig hflying] at hne
      exact ⟨_,mem_mapValues.2 ⟨state,hin,rfl⟩,by simpa using hconfig,by simp [hflying, hne]⟩
    · rintro ⟨_,hin,hconfig,hflying⟩
      obtain ⟨state,hold,rfl⟩ := mem_mapValues.1 hin
      rw [clear_config] at hconfig
      rw [clear_inFlight, Bool.and_eq_true, decide_eq_true_eq] at hflying
      refine ⟨?_,state,hold,hconfig,hflying.1⟩
      rw [Ne, hid state hold hconfig hflying.1]
      exact hflying.2

theorem Served.step {s : MonitoringState} (h : Served s) {op : Op} (hallowed : Allowed s op) :
    Served (step s op) := by
  cases op with
  | apply before checks => exact h.apply hallowed
  | pass now => exact h.pass now
  | complete run status =>
    rw [HealthChecks.step]
    split_ifs with hrun
    · exact h.complete hrun hallowed
    · exact h

/-- While ids are not shared and no run ends on another run of its id, no check has two runs
under one configuration, a check in flight has a run that has not ended, and a check without
one is due when its interval has passed. -/
theorem checks_never_starved (ops : List Op)
    (h : ∀ before op, before ++ [op] <+: ops → Allowed (run step start before) op) :
    ((run step start ops).runs.map Run.key).Nodup ∧
      ∀ key state, (key,state) ∈ (run step start ops).healthChecks.entries →
        (state.inFlight = true →
          (⟨(run step start ops).applied,state.config⟩ : Run) ∈ (run step start ops).runs) ∧
        ((⟨(run step start ops).applied,state.config⟩ : Run) ∉ (run step start ops).runs →
          ∀ now, (∀ last ∈ state.lastRun, checkInterval state.config ≤ now - last) →
            due now state = true) := by
  have hserved : Served (run step start ops) := by
    refine run_invariant_along Allowed Served ?_ (fun _ _ hs ha => hs.step ha) ops h
    exact ⟨⟨nofun,nofun⟩,nofun,nodup_nil,fun _ _ => ⟨nofun,nofun⟩⟩
  refine ⟨hserved.once,fun key state hin =>
    ⟨(hserved.inFlight_iff hin).1,fun hnone now hlast => ?_⟩⟩
  have hidle : state.inFlight = false := by
    rw [← Bool.not_eq_true, hserved.inFlight_iff hin]
    exact hnone
  rw [due, hidle]
  simpa [Option.all_eq_true] using hlast

def sampleCheck (type target : String) : HealthCheckConfig :=
  ⟨str "web",str type,str target,30⟩

def sampleRun (applied : ℕ) : Run := ⟨applied,sampleCheck "http" "http://web/"⟩

/-- A check that is reconfigured and started again after its first run ended. -/
theorem reconfigured_check_served :
    ((run step start [.apply (fun _ _ => false) [(sampleRun 1).check], .pass 0,
      .complete (sampleRun 1) [], .apply (fun _ _ => false) [(sampleRun 1).check],
      .pass 40]).runs.map Run.key).Nodup := by
  refine (checks_never_starved _ (along_of_take Allowed fun i hi => ?_)).1
  match i, hi with
  | 0, _ | 3, _ =>
    intro a ha b hb _
    cases mem_singleton.1 (mem_of_mem_take (mem_of_mem_filter ha))
    cases mem_singleton.1 (mem_of_mem_take (mem_of_mem_filter hb))
    rfl
  | 1, _ | 4, _ => trivial
  | 2, _ => exact .inl (by decide +kernel)

/-- Of two checks with one id the wrong one is cleared: the one that ended stays in flight. -/
theorem shared_id_starves :
    let ops :=
      [.apply (fun _ _ => true) [sampleCheck "http" "http://web/", sampleCheck "tcp" "web:80"],
      .pass 0, .complete (sampleRun 1) []]
    (run step start ops).healthChecks.entries.any fun entry =>
      entry.2.inFlight && !(run step start ops).runs.contains ⟨1,entry.2.config⟩ := by
  decide +kernel

end Permanu.HealthChecks
