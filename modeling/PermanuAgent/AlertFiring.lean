import PermanuAgent.AlertEpisodes
import Mathlib

/-!
# When a rule fires

The evaluations of one metric or log rule are numbered; between two of them anything
may happen that leaves the rule's runtime alone. The streaks and the pending time of
the runtime are read off the earlier results, and from them follows at which results
an episode opens and at which it ends.
-/

set_option autoImplicit false

namespace Permanu.AlertEvaluator
open ByteText AlertRecords World

variable {ν : Type}

inductive Phase where
  | idle
  | waiting (since : ℤ)
  | firing (falses : ℕ)

/-- What a result makes of a rule that has missed `nones` results in a row. -/
def Phase.next (d now : ℤ) (nones : ℕ) : Option Bool → Phase → Phase
  | some true, .idle => if d = 0 then .firing 0 else .waiting now
  | some true, .waiting since => if d ≤ now - since then .firing 0 else .waiting since
  | some true, .firing _ => .firing 0
  | _, .firing falses => if 1 ≤ falses then .idle else .firing (falses + 1)
  | some false, _ => .idle
  | none, phase => if 2 ≤ nones then .idle else phase

def Shows (r : Runtime ν) : Phase → Prop
  | .idle => r.state ≠ .firing ∧ r.state ≠ .pending ∧ r.episode = none
  | .waiting since => r.state = .pending ∧ r.pendingSince = some since ∧ r.episode = none
  | .firing falses => r.state = .firing ∧ r.falseStreak = falses ∧ r.episode ≠ none

variable {phase : Phase}

section
variable (env : Env ν) (w : World ν) (rule : RuleDef ν) (now : ℤ)

theorem setRuntime_self {r : Runtime ν} :
    (w.setRuntime rule.rule.id r).state.runtime rule.rule.id = r := Function.update_self ..

theorem repeatOrRelease_runtime : ∃ held notified,
    (repeatOrRelease w rule now).state.runtime rule.rule.id =
      { w.state.runtime rule.rule.id with held := held, lastNotified := notified } := by
  unfold repeatOrRelease
  dsimp only
  split_ifs
  · exact ⟨_,_,rfl⟩
  · split
    · exact ⟨false,now,by rw [(notify_alike _ _ _ _).runtime, setRuntime_self]⟩
    · exact ⟨false,now,setRuntime_self _ _⟩
  · exact ⟨_,_,rfl⟩

/-- The runtime `r'` after a verdict. -/
structure Outcome (next : Runtime ν × Verdict) (r' : Runtime ν) : Prop where
  nones : r'.noDataStreak = next.1.noDataStreak
  stay : next.2 = .stay → r'.state = next.1.state ∧ r'.pendingSince = next.1.pendingSince ∧
    r'.falseStreak = next.1.falseStreak ∧ r'.episode = next.1.episode
  fire : next.2 = .fire → r'.state = .firing ∧ r'.episode ≠ none ∧ r'.falseStreak = 0
  resolve : next.2 = .resolve → r'.state ≠ .firing ∧ r'.state ≠ .pending ∧ r'.episode = none

theorem Outcome.shows {r r' : Runtime ν} {holds : Option Bool} {v : ν} {d : ℤ}
    (hr : Shows r phase) (h : Outcome (r.evaluated holds v now d) r') :
    Shows r' (phase.next d now r.noDataStreak holds) ∧
      r'.noDataStreak = if holds = none then r.noDataStreak + 1 else 0 := by
  obtain ⟨nones,stay,fire,resolve⟩ := h
  rcases holds with _ | _ | _
  · simp only [Runtime.evaluated, Runtime.withoutData, resolveAfterFalse, noDataAfter]
      at nones stay fire resolve
    cases phase <;> grind [Phase.next, Shows]
  · simp only [Runtime.evaluated, Runtime.failing, resolveAfterFalse] at nones stay fire resolve
    cases phase <;> grind [Phase.next, Shows]
  · simp only [Runtime.evaluated, Runtime.holding] at nones stay fire resolve
    cases phase <;> grind [Phase.next, Shows]

theorem stepRule_outcome (holds : Option Bool) (value : ν) (d : ℤ) :
    Outcome ((w.state.runtime rule.rule.id).evaluated holds value now d)
      ((stepRule env w rule holds value now d).state.runtime rule.rule.id) := by
  unfold stepRule
  dsimp only
  generalize (w.state.runtime rule.rule.id).evaluated holds value now d = next
  obtain ⟨r,verdict⟩ := next
  cases verdict with
  | stay =>
    dsimp only
    rw [setRuntime_self]
    exact ⟨rfl,fun _ => ⟨rfl,rfl,rfl,rfl⟩,by simp,by simp⟩
  | fire =>
    dsimp only
    rw [openRuleEpisode_alike.runtime, fire]
    simp only [store, setRuntime_self]
    exact ⟨rfl,by simp,fun _ => ⟨rfl,by simp [Runtime.fired],rfl⟩,by simp⟩
  | resolve =>
    dsimp only
    unfold resolveRuleEpisode
    split
    · rw [lapse, setRuntime_self, setRuntime_self]
      exact ⟨rfl,by simp,by simp,fun _ => by simp [Runtime.resolvedNow]⟩
    · rw [settle, setRuntime_self, (tellResolved_alike _ _ _ _).runtime]
      simp only [store, lapse, setRuntime_self]
      exact ⟨rfl,by simp,by simp,fun _ => by simp [Runtime.resolvedNow]⟩

theorem evaluateRule_shows {source : AlertSource ν} {read : Option Bool × ν × ℤ}
    (henabled : rule.rule.enabled = true) (hread : reading env source rule now = some read)
    (hphase : Shows (w.state.runtime rule.rule.id) phase) :
    Shows ((evaluateRule env source now w rule).state.runtime rule.rule.id)
        (phase.next read.2.2 now (w.state.runtime rule.rule.id).noDataStreak read.1) ∧
      ((evaluateRule env source now w rule).state.runtime rule.rule.id).noDataStreak =
        if read.1 = none then (w.state.runtime rule.rule.id).noDataStreak + 1 else 0 := by
  have h := stepRule_outcome env w rule now read.1 read.2.1 read.2.2
  simp only [evaluateRule, henabled, hread, Bool.not_true, Bool.false_eq_true, if_false]
  obtain ⟨held,notified,heq⟩ :=
    repeatOrRelease_runtime (stepRule env w rule read.1 read.2.1 now read.2.2) rule now
  rw [heq]
  exact Outcome.shows now hphase ⟨h.nones,h.stay,h.fire,h.resolve⟩

end

section
variable (d : ℤ) (time : ℕ → ℤ) (result : ℕ → Option Bool) (runtime : ℕ → Runtime ν)

/-- Between two evaluations no result is false, none three times in a row missing, and no
episode is open. -/
structure Unbroken (s k : ℕ) : Prop where
  notFalse : ∀ j, s < j → j < k → result j ≠ some false
  data : ∀ j, s < j → j + 2 < k →
    ¬ (result j = none ∧ result (j + 1) = none ∧ result (j + 2) = none)
  idle : ∀ j, s < j → j ≤ k → (runtime j).episode = none

/-- The result was true at a time up to `t`, with nothing since that broke it. -/
def HeldFrom (t : ℤ) (k : ℕ) : Prop :=
  ∃ s < k, result s = some true ∧ time s ≤ t ∧ Unbroken result runtime s k

/-- Episodes open and end as the rule says; `runtime k` is what evaluation `k` finds. -/
structure AsConfigured : Prop where
  opens : ∀ k, (runtime k).episode = none ∧ (runtime (k + 1)).episode ≠ none ↔
    (runtime k).episode = none ∧ result k = some true ∧
      (d = 0 ∨ HeldFrom time result runtime (time k - d) k)
  resolves : ∀ k, (runtime k).episode ≠ none ∧ (runtime (k + 1)).episode = none ↔
    (runtime k).episode ≠ none ∧ result k ≠ some true ∧ ∃ j, k = j + 1 ∧ result j ≠ some true
  firing : ∀ k, (runtime k).state = .firing ↔ (runtime k).episode ≠ none

/-- What the phase before evaluation `k` says about the results so far. -/
def Traced (k : ℕ) : Phase → Prop
  | .idle => d ≠ 0 → ∀ t, ¬ HeldFrom time result runtime t k
  | .waiting since => d ≠ 0 ∧ ∀ t, HeldFrom time result runtime t k ↔ since ≤ t
  | .firing falses => falses ≤ 1 ∧ (1 ≤ falses ↔ ∃ j, k = j + 1 ∧ result j ≠ some true)

structure Missed (k : ℕ) : Prop where
  once : 1 ≤ (runtime k).noDataStreak ↔ ∃ j, k = j + 1 ∧ result j = none
  twice : 2 ≤ (runtime k).noDataStreak ↔
    ∃ j, k = j + 2 ∧ result j = none ∧ result (j + 1) = none

variable {d time result runtime} {k : ℕ}

theorem unbroken_succ {s : ℕ} (hs : s < k) : Unbroken result runtime s (k + 1) ↔
    Unbroken result runtime s k ∧ result k ≠ some false ∧ (runtime (k + 1)).episode = none ∧
      ∀ j, s < j → j + 2 = k → ¬ (result j = none ∧ result (j + 1) = none ∧ result k = none) := by
  constructor
  · rintro ⟨notFalse,data,idle⟩
    refine ⟨⟨fun j hj hk => notFalse j hj (by omega),fun j hj hk => data j hj (by omega),
      fun j hj hk => idle j hj (by omega)⟩,notFalse k hs (by omega),idle _ (by omega) le_rfl,?_⟩
    rintro j hj rfl
    exact data j hj (by omega)
  · rintro ⟨⟨notFalse,data,idle⟩,hresult,hepisode,hdata⟩
    refine ⟨fun j hj hk => ?_,fun j hj hk => ?_,fun j hj hk => ?_⟩
    · rcases Nat.lt_succ_iff_lt_or_eq.1 hk with hlt | rfl
      exacts [notFalse j hj hlt, hresult]
    · rcases Nat.lt_succ_iff_lt_or_eq.1 hk with hlt | rfl
      exacts [data j hj hlt, hdata j hj rfl]
    · rcases Nat.le_succ_iff.1 hk with hle | rfl
      exacts [idle j hj hle, hepisode]

theorem Missed.heldFrom_succ (h : Missed result runtime k) (t : ℤ) :
    HeldFrom time result runtime t (k + 1) ↔ (runtime (k + 1)).episode = none ∧
      (result k = some true ∧ time k ≤ t ∨ HeldFrom time result runtime t k ∧
        result k ≠ some false ∧ (result k = none → ¬ 2 ≤ (runtime k).noDataStreak)) := by
  constructor
  · rintro ⟨s,hs,htrue,ht,hun⟩
    refine ⟨hun.idle _ hs le_rfl,?_⟩
    rcases Nat.lt_succ_iff_lt_or_eq.1 hs with hlt | rfl
    · obtain ⟨hbefore,hresult,-,hdata⟩ := (unbroken_succ hlt).1 hun
      refine .inr ⟨⟨s,hlt,htrue,ht,hbefore⟩,hresult,fun hnone htwo => ?_⟩
      obtain ⟨j,rfl,hfirst,hsecond⟩ := h.twice.1 htwo
      -- the true result is not one of the two missing ones
      have hne : s ≠ j ∧ s ≠ j + 1 := ⟨fun heq => by simp_all,fun heq => by simp_all⟩
      exact hdata j (by omega) rfl ⟨hfirst,hsecond,hnone⟩
    · exact .inl ⟨htrue,ht⟩
  · rintro ⟨hepisode,⟨htrue,ht⟩ | ⟨⟨s,hs,htrue,ht,hun⟩,hresult,hnones⟩⟩
    · exact ⟨k,by omega,htrue,ht,fun j hj hk => by omega,fun j hj hk => by omega,
        fun j hj hk => (by omega : j = k + 1) ▸ hepisode⟩
    · refine ⟨s,by omega,htrue,ht,
        (unbroken_succ hs).2 ⟨hun,hresult,hepisode,fun j hj hk hall => ?_⟩⟩
      exact hnones hall.2.2 (h.twice.2 ⟨j,hk.symm,hall.1,hall.2.1⟩)

theorem Missed.next (h : Missed result runtime k) (hnones : (runtime (k + 1)).noDataStreak =
      if result k = none then (runtime k).noDataStreak + 1 else 0) :
    Missed result runtime (k + 1) := by
  obtain ⟨once,twice⟩ := h
  constructor <;> grind

/-- What held does not start after the present. -/
theorem HeldFrom.le {since : ℤ} (hmono : Monotone time)
    (h : ∀ t, HeldFrom time result runtime t k ↔ since ≤ t) : since ≤ time k := by
  obtain ⟨s,hs,htrue,-,hun⟩ := (h since).2 le_rfl
  exact ((h (time s)).1 ⟨s,hs,htrue,le_rfl,hun⟩).trans (hmono hs.le)

theorem HeldFrom.unopened {t : ℤ} (h : HeldFrom time result runtime t k) :
    (runtime k).episode = none := by
  obtain ⟨s,hs,-,-,hun⟩ := h
  exact hun.idle k hs le_rfl

theorem Traced.next (h : Traced d time result runtime k phase)
    (hphase : Shows (runtime k) phase)
    (hnext : Shows (runtime (k + 1)) (phase.next d (time k) (runtime k).noDataStreak (result k)))
    (hmissed : Missed result runtime k) (hmono : Monotone time) :
    Traced d time result runtime (k + 1)
      (phase.next d (time k) (runtime k).noDataStreak (result k)) := by
  have hheld : ∀ t, HeldFrom time result runtime t (k + 1) ↔ _ := hmissed.heldFrom_succ
  have hlast : (∃ j, k + 1 = j + 1 ∧ result j ≠ some true) ↔ result k ≠ some true := by simp
  have hopen : ∀ t, HeldFrom time result runtime t k → (runtime k).episode = none :=
    fun t ht => ht.unopened
  cases phase with
  | idle | firing falses =>
    rcases hresult : result k with _ | _ | _ <;> grind [Traced, Shows, Phase.next]
  | waiting since =>
    have hle := HeldFrom.le hmono h.2
    rcases hresult : result k with _ | _ | _ <;> grind [Traced, Shows, Phase.next]

/-- Runtimes that go from phase to phase are as the rule is configured. -/
theorem asConfigured_of_shows (hmono : Monotone time) (hstart : runtime 0 = .initial)
    (hnext : ∀ k phase, Shows (runtime k) phase →
      Shows (runtime (k + 1)) (phase.next d (time k) (runtime k).noDataStreak (result k)) ∧
        (runtime (k + 1)).noDataStreak =
          if result k = none then (runtime k).noDataStreak + 1 else 0) :
    AsConfigured d time result runtime := by
  have hrun : ∀ k, Missed result runtime k ∧
      ∃ phase, Shows (runtime k) phase ∧ Traced d time result runtime k phase := by
    intro k
    induction k with
    | zero =>
      refine ⟨⟨by simp [hstart, Runtime.initial],by simp [hstart, Runtime.initial]⟩,.idle,?_,?_⟩
      · simp [Shows, hstart, Runtime.initial]
      · rintro - t ⟨s,hs,-⟩
        omega
    | succ k ih =>
      obtain ⟨hmissed,phase,hphase,htraced⟩ := ih
      obtain ⟨hshows,hnones⟩ := hnext k phase hphase
      exact ⟨hmissed.next hnones,_,hshows,htraced.next hphase hshows hmissed hmono⟩
  constructor <;> intro k <;> obtain ⟨-,phase,hphase,htraced⟩ := hrun k
  · have hshows := (hnext k phase hphase).1
    have hheld : ∀ t, HeldFrom time result runtime t k → (runtime k).episode = none :=
      fun t ht => ht.unopened
    cases phase <;> rcases hresult : result k with _ | _ | _ <;> grind [Traced, Shows, Phase.next]
  · have hshows := (hnext k phase hphase).1
    cases phase <;> rcases hresult : result k with _ | _ | _ <;> grind [Traced, Shows, Phase.next]
  · cases phase <;> grind [Shows]

end

/-- Only a metric rule can wait. -/
def RuleDef.forDuration (rule : RuleDef ν) : ℤ :=
  match rule.rule.condition with
  | .metric condition => condition.forDuration.getD 0
  | _ => 0

def resultAt (env : Env ν) (rule : RuleDef ν) (source : AlertSource ν) (now : ℤ) : Option Bool :=
  (reading env source rule now).bind Prod.fst

theorem reading_some {env : Env ν} {rule : RuleDef ν}
    (hcondition : ∀ c, rule.rule.condition ≠ .event c) {source : AlertSource ν} {now : ℤ} : ∃ value,
      reading env source rule now = some (resultAt env rule source now,value,rule.forDuration) := by
  unfold resultAt reading RuleDef.forDuration
  cases hrule : rule.rule.condition with
  | metric condition | log condition => exact ⟨_,rfl⟩
  | event condition => exact absurd hrule (hcondition condition)

/-- An enabled metric or log rule that keeps its definition fires and resolves as configured:
`world k` is what its evaluation `k` finds, and between two evaluations its runtime stays. -/
theorem fires_as_configured (env : Env ν) (rule : RuleDef ν) (henabled : rule.rule.enabled = true)
    (hcondition : ∀ c, rule.rule.condition ≠ .event c) (source : ℕ → AlertSource ν) (time : ℕ → ℤ)
    (hmono : Monotone time) (world : ℕ → World ν)
    (hstart : (world 0).state.runtime rule.rule.id = .initial)
    (hstep : ∀ k, (world (k + 1)).state.runtime rule.rule.id =
      (evaluateRule env (source k) (time k) (world k) rule).state.runtime rule.rule.id) :
    AsConfigured rule.forDuration time (fun k => resultAt env rule (source k) (time k))
      fun k => (world k).state.runtime rule.rule.id := by
  refine asConfigured_of_shows hmono hstart fun k phase hphase => ?_
  obtain ⟨value,hread⟩ := reading_some hcondition
  rw [hstep k]
  exact evaluateRule_shows env (world k) rule (time k) henabled hread hphase

def memoryRule : RuleDef (Option ℤ) := ⟨{ sampleSpec with id := str "rule-1", name := [] },none⟩

/-- Memory is above ninety at every third evaluation only. -/
def memoryAt (k : ℕ) : AlertSource (Option ℤ) := reports (if k % 3 = 0 then 97 else 40)

def memoryWorld : ℕ → World (Option ℤ)
  | 0 => start
  | k + 1 => evaluateRule sampleEnv (memoryAt k) (30 * k) (memoryWorld k) memoryRule

theorem fires_every_third :
    ((memoryWorld 1).state.runtime memoryRule.rule.id).state = .firing ∧
    AsConfigured memoryRule.forDuration (fun k => 30 * k)
      (fun k => resultAt sampleEnv memoryRule (memoryAt k) (30 * k))
      fun k => (memoryWorld k).state.runtime memoryRule.rule.id := by
  have hmono : Monotone fun k : ℕ => (30 * k : ℤ) := fun i j h => by simpa using h
  exact ⟨by decide +kernel,fires_as_configured sampleEnv memoryRule rfl (fun _ h => nomatch h)
    memoryAt _ hmono memoryWorld rfl fun _ => rfl⟩

end Permanu.AlertEvaluator
