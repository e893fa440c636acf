import PermanuAgent.AlertEpisodes

/-!
# The end of a built-in alert

An event that opens an alert of its own is kept under its source, subject and kind.
Its counterpart ends one alert of the source and subject: that of its own kind if it
is open, else some other one. So a subject with alerts of two kinds keeps one open.
-/

set_option autoImplicit false

namespace Permanu.AlertEvaluator
open ByteText AdmissionDefinitions List OrderedMap OpsStore AlertRecords

variable {ν : Type} {env : Env ν}

def afterEvents (env : Env ν) (actions : List AdmittedAction)
    (calls : List (BuiltinEvent × ℤ × ℕ)) : World ν :=
  StepRuns.run (fun w call => builtin env w call.1 call.2.1 call.2.2)
    { start with actions := actions } calls

/-- The record of the event's own alert fits when it opens and when it ends. -/
def Small (env : Env ν) (event : BuiltinEvent) : Prop :=
  ∀ now draw, let alert := standaloneEvent env event (env.redacted event.summary) now draw
    env.len alert ≤ maxRecordBytes ∧ ∀ t, env.len (alert.resolvedBy t) ≤ maxRecordBytes

/-- The counterpart closes every alert of its subject, and nothing else changes. -/
structure Recovered (w w' : World ν) (event : BuiltinEvent) (now : ℤ) : Prop where
  closed : openOf w'.state.builtin event = []
  resolved : ∀ key ∈ openOf w.state.builtin event, ∃ id alert,
    w.state.builtin.get? key = some id ∧ loadEvent w.ops id = some alert ∧
      alert.state = .firing ∧ loadEvent w'.ops id = some (alert.resolvedBy now)
  keys : ∀ key ∉ openOf w.state.builtin event,
    w'.state.builtin.get? key = w.state.builtin.get? key
  others : ∀ id, (∀ key ∈ openOf w.state.builtin event, w.state.builtin.get? key ≠ some id) →
    loadEvent w'.ops id = loadEvent w.ops id

def core (w : World ν) : Store (AlertEvent ν) × OrderedMap BuiltinKey Str × ℕ :=
  (w.ops,w.state.builtin,w.draws)

theorem notify_core (w : World ν) (event : AlertEvent ν) (channelIds : List Str) (now : ℤ) :
    core (notify w event channelIds now) = core w := by
  have h := notify_alike w event channelIds now
  rw [core, h.ops, h.builtin, h.draws, core]

variable {event : BuiltinEvent} {key : BuiltinKey} {map : OrderedMap BuiltinKey Str} {choice : ℕ}

def coreAfter (env : Env ν) (w : World ν) (event : BuiltinEvent) (now : ℤ) (choice : ℕ) :
    Store (AlertEvent ν) × OrderedMap BuiltinKey Str × ℕ :=
  if event.occurred then
    if (w.state.builtin.get? event.key).isSome then core w
    else
      let alert := standaloneEvent env event (env.redacted event.summary) now w.draws
      (storeEvent env.len now w.ops alert,
        w.state.builtin.insert (fun _ _ => false) event.key alert.id,w.draws + 1)
  else
    match resolvedKey w.state.builtin event choice with
    | none => core w
    | some key =>
      (match (w.state.builtin.get? key).bind (loadEvent w.ops) with
        | none => w.ops
        | some found => storeEvent env.len now w.ops (found.resolvedBy now),
        w.state.builtin.erase key,w.draws)

theorem standalone_core {w : World ν} {matching : List (RuleDef ν)} {now : ℤ} :
    core (standalone env w event matching (env.redacted event.summary) now choice) =
      coreAfter env w event now choice := by
  unfold standalone coreAfter
  split_ifs
  · rfl
  · exact notify_core ..
  · cases resolvedKey w.state.builtin event choice with
    | none => rfl
    | some key =>
      dsimp only
      cases (w.state.builtin.get? key).bind (loadEvent w.ops) with
      | none => rfl
      | some found => exact notify_core ..

theorem builtin_core (env : Env ν) (w : World ν) (h : event.standalone = true) (now : ℤ)
    (choice : ℕ) :
    core (builtin env w event now choice) = coreAfter env w event now choice := by
  simp only [builtin, h, if_true]
  exact standalone_core

theorem mem_openOf : key ∈ openOf map event ↔ (∃ id, map.get? key = some id) ∧
    key.source = event.source ∧ key.subjectId = event.subjectId := by
  simp [openOf, OrderedMap.mem_keys, get?_eq_some]

theorem openOf_erase : openOf (map.erase key) event = (openOf map event).filter (· ≠ key) := by
  simp only [openOf, OrderedMap.keys, erase, filter_map, filter_filter]
  congr 2
  funext entry
  exact Bool.and_comm _ _

theorem resolvedKey_cases (choice : ℕ) :
    (resolvedKey map event choice = none ∧ openOf map event = []) ∨
      ∃ key ∈ openOf map event, resolvedKey map event choice = some key := by
  unfold resolvedKey
  split_ifs with hown
  · exact .inr ⟨_,mem_openOf.2 ⟨Option.isSome_iff_exists.1 hown,rfl,rfl⟩,rfl⟩
  · rcases Nat.eq_zero_or_pos (openOf map event).length with hnone | hsome
    · rw [length_eq_zero_iff] at hnone
      exact .inl ⟨by simp [hnone],hnone⟩
    · have hlt := Nat.mod_lt choice hsome
      exact .inr ⟨_,getElem_mem hlt,getElem?_eq_getElem hlt⟩

structure Tracked (env : Env ν) (w : World ν) : Prop where
  found : ∀ key id, w.state.builtin.get? key = some id → Drawn env w id ∧
    ∃ alert, loadEvent w.ops id = some alert ∧ alert.id = id ∧ alert.state = .firing ∧
      ∀ t, env.len (alert.resolvedBy t) ≤ maxRecordBytes
  apart : ∀ key other id, w.state.builtin.get? key = some id →
    w.state.builtin.get? other = some id → key = other

variable {w w' : World ν} {now : ℤ}

theorem Tracked.keep (h : Tracked env w) (hdrawn : w.draws ≤ w'.draws)
    (hkept : ∀ key id, w'.state.builtin.get? key = some id →
      w.state.builtin.get? key = some id ∧ loadEvent w'.ops id = loadEvent w.ops id) :
    Tracked env w' := by
  refine ⟨fun key id hkey => ?_,fun key other id hkey hother =>
    h.apart key other id (hkept key id hkey).1 (hkept other id hother).1⟩
  obtain ⟨hold,hload⟩ := hkept key id hkey
  rw [hload]
  exact ⟨(h.found key id hold).1.mono hdrawn,(h.found key id hold).2⟩

/-- What a counterpart does to the alerts of its subject. -/
theorem Tracked.counterpart (h : Tracked env w) (hkind : event.standalone = true)
    (hover : event.occurred = false)
    (hw' : w' = builtin env w event now choice) :
    (core w' = core w ∧ openOf w.state.builtin event = []) ∨
      ∃ key ∈ openOf w.state.builtin event, ∃ id alert, w.state.builtin.get? key = some id ∧
        loadEvent w.ops id = some alert ∧ alert.state = .firing ∧
        w'.state.builtin = w.state.builtin.erase key ∧ w'.draws = w.draws ∧
        ∀ other, loadEvent w'.ops other =
          if other = id then some (alert.resolvedBy now) else loadEvent w.ops other := by
  have hcore := builtin_core env w hkind now choice
  rw [← hw', coreAfter, hover] at hcore
  rcases resolvedKey_cases choice with ⟨hnone,hempty⟩ | ⟨key,hkey,hsome⟩
  · exact .inl ⟨by simpa [hnone] using hcore,hempty⟩
  · obtain ⟨⟨id,hid⟩,-⟩ := mem_openOf.1 hkey
    obtain ⟨-,alert,hload,rfl,hfiring,hfits⟩ := h.found key id hid
    simp only [hsome, hid, Option.bind_some, hload, core, Prod.mk.injEq, Bool.false_eq_true,
      if_false] at hcore
    refine .inr ⟨key,hkey,_,alert,hid,hload,hfiring,hcore.2.1,hcore.2.2,fun other => ?_⟩
    rw [hcore.1, storeEvent, loadEvent_putEvent (hfits now)]
    rfl

theorem Tracked.occurs (hdraws : DrawsOnce env) (h : Tracked env w) (hsmall : Small env event)
    (hw' : core w' = (storeEvent env.len now w.ops
        (standaloneEvent env event (env.redacted event.summary) now w.draws),
      w.state.builtin.insert (fun _ _ => false) event.key (env.newId now w.draws),w.draws + 1)) :
    Tracked env w' := by
  obtain ⟨hfits,hlater⟩ := hsmall now w.draws
  simp only [core, Prod.mk.injEq] at hw'
  obtain ⟨hops,hmap,hdrawn⟩ := hw'
  have hload : ∀ id, loadEvent w'.ops id = if id = env.newId now w.draws then
      some (standaloneEvent env event (env.redacted event.summary) now w.draws)
      else loadEvent w.ops id := by
    intro id
    rw [hops, storeEvent, loadEvent_putEvent hfits]
    rfl
  have hget : ∀ key id, w'.state.builtin.get? key = some id →
      (key = event.key ∧ id = env.newId now w.draws) ∨ w.state.builtin.get? key = some id := by
    intro key id hkey
    rw [hmap, get?_eq_some, mem_insert] at hkey
    exact hkey.imp_right fun hold => get?_eq_some.2 hold.2
  have hfresh : ∀ key, w.state.builtin.get? key ≠ some (env.newId now w.draws) := fun key hkey =>
    (h.found key _ hkey).1.fresh hdraws rfl
  refine ⟨fun key id hkey => ?_,fun key other id hkey hother => ?_⟩
  · rcases hget key id hkey with ⟨-,rfl⟩ | hold
    · exact ⟨⟨now,w.draws,by omega,rfl⟩,_,by rw [hload, if_pos rfl],rfl,rfl,hlater⟩
    · obtain ⟨hid,alert,hfound,hrest⟩ := h.found key id hold
      refine ⟨hid.mono (by omega),alert,?_,hrest⟩
      rw [hload, if_neg (hid.fresh hdraws), hfound]
  · rcases hget key id hkey with ⟨rfl,rfl⟩ | hold <;>
      rcases hget other _ hother with ⟨rfl,hid⟩ | hold'
    · rfl
    · exact absurd hold' (hfresh other)
    · exact absurd (hid ▸ hold) (hfresh key)
    · exact h.apart key other id hold hold'

theorem Tracked.next (hdraws : DrawsOnce env) (h : Tracked env w) (hkind : event.standalone = true)
    (hsmall : Small env event) :
    Tracked env (builtin env w event now choice) := by
  have hsame : ∀ {w' : World ν}, core w' = core w → Tracked env w' := by
    intro w' hcore
    simp only [core, Prod.mk.injEq] at hcore
    exact h.keep hcore.2.2.ge fun key id hkey => by rw [← hcore.2.1, hkey, hcore.1]; exact ⟨rfl,rfl⟩
  cases hover : event.occurred with
  | true =>
    have hcore := builtin_core env w hkind now choice
    rw [coreAfter, hover, if_pos rfl] at hcore
    split_ifs at hcore
    · exact hsame hcore
    · exact h.occurs hdraws hsmall hcore
  | false =>
    rcases h.counterpart hkind hover rfl with
      ⟨hcore,-⟩ | ⟨key,-,id,alert,hid,-,-,hmap,hdrawn,hload⟩
    · exact hsame hcore
    · refine h.keep hdrawn.ge fun other found hfound => ?_
      rw [hmap, get?_eq_some, mem_erase, ← get?_eq_some] at hfound
      refine ⟨hfound.2,?_⟩
      rw [hload, if_neg]
      rintro rfl
      exact hfound.1 (h.apart other key found hfound.2 hid)

theorem afterEvents_tracked (hdraws : DrawsOnce env)
    (actions : List AdmittedAction) {calls : List (BuiltinEvent × ℤ × ℕ)}
    (hcalls : ∀ call ∈ calls, call.1.standalone = true ∧ Small env call.1) :
    Tracked env (afterEvents env actions calls) := by
  induction calls using List.reverseRecOn with
  | nil =>
    have hnone : ∀ key, (afterEvents env actions []).state.builtin.get? key = none := fun _ => rfl
    exact ⟨by simp [hnone],by simp [hnone]⟩
  | append_singleton calls call ih =>
    rw [forall_mem_append, forall_mem_singleton] at hcalls
    rw [afterEvents, StepRuns.run_concat]
    exact (ih hcalls.1).next hdraws hcalls.2.1 hcalls.2.2

/-- A counterpart closes what its subject has open exactly when that is at most one alert. -/
theorem recovered_iff (env : Env ν) (hdraws : DrawsOnce env)
    (actions : List AdmittedAction) (calls : List (BuiltinEvent × ℤ × ℕ))
    (hcalls : ∀ call ∈ calls, call.1.standalone = true ∧ Small env call.1)
    (event : BuiltinEvent) (now : ℤ) (choice : ℕ) (hkind : event.standalone = true)
    (hover : event.occurred = false) :
    Recovered (afterEvents env actions calls)
        (builtin env (afterEvents env actions calls) event now choice) event now ↔
      (openOf (afterEvents env actions calls).state.builtin event).length ≤ 1 := by
  have h := afterEvents_tracked hdraws actions hcalls
  generalize afterEvents env actions calls = w at h ⊢
  rcases h.counterpart hkind hover (rfl : builtin env w event now choice = _) with
    ⟨hcore,hnone⟩ | ⟨key,hkey,id,alert,hid,hload,hfiring,hmap,-,hafter⟩
  · simp only [core, Prod.mk.injEq] at hcore
    refine iff_of_true ⟨by rw [hcore.2.1, hnone],by simp [hnone],fun key _ => by rw [hcore.2.1],
      fun id _ => by rw [hcore.1]⟩ (by simp [hnone])
  · constructor
    · intro hrecovered
      have hall := hrecovered.closed
      rw [hmap, openOf_erase, filter_eq_nil_iff] at hall
      have hsub : openOf w.state.builtin event ⊆ [key] := fun other ho => by
        simpa using hall other ho
      have hnodup : (openOf w.state.builtin event).Nodup := w.state.builtin.unique.filter _
      exact (subperm_of_subset hnodup hsub).length_le
    · intro hone
      obtain ⟨only,honly⟩ := length_eq_one_iff.1 (Nat.le_antisymm hone (length_pos_of_mem hkey))
      obtain rfl : key = only := by simpa [honly] using hkey
      refine ⟨by simp [hmap, openOf_erase, honly],?_,?_,?_⟩
      · rw [honly, forall_mem_singleton]
        exact ⟨id,alert,hid,hload,hfiring,by rw [hafter, if_pos rfl]⟩
      · intro other ho
        rw [hmap, get?_erase_ne fun hsame : other = key => ho (hsame.symm ▸ hkey)]
      · intro other ho
        rw [hafter, if_neg]
        rintro rfl
        exact ho key hkey hid

def failedJob : BuiltinEvent := { missedJob true with kind := .cronFailed }

theorem sampleEnv_small : Small sampleEnv event :=
  fun _ _ => ⟨by simp [sampleEnv, standaloneEvent, maxRecordBytes],fun _ => by
    simp [sampleEnv, standaloneEvent, AlertEvent.resolvedBy, maxRecordBytes]⟩

theorem recovered_one_kind :
    Recovered (afterEvents sampleEnv [] [(missedJob true,10,0)])
        (builtin sampleEnv (afterEvents sampleEnv [] [(missedJob true,10,0)])
          (missedJob false) 20 0)
        (missedJob false) 20 ↔
      (openOf (afterEvents sampleEnv [] [(missedJob true,10,0)]).state.builtin
        (missedJob false)).length ≤ 1 :=
  recovered_iff sampleEnv sampleEnv_drawsOnce [] _
    (by simpa using ⟨rfl,sampleEnv_small⟩) _ 20 0 rfl rfl

/-- The job is missed and fails, then recovers: one of the two alerts stays open. -/
theorem two_kinds_one_left :
    ¬ Recovered (afterEvents sampleEnv [] [(missedJob true,10,0), (failedJob,15,0)])
      (builtin sampleEnv (afterEvents sampleEnv [] [(missedJob true,10,0), (failedJob,15,0)])
        (missedJob false) 20 0) (missedJob false) 20 := by
  intro h
  exact absurd h.closed (by decide +kernel)

end Permanu.AlertEvaluator
