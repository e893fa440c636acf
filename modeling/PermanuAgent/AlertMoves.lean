import PermanuAgent.AlertEvaluator

/-!
# The moves of the evaluator

Each call of the evaluator is a sequence of small moves: a runtime changes, an alert
opens, an alert resolves. Every move keeps each firing record the open episode of its
rule or the open alert of its subject, and a move of one rule leaves the episodes of the
others as they are.
-/

set_option autoImplicit false

namespace Permanu.AlertEvaluator
open ByteText List OrderedMap Option World
open OpsStore AlertRecords

variable {ν : Type} {env : Env ν}

structure Alike (w w' : World ν) : Prop where
  ops : w'.ops = w.ops
  rules : w'.state.rules = w.state.rules
  runtime : w'.state.runtime = w.state.runtime
  builtin : w'.state.builtin = w.state.builtin
  draws : w'.draws = w.draws
  subjects : w'.subjects = w.subjects

theorem Alike.refl (w : World ν) : Alike w w := ⟨rfl,rfl,rfl,rfl,rfl,rfl⟩

theorem Alike.trans {w w' w'' : World ν} (h : Alike w w') (h' : Alike w' w'') : Alike w w'' :=
  ⟨h'.ops.trans h.ops,h'.rules.trans h.rules,h'.runtime.trans h.runtime,
    h'.builtin.trans h.builtin,h'.draws.trans h.draws,h'.subjects.trans h.subjects⟩

theorem notifyChannel_alike {eventId : Str} {now : ℤ} {w : World ν} {channelId : Str} :
    Alike w (notifyChannel eventId now w channelId) := by
  unfold notifyChannel admitSend
  by_cases hfull : perChannelPerMinute ≤
      ((w.state.sends channelId).dropWhile fun time => decide (60 ≤ now - time)).length
  · simp only [if_pos hfull]
    exact ⟨rfl,rfl,rfl,rfl,rfl,rfl⟩
  · simp only [if_neg hfull]
    exact ⟨rfl,rfl,rfl,rfl,rfl,rfl⟩

theorem notify_alike (w : World ν) (event : AlertEvent ν) (channelIds : List Str) (now : ℤ) :
    Alike w (notify w event channelIds now) := by
  unfold notify
  generalize channelIds.eraseDups.filter (fun id => decide (id ∈ w.state.channels)) = ids
  induction ids generalizing w with
  | nil => exact .refl w
  | cons id rest ih => exact notifyChannel_alike.trans (ih _)

variable {value : ν} {summary : Str}

theorem openRuleEpisode_alike {w : World ν} {rule : RuleDef ν} {now : ℤ} :
    Alike (w.fire env rule now (ruleEvent env rule value now summary w.draws))
      (openRuleEpisode env w rule value now summary) := by
  unfold openRuleEpisode
  split
  · exact .refl _
  · exact notify_alike _ _ _ _

theorem tellResolved_alike (w : World ν) (rule : RuleDef ν) (event : AlertEvent ν) (now : ℤ) :
    Alike w (tellResolved w rule event now) := by
  unfold tellResolved
  split
  · exact notify_alike _ _ _ _
  · exact .refl _

def Fits (env : Env ν) (now : ℤ) (found : AlertEvent ν) : Prop :=
  found.state = .firing → env.len (found.resolvedBy now) ≤ maxRecordBytes

/-- What one small step of the evaluator does. Only the rules in `touches` change their
runtime; the false streaks of those in `resets` may start again. -/
inductive Move (env : Env ν) (touches resets : Str → Prop) : World ν → World ν → Prop
  | quiet {w w' : World ν} (ops : w'.ops = w.ops) (rules : w'.state.rules = w.state.rules)
      (builtin : w'.state.builtin = w.state.builtin) (draws : w'.draws = w.draws)
      (subjects : w'.subjects = w.subjects)
      (others : ∀ r, ¬ touches r → w'.state.runtime r = w.state.runtime r)
      (episodes : ∀ r, (w'.state.runtime r).episode = (w.state.runtime r).episode)
      (firing : ∀ r, (w.state.runtime r).state = .firing →
        (w'.state.runtime r).state = .firing ∧
        (resets r ∨ (w.state.runtime r).falseStreak ≤ (w'.state.runtime r).falseStreak)) :
      Move env touches resets w w'
  | fired (w : World ν) (rule : RuleDef ν) (value : ν) (now : ℤ) (summary : Str)
      (may : touches rule.rule.id) (idle : (w.state.runtime rule.rule.id).state ≠ .firing) :
      Move env touches resets w
        (w.fire env rule now (ruleEvent env rule value now summary w.draws))
  | resolved (w : World ν) (rule : RuleDef ν) (now : ℤ) (found : AlertEvent ν)
      (may : touches rule.rule.id)
      (stored : (w.state.runtime rule.rule.id).episode.bind (loadEvent w.ops) = some found)
      (fits : Fits env now found) :
      Move env touches resets w ((w.lapse rule now).store env now (found.resolvedBy now))
  | lapsed (w : World ν) (rule : RuleDef ν) (now : ℤ) (may : touches rule.rule.id)
      (gone : (w.state.runtime rule.rule.id).episode.bind (loadEvent w.ops) = none) :
      Move env touches resets w (w.lapse rule now)
  | begun (w : World ν) (event : BuiltinEvent) (now : ℤ) (summary : Str)
      (free : w.state.builtin.get? event.key = none) :
      Move env touches resets w
        (w.begin env event.key now (standaloneEvent env event summary now w.draws))
  | ended (w : World ν) (key : BuiltinKey) (now : ℤ) (found : AlertEvent ν)
      (stored : (w.state.builtin.get? key).bind (loadEvent w.ops) = some found)
      (fits : Fits env now found) :
      Move env touches resets w ((w.forget key).store env now (found.resolvedBy now))
  | forgotten (w : World ν) (key : BuiltinKey)
      (gone : (w.state.builtin.get? key).bind (loadEvent w.ops) = none) :
      Move env touches resets w (w.forget key)

abbrev Moves (env : Env ν) (touches resets : Str → Prop) : World ν → World ν → Prop :=
  Relation.ReflTransGen (Move env touches resets)

variable {touches resets : Str → Prop} {w w' : World ν}

theorem Alike.move (h : Alike w w') : Move env touches resets w w' :=
  .quiet h.ops h.rules h.builtin h.draws h.subjects (fun r _ => by rw [h.runtime])
    (fun r => by rw [h.runtime]) fun r hr => by
      rw [h.runtime]
      exact ⟨hr,.inr (le_refl _)⟩

/-- A runtime that keeps its episode, and keeps firing. -/
theorem setRuntime_move {id : Str} {runtime : Runtime ν} (may : touches id)
    (hepisode : runtime.episode = (w.state.runtime id).episode)
    (hfiring : (w.state.runtime id).state = .firing → runtime.state = .firing ∧
      (resets id ∨ (w.state.runtime id).falseStreak ≤ runtime.falseStreak)) :
    Move env touches resets w (w.setRuntime id runtime) := by
  refine .quiet rfl rfl rfl rfl rfl (fun r hr => ?_) (fun r => ?_) fun r hr => ?_
  · have hne : r ≠ id := by
      rintro rfl
      exact hr may
    simp [setRuntime, hne]
  · by_cases h : r = id
    · subst h
      simpa [setRuntime] using hepisode
    · simp [setRuntime, h]
  · by_cases h : r = id
    · subst h
      simpa [setRuntime] using hfiring hr
    · simpa [setRuntime, h] using hr

theorem openRuleEpisode_moves (w : World ν) (rule : RuleDef ν) {now : ℤ}
    (may : touches rule.rule.id) (idle : (w.state.runtime rule.rule.id).state ≠ .firing) :
    Moves env touches resets w (openRuleEpisode env w rule value now summary) :=
  .tail (.single (.fired w rule value now summary may idle))
    openRuleEpisode_alike.move

def Closable (env : Env ν) (now : ℤ) (w : World ν) (r : Str) : Prop :=
  ∀ found, (w.state.runtime r).episode.bind (loadEvent w.ops) = some found → Fits env now found

theorem resolveRuleEpisode_moves (w : World ν) (rule : RuleDef ν) {now : ℤ}
    (may : touches rule.rule.id) (fits : Closable env now w rule.rule.id) :
    Moves env touches resets w (resolveRuleEpisode env w rule now) := by
  unfold resolveRuleEpisode
  split
  · next gone => exact .single (.lapsed w rule now may gone)
  · next found stored =>
    have halike := tellResolved_alike ((w.lapse rule now).store env now (found.resolvedBy now)) rule
      (found.resolvedBy now) now
    refine .tail (.tail (.single (.resolved w rule now found may stored (fits found stored)))
      halike.move) ?_
    refine setRuntime_move may rfl fun hfiring => ?_
    -- the runtime was left as resolved
    rw [halike.runtime] at hfiring
    simp [store, lapse, setRuntime, Runtime.resolvedNow] at hfiring

theorem repeatOrRelease_moves (w : World ν) (rule : RuleDef ν) {now : ℤ}
    (may : touches rule.rule.id) : Moves env touches resets w (repeatOrRelease w rule now) := by
  unfold repeatOrRelease
  simp only
  split
  · exact .refl
  · split
    · have hmark : Move env touches resets w (w.setRuntime rule.rule.id
          { w.state.runtime rule.rule.id with held := false, lastNotified := now }) :=
        setRuntime_move may rfl fun hfiring => ⟨hfiring,.inr (le_refl _)⟩
      split
      · exact .tail (.single hmark) (notify_alike _ _ _ _).move
      · exact .single hmark
    · exact .refl

theorem expireEventRule_moves (w : World ν) (rule : RuleDef ν) {now : ℤ}
    (may : touches rule.rule.id)
    (fits : Closable env now w rule.rule.id ∨ (w.state.runtime rule.rule.id).lastOccurrence = now) :
    Moves env touches resets w (expireEventRule env w rule now) := by
  unfold expireEventRule
  simp only
  split
  · next hdue =>
    rcases fits with fits | hnow
    · exact resolveRuleEpisode_moves w rule may fits
    · rw [hnow] at hdue
      simp [eventResolveSeconds] at hdue
  · exact .refl

/-- A reading keeps the episode; a firing rule stays firing, and one that is asked to fire did
not. -/
theorem evaluated_spec {runtime : Runtime ν} {holds : Option Bool}
    {now forDuration : ℤ} :
    (runtime.evaluated holds value now forDuration).1.episode = runtime.episode ∧
    (runtime.state = .firing → (runtime.evaluated holds value now forDuration).1.state = .firing) ∧
    ((runtime.evaluated holds value now forDuration).2 = .fire →
      (runtime.evaluated holds value now forDuration).1.state ≠ .firing) := by
  unfold Runtime.evaluated
  cases holds with
  | none =>
    simp only [Runtime.withoutData]
    split_ifs <;> simp_all
  | some holds =>
    cases holds with
    | true =>
      simp only [Runtime.holding]
      cases hstate : runtime.state with
      | firing | pending => simp
      | _ =>
        split_ifs <;> simp
    | false =>
      simp only [Runtime.failing]
      cases hstate : runtime.state with
      | firing =>
        split_ifs <;> simp
      | _ => simp

variable {now : ℤ} {r : Str}

theorem setRuntime_closable {runtime : Runtime ν}
    (h : runtime.episode = (w.state.runtime r).episode) :
    Closable env now (w.setRuntime r runtime) r ↔ Closable env now w r := by
  simp [Closable, setRuntime, h]

theorem stepRule_moves {rule : RuleDef ν} (holds : Option Bool) (value : ν) (forDuration : ℤ)
    (fits : Closable env now w rule.rule.id) :
    Moves env (fun r => r = rule.rule.id) (fun r => r = rule.rule.id) w
      (stepRule env w rule holds value now forDuration) := by
  obtain ⟨hepisode,hstays,hidle⟩ :=
    evaluated_spec
  have hfirst : Move env (fun r => r = rule.rule.id) (fun r => r = rule.rule.id) w
      (w.setRuntime rule.rule.id
        ((w.state.runtime rule.rule.id).evaluated holds value now forDuration).1) :=
    setRuntime_move rfl hepisode fun hfiring => ⟨hstays hfiring,.inl rfl⟩
  unfold stepRule
  simp only
  split
  · exact .single hfirst
  · next hfire =>
    refine .trans (.single hfirst) (openRuleEpisode_moves _ rule rfl ?_)
    simpa [setRuntime] using hidle hfire
  · exact .trans (.single hfirst)
      (resolveRuleEpisode_moves _ rule rfl ((setRuntime_closable hepisode).2 fits))

def Ready (env : Env ν) (now : ℤ) (w : World ν) (rule : RuleDef ν) : Prop :=
  Closable env now w rule.rule.id ∨
    (∃ condition, rule.rule.condition = .event condition) ∧
      (w.state.runtime rule.rule.id).lastOccurrence = now

theorem reading_event {source : AlertSource ν} {rule : RuleDef ν} {condition : EventCondition}
    (h : rule.rule.condition = .event condition) : reading env source rule now = none := by
  simp [reading, h]

theorem evaluateRule_moves (source : AlertSource ν) {rule : RuleDef ν}
    (fits : Ready env now w rule) :
    Moves env (fun r => r = rule.rule.id) (fun r => r = rule.rule.id) w
      (evaluateRule env source now w rule) := by
  unfold evaluateRule
  split
  · exact .refl
  · refine .trans ?_ (repeatOrRelease_moves _ rule rfl)
    cases hread : reading env source rule now with
    | none => exact expireEventRule_moves w rule rfl (fits.imp_right And.right)
    | some read =>
      rcases fits with fits | ⟨⟨condition,hevent⟩,-⟩
      · exact stepRule_moves read.1 read.2.1 read.2.2 fits
      · rw [reading_event hevent] at hread
        cases hread

def Drawn (env : Env ν) (w : World ν) (id : Str) : Prop :=
  ∃ now draw, draw < w.draws ∧ id = env.newId now draw

/-- Each id is drawn once. -/
def DrawsOnce (env : Env ν) : Prop :=
  ∀ now draw now' draw', env.newId now draw = env.newId now' draw' → draw = draw'

structure RecordOk (env : Env ν) (w : World ν) (id : Str) (event : AlertEvent ν) : Prop where
  named : event.id = id
  drawn : Drawn env w id
  rule : event.state = .firing → event.source = ruleSource →
    (w.state.runtime event.ruleId).state = .firing ∧
      (w.state.runtime event.ruleId).episode = some id
  /-- A firing built-in record is the open alert of what it is about. -/
  builtin : event.state = .firing → event.source ≠ ruleSource →
    ∀ key, (id,key) ∈ w.subjects → w.state.builtin.get? key = some id

structure Sound (env : Env ν) (w : World ν) : Prop where
  records : ∀ id event, loadEvent w.ops id = some event → RecordOk env w id event
  episodes : ∀ r id, (w.state.runtime r).episode = some id → Drawn env w id
  subjects : ∀ id key, (id,key) ∈ w.subjects → Drawn env w id

theorem start_sound : Sound env (start : World ν) :=
  ⟨fun _ _ h => (nomatch h),fun _ _ h => (nomatch h),fun _ _ h => (nomatch h)⟩

variable {id : Str}

theorem Drawn.mono (h : Drawn env w id) (hle : w.draws ≤ w'.draws) : Drawn env w' id := by
  obtain ⟨now,draw,hlt,heq⟩ := h
  exact ⟨now,draw,by omega,heq⟩

theorem Drawn.fresh (hid : DrawsOnce env) (h : Drawn env w id) :
    id ≠ env.newId now w.draws := by
  rintro rfl
  obtain ⟨now',draw,hlt,heq⟩ := h
  have := hid _ _ _ _ heq
  omega

variable {ops : Store (AlertEvent ν)}

variable {event : AlertEvent ν} {times : ℕ}

/-- What a resolved record leaves: the same alerts, and no longer this one firing. -/
theorem load_resolved {found : AlertEvent ν}
    (hfound : loadEvent ops found.id = some found) (fits : Fits env now found)
    (h : loadEvent (storeEvent env.len now ops (found.resolvedBy now)) id = some event) :
    (id = found.id ∧ event.state ≠ .firing ∧ (event = found.resolvedBy now ∨ event = found)) ∨
      (id ≠ found.id ∧ loadEvent ops id = some event) := by
  rcases Nat.lt_or_ge maxRecordBytes (env.len (found.resolvedBy now)) with hlarge | hfits
  · rw [storeEvent, putEvent_large hlarge] at h
    by_cases hid : id = found.id
    · subst hid
      cases hfound.symm.trans h
      refine .inl ⟨rfl,fun hfiring => ?_,.inr rfl⟩
      have := fits hfiring
      omega
    · exact .inr ⟨hid,h⟩
  · rw [storeEvent, loadEvent_putEvent hfits] at h
    split at h
    · next hid =>
      cases h
      exact .inl ⟨hid,by simp [AlertEvent.resolvedBy],.inl rfl⟩
    · next hid => exact .inr ⟨hid,h⟩

variable {new : AlertEvent ν}

/-- What a new record leaves: the alerts before it and perhaps this one. -/
theorem load_stored (h : loadEvent (storeEvent env.len now ops new) id = some event) :
    (id = new.id ∧ event = new) ∨ loadEvent ops id = some event := by
  rcases putEvent_cases env.len with hsame | hput
  · rw [storeEvent, hsame] at h
    exact .inr h
  · rw [storeEvent, hput] at h
    split at h
    · next hid =>
      cases h
      exact .inl ⟨hid,rfl⟩
    · exact .inr h

/-- A record stays as it should be when what memory holds of it stays. -/
theorem RecordOk.kept (h : RecordOk env w id event)
    (draws : w.draws ≤ w'.draws) (subjects : ∀ key, (id,key) ∈ w'.subjects → (id,key) ∈ w.subjects)
    (rule : event.state = .firing → (w.state.runtime event.ruleId).state = .firing →
      (w.state.runtime event.ruleId).episode = some id →
      (w'.state.runtime event.ruleId).state = .firing ∧
        (w'.state.runtime event.ruleId).episode = some id)
    (builtin : ∀ key, event.state = .firing → w.state.builtin.get? key = some id →
      w'.state.builtin.get? key = some id) : RecordOk env w' id event := by
  refine ⟨h.named,h.drawn.mono draws,fun hfiring hsource => ?_,fun hfiring hsource key hkey => ?_⟩
  · obtain ⟨hstate,hepisode⟩ := h.rule hfiring hsource
    exact rule hfiring hstate hepisode
  · exact builtin key hfiring (h.builtin hfiring hsource key (subjects key hkey))

theorem Sound.quiet (h : Sound env w) (ops : w'.ops = w.ops)
    (builtin : w'.state.builtin = w.state.builtin) (draws : w'.draws = w.draws)
    (subjects : w'.subjects = w.subjects)
    (episodes : ∀ r, (w'.state.runtime r).episode = (w.state.runtime r).episode)
    (firing : ∀ r, (w.state.runtime r).state = .firing → (w'.state.runtime r).state = .firing) :
    Sound env w' := by
  refine ⟨fun id event hload => ?_,fun r id hid => ?_,fun id key hkey => ?_⟩
  · rw [ops] at hload
    refine (h.records id event hload).kept draws.ge (by simp [subjects])
      (fun _ hstate hepisode => ⟨firing _ hstate,?_⟩) (by simp [builtin])
    rw [episodes, hepisode]
  · rw [episodes] at hid
    exact (h.episodes r id hid).mono draws.ge
  · rw [subjects] at hkey
    exact (h.subjects id key hkey).mono draws.ge

theorem Sound.reload (h : Sound env w) : Sound env (reload env w) :=
  h.quiet rfl rfl rfl rfl (fun _ => rfl) fun _ hr => hr

theorem Sound.fired (h : Sound env w) {rule : RuleDef ν}
    (idle : (w.state.runtime rule.rule.id).state ≠ .firing) :
    Sound env (w.fire env rule now (ruleEvent env rule value now summary w.draws)) := by
  set event := ruleEvent env rule value now summary w.draws with hevent
  have hnew : Drawn env (w.fire env rule now event) event.id :=
    ⟨now,w.draws,Nat.lt_succ_self _,rfl⟩
  have hgrown : w.draws ≤ (w.fire env rule now event).draws := Nat.le_succ _
  have hruntime : ∀ r, r ≠ rule.rule.id →
      (w.fire env rule now event).state.runtime r = w.state.runtime r := fun r hr => by
    simp [fire, store, setRuntime, hr]
  have hhere : (w.fire env rule now event).state.runtime rule.rule.id =
      (w.state.runtime rule.rule.id).fired event.id now (rule.silenced now) := by
    simp [fire, store, setRuntime]
  refine ⟨fun id stored hload => ?_,fun r id hepisode => ?_,
    fun id key hkey => (h.subjects id key hkey).mono hgrown⟩
  · rcases load_stored hload with ⟨rfl,rfl⟩ | hold
    · refine ⟨rfl,hnew,fun _ _ => ?_,fun _ hsource => absurd rfl hsource⟩
      rw [show event.ruleId = rule.rule.id from rfl, hhere]
      exact ⟨rfl,rfl⟩
    · refine (h.records id stored hold).kept hgrown (fun _ hkey => hkey)
        (fun _ hfiring hepisode => ?_) fun _ _ hopen => hopen
      have hr : stored.ruleId ≠ rule.rule.id := fun hr => idle (hr ▸ hfiring)
      rw [hruntime _ hr]
      exact ⟨hfiring,hepisode⟩
  · by_cases hr : r = rule.rule.id
    · subst hr
      rw [hhere] at hepisode
      cases hepisode
      exact hnew
    · rw [hruntime r hr] at hepisode
      exact (h.episodes r id hepisode).mono hgrown

theorem Sound.begun (hid : DrawsOnce env) (h : Sound env w) {event : BuiltinEvent}
    (free : w.state.builtin.get? event.key = none) :
    Sound env (w.begin env event.key now (standaloneEvent env event summary now w.draws)) := by
  set alert := standaloneEvent env event summary now w.draws with halert
  have hnew : Drawn env (w.begin env event.key now alert) alert.id :=
    ⟨now,w.draws,Nat.lt_succ_self _,rfl⟩
  have hgrown : w.draws ≤ (w.begin env event.key now alert).draws := Nat.le_succ _
  have hbuiltin : (w.begin env event.key now alert).state.builtin =
    w.state.builtin.insert (fun _ _ => false) event.key alert.id := rfl
  have hsource : alert.source ≠ ruleSource := by
    show event.source.text ≠ ruleSource
    cases event.source <;> decide
  refine ⟨fun id stored hload => ?_,fun r id hepisode => (h.episodes r id hepisode).mono hgrown,
    fun id key hkey => ?_⟩
  · rcases load_stored hload with ⟨rfl,rfl⟩ | hold
    · refine ⟨rfl,hnew,fun _ hrule => absurd hrule hsource,fun _ _ key hkey => ?_⟩
      -- the new id has no older subject
      rcases mem_cons.1 hkey with heq | hkey
      · cases heq
        exact get?_insert_self _
      · exact absurd rfl ((h.subjects _ key hkey).fresh hid)
    · have hrecord := h.records id stored hold
      refine hrecord.kept hgrown (fun key hkey => ?_) (fun _ hfiring hepisode => ⟨hfiring,hepisode⟩)
        fun key _ hopen => ?_
      · rcases mem_cons.1 hkey with heq | hkey
        · cases heq
          exact absurd rfl (hrecord.drawn.fresh hid)
        · exact hkey
      · have hne : key ≠ event.key := by
          rintro rfl
          rw [free] at hopen
          cases hopen
        rw [hbuiltin, get?_insert_ne _ hne, hopen]
  · rcases mem_cons.1 hkey with heq | hold
    · cases heq
      exact hnew
    · exact (h.subjects id key hold).mono hgrown

/-- A record is resolved and what pointed to it in memory is dropped. -/
theorem Sound.close {found : AlertEvent ν} (h : Sound env w)
    (hfound : loadEvent w.ops found.id = some found) (fits : Fits env now found)
    (ops : w'.ops = storeEvent env.len now w.ops (found.resolvedBy now))
    (draws : w'.draws = w.draws) (subjects : w'.subjects = w.subjects)
    (episodes : ∀ r id, (w'.state.runtime r).episode = some id →
      (w.state.runtime r).episode = some id) (rules : ∀ r, (w.state.runtime r).state = .firing →
      (w.state.runtime r).episode ≠ some found.id → w'.state.runtime r = w.state.runtime r)
    (builtin : ∀ key id, w.state.builtin.get? key = some id → id ≠ found.id →
      w'.state.builtin.get? key = some id) : Sound env w' := by
  refine ⟨fun id event hload => ?_,
    fun r id hepisode => (h.episodes r id (episodes r id hepisode)).mono draws.ge,
    fun id key hkey => (h.subjects id key (subjects ▸ hkey)).mono draws.ge⟩
  rw [ops] at hload
  rcases load_resolved hfound fits hload with ⟨rfl,hnot,hevent⟩ | ⟨hne,hold⟩
  · refine ⟨?_,(h.records _ found hfound).drawn.mono draws.ge,fun hfiring => absurd hfiring hnot,
      fun hfiring => absurd hfiring hnot⟩
    rcases hevent with rfl | rfl <;> rfl
  · refine (h.records id event hold).kept draws.ge (by simp [subjects])
      (fun _ hfiring hepisode => ?_) fun key _ hopen => builtin key id hopen hne
    rw [rules _ hfiring (by rw [hepisode]; simpa using hne)]
    exact ⟨hfiring,hepisode⟩

theorem Sound.found (h : Sound env w) {held : Option Str} {found : AlertEvent ν}
    (hbind : held.bind (loadEvent w.ops) = some found) :
    held = some found.id ∧ loadEvent w.ops found.id = some found := by
  obtain ⟨id,hheld,hload⟩ := bind_eq_some_iff.1 hbind
  have hid := (h.records id found hload).named
  subst hid
  exact ⟨hheld,hload⟩

theorem Sound.move (hid : DrawsOnce env) (h : Sound env w) (hmove : Move env touches resets w w') :
    Sound env w' := by
  cases hmove with
  | quiet ops rules builtin draws subjects others episodes firing =>
    exact h.quiet ops builtin draws subjects episodes fun r hr => (firing r hr).1
  | fired rule value now summary may idle => exact h.fired idle
  | resolved rule now found may stored fits =>
    obtain ⟨hepisode,hload⟩ := h.found stored
    refine h.close hload fits rfl rfl rfl (fun r id hr => ?_) (fun r hfiring hne => ?_)
      fun key id hkey _ => hkey
    · by_cases hrule : r = rule.rule.id
      · subst hrule
        simp [store, lapse, setRuntime, Runtime.resolvedNow] at hr
      · simpa [store, lapse, setRuntime, hrule] using hr
    · have hrule : r ≠ rule.rule.id := by
        rintro rfl
        exact hne hepisode
      simp [store, lapse, setRuntime, hrule]
  | lapsed rule now may gone =>
    have hruntime : ∀ r, r ≠ rule.rule.id →
        (w.lapse rule now).state.runtime r = w.state.runtime r := fun r hr => by
      simp [lapse, setRuntime, hr]
    refine ⟨fun id event hload => ?_,fun r id hr => ?_,h.subjects⟩
    · refine (h.records id event hload).kept (le_refl _) (fun _ hkey => hkey)
        (fun _ hfiring hepisode => ?_) fun _ _ hopen => hopen
      have hrule : event.ruleId ≠ rule.rule.id := by
        intro hrule
        rw [← hrule, hepisode, bind_some, show loadEvent w.ops id = some event from hload] at gone
        cases gone
      rw [hruntime _ hrule]
      exact ⟨hfiring,hepisode⟩
    · by_cases hrule : r = rule.rule.id
      · subst hrule
        simp [lapse, setRuntime, Runtime.resolvedNow] at hr
      · rw [hruntime r hrule] at hr
        exact h.episodes r id hr
  | begun event now summary free => exact h.begun hid free
  | ended key now found stored fits =>
    obtain ⟨hopen,hload⟩ := h.found stored
    refine h.close hload fits rfl rfl rfl (fun r id hr => hr) (fun r _ _ => rfl)
      fun other id hother hne => ?_
    have hkey : other ≠ key := by
      rintro rfl
      rw [hopen] at hother
      exact hne (Option.some.inj hother).symm
    show (w.state.builtin.erase key).get? other = some id
    rw [get?_erase_ne hkey, hother]
  | forgotten key gone =>
    refine ⟨fun id event hload => ?_,h.episodes,h.subjects⟩
    refine (h.records id event hload).kept (le_refl _) (fun _ hkey => hkey)
      (fun _ hfiring hepisode => ⟨hfiring,hepisode⟩) fun other _ hopen => ?_
    have hkey : other ≠ key := by
      rintro rfl
      rw [hopen, bind_some, show loadEvent w.ops id = some event from hload] at gone
      cases gone
    show (w.state.builtin.erase key).get? other = some id
    rw [get?_erase_ne hkey, hopen]

theorem Sound.moves (hid : DrawsOnce env) (h : Sound env w)
    (hmoves : Moves env touches resets w w') :
    Sound env w' := by
  induction hmoves with
  | refl => exact h
  | tail _ hlast ih => exact ih.move hid hlast

theorem load_other (hid : id ≠ new.id) :
    loadEvent (storeEvent env.len now ops new) id = loadEvent ops id := by
  rcases putEvent_cases env.len with hsame | hput
  · rw [storeEvent, hsame]
  · rw [storeEvent, hput, if_neg hid]

theorem untouched {other : Str} (may : touches other) (hr : ¬ touches r) : r ≠ other := by
  rintro rfl
  exact hr may

theorem Move.runtime (hmove : Move env touches resets w w') (hr : ¬ touches r) :
    w'.state.runtime r = w.state.runtime r := by
  cases hmove with
  | quiet ops rules builtin draws subjects others episodes firing => exact others r hr
  | fired rule value now summary may idle =>
    have hne := untouched may hr
    simp [fire, store, setRuntime, hne]
  | resolved rule now found may stored fits =>
    have hne := untouched may hr
    simp [store, lapse, setRuntime, hne]
  | lapsed rule now may gone =>
    have hne := untouched may hr
    simp [lapse, setRuntime, hne]
  | begun | ended | forgotten => rfl

theorem Moves.runtime (hmoves : Moves env touches resets w w') (hr : ¬ touches r) :
    w'.state.runtime r = w.state.runtime r := by
  induction hmoves with
  | refl => rfl
  | tail _ hlast ih => rw [hlast.runtime hr, ih]

theorem Moves.rules (hmoves : Moves env touches resets w w') : w'.state.rules = w.state.rules := by
  induction hmoves with
  | refl => rfl
  | tail _ hlast ih =>
    rw [← ih]
    cases hlast with
    | quiet ops rules builtin draws subjects others episodes firing => exact rules
    | _ => rfl

/-- A rule that fires before and after a move was not asked to start its streak again. -/
theorem Move.streak (hmove : Move env touches resets w w') (hr : ¬ resets r)
    (hfiring : (w.state.runtime r).state = .firing)
    (hstill : (w'.state.runtime r).state = .firing) :
    (w.state.runtime r).falseStreak ≤ (w'.state.runtime r).falseStreak := by
  cases hmove with
  | quiet ops rules builtin draws subjects others episodes firing =>
    exact (firing r hfiring).2.resolve_left hr
  | fired rule value now summary may idle =>
    have hne : r ≠ rule.rule.id := by
      rintro rfl
      exact idle hfiring
    simp [fire, store, setRuntime, hne]
  | resolved rule now found may stored fits =>
    by_cases hne : r = rule.rule.id
    · simp [store, lapse, setRuntime, Runtime.resolvedNow, hne] at hstill
    · simp [store, lapse, setRuntime, hne]
  | lapsed rule now may gone =>
    by_cases hne : r = rule.rule.id
    · simp [lapse, setRuntime, Runtime.resolvedNow, hne] at hstill
    · simp [lapse, setRuntime, hne]
  | begun | ended | forgotten => exact le_refl _

/-- The alert is stored as resolved. -/
def Ended (w : World ν) (id : Str) : Prop :=
  ∃ event, loadEvent w.ops id = some event ∧ event.state = .resolved

/-- The alert is stored as firing for a rule. -/
def FiringFor (w : World ν) (id r : Str) : Prop :=
  ∃ event, loadEvent w.ops id = some event ∧ event.state = .firing ∧
    event.source = ruleSource ∧ event.ruleId = r

def Falling (w : World ν) (id r : Str) (times : ℕ) : Prop :=
  Ended w id ∨ FiringFor w id r ∧ times ≤ (w.state.runtime r).falseStreak

/-- Storing a resolved record leaves every record as it was, or ends it. -/
theorem load_closed {found : AlertEvent ν}
    (ops : w'.ops = storeEvent env.len now w.ops (found.resolvedBy now)) :
    loadEvent w'.ops id = loadEvent w.ops id ∨ Ended w' id := by
  by_cases hid : id = found.id
  · rcases Nat.lt_or_ge maxRecordBytes (env.len (found.resolvedBy now)) with hlarge | hfits
    · exact .inl (by rw [ops, storeEvent, putEvent_large hlarge])
    · refine .inr ⟨found.resolvedBy now,?_,rfl⟩
      rw [ops, storeEvent, loadEvent_putEvent hfits]
      exact if_pos hid
  · rw [ops]
    exact .inl (load_other hid)

theorem Move.load (hid : DrawsOnce env) (hmove : Move env touches resets w w')
    (h : Drawn env w id) : loadEvent w'.ops id = loadEvent w.ops id ∨ Ended w' id := by
  cases hmove with
  | quiet ops rules builtin draws subjects others episodes firing => exact .inl (by rw [ops])
  | fired rule value now summary may idle
  | begun event now summary free => exact .inl (load_other (h.fresh hid))
  | resolved rule now found may stored fits => exact load_closed rfl
  | lapsed => exact .inl rfl
  | ended key now found stored fits => exact load_closed rfl
  | forgotten => exact .inl rfl

/-- Moves of other rules leave the record of a rule's episode as it is, or resolve it. -/
theorem Closable.move (hid : DrawsOnce env) (hw : Sound env w)
    (hmove : Move env touches resets w w') (hr : ¬ touches r) (h : Closable env now w r) :
    Closable env now w' r := by
  intro found hfound hfiring
  rw [hmove.runtime hr] at hfound
  obtain ⟨id,hepisode,hload⟩ := bind_eq_some_iff.1 hfound
  rcases hmove.load hid (hw.episodes r id hepisode) with hsame | ⟨event,hevent,hresolved⟩
  · refine h found ?_ hfiring
    rw [hepisode]
    exact hsame.symm.trans hload
  · cases hload.symm.trans hevent
    rw [hresolved] at hfiring
    cases hfiring

theorem Closable.moves (hid : DrawsOnce env) (hw : Sound env w)
    (hmoves : Moves env touches resets w w') (hr : ¬ touches r) (h : Closable env now w r) :
    Closable env now w' r := by
  induction hmoves with
  | refl => exact h
  | tail hbefore hlast ih => exact ih.move hid (hw.moves hid hbefore) hlast hr

theorem FiringFor.rule (hw : Sound env w) (h : FiringFor w id r) :
    (w.state.runtime r).state = .firing ∧ (w.state.runtime r).episode = some id := by
  obtain ⟨event,hload,hstate,hsource,rfl⟩ := h
  exact (hw.records id event hload).rule hstate hsource

theorem Ended.of_load (h : Ended w id) (load : loadEvent w'.ops id = loadEvent w.ops id) :
    Ended w' id := by
  obtain ⟨event,hload,hstate⟩ := h
  exact ⟨event,load.trans hload,hstate⟩

theorem FiringFor.of_load (h : FiringFor w id r) (load : loadEvent w'.ops id = loadEvent w.ops id) :
    FiringFor w' id r := by
  obtain ⟨event,hload,hfields⟩ := h
  exact ⟨event,load.trans hload,hfields⟩

theorem Ended.move (hid : DrawsOnce env) (hw : Sound env w) (hmove : Move env touches resets w w')
    (h : Ended w id) : Ended w' id := by
  rcases h with ⟨event,hload,hstate⟩
  rcases hmove.load hid (hw.records id event hload).drawn with hsame | hend
  · exact ⟨event,hsame.trans hload,hstate⟩
  · exact hend

theorem Ended.moves (hid : DrawsOnce env) (hw : Sound env w)
    (hmoves : Moves env touches resets w w') (h : Ended w id) : Ended w' id := by
  induction hmoves with
  | refl => exact h
  | tail hbefore hlast ih => exact ih.move hid (hw.moves hid hbefore) hlast

theorem Falling.move (hid : DrawsOnce env) (hw : Sound env w) (hmove : Move env touches resets w w')
    (hr : ¬ resets r) (h : Falling w id r times) :
    Falling w' id r times := by
  rcases h with hend | ⟨hfiring,htimes⟩
  · exact .inl (hend.move hid hw hmove)
  · rcases hmove.load hid (hw.episodes r id (hfiring.rule hw).2) with hsame | hend
    · have hkept := hfiring.of_load hsame
      exact .inr ⟨hkept,htimes.trans (hmove.streak hr (hfiring.rule hw).1
        (hkept.rule (hw.move hid hmove)).1)⟩
    · exact .inl hend

theorem Falling.moves (hid : DrawsOnce env) (hw : Sound env w)
    (hmoves : Moves env touches resets w w') (hr : ¬ resets r) (h : Falling w id r times) :
    Falling w' id r times := by
  induction hmoves with
  | refl => exact h
  | tail hbefore hlast ih => exact ih.move hid (hw.moves hid hbefore) hlast hr

end Permanu.AlertEvaluator
