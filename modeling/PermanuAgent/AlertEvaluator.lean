import PermanuAgent.AlertRecords
import PermanuAgent.CronJobs

/-!
# The alert evaluator

Rules, silences and channels are read from the recorded actions. The evaluator keeps
one runtime per rule and one open alert per built-in subject in memory; the alerts
themselves are records of the schedulers' store. An evaluation steps every metric and
log rule, a built-in event steps the event rules it matches or its own alert. A restart
keeps the store and forgets the rest. What the telemetry store reports, the values'
order, the reading of a rule's text and the texts of the summaries are parameters, and
each call reads the clock once.
-/

set_option autoImplicit false

namespace Permanu.AlertEvaluator
open ByteText PlanText PlanActions Function OrderedMap
open AdmissionDefinitions OpsStore AlertRecords

structure Scope where
  projectId : Str
  environment : Str
  environmentId : Str
  serviceId : Str
  deriving DecidableEq, Repr

inductive ComparisonOp where
  | unspecified
  | gt
  | gte
  | lt
  | lte
  | eq
  | neq
  | absent
  deriving DecidableEq, Repr

inductive EventKind where
  | unspecified
  | deployFailed
  | rollback
  | healthCheckFailing
  | containerOom
  | containerRestartLoop
  | cronFailed
  | cronMissed
  | backupFailed
  | restoreVerificationFailed
  | certExpiring
  | diskPressure
  | memoryPressure
  | webhookBuildFailed
  | telemetryDropping
  deriving DecidableEq, Repr

/-- `query` is what the telemetry store is asked for. -/
structure MetricCondition (ν : Type) where
  query : Str
  op : ComparisonOp
  threshold : ν
  forDuration : Option ℤ
  deriving DecidableEq, Repr

structure LogCondition where
  query : Str
  count : ℕ
  deriving DecidableEq, Repr

structure EventCondition where
  kind : EventKind
  scope : Option Scope
  deriving DecidableEq, Repr

inductive Condition (ν : Type) where
  | metric (condition : MetricCondition ν)
  | log (condition : LogCondition)
  | event (condition : EventCondition)
  deriving DecidableEq, Repr

structure RuleSpec (ν : Type) where
  severity : AlertSeverity
  condition : Condition ν
  channelIds : List Str
  repeatInterval : Option ℤ
  notifyOnResolve : Bool
  enabled : Bool
  deriving DecidableEq, Repr

structure AlertRule (ν : Type) extends RuleSpec ν where
  id : Str
  name : Str
  deriving DecidableEq, Repr

structure RuleDef (ν : Type) where
  rule : AlertRule ν
  silencedUntil : Option ℤ
  deriving DecidableEq, Repr

/-- What the evaluator is given: the reading of a rule's text, the values a rule compares,
the size of a record, new ids by the time and the number of the draw, and the summary text,
redacted and cut. -/
structure Env (ν : Type) where
  parse : Str → Option (RuleSpec ν)
  compare : ComparisonOp → ν → ν → Bool
  nan : ν
  ofCount : ℕ → ν
  summaryOf : Str → ν → Str
  redacted : Str → Str
  len : AlertEvent ν → ℕ
  newId : ℤ → ℕ → Str

variable {ν : Type}

abbrev Rules (ν : Type) := OrderedMap Str (RuleDef ν)

structure Definitions (ν : Type) where
  rules : Rules ν
  channels : List Str

variable (env : Env ν) (w : World ν) (rule : RuleDef ν)

def applyAction (defs : Definitions ν) (action : AdmittedAction) : Definitions ν :=
  let ruleId := action.params["alert_rule_id"]!.text
  let channelId := action.params["channel_id"]!.text
  if kindIn ["alert.rule.create", "alert.rule.update"] action.kind then
    match env.parse action.params["spec"]!.text with
    | some spec =>
      let rule : RuleDef ν :=
        ⟨{ spec with id := ruleId, name := action.params["name"]!.text },
          (defs.rules.get? ruleId).bind RuleDef.silencedUntil⟩
      { defs with rules := defs.rules.insert ltText ruleId rule }
    -- a rule whose text does not parse keeps its last definition
    | none => defs
  else if action.kind = str "alert.rule.delete" then
    { defs with rules := defs.rules.erase ruleId }
  else if action.kind = str "alert.silence" then
    { defs with rules := defs.rules.mapValues fun id rule =>
        if id = ruleId then
          { rule with silencedUntil := action.params["until"]!.asStr.bind timestamp }
        else rule }
  else if kindIn ["alert.channel.create", "alert.channel.update"] action.kind then
    { defs with channels := channelId :: defs.channels.filter fun id => id != channelId }
  else if action.kind = str "alert.channel.delete" then
    { defs with channels := defs.channels.filter fun id => id != channelId }
  else defs

def load (actions : List AdmittedAction) : Definitions ν :=
  (actions.reverse.filter AdmittedAction.succeeded).foldl (applyAction env)
    ⟨empty,[]⟩

structure Runtime (ν : Type) where
  state : AlertState
  since : ℤ
  pendingSince : Option ℤ
  falseStreak : ℕ
  noDataStreak : ℕ
  lastEvaluated : ℤ
  lastValue : Option ν
  episode : Option Str
  lastNotified : ℤ
  lastOccurrence : ℤ
  held : Bool
  deriving DecidableEq, Repr

def Runtime.initial : Runtime ν := ⟨.unspecified,0,none,0,0,0,none,none,0,0,false⟩

inductive EventSource where
  | cronHeartbeat
  | backup
  | telemetry
  | deploy
  | webhook
  deriving DecidableEq, Repr

def EventSource.text : EventSource → Str
  | .cronHeartbeat => str "cron_heartbeat"
  | .backup => str "backup"
  | .telemetry => str "telemetry"
  | .deploy => str "deploy"
  | .webhook => str "webhook"

structure BuiltinKey where
  source : EventSource
  subjectId : Str
  kind : EventKind
  deriving DecidableEq, Repr

structure BuiltinEvent where
  kind : EventKind
  scope : Scope
  source : EventSource
  subjectId : Str
  occurred : Bool
  standalone : Bool
  channelIds : List Str
  summary : Str
  deriving DecidableEq, Repr

def BuiltinEvent.key (event : BuiltinEvent) : BuiltinKey :=
  ⟨event.source,event.subjectId,event.kind⟩

structure State (ν : Type) where
  rules : Rules ν
  channels : List Str
  runtime : Str → Runtime ν
  builtin : OrderedMap BuiltinKey Str
  dropped : Option ℕ
  droppingSince : Option ℤ
  lastDropSeen : ℤ
  sends : Str → List ℤ
  coalesced : Str → ℕ

def State.initial : State ν :=
  ⟨empty,[],fun _ => .initial,empty,none,none,0,fun _ => [],fun _ => 0⟩

structure Notification where
  eventId : Str
  channelId : Str
  coalesced : ℕ
  deriving DecidableEq, Repr

structure World (ν : Type) where
  ops : Store (AlertEvent ν)
  actions : List AdmittedAction
  state : State ν
  tasks : List Notification
  draws : ℕ
  /-- What each built-in alert is about; its record does not say the kind. -/
  subjects : List (Str × BuiltinKey)

def World.setRuntime (id : Str) (runtime : Runtime ν) : World ν :=
  { w with state := { w.state with runtime := update w.state.runtime id runtime } }

def reload : World ν :=
  let defs := load env w.actions
  { w with state := { w.state with rules := defs.rules, channels := defs.channels } }

def perChannelPerMinute : ℕ := 30

def admitSend (state : State ν) (channelId : Str) (now : ℤ) : State ν × Option ℕ :=
  let sends := (state.sends channelId).dropWhile fun time => decide (60 ≤ now - time)
  if perChannelPerMinute ≤ sends.length then
    ({ state with
        sends := update state.sends channelId sends
        coalesced := update state.coalesced channelId (state.coalesced channelId + 1) },
      none)
  else
    ({ state with
        sends := update state.sends channelId (sends ++ [now])
        coalesced := update state.coalesced channelId 0 },
      some (state.coalesced channelId))

def notifyChannel (eventId : Str) (now : ℤ) (w : World ν) (channelId : Str) : World ν :=
  match admitSend w.state channelId now with
  | (state,none) => { w with state := state }
  | (state,some coalesced) =>
    { w with state := state, tasks := w.tasks ++ [⟨eventId,channelId,coalesced⟩] }

def notify (event : AlertEvent ν) (channelIds : List Str) (now : ℤ) : World ν :=
  (channelIds.eraseDups.filter fun id => decide (id ∈ w.state.channels)).foldl
    (notifyChannel event.id now) w

def World.store (now : ℤ) (w : World ν) (event : AlertEvent ν) : World ν :=
  { w with ops := storeEvent env.len now w.ops event }

def RuleDef.silenced (rule : RuleDef ν) (now : ℤ) : Bool :=
  rule.silencedUntil.any fun until_ => decide (now < until_)

def ruleSource : Str := str "rule"

def ruleEvent (value : ν) (now : ℤ) (summary : Str) (draw : ℕ) : AlertEvent ν where
  id := env.newId now draw
  ruleId := rule.rule.id
  ruleName := rule.rule.name
  severity := rule.rule.severity
  state := .firing
  summary := env.redacted (if summary.isEmpty then env.summaryOf rule.rule.name value else summary)
  labels := []
  value := value
  startedAt := some now
  resolvedAt := none
  deliveries := []
  source := ruleSource
  subjectId := []

def Runtime.fired (runtime : Runtime ν) (id : Str) (now : ℤ) (held : Bool) : Runtime ν :=
  { runtime with
    state := .firing
    since := now
    pendingSince := none
    falseStreak := 0
    episode := some id
    lastOccurrence := now
    lastNotified := now
    held := held }

def World.fire (now : ℤ) (event : AlertEvent ν) : World ν :=
  let runtime := (w.state.runtime rule.rule.id).fired event.id now (rule.silenced now)
  ({ w with draws := w.draws + 1 }.setRuntime rule.rule.id runtime).store env now event

def openRuleEpisode (value : ν) (now : ℤ) (summary : Str) : World ν :=
  let event := ruleEvent env rule value now summary w.draws
  if rule.silenced now then w.fire env rule now event
  else notify (w.fire env rule now event) event rule.rule.channelIds now

def Runtime.resolvedNow (runtime : Runtime ν) (now : ℤ) : Runtime ν :=
  { runtime with
    state := .resolved
    since := now
    falseStreak := 0
    held := false
    episode := none }

def World.lapse (now : ℤ) : World ν :=
  w.setRuntime rule.rule.id ((w.state.runtime rule.rule.id).resolvedNow now)

def tellResolved (event : AlertEvent ν) (now : ℤ) : World ν :=
  if rule.rule.notifyOnResolve && !rule.silenced now then
    notify w event rule.rule.channelIds now
  else w

def World.settle : World ν :=
  w.setRuntime rule.rule.id { w.state.runtime rule.rule.id with state := .ok }

def resolveRuleEpisode (now : ℤ) : World ν :=
  match (w.state.runtime rule.rule.id).episode.bind (loadEvent w.ops) with
  | none => w.lapse rule now
  | some found =>
    (tellResolved ((w.lapse rule now).store env now (found.resolvedBy now)) rule
      (found.resolvedBy now) now).settle rule

def defaultRepeatSeconds : ℤ := 4 * 3600

def repeatOrRelease (now : ℤ) : World ν :=
  let runtime := w.state.runtime rule.rule.id
  if runtime.state ≠ .firing || rule.silenced now then w
  else if runtime.held ||
      decide (rule.rule.repeatInterval.getD defaultRepeatSeconds ≤ now - runtime.lastNotified) then
    let marked := w.setRuntime rule.rule.id { runtime with held := false, lastNotified := now }
    match runtime.episode.bind (loadEvent w.ops) with
    | some event => notify marked event rule.rule.channelIds now
    | none => marked
  else w

def eventResolveSeconds : ℤ := 86400

def expireEventRule (now : ℤ) : World ν :=
  let runtime := w.state.runtime rule.rule.id
  if runtime.state = .firing && decide (eventResolveSeconds ≤ now - runtime.lastOccurrence) then
    resolveRuleEpisode env w rule now
  else w

def scopeMatches (rule : Option Scope) (event : Scope) : Bool :=
  match rule with
  | none => true
  | some rule =>
    let same := fun (a b : Str) => a.isEmpty || a == b
    same rule.projectId event.projectId && same rule.environment event.environment
      && same rule.environmentId event.environmentId && same rule.serviceId event.serviceId

def RuleDef.matches (event : BuiltinEvent) : Bool :=
  rule.rule.enabled &&
    match rule.rule.condition with
    | .event condition => condition.kind == event.kind && scopeMatches condition.scope event.scope
    | _ => false

def standaloneEvent (event : BuiltinEvent) (summary : Str) (now : ℤ) (draw : ℕ) : AlertEvent ν where
  id := env.newId now draw
  ruleId := []
  ruleName := []
  severity := .warning
  state := .firing
  summary := summary
  labels := [(str "project_id",event.scope.projectId), (str "environment",event.scope.environment),
    (str "service_id",event.scope.serviceId)].filter fun label => !label.2.isEmpty
  value := env.nan
  startedAt := some now
  resolvedAt := none
  deliveries := []
  source := event.source.text
  subjectId := event.subjectId

def openOf (builtin : OrderedMap BuiltinKey Str) (event : BuiltinEvent) : List BuiltinKey :=
  builtin.keys.filter fun key => key.source == event.source && key.subjectId == event.subjectId

/-- The alert a counterpart resolves: its own kind, or some other one of the subject. `choice`
is the hash map's order. -/
def resolvedKey (builtin : OrderedMap BuiltinKey Str) (event : BuiltinEvent) (choice : ℕ) :
    Option BuiltinKey :=
  if (builtin.get? event.key).isSome then some event.key
  else
    let candidates := openOf builtin event
    candidates[choice % candidates.length]?

def World.begin (key : BuiltinKey) (now : ℤ) (alert : AlertEvent ν) : World ν :=
  { w with
    draws := w.draws + 1
    state := { w.state with
      builtin := w.state.builtin.insert (fun _ _ => false) key alert.id }
    subjects := (alert.id,key) :: w.subjects }.store env now alert

def World.forget (key : BuiltinKey) : World ν :=
  { w with state := { w.state with builtin := w.state.builtin.erase key } }

def standalone (event : BuiltinEvent) (matching : List (RuleDef ν))
    (summary : Str) (now : ℤ) (choice : ℕ) : World ν :=
  let channels := event.channelIds ++
    (matching.filter fun rule => !rule.silenced now).flatMap fun rule => rule.rule.channelIds
  if event.occurred then
    if (w.state.builtin.get? event.key).isSome then w
    else
      let alert := standaloneEvent env event summary now w.draws
      notify (w.begin env event.key now alert) alert channels now
  else
    match resolvedKey w.state.builtin event choice with
    | none => w
    | some key =>
      match (w.state.builtin.get? key).bind (loadEvent w.ops) with
      | none => w.forget key
      | some found =>
        notify ((w.forget key).store env now (found.resolvedBy now)) (found.resolvedBy now)
          channels now

def builtinRule (event : BuiltinEvent) (summary : Str) (now : ℤ) (w : World ν)
    (rule : RuleDef ν) : World ν :=
  let runtime := w.state.runtime rule.rule.id
  let firing := decide (runtime.state = .firing)
  if event.occurred then
    if firing then w.setRuntime rule.rule.id { runtime with lastOccurrence := now }
    else openRuleEpisode env w rule env.nan now summary
  else if firing then resolveRuleEpisode env w rule now
  else w

def builtin (event : BuiltinEvent) (now : ℤ) (choice : ℕ) : World ν :=
  let loaded := reload env w
  let matching := (loaded.state.rules.entries.map Prod.snd).filter fun rule => rule.matches event
  let summary := env.redacted event.summary
  if event.standalone then standalone env loaded event matching summary now choice
  else matching.foldl (builtinRule env event summary now) loaded

def droppingClearSeconds : ℤ := 300

def droppingEvent (occurred : Bool) : BuiltinEvent where
  kind := .telemetryDropping
  scope := ⟨[],[],[],[]⟩
  source := .telemetry
  subjectId := []
  occurred := occurred
  standalone := false
  channelIds := []
  summary :=
    if occurred then str "the telemetry store is dropping records"
    else str "the telemetry store stopped dropping records"

def seeDropped (state : State ν) (total : ℕ) (now : ℤ) : State ν × Option Bool :=
  let increased := state.dropped.any fun previous => decide (previous < total)
  let lastDropSeen := if increased then now else state.lastDropSeen
  let occurred := increased && state.droppingSince.isNone
  let droppingSince := if occurred then some now else state.droppingSince
  let cleared := !increased && droppingSince.isSome
    && decide (droppingClearSeconds ≤ now - lastDropSeen)
  ({ state with
      dropped := some total
      lastDropSeen := lastDropSeen
      droppingSince := if cleared then none else droppingSince },
    if occurred || cleared then some occurred else none)

def checkDropping (total : ℕ) (now : ℤ) (choice : ℕ) : World ν :=
  let seen := seeDropped w.state total now
  match seen.2 with
  | none => { w with state := seen.1 }
  | some occurred => builtin env { w with state := seen.1 } (droppingEvent occurred) now choice

structure AlertSource (ν : Type) where
  metric : MetricCondition ν → ℤ → List ν
  logCount : LogCondition → ℤ → ℕ
  droppedTotal : ℕ

/-- Whether a metric condition holds (`none` without data), and the value that decides it. -/
def metricReading (condition : MetricCondition ν) (values : List ν) : Option Bool × ν :=
  if condition.op = .absent then (some values.isEmpty,env.nan)
  else
    match values with
    | [] => (none,env.nan)
    | first :: _ =>
      match values.find? fun value => env.compare condition.op value condition.threshold with
      | some hit => (some true,hit)
      | none => (some false,first)

def resolveAfterFalse : ℕ := 2
def noDataAfter : ℕ := 3

inductive Verdict where
  | stay
  | fire
  | resolve
  deriving DecidableEq, Repr

def Runtime.withoutData (runtime : Runtime ν) (now : ℤ) : Runtime ν × Verdict :=
  let counted := { runtime with noDataStreak := runtime.noDataStreak + 1 }
  if runtime.state = .firing then
    ({ counted with falseStreak := runtime.falseStreak + 1 },
      if resolveAfterFalse ≤ runtime.falseStreak + 1 then .resolve else .stay)
  else if noDataAfter ≤ runtime.noDataStreak + 1 ∧ runtime.state ≠ .noData then
    ({ counted with state := .noData, since := now, pendingSince := none },.stay)
  else (counted,.stay)

def Runtime.holding (runtime : Runtime ν) (now forDuration : ℤ) : Runtime ν × Verdict :=
  let counted := { runtime with noDataStreak := 0, falseStreak := 0 }
  match runtime.state with
  | .firing => (counted,.stay)
  | .pending =>
    (counted,if forDuration ≤ now - runtime.pendingSince.getD now then .fire else .stay)
  | _ =>
    if forDuration = 0 then (counted,.fire)
    else ({ counted with state := .pending, since := now, pendingSince := some now },.stay)

def Runtime.failing (runtime : Runtime ν) (now : ℤ) : Runtime ν × Verdict :=
  let counted := { runtime with noDataStreak := 0 }
  match runtime.state with
  | .firing =>
    ({ counted with falseStreak := runtime.falseStreak + 1 },
      if resolveAfterFalse ≤ runtime.falseStreak + 1 then .resolve else .stay)
  | .pending | .noData | .resolved =>
    ({ counted with state := .ok, since := now, pendingSince := none },.stay)
  | _ => ({ counted with state := .ok },.stay)

def Runtime.evaluated (runtime : Runtime ν) (holds : Option Bool) (value : ν)
    (now forDuration : ℤ) : Runtime ν × Verdict :=
  let seen := { runtime with lastEvaluated := now, lastValue := some value }
  match holds with
  | none => seen.withoutData now
  | some true => seen.holding now forDuration
  | some false => seen.failing now

def stepRule (rule : RuleDef ν) (holds : Option Bool) (value : ν) (now forDuration : ℤ) : World ν :=
  let next := (w.state.runtime rule.rule.id).evaluated holds value now forDuration
  let evaluated := w.setRuntime rule.rule.id next.1
  match next.2 with
  | .stay => evaluated
  | .fire => openRuleEpisode env evaluated rule value now []
  | .resolve => resolveRuleEpisode env evaluated rule now

def reading (source : AlertSource ν) (rule : RuleDef ν) (now : ℤ) : Option (Option Bool × ν × ℤ) :=
  match rule.rule.condition with
  | .metric condition =>
    let read := metricReading env condition (source.metric condition now)
    some (read.1,read.2,condition.forDuration.getD 0)
  | .log condition =>
    let count := source.logCount condition now
    some (some (decide (condition.count < count)),env.ofCount count,0)
  | .event _ => none

def evaluateRule (source : AlertSource ν) (now : ℤ) (w : World ν) (rule : RuleDef ν) : World ν :=
  if !rule.rule.enabled then w
  else
    let stepped :=
      match reading env source rule now with
      | some (holds,value,forDuration) => stepRule env w rule holds value now forDuration
      | none => expireEventRule env w rule now
    repeatOrRelease stepped rule now

def evaluate (source : AlertSource ν) (now : ℤ) (choice : ℕ) : World ν :=
  let checked := checkDropping env (reload env w) source.droppedTotal now choice
  (checked.state.rules.entries.map Prod.snd).foldl (evaluateRule env source now) checked

inductive Op (ν : Type) where
  | evaluate (source : AlertSource ν) (now : ℤ) (choice : ℕ)
  | builtin (event : BuiltinEvent) (now : ℤ) (choice : ℕ)
  /-- The recorded alert actions change: rules are created, updated, silenced or deleted. -/
  | recordActions (actions : List AdmittedAction)
  | recordDelivery (eventId : Str) (result : DeliveryResult)
  | restart

def recordDelivery (eventId : Str) (result : DeliveryResult) : World ν :=
  match loadEvent w.ops eventId with
  | none => w
  | some event =>
    { w with ops := putEvent env.len w.ops (event.delivered result) (event.startedAt.getD 0) }

def start : World ν := ⟨emptyStore,[],.initial,[],0,[]⟩

def step : Op ν → World ν
  | .evaluate source now choice => evaluate env w source now choice
  | .builtin event now choice => builtin env w event now choice
  | .recordActions actions => { w with actions := actions }
  | .recordDelivery eventId result => recordDelivery env w eventId result
  | .restart => { w with state := .initial, tasks := [] }

end Permanu.AlertEvaluator
