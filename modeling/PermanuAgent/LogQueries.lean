import PermanuAgent.PlanText
import PermanuAgent.StepRuns
import Mathlib.Data.List.Sort
import Mathlib.Data.List.Forall2

/-!
# Log queries

The runner-backed `QueryLogs`: the history of the wanted containers, filtered and merged,
and then the live lines of a `follow`. Every message is redacted before it leaves the
agent. The history is filtered by the redacted messages, the live lines by the raw ones.

The redaction rules, the lower case of a text and the compiled regex are functions of a
text. The runner's answers and the order in which live lines arrive are inputs.
-/

set_option autoImplicit false

namespace Permanu.LogQueries
open ByteText PlanText List Function StepRuns

structure Texts where
  redact : Str → Str
  toLowercase : Str → Str
  compile : Str → Bool → Option (Str → Bool)

inductive Stream where
  | stdout
  | stderr
  deriving DecidableEq, Repr

def Stream.text : Stream → Str
  | .stdout => str "stdout"
  | .stderr => str "stderr"

structure RunnerContainer where
  id : Str
  name : Str
  image : Str
  state : Str
  projectId : Str
  environment : Str
  environmentId : Str
  serviceId : Str
  serviceKind : Str
  deploymentId : Str
  specDigestHex : Str
  deriving DecidableEq, Repr

structure ContainerFilter where
  projectId : Str
  environmentId : Str
  serviceId : Str
  deriving DecidableEq, Repr

structure Failure where
  code : Str
  message : Str
  deriving DecidableEq, Repr

structure LogLine where
  stream : Stream
  line : Str
  deriving DecidableEq, Repr

inductive StatusCode where
  | unimplemented
  | invalidArgument
  | unavailable
  deriving DecidableEq, Repr

structure Status where
  code : StatusCode
  message : Str
  deriving DecidableEq, Repr

/-- A record's position: unix nanos, container id, and the ordinal among the container's lines
of that time. -/
structure Key where
  nanos : ℤ
  containerId : Str
  ordinal : ℕ
  deriving DecidableEq, Repr

def Key.cursor (key : Key) : Str :=
  str "v1." ++ decimalInt key.nanos ++ [byte '.'] ++ key.containerId ++ [byte '.'] ++
    decimal key.ordinal

def Key.lt (a b : Key) : Bool :=
  decide (a.nanos < b.nanos) || (decide (a.nanos = b.nanos) &&
    (ltText a.containerId b.containerId || (decide (a.containerId = b.containerId) &&
      decide (a.ordinal < b.ordinal))))

def parseSigned (low high : ℤ) (s : Str) : Option ℤ :=
  let negative := decide (s.head? = some (byte '-')) && decide (low < 0)
  let digits := if negative || decide (s.head? = some (byte '+')) then s.tail else s
  if digits = [] || !digits.all isDigit then none
  else
    let value : ℤ := if negative then -(parseDecimal digits : ℤ) else parseDecimal digits
    if low ≤ value ∧ value ≤ high then some value else none

def Key.parse (cursor : Str) : Option Key :=
  match cursor.splitOn (byte '.') with
  | [version, nanos, id, ordinal] =>
    if version = str "v1" && id ≠ [] && decide (id.length ≤ 128) &&
        id.all fun b => isAlphanumeric b || oneOf "_-" b then
      match parseSigned (-2^127) (2^127 - 1) nanos, parseSigned 0 (2^32 - 1) ordinal with
      | some nanos, some ordinal => some ⟨nanos,id,ordinal.toNat⟩
      | _, _ => none
    else none
  | _ => none

inductive SourceType where
  | app
  | service
  deriving DecidableEq, Repr

structure LogQuery where
  projectId : Str
  environmentId : Str
  environment : Str
  serviceId : Str
  appId : Str
  deploymentId : Str
  /-- `none` is a source that needs the telemetry store. -/
  sourceTypes : List (Option SourceType)
  contains : Str
  regex : Str
  caseInsensitive : Bool
  start : Option (ℤ × ℤ)
  «end» : Option (ℤ × ℤ)
  tail : ℕ
  follow : Bool
  limit : ℕ
  cursor : Str
  traceId : Str
  container : Str
  levels : List ℕ
  backward : Bool
  runId : Str

structure Plan where
  filter : ContainerFilter
  environment : Str
  app : Bool
  service : Bool
  deploymentId : Str
  container : Option Str
  contains : Option Str
  caseInsensitive : Bool
  regex : Option (Str → Bool)
  start : Option ℤ
  «end» : Option ℤ
  tail : ℕ
  limit : ℕ
  follow : Bool
  backward : Bool
  cursor : Option Key
  matchesNothing : Bool

def defaultLimit : ℕ := 1000
def maxRecords : ℕ := 10000
def maxContainers : ℕ := 50
def maxFollowed : ℕ := 20
def batchRecords : ℕ := 500
def batchBytes : ℕ := 1024 * 1024
def followRecordsPerSecond : ℕ := 2000
def maxMessageBytes : ℕ := 16 * 1024
def maxRegexBytes : ℕ := 512
def maxContainsBytes : ℕ := 4 * 1024
def maxLogTail : ℕ := 10000

def invalid (message : String) : Status := ⟨.invalidArgument,str message⟩

def compiledRegex (texts : Texts) (query : LogQuery) : Except Status (Option (Str → Bool)) :=
  if query.regex = [] then .ok none
  else if maxRegexBytes < query.regex.length then .error (invalid "regex is longer than 512 bytes")
  else
    match texts.compile query.regex query.caseInsensitive with
    | some matcher => .ok (some matcher)
    | none => .error (invalid "regex does not compile")

def parsedCursor (query : LogQuery) : Except Status (Option Key) :=
  if query.cursor = [] then .ok none
  else
    match Key.parse query.cursor with
    | some key => .ok (some key)
    | none => .error (invalid "invalid cursor")

def nanosOf (time : ℤ × ℤ) : ℤ := time.1 * 1000000000 + time.2

def planOf (texts : Texts) (query : LogQuery) : Except Status Plan :=
  if query.sourceTypes.any Option.isNone then
    .error ⟨.unimplemented,
      str "only APP and SERVICE logs are served before the telemetry store"⟩
  else if query.runId ≠ [] then .error ⟨.unimplemented,str "run_id needs the telemetry store"⟩
  else if query.appId ≠ [] then
    .error (invalid "QueryLogs scopes by project, environment and service")
  else if query.follow && query.backward then .error (invalid "follow requires FORWARD")
  else if maxRecords < query.tail ∨ maxRecords < query.limit then
    .error (invalid "tail and limit are at most 10000")
  else if maxContainsBytes < query.contains.length then .error (invalid "contains is too long")
  else
    match compiledRegex texts query, parsedCursor query with
    | .error status, _ => .error status
    | _, .error status => .error status
    | .ok regex, .ok cursor => .ok {
        filter := ⟨query.projectId,query.environmentId,query.serviceId⟩
        environment := query.environment
        app := query.sourceTypes.isEmpty || query.sourceTypes.contains (some .app)
        service := query.sourceTypes.isEmpty || query.sourceTypes.contains (some .service)
        deploymentId := query.deploymentId
        container := if query.container = [] then none else some query.container
        contains :=
          if query.contains = [] then none
          else some (if query.caseInsensitive then texts.toLowercase query.contains
            else query.contains)
        caseInsensitive := query.caseInsensitive
        regex := regex
        start := query.start.map nanosOf
        «end» := query.end.map nanosOf
        tail := query.tail
        limit := if query.limit = 0 then defaultLimit else query.limit
        follow := query.follow
        backward := query.backward
        cursor := cursor
        matchesNothing := query.levels ≠ [] || query.traceId ≠ [] }

def parseNanos (stamp : Str) : Option ℤ :=
  match stripSuffix stamp "Z" with
  | none => none
  | some body =>
    let parts := (splitOnce '.' body).getD (body,[])
    if 9 < parts.2.length || !parts.2.all isDigit then none
    else
      (timestamp (parts.1 ++ [byte 'Z'])).map fun whole =>
        whole * 1000000000 + (if parts.2 = [] then 0
          else (parseDecimal (parts.2 ++ List.replicate (9 - parts.2.length) (byte '0')) : ℤ))

def splitLine (line : Str) : Option ℤ × Str :=
  let parts := (splitOnce ' ' line).getD (line,[])
  match parseNanos parts.1 with
  | some nanos => (some nanos,parts.2)
  | none => (none,line)

def sinceOf (nanos : ℤ) : Str :=
  let seconds := nanos / 1000000000
  formatTimestamp (max 0 (if -2^63 ≤ seconds ∧ seconds < 2^63 then seconds else 0))

def Plan.textMatches (texts : Texts) (plan : Plan) (message : Str) : Bool :=
  !plan.matchesNothing &&
    (match plan.contains with
      | some needle =>
        decide (needle <:+: (if plan.caseInsensitive then texts.toLowercase message else message))
      | none => true) &&
    (match plan.regex with
      | some isMatch => isMatch message
      | none => true)

def Plan.inRange (plan : Plan) (key : Key) : Bool :=
  !(plan.start.any fun start => decide (key.nanos < start)) &&
    !(plan.end.any fun finish => decide (finish ≤ key.nanos)) &&
    (match plan.cursor with
      | some cursor => if plan.backward then key.lt cursor else cursor.lt key
      | none => true)

def Plan.since (plan : Plan) : Option Str :=
  match plan.cursor with
  | some cursor => if plan.backward then plan.start.map sinceOf else some (sinceOf cursor.nanos)
  | none => plan.start.map sinceOf

def Plan.perContainerTail (plan : Plan) : ℕ :=
  max 1 (min (if 0 < plan.tail && plan.cursor.isNone then plan.tail else plan.limit) maxLogTail)

def sourceTypeOf (container : RunnerContainer) : SourceType :=
  if container.serviceKind = str "database" ∨ container.serviceKind = str "bucket" then .service
  else .app

def Plan.wanted (plan : Plan) (container : RunnerContainer) : Bool :=
  (match sourceTypeOf container with
    | .service => plan.service
    | .app => plan.app) &&
    (plan.deploymentId = [] || container.deploymentId = plan.deploymentId) &&
    (plan.environment = [] || container.environment = plan.environment)

structure LogRecord where
  cursor : Str
  timestamp : ℤ × ℤ
  message : Str
  sourceType : SourceType
  source : Str
  containerId : Str
  containerName : Str
  image : Str
  projectId : Str
  serviceId : Str
  deploymentId : Str
  stream : Str
  fields : List (Str × Str)
  redacted : Bool
  deriving DecidableEq, Repr

def charBoundary (message : Str) : ℕ → ℕ
  | 0 => 0
  | n + 1 =>
    match message[n + 1]? with
    | some b => if isContinuation b then charBoundary message n else n + 1
    | none => n + 1

def cutMessage (message : Str) : Str :=
  message.take (charBoundary message (min message.length maxMessageBytes))

def recordFields (container : RunnerContainer) : List (Str × Str) :=
  [(str "environment",container.environment), (str "environment_id",container.environmentId),
    (str "service_kind",container.serviceKind),
    (str "spec_digest_hex",container.specDigestHex)].filter fun field => decide (field.2 ≠ [])

def record (texts : Texts) (container : RunnerContainer) (key : Key) (stream : Stream)
    (message : Str) : LogRecord where
  cursor := key.cursor
  timestamp :=
    (if -2^63 ≤ key.nanos / 1000000000 ∧ key.nanos / 1000000000 < 2^63 then
      key.nanos / 1000000000 else 0,key.nanos % 1000000000)
  message := texts.redact (cutMessage message)
  sourceType := sourceTypeOf container
  source :=
    (match sourceTypeOf container with
      | .service => str "service:"
      | .app => str "app:") ++ container.name
  containerId := container.id
  containerName := container.name
  image := container.image
  projectId := container.projectId
  serviceId := container.serviceId
  deploymentId := container.deploymentId
  stream := stream.text
  fields := recordFields container
  redacted := decide (texts.redact (cutMessage message) ≠ cutMessage message)

structure Parsed where
  nanos : ℤ
  stream : Stream
  message : Str

def parsedLine (line : LogLine) : Parsed :=
  ⟨(splitLine line.line).1.getD 0,line.stream,(splitLine line.line).2⟩

def numbered (texts : Texts) (container : RunnerContainer) :
    Option (ℤ × ℕ) → List Parsed → List (Key × LogRecord)
  | _, [] => []
  | previous, line :: rest =>
    let ordinal :=
      match previous with
      | some (time,ordinal) => if time = line.nanos then ordinal + 1 else 0
      | none => 0
    let key : Key := ⟨line.nanos,container.id,ordinal⟩
    (key,record texts container key line.stream line.message) ::
      numbered texts container (some (line.nanos,ordinal)) rest

def recordsOf (texts : Texts) (container : RunnerContainer) (lines : List LogLine) :
    List (Key × LogRecord) :=
  numbered texts container none
    ((lines.map parsedLine).insertionSort fun a b => a.nanos ≤ b.nanos)

abbrev LogsAnswer := Except Failure (List LogLine)

structure Runner where
  inspectContainer : Str → Except Failure Str
  listContainers : ContainerFilter → Except Failure (List RunnerContainer)
  containerLogs : Str → ℕ → Option Str → LogsAnswer

def unavailable (failure : Failure) : Status :=
  ⟨.unavailable,str "container logs unavailable (" ++ failure.code ++ str "): " ++ failure.message⟩

def containers (plan : Plan) (inspectContainer : Str → Except Failure Str)
    (listContainers : ContainerFilter → Except Failure (List RunnerContainer)) :
    Except Status (List RunnerContainer × Bool) :=
  let listed (resolved : Option Str) : Except Status (List RunnerContainer × Bool) :=
    match listContainers plan.filter with
    | .error failure => .error (unavailable failure)
    | .ok all =>
      let wanted := (all.filter fun container => plan.wanted container &&
        (match resolved with
          | some id => id ≠ [] && container.id = id
          | none => true)).insertionSort fun a b => leText a.id b.id = true
      .ok (wanted.take maxContainers,decide (maxContainers < wanted.length))
  match plan.container with
  | none => listed none
  | some name =>
    match inspectContainer name with
    | .ok id => listed (some id)
    | .error failure =>
      if failure.code = str "not_found" then .ok ([],false) else .error (unavailable failure)

def containerHistory (texts : Texts) (plan : Plan) (container : RunnerContainer)
    (answer : LogsAnswer) : List (Key × LogRecord) × Bool :=
  match answer with
  | .ok lines => (recordsOf texts container lines,
      decide (plan.perContainerTail ≤ lines.length ∧ plan.tail = 0))
  | .error failure => ([],decide (failure.code ≠ str "not_found"))

def lastKeys (all : List (Key × LogRecord)) : Str → Option Key :=
  all.foldl (fun last entry id =>
    if id = entry.1.containerId then
      match last id with
      | none => some entry.1
      | some key => if key.lt entry.1 then some entry.1 else some key
    else last id) fun _ => none

structure History where
  records : List (Key × LogRecord)
  truncated : Bool
  last : Str → Option Key

def selected (texts : Texts) (plan : Plan) (all : List (Key × LogRecord)) (truncated : Bool) :
    History :=
  let kept := (all.filter fun entry =>
    plan.inRange entry.1 && plan.textMatches texts entry.2.message).insertionSort
      fun a b => b.1.lt a.1 = false
  let tailQuery := 0 < plan.tail && plan.cursor.isNone
  let wanted := if tailQuery then plan.tail else plan.limit
  let cut :=
    if wanted < kept.length then
      if plan.backward || tailQuery then kept.drop (kept.length - wanted) else kept.take wanted
    else kept
  ⟨if plan.backward then cut.reverse else cut,
    truncated || (decide (wanted < kept.length) && !tailQuery),lastKeys all⟩

def history (texts : Texts) (plan : Plan) (logs : Str → ℕ → Option Str → LogsAnswer)
    (listed : List RunnerContainer) : History :=
  let read := listed.map fun container =>
    containerHistory texts plan container (logs container.id plan.perContainerTail plan.since)
  selected texts plan (read.flatMap Prod.fst) (read.any Prod.snd)

inductive Kind where
  | truncated
  | «end»
  | caughtUp
  | dropped
  | keepalive
  deriving DecidableEq, Repr

inductive Frame where
  | batch (records : List LogRecord)
  | status (kind : Kind) (dropped : ℕ) (cursor message : Str)
  deriving DecidableEq, Repr

def batches : List LogRecord → ℕ → List LogRecord → List Frame
  | batch, _, [] => if batch = [] then [] else [.batch batch]
  | batch, bytes, next :: rest =>
    if batch.length < batchRecords &&
        (batch = [] || bytes + next.message.length + 512 ≤ batchBytes) then
      batches (batch ++ [next]) (bytes + next.message.length + 512) rest
    else .batch batch :: batches [next] (next.message.length + 512) rest

def sendBatches (records : List LogRecord) : List Frame := batches [] 0 records

structure Follow where
  seen : Str → Option (ℤ × ℕ)
  replayed : Str → ℕ
  followed : List Str
  firstSince : Str → Option (Option Str)
  opened : List (Str × Option Str)
  sentInWindow : ℕ
  dropped : ℕ
  cursor : Str
  frames : List Frame
  closed : Bool

def Follow.open (w : Follow) (id : Str) (since : Option Str) : Follow × Bool :=
  if maxFollowed ≤ w.followed.length ∨ id ∈ w.followed then (w,false)
  else ({ w with followed := w.followed ++ [id], opened := w.opened ++ [(id,since)] },true)

def Follow.openFirst (nowSince : Str) (last : Str → Option Key) (w : Follow)
    (container : RunnerContainer) : Follow :=
  let since := ((last container.id).map fun key => sinceOf key.nanos).getD nowSince
  (Follow.open { w with
    firstSince := update w.firstSince container.id (some (some since)) }
    container.id (some since)).1

def running (listed : List RunnerContainer) : List RunnerContainer :=
  listed.filter fun container => decide (container.state = str "running")

def startFollow (now : ℤ) (listed : List RunnerContainer) (last : Str → Option Key)
    (cursor : Str) (frames : List Frame) : Follow :=
  (running listed).foldl (Follow.openFirst (sinceOf (now * 1000000000)) last)
    ⟨fun id => (last id).map fun key => (key.nanos,key.ordinal + 1),fun _ => 0,[],fun _ => none,[],
      0,0,cursor,frames,false⟩

inductive Step where
  /-- A live line; `elapsed` says that the second of the rate limit is over. -/
  | line (container : RunnerContainer) (stream : Stream) (text : Str) (elapsed : Bool)
  /-- The connections that have ended, and the containers listed now. -/
  | keepalive (finished : List Str) (inspectContainer : Str → Except Failure Str)
      (listContainers : ContainerFilter → Except Failure (List RunnerContainer))
  | close

def Follow.renew (w : Follow) (elapsed : Bool) : Follow :=
  if elapsed then
    { w with
      sentInWindow := 0
      dropped := 0
      frames := w.frames ++ (if 0 < w.dropped then
        [.status .dropped w.dropped w.cursor (str "follow rate limit")] else []) }
  else w

def Follow.deliver (texts : Texts) (w : Follow) (container : RunnerContainer) (key : Key)
    (stream : Stream) (message : Str) : Follow :=
  if followRecordsPerSecond ≤ w.sentInWindow then { w with dropped := w.dropped + 1 }
  else
    { w with
      sentInWindow := w.sentInWindow + 1
      cursor := key.cursor
      frames := w.frames ++ sendBatches [record texts container key stream message] }

def Follow.accept (texts : Texts) (plan : Plan) (w : Follow) (container : RunnerContainer)
    (stream : Stream) (key : Key) (message : Str) (elapsed : Bool) : Follow :=
  let noted := { w with
    seen := update w.seen container.id (some (key.nanos,key.ordinal + 1))
    replayed := update w.replayed container.id (key.ordinal + 1) }
  if plan.inRange key && plan.textMatches texts message then
    (noted.renew elapsed).deliver texts container key stream message
  else noted

def Follow.live (texts : Texts) (plan : Plan) (w : Follow) (container : RunnerContainer)
    (stream : Stream) (nanos : ℤ) (message : Str) (elapsed : Bool) : Follow :=
  match w.seen container.id with
  | none => w.accept texts plan container stream ⟨nanos,container.id,0⟩ message elapsed
  | some (newest,count) =>
    if nanos < newest then w
    else if nanos = newest then
      if w.replayed container.id < count then
        { w with replayed :=
            update w.replayed container.id (w.replayed container.id + 1) }
      else w.accept texts plan container stream ⟨nanos,container.id,count⟩ message elapsed
    else w.accept texts plan container stream ⟨nanos,container.id,0⟩ message elapsed

/-- A container that is not followed: from the newest line, or from its first `since`. -/
def Follow.reopen (w : Follow) (container : RunnerContainer) : Follow :=
  if container.id ∈ w.followed then w
  else
    let first := (w.firstSince container.id).getD none
    let since :=
      match w.seen container.id with
      | some (nanos,_) => some (sinceOf nanos)
      | none => first
    let noted :=
      match w.seen container.id with
      | some _ => w
      | none => { w with firstSince := update w.firstSince container.id (some first) }
    match noted.open container.id since with
    | (after,true) => { after with replayed := update after.replayed container.id 0 }
    | (after,false) => after

def step (texts : Texts) (plan : Plan) (w : Follow) : Step → Follow
  | .line container stream text elapsed =>
    if w.closed then w
    else w.live texts plan container stream ((splitLine text).1.getD 0) (splitLine text).2 elapsed
  | .keepalive finished inspectContainer listContainers =>
    if w.closed then w
    else
      let beat := { w with
        frames := w.frames ++ [.status .keepalive 0 w.cursor []]
        followed := w.followed.filter fun id => decide (id ∉ finished) }
      match containers plan inspectContainer listContainers with
      | .error _ => beat
      | .ok (current,_) => (running current).foldl Follow.reopen beat
  | .close => { w with closed := true }

def runWith (texts : Texts) (plan : Plan) (logs : Str → ℕ → Option Str → LogsAnswer) (now : ℤ)
    (listed : List RunnerContainer) (more : Bool) (steps : List Step) : List Frame :=
  let found := history texts plan logs listed
  let cursor := ((found.records.getLast?.map fun entry => entry.1.cursor).or
    (plan.cursor.map Key.cursor)).getD []
  let frames := sendBatches (found.records.map Prod.snd) ++
    (if found.truncated || more then
      [.status .truncated 0 cursor (str "the query limit or a server cap was reached")] else [])
  if plan.follow then
    (run (step texts plan) (startFollow now listed found.last cursor
      (frames ++ [.status .caughtUp 0 cursor []])) steps).frames
  else frames ++ [.status .end 0 cursor []]

def queryLogs (texts : Texts) (query : LogQuery) (runner : Runner) (now : ℤ) (steps : List Step) :
    Except Status (List Frame) :=
  match planOf texts query with
  | .error status => .error status
  | .ok plan =>
    match containers plan runner.inspectContainer runner.listContainers with
    | .error status => .error status
    | .ok (listed,more) => .ok (runWith texts plan runner.containerLogs now listed more steps)

/-- Two lines of the same time whose messages are equal after redaction. -/
def AlikeText (texts : Texts) (a b : Str) : Prop :=
  (splitLine a).1 = (splitLine b).1 ∧
    texts.redact (splitLine a).2 = texts.redact (splitLine b).2

/-- Two messages that are not cut, and that redaction changes both or leaves both. -/
def Plain (texts : Texts) (a b : Str) : Prop :=
  ((splitLine a).2.length ≤ maxMessageBytes ∧ (splitLine b).2.length ≤ maxMessageBytes) ∧
    (texts.redact (splitLine a).2 = (splitLine a).2 ↔
      texts.redact (splitLine b).2 = (splitLine b).2)

def SameAnswer (R : Str → Str → Prop) : LogsAnswer → LogsAnswer → Prop
  | .ok lines, .ok lines' =>
    List.Forall₂ (fun a b => a.stream = b.stream ∧ R a.line b.line) lines lines'
  | .error failure, .error failure' => failure = failure'
  | _, _ => False

def SameStep (R : Str → Str → Prop) : Step → Step → Prop
  | .line container stream text elapsed, .line container' stream' text' elapsed' =>
    (container = container' ∧ stream = stream' ∧ elapsed = elapsed') ∧ R text text'
  | .keepalive finished inspectContainer listContainers,
      .keepalive finished' inspectContainer' listContainers' =>
    finished = finished' ∧ inspectContainer = inspectContainer' ∧ listContainers = listContainers'
  | .close, .close => True
  | _, _ => False

theorem charBoundary_length (message : Str) :
    charBoundary message message.length = message.length := by
  cases hlength : message.length with
  | zero => rfl
  | succ n =>
    have hend : message[n + 1]? = none := by
      rw [List.getElem?_eq_none_iff]
      omega
    rw [charBoundary, hend]

theorem cutMessage_short {message : Str} (h : message.length ≤ maxMessageBytes) :
    cutMessage message = message := by
  rw [cutMessage, Nat.min_eq_left h, charBoundary_length, take_length]

theorem record_eq {a b : Str} {texts : Texts} (h : AlikeText texts a b) (hplain : Plain texts a b)
    (container : RunnerContainer) (key : Key) (stream : Stream) :
    record texts container key stream (splitLine a).2 =
      record texts container key stream (splitLine b).2 := by
  have hflag : decide (texts.redact (splitLine a).2 ≠ (splitLine a).2) =
      decide (texts.redact (splitLine b).2 ≠ (splitLine b).2) :=
    decide_eq_decide.2 (not_congr hplain.2)
  simp only [record, cutMessage_short hplain.1.1, cutMessage_short hplain.1.2, h.2] at hflag ⊢
  rw [hflag]

def SameParsed (texts : Texts) (a b : Parsed) : Prop :=
  a.nanos = b.nanos ∧ a.stream = b.stream ∧ ∀ container key,
    record texts container key a.stream a.message = record texts container key b.stream b.message

theorem numbered_eq {lines lines' : List Parsed} {texts : Texts} (container : RunnerContainer)
    (h : List.Forall₂ (SameParsed texts) lines lines') (previous : Option (ℤ × ℕ)) :
    numbered texts container previous lines = numbered texts container previous lines' := by
  induction h generalizing previous with
  | nil => rfl
  | cons hline _ ih =>
    obtain ⟨hnanos,-,hrecord⟩ := hline
    simp only [numbered, hnanos, hrecord, ih]

theorem orderedInsert_same {lines lines' : List Parsed} {texts : Texts} {line line' : Parsed}
    (h : SameParsed texts line line') (hlines : List.Forall₂ (SameParsed texts) lines lines') :
    List.Forall₂ (SameParsed texts) (lines.orderedInsert (fun a b => a.nanos ≤ b.nanos) line)
      (lines'.orderedInsert (fun a b => a.nanos ≤ b.nanos) line') := by
  induction hlines with
  | nil => exact .cons h .nil
  | @cons first first' rest rest' hfirst hrest ih =>
    rw [orderedInsert_cons, orderedInsert_cons, h.1, hfirst.1]
    split
    · exact .cons h (.cons hfirst hrest)
    · exact .cons hfirst ih

theorem insertionSort_same {lines lines' : List Parsed} {texts : Texts}
    (h : List.Forall₂ (SameParsed texts) lines lines') :
    List.Forall₂ (SameParsed texts) (lines.insertionSort fun a b => a.nanos ≤ b.nanos)
      (lines'.insertionSort fun a b => a.nanos ≤ b.nanos) := by
  induction h with
  | nil => exact .nil
  | cons hline _ ih => exact orderedInsert_same hline ih

theorem recordsOf_eq {texts : Texts} {container : RunnerContainer} {lines lines' : List LogLine}
    (h : List.Forall₂ (fun a b => a.stream = b.stream ∧
      (AlikeText texts a.line b.line ∧ Plain texts a.line b.line)) lines lines') :
    recordsOf texts container lines = recordsOf texts container lines' := by
  apply numbered_eq
  apply insertionSort_same
  rw [forall₂_map_left_iff, forall₂_map_right_iff]
  refine h.imp fun a b hab => ?_
  obtain ⟨hstream,halike,hplain⟩ := hab
  refine ⟨congrArg (fun time => time.getD 0) halike.1,hstream,fun container key => ?_⟩
  simp only [parsedLine, hstream]
  exact record_eq halike hplain container key b.stream

theorem containerHistory_eq {texts : Texts} {plan : Plan} {container : RunnerContainer}
    {answer answer' : LogsAnswer}
    (h : SameAnswer (fun a b => AlikeText texts a b ∧ Plain texts a b) answer answer') :
    containerHistory texts plan container answer =
      containerHistory texts plan container answer' := by
  match answer, answer', h with
  | .ok lines, .ok lines', h =>
    simp only [containerHistory, recordsOf_eq h, List.Forall₂.length_eq h]
  | .error failure, .error failure', h => rw [show failure = failure' from h]

theorem history_eq {texts : Texts} {plan : Plan} {logs logs' : Str → ℕ → Option Str → LogsAnswer}
    (h : ∀ id tail since, SameAnswer (fun a b => AlikeText texts a b ∧ Plain texts a b)
      (logs id tail since) (logs' id tail since)) (listed : List RunnerContainer) :
    history texts plan logs listed = history texts plan logs' listed := by
  have hread : (fun container : RunnerContainer => containerHistory texts plan container
        (logs container.id plan.perContainerTail plan.since)) =
      fun container => containerHistory texts plan container
        (logs' container.id plan.perContainerTail plan.since) :=
    funext fun container => containerHistory_eq (h _ _ _)
  rw [history, history, hread]

/-- A pair of live texts between which the query cannot choose. -/
def SameLive (texts : Texts) (plan : Plan) (a b : Str) : Prop :=
  (AlikeText texts a b ∧ Plain texts a b) ∧
    plan.textMatches texts (splitLine a).2 = plan.textMatches texts (splitLine b).2

theorem accept_eq {a b : Str} {texts : Texts} {plan : Plan} (h : SameLive texts plan a b)
    (w : Follow) (container : RunnerContainer) (stream : Stream) (key : Key) (elapsed : Bool) :
    w.accept texts plan container stream key (splitLine a).2 elapsed =
      w.accept texts plan container stream key (splitLine b).2 elapsed := by
  simp only [Follow.accept, Follow.deliver, h.2, record_eq h.1.1 h.1.2]

theorem live_eq {a b : Str} {texts : Texts} {plan : Plan} (h : SameLive texts plan a b) (w : Follow)
    (container : RunnerContainer) (stream : Stream) (nanos : ℤ) (elapsed : Bool) :
    w.live texts plan container stream nanos (splitLine a).2 elapsed =
      w.live texts plan container stream nanos (splitLine b).2 elapsed := by
  simp only [Follow.live, accept_eq h]

theorem step_eq {texts : Texts} {plan : Plan} {op op' : Step}
    (h : SameStep (SameLive texts plan) op op') (w : Follow) :
    step texts plan w op = step texts plan w op' := by
  match op, op', h with
  | .line container stream text elapsed, .line container' stream' text' elapsed', h =>
    obtain ⟨⟨rfl,rfl,rfl⟩,hlive⟩ := h
    simp only [step, hlive.1.1.1, live_eq hlive]
  | .keepalive _ _ _, .keepalive _ _ _, h =>
    obtain ⟨rfl,rfl,rfl⟩ := h
    rfl
  | .close, .close, _ => rfl

theorem run_eq {texts : Texts} {plan : Plan} {steps steps' : List Step}
    (h : List.Forall₂ (SameStep (SameLive texts plan)) steps steps') (w : Follow) :
    run (step texts plan) w steps = run (step texts plan) w steps' := by
  induction h generalizing w with
  | nil => rfl
  | cons hop _ ih =>
    rw [run, run, foldl_cons, foldl_cons, step_eq hop]
    exact ih _

/-- A query gives the same response for two sets of lines with the same times and with messages
that are equal after redaction, when no message is longer than the cut, redaction changes both
messages of a pair or none, and the filter of the query does not tell two live messages apart. -/
theorem queries_reveal_redacted (texts : Texts) (query : LogQuery) (now : ℤ)
    (inspectContainer : Str → Except Failure Str)
    (listContainers : ContainerFilter → Except Failure (List RunnerContainer))
    (logs logs' : Str → ℕ → Option Str → LogsAnswer) (steps steps' : List Step)
    (hlogs : ∀ id tail since, SameAnswer (fun a b => AlikeText texts a b ∧ Plain texts a b)
      (logs id tail since) (logs' id tail since))
    (hsteps : ∀ plan, planOf texts query = .ok plan →
      List.Forall₂ (SameStep (SameLive texts plan)) steps steps') :
    queryLogs texts query ⟨inspectContainer,listContainers,logs⟩ now steps =
      queryLogs texts query ⟨inspectContainer,listContainers,logs'⟩ now steps' := by
  rw [queryLogs, queryLogs]
  cases hplan : planOf texts query with
  | error status => rfl
  | ok plan =>
    have hrun := fun w => run_eq (hsteps plan hplan) w
    simp only [runWith, history_eq hlogs, hrun]

def sampleTexts : Texts where
  redact message :=
    if startsWith message "password=" then
      str "password=[REDACTED]" ++ (message.drop 9).dropWhile fun b => !oneOf " ,;&<>" b
    else message
  toLowercase message := message.map fun b => if isUpper b then b + 32 else b
  compile _ _ := none

def sampleContainer : RunnerContainer where
  id := str "c1"
  name := str "web"
  image := str "img"
  state := str "running"
  projectId := str "p"
  environment := str "production"
  environmentId := str "e"
  serviceId := str "s"
  serviceKind := str "web"
  deploymentId := str "d"
  specDigestHex := []

/-- A query for a text, with or without `follow`. -/
def sampleQuery (contains : String) (follow : Bool) : LogQuery where
  projectId := []
  environmentId := []
  environment := []
  serviceId := []
  appId := []
  deploymentId := []
  sourceTypes := []
  contains := str contains
  regex := []
  caseInsensitive := false
  start := none
  «end» := none
  tail := 0
  follow := follow
  limit := 0
  cursor := []
  traceId := []
  container := []
  levels := []
  backward := false
  runId := []

def sampleRunner (lines : List LogLine) : Runner where
  inspectContainer _ := .error ⟨str "not_found",[]⟩
  listContainers _ := .ok [sampleContainer]
  containerLogs _ _ _ := .ok lines

def secretLine (secret : String) : Str := str ("2026-09-23T10:00:00Z password=" ++ secret)

def liveLine (secret : String) : Step := .line sampleContainer .stdout (secretLine secret) false

instance (texts : Texts) (a b : Str) : Decidable (AlikeText texts a b) :=
  inferInstanceAs (Decidable (_ ∧ _))

instance (texts : Texts) (a b : Str) : Decidable (Plain texts a b) :=
  inferInstanceAs (Decidable (_ ∧ _))

instance (texts : Texts) (plan : Plan) (a b : Str) : Decidable (SameLive texts plan a b) :=
  inferInstanceAs (Decidable ((_ ∧ _) ∧ _))

/-- A query for the name of the secret does not tell two secrets apart. -/
theorem queries_reveal_redacted_password :
    queryLogs sampleTexts (sampleQuery "password" true)
        (sampleRunner [⟨.stdout,secretLine "hunter2"⟩]) 0 [liveLine "hunter2"] =
      queryLogs sampleTexts (sampleQuery "password" true)
        (sampleRunner [⟨.stdout,secretLine "letmein"⟩]) 0 [liveLine "letmein"] := by
  refine queries_reveal_redacted sampleTexts (sampleQuery "password" true) 0 _ _ _ _ _ _
    (fun _ _ _ => .cons ⟨rfl,by decide +kernel⟩ .nil) fun plan hplan => ?_
  cases hplan
  exact .cons ⟨⟨rfl,rfl,rfl⟩,by decide +kernel⟩ .nil

/-- A live query for a guess of the secret is answered only when the guess is right. In the
history, a record says whether its message was redacted or was written that way. -/
theorem live_filter_finds_secret :
    (AlikeText sampleTexts (secretLine "hunter2") (secretLine "letmein") ∧
      queryLogs sampleTexts (sampleQuery "hunter2" true) (sampleRunner []) 0 [liveLine "hunter2"] ≠
        queryLogs sampleTexts (sampleQuery "hunter2" true) (sampleRunner []) 0
          [liveLine "letmein"]) ∧
    AlikeText sampleTexts (secretLine "hunter2") (secretLine "[REDACTED]") ∧
      queryLogs sampleTexts (sampleQuery "password" false)
          (sampleRunner [⟨.stdout,secretLine "hunter2"⟩]) 0 [] ≠
        queryLogs sampleTexts (sampleQuery "password" false)
          (sampleRunner [⟨.stdout,secretLine "[REDACTED]"⟩]) 0 [] := by
  decide +kernel

end Permanu.LogQueries
