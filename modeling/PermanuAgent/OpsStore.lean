import PermanuAgent.ScheduleBinding
import PermanuAgent.AdmissionOpen

/-!
# The store of the schedulers

The cron and backup schedulers keep their run history in one SQLite file: records
by kind and id, the fire times that were claimed, the bindings of scheduled runs and
a floor below which every fire time counts as claimed. Each call is one transaction;
one that fails changes nothing. The length of a message and the seconds SQLite reads
from a text are parameters.
-/

set_option autoImplicit false

namespace Permanu.OpsStore
open ByteText PlanText ScheduleBinding
open AdmissionOpen (StoreError)

inductive RecordKind where
  | cronRun
  | backupRun
  | verification
  | artifact
  | alertEvent
  | webhookDelivery
  | serverBuild
  | stagedSet
  deriving DecidableEq, Repr

structure Row (β : Type) where
  seq : ℕ
  kind : RecordKind
  id : Str
  subject : Str
  slot : Str
  status : ℤ
  time : ℤ
  body : β
  deriving DecidableEq, Repr

structure ClaimedSlot where
  kind : RecordKind
  subject : Str
  slot : Str
  deriving DecidableEq, Repr

structure ScheduledIntent where
  kind : RecordKind
  id : Str
  binding : Str
  deriving DecidableEq, Repr

structure ManualCronReservation where
  planId : Str
  cronId : Str
  digestHex : Str
  expiresAt : ℤ
  runId : Str
  deriving DecidableEq, Repr

structure Store (β : Type) where
  metaRows : List (Str × Str)
  records : List (Row β)
  /-- The last `seq` given out. -/
  lastSeq : ℕ
  claimedSlots : List ClaimedSlot
  scheduledIntents : List ScheduledIntent
  manualReservations : List ManualCronReservation
  deriving DecidableEq, Repr

def emptyStore {β : Type} : Store β := ⟨[],[],0,[],[],[]⟩

def tryMeta {β : Type} (store : Store β) (key : Str) : Option Str := store.metaRows.lookup key

def trySetMeta {β : Type} (store : Store β) (key value : Str) : Store β :=
  { store with metaRows := (key,value) :: store.metaRows.filter fun row => row.1 != key }

def slotFloorKey : Str := str "scheduled_slot_floor"

def minI64 : ℤ := -9223372036854775808
def maxI64 : ℤ := 9223372036854775807

def inI64 (n : ℤ) : Option ℤ := if minI64 ≤ n ∧ n ≤ maxI64 then some n else none

def parseI64 : Str → Option ℤ
  | [] => none
  | sign::rest =>
    if sign = byte '-' then
      if digits rest then inI64 (-(parseDecimal rest : ℤ)) else none
    else if sign = byte '+' then
      if digits rest then inI64 (parseDecimal rest) else none
    else if digits (sign::rest) then inI64 (parseDecimal (sign::rest)) else none

def slotFloor {β : Type} (store : Store β) : Except StoreError (Option ℤ) :=
  match tryMeta store slotFloorKey with
  | none => .ok none
  | some value =>
    match parseI64 value with
    | none => .error (.notSafe (str "invalid scheduled slot floor"))
    | some floor =>
      if decimalInt floor = value then .ok (some floor)
      else .error (.notSafe (str "invalid scheduled slot floor"))

def maxRecordBytes : ℕ := 256 * 1024

def sameRecord {β : Type} (kind : RecordKind) (id : Str) (row : Row β) : Bool :=
  row.kind == kind && row.id == id

def tooLarge : StoreError := .notSafe (str "scheduler record too large")

def writeRecord {β : Type} (len : β → ℕ) (store : Store β) (kind : RecordKind)
    (id subject slot : Str) (status time : ℤ) (message : β) : Except StoreError (Store β) :=
  if maxRecordBytes < len message then .error tooLarge
  else if store.records.any (sameRecord kind id) then
    .ok { store with
      records := store.records.map fun row =>
        if sameRecord kind id row then ⟨row.seq,kind,id,subject,slot,status,time,message⟩
        else row }
  else
    .ok { store with
      records := store.records ++ [⟨store.lastSeq + 1,kind,id,subject,slot,status,time,message⟩]
      lastSeq := store.lastSeq + 1 }

def tryGet {β : Type} (store : Store β) (kind : RecordKind) (id : Str) : Option (Row β) :=
  store.records.find? (sameRecord kind id)

def tryRemove {β : Type} (store : Store β) (kind : RecordKind) (id : Str) : Store β :=
  { store with records := store.records.filter fun row => !sameRecord kind id row }

def maxIntentBytes : ℕ := 4096

def sameIntent (kind : RecordKind) (id : Str) (intent : ScheduledIntent) : Bool :=
  intent.kind == kind && intent.id == id

def intentOf {β : Type} (store : Store β) (kind : RecordKind) (id : Str) : Option ScheduledIntent :=
  store.scheduledIntents.find? (sameIntent kind id)

def bindSchedule {β : Type} (store : Store β) (kind : RecordKind) (id : Str)
    (schedule : ScheduleRef) : Except StoreError (Store β) :=
  let encoded := encodeBinding schedule
  if maxIntentBytes < encoded.length then .error (.notSafe (str "schedule intent too large"))
  else
    match intentOf store kind id with
    | some intent =>
      if intent.binding = encoded then .ok store
      else .error (.notSafe (str "scheduled authority changed"))
    | none =>
      .ok { store with scheduledIntents := store.scheduledIntents ++ [⟨kind,id,encoded⟩] }

def putScheduledRecord {β : Type} (len : β → ℕ) (store : Store β) (kind : RecordKind)
    (id subject : Str) (status time : ℤ) (message : β) (schedule : ScheduleRef) :
    Except StoreError (Store β) :=
  match bindSchedule store kind id schedule with
  | .error e => .error e
  | .ok bound => writeRecord len bound kind id subject schedule.scheduledFor status time message

def invalidIntent : StoreError := .notSafe (str "invalid schedule intent")

def readIntent (text : Str) : Except StoreError ScheduleRef :=
  if maxIntentBytes < text.length then .error (.notSafe (str "schedule intent too large"))
  else
    match decodeBinding text with
    | none => .error invalidIntent
    | some binding =>
      if !uuid7 binding.plan.planId || !hex64 binding.plan.planDigestHex
          || (timestamp binding.scheduledFor).isNone
          || !(1 ≤ binding.attempt && binding.attempt ≤ 3) then .error invalidIntent
      else .ok binding

def scheduledIntent {β : Type} (store : Store β) (kind : RecordKind) (id : Str) :
    Except StoreError (Option ScheduleRef) :=
  match intentOf store kind id with
  | none => .ok none
  | some intent =>
    match readIntent intent.binding with
    | .error e => .error e
    | .ok binding => .ok (some binding)

def belowFloor {β : Type} (store : Store β) (slot : Str) : Except StoreError Bool :=
  match timestamp slot with
  | none => .ok false
  | some seconds =>
    match slotFloor store with
    | .error e => .error e
    | .ok floor => .ok (floor.any fun floor => decide (seconds < floor))

def withRecord {β : Type} (store : Store β) (kind : RecordKind) (id subject slot : Str)
    (status time : ℤ) (message : β) : Except StoreError (Store β × Bool) :=
  if store.records.any (sameRecord kind id) then .error .sqlite
  else
    .ok ({ store with
      records := store.records ++ [⟨store.lastSeq + 1,kind,id,subject,slot,status,time,message⟩]
      lastSeq := store.lastSeq + 1 },true)

def claimScheduled {β : Type} (len : β → ℕ) (store : Store β) (kind : RecordKind) (id subject : Str)
    (status time : ℤ) (message : β) (schedule : ScheduleRef) : Except StoreError (Store β × Bool) :=
  let slot : ClaimedSlot := ⟨kind,subject,schedule.scheduledFor⟩
  if maxRecordBytes < len message then .error tooLarge
  else
    match belowFloor store schedule.scheduledFor with
    | .error e => .error e
    | .ok true => .ok (store,false)
    | .ok false =>
      if slot ∈ store.claimedSlots then .ok (store,false)
      else
        match bindSchedule { store with claimedSlots := store.claimedSlots ++ [slot] } kind id
            schedule with
        | .error e => .error e
        | .ok bound => withRecord bound kind id subject schedule.scheduledFor status time message

def hasSlot {β : Type} (store : Store β) (kind : RecordKind) (subject slot : Str) : Bool :=
  match slotFloor store with
  | .error _ => true
  | .ok floor =>
    (timestamp slot).any (fun seconds => floor.any fun floor => decide (seconds < floor))
      || store.records.any (fun row => row.kind == kind && row.subject == subject &&
        row.slot == slot)
      || decide (⟨kind,subject,slot⟩ ∈ store.claimedSlots)

def historySeconds : ℤ := 90 * 86400
def historyRecords : ℕ := 1000

def prunable (kind : RecordKind) (status : ℤ) : Bool :=
  match kind with
  | .cronRun => decide (status ∈ [3, 4, 5, 6, 7, 8])
  | .backupRun => decide (status ∈ [5, 6, 7, 8])
  | .verification => decide (status ∈ [2, 3, 4])
  | .webhookDelivery => decide (status ∈ [4, 5, 6, 7, 8, 9, 10])
  | .serverBuild => decide (status ∈ [5, 6, 7, 8])
  | .artifact | .alertEvent | .stagedSet => true

def newerRecords {β : Type} (store : Store β) (row : Row β) : ℕ :=
  store.records.countP fun other =>
    other.kind == row.kind && other.subject == row.subject && decide (row.seq < other.seq)

def outdated {β : Type} (store : Store β) (cutoff : ℤ) (row : Row β) : Bool :=
  decide (row.time < cutoff) && prunable row.kind row.status
    && decide (historyRecords ≤ newerRecords store row)

/-- `now` less the retention, not below the least number. -/
def retentionStart (now : Int64) : ℤ := max minI64 (now.toInt - historySeconds)

def tryPrune {β : Type} (strftime : Str → Option ℤ) (store : Store β) (now : Int64) :
    Except StoreError (Store β) :=
  match slotFloor store with
  | .error e => .error e
  | .ok floor =>
    let cutoff := max (retentionStart now) (floor.getD minI64)
    let raised := trySetMeta store slotFloorKey (decimalInt cutoff)
    let records := store.records.filter fun row => !outdated store cutoff row
    .ok { raised with
      claimedSlots := store.claimedSlots.filter fun claimed =>
        !(strftime claimed.slot).any fun seconds => decide (seconds < cutoff)
      records := records
      scheduledIntents := store.scheduledIntents.filter fun intent =>
        records.any (sameRecord intent.kind intent.id) }

def reopen {β : Type} (store : Store β) : Store β :=
  { store with claimedSlots := store.claimedSlots ++
      ((store.records.filter fun row => row.slot != []).map fun row =>
        (⟨row.kind,row.subject,row.slot⟩ : ClaimedSlot)) }

inductive Checkpoint where
  | cron
  | backup
  deriving DecidableEq, Repr

def Checkpoint.key : Checkpoint → Str
  | .cron => str "cron_checkpoint"
  | .backup => str "backup_checkpoint"

inductive Op (β : Type) where
  | claimScheduled (kind : RecordKind) (id subject : Str) (status time : ℤ) (message : β)
      (schedule : ScheduleRef)
  | hasSlot (kind : RecordKind) (subject slot : Str)
  | put (kind : RecordKind) (id subject slot : Str) (status time : ℤ) (message : β)
  | putScheduledRecord (kind : RecordKind) (id subject : Str) (status time : ℤ) (message : β)
      (schedule : ScheduleRef)
  | remove (kind : RecordKind) (id : Str)
  | setCheckpoint (checkpoint : Checkpoint) (value : Str)
  | prune (now : Int64)
  | reopen

def kept {β : Type} (store : Store β) : Except StoreError (Store β) → Store β
  | .ok after => after
  | .error _ => store

def step {β : Type} (len : β → ℕ) (strftime : Str → Option ℤ) (store : Store β) : Op β → Store β
  | .claimScheduled kind id subject status time message schedule =>
    kept store
      ((claimScheduled len store kind id subject status time message schedule).map Prod.fst)
  | .hasSlot _ _ _ => store
  | .put kind id subject slot status time message =>
    kept store (writeRecord len store kind id subject slot status time message)
  | .putScheduledRecord kind id subject status time message schedule =>
    kept store (putScheduledRecord len store kind id subject status time message schedule)
  | .remove kind id => tryRemove store kind id
  | .setCheckpoint checkpoint value => trySetMeta store checkpoint.key value
  | .prune now => kept store (tryPrune strftime store now)
  | .reopen => reopen store

end Permanu.OpsStore
