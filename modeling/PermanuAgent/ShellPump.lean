import PermanuAgent.JsonValue
import PermanuAgent.Base64Text
import PermanuAgent.PlanText
import PermanuAgent.StepRuns
import Mathlib.Data.List.Defs

/-!
# The relay of a shell session

`pump` relays a session between the client and the runner in one select loop and ends it
at the deadline, after an idle time, or when the client closes it: it writes `shell_close`
to the runner and waits a grace time for the result.

The arms of the loop wait for the client's channel and for the runner's socket, and no
other arm runs meanwhile. Time passes only while the loop has nothing to do, or while an
arm waits. A write to the runner is noted when it has ended.
-/

set_option autoImplicit false

namespace Permanu.ShellPump
open ByteText JsonValue List StepRuns

def second : ℕ := 1000000000
def maxFrame : ℕ := 32 * 1024
def closeGrace : ℕ := 15 * second
def maxTerminal : ℕ := 1000
def channelCapacity : ℕ := 32

inductive ClientFrame where
  | open
  | stdin (data : Str)
  | resize (cols rows : ℕ)
  | signal (name : Str)
  | closeStdin (eof : Bool)
  deriving DecidableEq, Repr

inductive Inbound where
  | frame (content : ClientFrame)
  | empty
  | ended
  deriving DecidableEq, Repr

inductive Line where
  | shellInput (dataB64 : Str)
  | shellResize (cols rows : ℕ)
  | shellClose
  deriving DecidableEq, Repr

inductive Reason where
  | clientClosed
  | error
  | expired
  | idleTimeout
  | exited
  deriving DecidableEq, Repr

structure ShellExit where
  exitCode : ℤ
  signal : Str
  reason : Reason
  deriving DecidableEq, Repr

inductive ServerFrame where
  | opened
  | stdout (data : Str)
  deriving DecidableEq, Repr

def inputLine (data : Str) : Line := .shellInput (Base64Text.encodeStandard data)

def resizeLine (cols rows : ℕ) : Option Line :=
  if (1 ≤ cols ∧ cols ≤ maxTerminal) ∧ 1 ≤ rows ∧ rows ≤ maxTerminal then
    some (.shellResize cols rows)
  else none

def frameLine : ClientFrame → Option Line × Option Reason
  | .stdin data =>
    if data.length ≤ maxFrame then (some (inputLine data),none) else (none,some .error)
  | .resize cols rows => (resizeLine cols rows,none)
  | .signal name =>
    if name = str "INT" then (some (inputLine [3]),none)
    else if name = str "QUIT" then (some (inputLine [28]),none)
    else (none,some .clientClosed)
  | .closeStdin true => (some (inputLine [4]),none)
  | .closeStdin false => (none,none)
  -- a second open ends the session
  | .open => (none,some .error)

def Inbound.line : Inbound → Option Line
  | .frame content => (frameLine content).1
  | .empty | .ended => none

def exitOf (row : Value) (reason : Reason) : ShellExit where
  exitCode :=
    match row["exit_code"]!.asI64 with
    | some code => if -2147483648 ≤ code ∧ code ≤ 2147483647 then code else 0
    | none => 0
  signal :=
    match row["signal"]!.asStr with
    | some name =>
      if name.length ≤ 16 && startsWith name "SIG" && name.all fun b => isUpper b || isDigit b then
        name
      else []
    | none => []
  reason := reason

def resultReason (row : Value) : Reason :=
  if row["ok"]!.asBool ≠ some true then .error
  else if row["ended"]!.text = str "deadline" then .expired
  else .exited

def remainingSeconds (now : ℤ) (params ready : Value) : ℕ :=
  let ttl := max 1 (min (params["ttl_seconds"]!.asI64.getD 1) 900)
  let deadlineAt :=
    match ready["session_deadline"]!.asStr.bind PlanText.timestamp with
    | some runner => min runner (now + ttl)
    | none => now + ttl
  (deadlineAt - now).toNat

/-- Where the loop stands: in the select, waiting for room in the client's channel, or waiting
for the runner to take a line. -/
inductive Task where
  | selecting
  | sending (chunks : List Str)
  | writing (line : Line)
  | returned
  deriving DecidableEq, Repr

structure Written where
  time : ℕ
  line : Line
  delivered : Bool
  deriving DecidableEq, Repr

structure Pump where
  now : ℕ
  reason : Option Reason
  clientOpen : Bool
  closing : Option ℕ
  lastActivity : ℕ
  task : Task
  channel : List ServerFrame
  receiver : Bool
  written : List Written
  exits : List (ℕ × ShellExit)
  deriving DecidableEq, Repr

inductive Step where
  | runnerLine (line : Value)
  | runnerEnd
  | client (inbound : Inbound)
  | timer
  | idle
  | send
  | wrote (delivered : Bool)
  | clientReads
  | clientLeaves
  | tick (time : ℕ)

def start (now : ℕ) : Pump :=
  ⟨now,none,true,none,now,.selecting,[.opened],true,[],[]⟩

section
variable (w : Pump)

def Pump.beginClose (reason : Reason) : Pump :=
  { w with
    reason := some reason
    closing := some (w.now + closeGrace)
    task := .writing .shellClose }

def Pump.exit (exit : ShellExit) : Pump :=
  { w with task := .returned, exits := w.exits ++ [(w.now,exit)] }

def Pump.endFrame : Pump :=
  match w.reason, w.closing with
  | some reason, none => w.beginClose reason
  | _, _ => { w with task := .selecting }

def Pump.note : Inbound → Pump
  | .frame content => { w with lastActivity := w.now, reason := w.reason.or (frameLine content).2 }
  | .empty => w
  | .ended => { w with clientOpen := false, reason := w.reason.or (some .clientClosed) }

def Pump.clientArm (inbound : Inbound) : Pump :=
  match inbound.line with
  | some line => { w.note inbound with task := .writing line }
  | none => (w.note inbound).endFrame

def Pump.sendRest : List Str → Pump
  | [] => { w with task := .selecting }
  | chunk :: rest => { w with task := .sending (chunk :: rest) }

def Pump.runnerArm (row : Value) : Pump :=
  if row["type"]!.is "result" then
    w.exit (exitOf row (w.reason.getD (resultReason row)))
  else
    match row["data_b64"]!.asStr.bind Base64Text.decodeStandard with
    | none => w
    | some data => Pump.sendRest { w with lastActivity := w.now } (data.toChunks maxFrame)

def Pump.sendChunk (chunk : Str) (rest : List Str) : Pump :=
  if w.receiver then
    if w.channel.length < channelCapacity then
      Pump.sendRest { w with channel := w.channel ++ [.stdout chunk] } rest
    else w
  else
    match w.closing with
    | none => Pump.beginClose { w with clientOpen := false } .clientClosed
    | some _ => { w with clientOpen := false, task := .selecting }

def Pump.wrote (line : Line) (delivered : Bool) : Pump :=
  let after : Pump := { w with written := w.written ++ [⟨w.now,line,delivered⟩] }
  match line with
  | .shellClose => { after with task := .selecting }
  | .shellInput _ | .shellResize _ _ =>
    Pump.endFrame
      { after with reason := if delivered then w.reason else w.reason.or (some .error) }

def Pump.timerArm : Pump :=
  match w.closing with
  | some _ => w.exit ⟨0,[],w.reason.getD .error⟩
  | none => w.beginClose .expired

end

structure Times where
  deadline : ℕ
  idle : ℕ

def sessionTimes (instant : ℕ) (now : ℤ) (params ready : Value) (idle : ℕ) : Times where
  deadline := instant + remainingSeconds now params ready * second
  idle := idle

section
variable (times : Times) (w : Pump)

def Times.closeBy : ℕ := w.closing.getD times.deadline

def Times.idleAt : ℕ := w.lastActivity + times.idle

def Times.mayPass (time : ℕ) : Bool :=
  match w.task with
  | .selecting => decide (time ≤ times.closeBy w ∧ (w.closing = none → time ≤ times.idleAt w))
  | .sending _ => w.receiver && decide (channelCapacity ≤ w.channel.length)
  | .writing _ => true
  | .returned => true

def step : Step → Pump
  | .runnerLine line => if w.task = .selecting then w.runnerArm line else w
  | .runnerEnd =>
    if w.task = .selecting then w.exit ⟨0,[],w.reason.getD .error⟩ else w
  | .client inbound => if w.task = .selecting ∧ w.clientOpen = true then w.clientArm inbound else w
  | .timer => if w.task = .selecting ∧ times.closeBy w ≤ w.now then w.timerArm else w
  | .idle =>
    if w.task = .selecting ∧ w.closing = none ∧ times.idleAt w ≤ w.now then
      w.beginClose .idleTimeout
    else w
  | .send =>
    match w.task with
    | .sending (chunk :: rest) => w.sendChunk chunk rest
    | _ => w
  | .wrote delivered =>
    match w.task with
    | .writing line => w.wrote line delivered
    | _ => w
  | .clientReads => { w with channel := w.channel.tail }
  | .clientLeaves => { w with receiver := false }
  | .tick time => if w.now ≤ time ∧ times.mayPass w time = true then { w with now := time } else w

/-- The close is written by the deadline unless the session has ended, it is the last line, and
the session ends within the grace time after it, with one exit. -/
structure EndsOnTime (times : Times) (w : Pump) : Prop where
  closed : times.deadline < w.now →
    (∃ entry ∈ w.written, entry.line = .shellClose ∧ entry.time ≤ times.deadline) ∨
      ∃ ended ∈ w.exits, ended.1 ≤ times.deadline
  last : ∀ before entry after, w.written = before ++ entry :: after → entry.line = .shellClose →
    after = []
  answered : ∀ entry ∈ w.written, entry.line = .shellClose → entry.time + closeGrace < w.now →
    ∃ ended ∈ w.exits, ended.1 ≤ entry.time + closeGrace
  single : w.exits.length = if w.task = .returned then 1 else 0

/-- No time passes while an arm waits for the client or for the runner, and a frame that makes
a line comes before the close. -/
def Allowed (w : Pump) : Step → Prop
  | .tick _ => w.task = .selecting ∨ w.task = .returned
  | .client inbound => w.closing.isSome = true → inbound.line = none
  | _ => True

def NoClose (written : List Written) : Prop := ∀ entry ∈ written, entry.line ≠ .shellClose

def ClosedAt (times : Times) (written : List Written) (time : ℕ) : Prop :=
  ∃ front entry, written = front ++ [entry] ∧ NoClose front ∧ entry.line = .shellClose ∧
    entry.time = time ∧ time ≤ times.deadline

def Timely : Option ℕ → Prop
  | none => NoClose w.written ∧ w.now ≤ times.deadline
  | some limit => ∃ time, ClosedAt times w.written time ∧ limit = time + closeGrace ∧ w.now ≤ limit

def TaskOk : Task → Prop
  | .selecting => w.exits = [] ∧ Timely times w w.closing
  | .sending _ => w.exits = [] ∧ Timely times w w.closing
  | .writing line => w.exits = [] ∧ NoClose w.written ∧ w.now ≤ times.deadline ∧
      w.closing = if line = .shellClose then some (w.now + closeGrace) else none
  | .returned => ∃ ended, w.exits = [ended] ∧
      ((NoClose w.written ∧ ended.1 ≤ times.deadline) ∨
        ∃ time, ClosedAt times w.written time ∧ ended.1 ≤ time + closeGrace)

def PumpOk : Prop := TaskOk times w w.task

end

variable {written : List Written} {time : ℕ} {entry : Written} {line : Line}

variable {inbound : Inbound}

section steps

variable {times : Times} {w : Pump}

theorem beginClose_ok (hexits : w.exits = []) (h : Timely times w none) (reason : Reason) :
    PumpOk times (w.beginClose reason) :=
  ⟨hexits,h.1,h.2,(if_pos rfl).symm⟩

theorem exit_ok (hexits : w.exits = []) (h : Timely times w w.closing) {exit : ShellExit} :
    PumpOk times (w.exit exit) := by
  refine ⟨(w.now,exit),by rw [Pump.exit, hexits]; rfl,?_⟩
  cases hclosing : w.closing with
  | none =>
    rw [hclosing] at h
    exact .inl h
  | some limit =>
    rw [hclosing] at h
    obtain ⟨time,hclosed,rfl,hnow⟩ := h
    exact .inr ⟨time,hclosed,hnow⟩

theorem endFrame_ok (hexits : w.exits = []) (h : Timely times w w.closing) :
    PumpOk times w.endFrame := by
  rw [Pump.endFrame]
  split
  · next reason hreason hclosing =>
    rw [hclosing] at h
    exact beginClose_ok hexits h reason
  · exact ⟨hexits,h⟩

theorem sendRest_ok (hexits : w.exits = []) (h : Timely times w w.closing) (chunks : List Str) :
    PumpOk times (w.sendRest chunks) := by
  cases chunks with
  | nil | cons chunk rest => exact ⟨hexits,h⟩

theorem runnerArm_ok (h : PumpOk times w) (htask : w.task = .selecting) {line : Value} :
    PumpOk times (w.runnerArm line) := by
  have hopen := h
  rw [PumpOk, htask] at hopen
  rw [Pump.runnerArm]
  split
  · exact exit_ok hopen.1 hopen.2
  · split
    · exact h
    · exact sendRest_ok (w := { w with lastActivity := w.now }) hopen.1 hopen.2 _

theorem note_ok (hexits : w.exits = []) (h : Timely times w w.closing) :
    (w.note inbound).exits = [] ∧ Timely times (w.note inbound) (w.note inbound).closing := by
  cases inbound <;> exact ⟨hexits,h⟩

theorem line_ne_close (h : inbound.line = some line) : line ≠ .shellClose := by
  rintro rfl
  cases inbound with
  | frame content =>
    cases content with
    | «open» => cases h
    | stdin data =>
      rw [Inbound.line, frameLine] at h
      split at h <;> cases h
    | resize cols rows =>
      rw [Inbound.line, frameLine, resizeLine] at h
      split at h <;> cases h
    | signal name =>
      rw [Inbound.line, frameLine] at h
      split at h
      · cases h
      · split at h <;> cases h
    | closeStdin eof => cases eof <;> cases h
  | empty | ended => cases h

theorem note_closing (inbound : Inbound) : (w.note inbound).closing = w.closing := by
  cases inbound <;> rfl

theorem clientArm_ok (h : PumpOk times w) (htask : w.task = .selecting)
    (hline : w.closing.isSome = true → inbound.line = none) :
    PumpOk times (w.clientArm inbound) := by
  rw [PumpOk, htask] at h
  obtain ⟨hexits,htimely⟩ := note_ok h.1 h.2
  rw [Pump.clientArm]
  split
  · next line hmade =>
    have hclosing : w.closing = none := by
      rw [← Option.not_isSome_iff_eq_none]
      intro hsome
      rw [hline hsome] at hmade
      cases hmade
    rw [note_closing, hclosing] at htimely
    refine ⟨hexits,htimely.1,htimely.2,?_⟩
    rw [if_neg (line_ne_close hmade), note_closing, hclosing]
  · exact endFrame_ok hexits htimely

theorem sendChunk_ok (hexits : w.exits = []) (h : Timely times w w.closing) (hok : PumpOk times w)
    {chunk : Str} {rest : List Str} : PumpOk times (w.sendChunk chunk rest) := by
  rw [Pump.sendChunk]
  split
  · split
    · exact sendRest_ok (w := { w with channel := w.channel ++ [.stdout chunk] }) hexits h rest
    · exact hok
  · cases hclosing : w.closing with
    | none =>
      rw [hclosing] at h
      exact beginClose_ok (w := { w with clientOpen := false }) hexits h _
    | some limit =>
      rw [hclosing] at h
      exact ⟨hexits,h⟩

theorem noClose_append (h : NoClose written)
    (hentry : entry.line ≠ .shellClose) : NoClose (written ++ [entry]) := by
  exact forall_mem_append.2 ⟨h,forall_mem_singleton.2 hentry⟩

/-- After another line than the close the client's arm ends. -/
theorem wrote_frame (h : line ≠ .shellClose) (delivered : Bool) :
    w.wrote line delivered = Pump.endFrame { w with
      written := w.written ++ [⟨w.now,line,delivered⟩]
      reason := if delivered then w.reason else w.reason.or (some .error) } := by
  cases line with
  | shellClose => exact absurd rfl h
  | shellInput data | shellResize cols rows => rfl

theorem wrote_ok (h : TaskOk times w (.writing line)) {delivered : Bool} :
    PumpOk times (w.wrote line delivered) := by
  obtain ⟨hexits,hclose,hnow,hclosing⟩ := h
  by_cases hline : line = .shellClose
  · subst hline
    refine ⟨hexits,?_⟩
    show Timely times _ w.closing
    rw [hclosing, if_pos rfl]
    exact ⟨w.now,⟨w.written,_,rfl,hclose,rfl,rfl,hnow⟩,rfl,Nat.le_add_right _ _⟩
  · rw [wrote_frame hline]
    refine endFrame_ok ?_ ?_
    · exact hexits
    · rw [hclosing, if_neg hline]
      exact ⟨noClose_append hclose hline,hnow⟩

theorem timerArm_ok (h : PumpOk times w) (htask : w.task = .selecting) :
    PumpOk times w.timerArm := by
  rw [PumpOk, htask] at h
  rw [Pump.timerArm]
  split
  · exact exit_ok h.1 h.2
  · next hclosing =>
    have htimely := h.2
    rw [hclosing] at htimely
    exact beginClose_ok h.1 htimely _

/-- Time passes in the select up to the next timer, and after the end. -/
theorem tick_ok (h : PumpOk times w) (htask : w.task = .selecting ∨ w.task = .returned)
    (hpass : times.mayPass w time = true) : PumpOk times { w with now := time } := by
  rw [PumpOk] at h ⊢
  rcases htask with hselect | hreturned
  · rw [hselect] at h ⊢
    rw [Times.mayPass, hselect] at hpass
    obtain ⟨hlimit,-⟩ := of_decide_eq_true hpass
    refine ⟨h.1,?_⟩
    have htimely := h.2
    cases hclosing : w.closing with
    | none =>
      rw [hclosing] at htimely
      rw [Times.closeBy, hclosing] at hlimit
      exact ⟨htimely.1,hlimit⟩
    | some limit =>
      rw [hclosing] at htimely
      rw [Times.closeBy, hclosing] at hlimit
      obtain ⟨start,hclosed,rfl,-⟩ := htimely
      exact ⟨start,hclosed,rfl,hlimit⟩
  · rw [hreturned] at h ⊢
    exact h

theorem step_ok (h : PumpOk times w) {op : Step} (hop : Allowed w op) :
    PumpOk times (step times w op) := by
  cases op with
  | runnerLine line =>
    rw [step]
    split
    · next htask => exact runnerArm_ok h htask
    · exact h
  | runnerEnd =>
    rw [step]
    split
    · next htask =>
      rw [PumpOk, htask] at h
      exact exit_ok h.1 h.2
    · exact h
  | client inbound =>
    rw [step]
    split
    · next htask => exact clientArm_ok h htask.1 hop
    · exact h
  | timer =>
    rw [step]
    split
    · next htask => exact timerArm_ok h htask.1
    · exact h
  | idle =>
    rw [step]
    split
    · next htask =>
      rw [PumpOk, htask.1] at h
      have htimely := h.2
      rw [htask.2.1] at htimely
      exact beginClose_ok h.1 htimely _
    · exact h
  | send =>
    rw [step]
    split
    · next chunk rest htask =>
      have hsending := h
      rw [PumpOk, htask] at hsending
      exact sendChunk_ok hsending.1 hsending.2 h
    · exact h
  | wrote delivered =>
    rw [step]
    split
    · next line htask =>
      rw [PumpOk, htask] at h
      exact wrote_ok h
    · exact h
  | clientReads | clientLeaves =>
    rw [PumpOk] at h ⊢
    show TaskOk times _ w.task
    cases htask : w.task <;> rw [htask] at h <;> exact h
  | tick time =>
    rw [step]
    split
    · next hpass => exact tick_ok h hop hpass.2
    · exact h

theorem start_ok {now : ℕ} (h : now ≤ times.deadline) : PumpOk times (start now) :=
  ⟨rfl,fun _ hentry => (nomatch hentry),h⟩

theorem ClosedAt.last (h : ClosedAt times written time)
    {before after : List Written} (hwritten : written = before ++ entry :: after)
    (hentry : entry.line = .shellClose) : after = [] := by
  obtain ⟨front,closing,heq,hfront,-⟩ := h
  rcases eq_nil_or_concat' after with rfl | ⟨rest,final,rfl⟩
  · rfl
  · -- an earlier close would be in the front
    rw [hwritten, ← cons_append, ← append_assoc] at heq
    have hsame := append_inj_left' heq rfl
    exact absurd hentry (hfront entry (by simp [← hsame]))

theorem ClosedAt.time_eq (h : ClosedAt times written time)
    (hin : entry ∈ written) (hentry : entry.line = .shellClose) : entry.time = time := by
  obtain ⟨front,closing,rfl,hfront,-,htime,-⟩ := h
  rcases mem_append.1 hin with hearlier | hsame
  · exact absurd hentry (hfront entry hearlier)
  · rw [mem_singleton.1 hsame, htime]

theorem ClosedAt.mem (h : ClosedAt times written time) :
    ∃ entry ∈ written, entry.line = .shellClose ∧ entry.time ≤ times.deadline := by
  obtain ⟨front,closing,rfl,-,hline,htime,hdeadline⟩ := h
  exact ⟨closing,by simp,hline,by rw [htime]; exact hdeadline⟩

/-- A session in which the close is not written yet, and is not overdue. -/
theorem endsOnTime_open (hclose : NoClose w.written) (hexits : w.exits = [])
    (htask : w.task ≠ .returned) (hnow : w.now ≤ times.deadline) : EndsOnTime times w where
  closed h := absurd h (Nat.not_lt.2 hnow)
  last before entry after hwritten hentry :=
    absurd hentry (hclose entry (by rw [hwritten]; simp))
  answered entry hin hentry := absurd hentry (hclose entry hin)
  single := by rw [hexits, if_neg htask]; rfl

theorem endsOnTime_timely (h : Timely times w w.closing) (hexits : w.exits = [])
    (htask : w.task ≠ .returned) : EndsOnTime times w := by
  cases hclosing : w.closing with
  | none =>
    rw [hclosing] at h
    exact endsOnTime_open h.1 hexits htask h.2
  | some limit =>
    rw [hclosing] at h
    obtain ⟨time,hclosed,rfl,hnow⟩ := h
    refine ⟨fun _ => .inl hclosed.mem,fun _ _ _ => hclosed.last,?_,?_⟩
    · intro entry hin hentry hover
      rw [hclosed.time_eq hin hentry] at hover
      exact absurd hover (Nat.not_lt.2 hnow)
    · rw [hexits, if_neg htask]
      rfl

theorem PumpOk.endsOnTime (h : PumpOk times w) : EndsOnTime times w := by
  rw [PumpOk] at h
  cases htask : w.task with
  | selecting | sending chunks =>
    rw [htask] at h
    exact endsOnTime_timely h.2 h.1 (by simp [htask])
  | writing line =>
    rw [htask] at h
    exact endsOnTime_open h.2.1 h.1 (by simp [htask]) h.2.2.1
  | returned =>
    rw [htask] at h
    obtain ⟨ended,hexits,⟨hclose,htime⟩ | ⟨time,hclosed,htime⟩⟩ := h
    · refine ⟨fun _ => .inr ⟨ended,by simp [hexits],htime⟩,?_,?_,by rw [hexits, if_pos htask]; rfl⟩
      · exact fun before entry after hwritten hentry =>
          absurd hentry (hclose entry (by rw [hwritten]; simp))
      · exact fun entry hin hentry => absurd hentry (hclose entry hin)
    · refine ⟨fun _ => .inl hclosed.mem,fun _ _ _ => hclosed.last,?_,
        by rw [hexits, if_pos htask]; rfl⟩
      intro entry hin hentry _
      exact ⟨ended,by simp [hexits],by rw [hclosed.time_eq hin hentry]; exact htime⟩

end steps

/-- When no time passes while an arm waits and no frame that makes a line comes after the close,
every session ends on time: the close is written once, by the deadline, nothing is written after
it, and within the grace time the pump returns one exit. -/
theorem session_ends_on_time (instant : ℕ) (now : ℤ) (params ready : Value) (idle : ℕ)
    (steps : List Step) (h : ∀ before op, before ++ [op] <+: steps →
      Allowed (run (step (sessionTimes instant now params ready idle)) (start instant)
        before) op) :
    EndsOnTime (sessionTimes instant now params ready idle)
      (run (step (sessionTimes instant now params ready idle)) (start instant) steps) :=
  (run_invariant_along Allowed (PumpOk (sessionTimes instant now params ready idle))
    (start_ok (Nat.le_add_right _ _)) (fun _ _ hw hop => step_ok hw hop) steps h).endsOnTime

instance (w : Pump) : (op : Step) → Decidable (Allowed w op)
  | .tick _ => inferInstanceAs (Decidable (w.task = .selecting ∨ w.task = .returned))
  | .client inbound =>
    inferInstanceAs (Decidable (w.closing.isSome = true → inbound.line = none))
  | .runnerLine _ | .runnerEnd | .timer | .idle | .send | .wrote _ | .clientReads
  | .clientLeaves => isTrue trivial

def minuteTimes : Times :=
  sessionTimes 0 1000 (Value.obj [("ttl_seconds",.number 60)]) (Value.obj []) (900 * second)

def outputLine : Value := Value.obj [("type",Value.txt "progress"), ("data_b64",Value.txt "aGk=")]

def quietSession : List Step :=
  [.client (.frame (.stdin (str "ls"))), .wrote true, .tick second, .runnerLine outputLine, .send,
    .clientReads, .tick (60 * second), .timer, .wrote true, .tick (61 * second),
    .runnerLine (Value.obj [("type",Value.txt "result"), ("ok",.bool true)]), .tick (100 * second)]

theorem quiet_session_ends_on_time :
    (run (step minuteTimes) (start 0) quietSession).exits =
      [(61 * second,⟨0,[],.expired⟩)] ∧
    EndsOnTime minuteTimes (run (step minuteTimes) (start 0) quietSession) :=
  ⟨by decide +kernel,session_ends_on_time 0 1000 _ _ _ quietSession
    (along_of_take _ (by decide +kernel))⟩

def fullChannel : List Step :=
  (List.replicate 32 [.runnerLine outputLine, .send]).flatten ++ [.tick (61 * second)]

/-- A client that stops reading holds the session open beyond its deadline. Input that comes
after the deadline is written to the runner after the close. -/
theorem client_delays_close :
    ¬ EndsOnTime minuteTimes (run (step minuteTimes) (start 0) fullChannel) ∧
    ¬ EndsOnTime minuteTimes (run (step minuteTimes) (start 0)
      [.tick (60 * second), .timer, .wrote true, .client (.frame (.stdin (str "ls"))),
        .wrote true]) := by
  constructor
  · intro h
    have hclosed := h.closed (by decide +kernel)
    revert hclosed
    decide +kernel
  · intro h
    have hlast := h.last [] ⟨60 * second,.shellClose,true⟩ [⟨60 * second,inputLine (str "ls"),true⟩]
      (by decide +kernel) rfl
    cases hlast

end Permanu.ShellPump
