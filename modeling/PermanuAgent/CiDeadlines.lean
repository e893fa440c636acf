import Mathlib.Data.List.Basic
import Mathlib.Data.Option.NAry
import Mathlib.Order.MinMax
import Mathlib.Tactic.Common

/-!
# The deadline of a CI step

`wait_for_child_output` polls the process of a CI step every ten milliseconds
and ends it at its deadline. It then waits for the readers of the output pipes,
which end when the last writer of the pipe does. Times are in milliseconds.
-/

set_option autoImplicit false

namespace Permanu.CiDeadlines

/-- When the process group gets a signal. -/
structure Signals where
  term : Option ℕ
  kill : Option ℕ

/-- A call, with what the child and its descendants do under the signals they get. -/
structure Call where
  deadline : ℕ
  cancellation : Option ℕ
  exit : Signals → Option ℕ
  /-- When the last writer of each pipe is gone. -/
  closed : Signals → List (Option ℕ)

def happened (event : Option ℕ) (now : ℕ) : Bool := event.any (· ≤ now)

section
variable (c : Call)

def ended (now : ℕ) : Bool :=
  happened (c.exit ⟨none,none⟩) now || happened c.cancellation now || c.deadline ≤ now

def waitLoop : ℕ → ℕ → Option ℕ
  | 0, _ => none
  | fuel+1, poll =>
    if ended c (10 * poll) then some (10 * poll) else waitLoop fuel (poll+1)

def terminateChild (now : ℕ) : Signals :=
  if happened (c.exit ⟨some now,none⟩) (now+5000) then ⟨some now,none⟩
  else ⟨some now,some (now+5000)⟩

def joinCappedOutput (now : ℕ) (readers : List (Option ℕ)) : Option ℕ :=
  readers.foldl (Option.map₂ max) (some now)

/-- When the call returns, if it does. -/
def waitForChildOutput : Option ℕ :=
  (waitLoop c (c.deadline+1) 0).bind fun now =>
    if happened (c.exit ⟨none,none⟩) now then joinCappedOutput now (c.closed ⟨none,none⟩)
    else (c.exit (terminateChild c now)).bind fun exit =>
      joinCappedOutput (max (now+5000) exit) (c.closed (terminateChild c now))

def firstEvent : ℕ :=
  min ((c.exit ⟨none,none⟩).getD c.deadline) (min (c.cancellation.getD c.deadline) c.deadline)

def firstPoll : ℕ := 10 * ((firstEvent c + 9) / 10)

/-- The signals that the first poll after the event sends. -/
def signals : Signals :=
  if happened (c.exit ⟨none,none⟩) (firstPoll c) then ⟨none,none⟩
  else terminateChild c (firstPoll c)

theorem ended_iff (now : ℕ) : ended c now ↔ firstEvent c ≤ now := by
  unfold ended firstEvent happened
  cases c.exit ⟨none,none⟩ with
  | none =>
    cases c.cancellation with
    | none => simp
    | some cancelled => simp
  | some exit =>
    cases c.cancellation with
    | none => simp
    | some cancelled => simp [or_assoc]

theorem waitLoop_eq (fuel poll : ℕ) (hpoll : 10 * poll ≤ firstPoll c)
    (hfuel : firstPoll c < 10 * (poll + fuel)) : waitLoop c fuel poll = some (firstPoll c) := by
  induction fuel generalizing poll with
  | zero => omega
  | succ fuel ih =>
    have hpolled : firstPoll c = 10 * ((firstEvent c + 9) / 10) := rfl
    rw [waitLoop]
    by_cases hended : firstEvent c ≤ 10 * poll
    · rw [if_pos ((ended_iff c _).mpr hended), Option.some.injEq]
      omega
    · rw [if_neg fun he => hended ((ended_iff c _).mp he)]
      apply ih <;> omega

theorem join_by (bound : ℕ) (readers : List (Option ℕ)) (start : Option ℕ) :
    happened (readers.foldl (Option.map₂ max) start) bound ↔
      happened start bound ∧ ∀ closed ∈ readers, happened closed bound := by
  induction readers generalizing start with
  | nil => simp
  | cons closed readers ih =>
    rw [List.foldl_cons, ih, List.forall_mem_cons, ← and_assoc]
    cases start with
    | none => simp [happened]
    | some first =>
      cases closed with
      | none => simp [happened]
      | some last => simp [happened]

/-- The call returns within the five seconds of a termination and a slack after the
first of the child's exit, the cancellation and the deadline iff by then the child and
every writer of its pipes are gone, under the signals that the first poll sends. -/
theorem returns_in_time_iff (c : Call) (slack : ℕ) :
    happened (waitForChildOutput c) (firstEvent c + 5010 + slack) ↔
      ∀ gone ∈ c.exit (signals c) :: c.closed (signals c),
        happened gone (firstEvent c + 5010 + slack) := by
  have hpolled : firstEvent c ≤ firstPoll c ∧ firstPoll c ≤ firstEvent c + 9 := by
    unfold firstPoll
    omega
  have hevent : firstEvent c ≤ c.deadline := by
    unfold firstEvent
    omega
  rw [waitForChildOutput, waitLoop_eq c _ 0 (by omega) (by omega), Option.bind_some,
    List.forall_mem_cons, signals]
  split_ifs with hexit
  · rw [joinCappedOutput, join_by]
    cases hchild : c.exit ⟨none,none⟩ with
    | none => simp [happened, hchild] at hexit
    | some exit =>
      have hgone : exit ≤ firstPoll c := by simpa [happened, hchild] using hexit
      refine and_congr_left fun _ => ?_
      simp only [happened, Option.any_some, decide_eq_true_eq]
      omega
  · cases c.exit (terminateChild c (firstPoll c)) with
    | none => simp [happened]
    | some exit =>
      rw [Option.bind_some, joinCappedOutput, join_by]
      refine and_congr_left fun _ => ?_
      simp only [happened, Option.any_some, decide_eq_true_eq]
      omega

end

/-- The child exits at once and leaves a process that holds a pipe for an hour. -/
def background : Call where
  deadline := 60000
  cancellation := none
  exit := fun _ => some 0
  closed := fun _ => [some 3600000, some 0]

theorem background_writer_delays_return :
    firstEvent background = 0 ∧ waitForChildOutput background = some 3600000 :=
  ⟨by decide,rfl⟩

end Permanu.CiDeadlines
