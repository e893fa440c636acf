import Mathlib.Data.List.Sort
import PermanuAgent.ByteText

/-!
# The tail of a container's log across a restart of the agent

The checkpoint is the second in which a line is forwarded, but docker resumes by the
lines' own timestamps.
-/

set_option autoImplicit false

namespace Permanu.ContainerTails

open ByteText List

structure ObservableContainer where
  id : Str
  name : Str

structure ContainerLogCheckpoint where
  containerId : Str
  sinceSeconds : ℤ

abbrev Checkpoints := Str → Option ContainerLogCheckpoint

structure ContainerLogCheckpointStore where
  /-- Without a path the store records nothing. -/
  path : Bool
  checkpoints : Checkpoints
  /-- What the file holds, which the next start of the agent reads. -/
  file : Checkpoints

structure ContainerLogLine where
  /-- In nanoseconds. -/
  timestamp : ℤ
  message : Str
  deriving DecidableEq

/-- What happens when a line arrives at the agent. -/
structure Arrival where
  /-- The clock of the agent. -/
  second : ℤ
  /-- `forwarder.push` succeeds. -/
  pushed : Bool
  /-- `write_checkpoint_file` succeeds. -/
  written : Bool

/-- The lines forwarded so far, and the checkpoints. -/
abbrev Tail := List ContainerLogLine × ContainerLogCheckpointStore

/-- `ContainerLogCheckpointStore::open`, or `disabled` when the file cannot be read. -/
def openStore (readable : Bool) (file : Checkpoints) : ContainerLogCheckpointStore :=
  ⟨readable, if readable then file else fun _ => none, file⟩

/-- `i32::try_from`. -/
def toI32 (since : ℤ) : Option ℤ := if -2 ^ 31 ≤ since ∧ since < 2 ^ 31 then some since else none

section
variable (container : ObservableContainer) (printed : List ContainerLogLine)
  (store : ContainerLogCheckpointStore)

def stored (checkpoints : Checkpoints) : Option ℤ :=
  ((checkpoints container.name).filter (·.containerId == container.id)).map (·.sinceSeconds)

def resumeSince : Option ℤ := stored container store.checkpoints

def recordForwardedLine (arrival : Arrival) : ContainerLogCheckpointStore :=
  if store.path then
    let checkpoints := Function.update store.checkpoints container.name
      (some ⟨container.id, arrival.second⟩)
    { store with checkpoints, file := if arrival.written then checkpoints else store.file }
  else store

/-- A line that the forwarder refuses is skipped, with the checkpoint left as it is. -/
def forwardContainerLogLine (tail : Tail) (item : ContainerLogLine × Arrival) : Tail :=
  if item.2.pushed then (tail.1 ++ [item.1], recordForwardedLine container tail.2 item.2)
  else tail

/-- What docker returns of the printed lines; a second that does not fit is not sent, and
without one it returns them all. -/
def streamContainerLogs (since : ℤ) : List ContainerLogLine :=
  match toI32 since with
  | some since => printed.filter fun line => since * 1000000000 ≤ line.timestamp
  | none => printed

/-- The lines that a tail begun at a time gets to read. -/
def tailed (now : ℤ) : List ContainerLogLine :=
  streamContainerLogs printed ((resumeSince container store).getD now)

/-- A tail that is stopped after some lines have arrived. -/
def tailContainer (now : ℤ) (arrivals : List Arrival) : Tail :=
  ((tailed container printed store now).zip arrivals).foldl (forwardContainerLogLine container)
    ([], store)

/-- The lines that the forwarder refused and those that have not arrived. -/
def missed (lines : List ContainerLogLine) (arrivals : List Arrival) : List ContainerLogLine :=
  ((lines.zip arrivals).filter fun item => !item.2.pushed).map (·.1) ++ lines.drop arrivals.length

/-- The second of the last line whose checkpoint reached the file, or else the one there. -/
def checkpoint (items : List (ContainerLogLine × Arrival)) : Option ℤ :=
  ((items.reverse.find? fun item => store.path && item.2.pushed && item.2.written).map
    (·.2.second)).or (stored container store.file)

theorem stored_update (checkpoints : Checkpoints) (second : ℤ) :
    stored container (Function.update checkpoints container.name (some ⟨container.id, second⟩)) =
      some second := by
  simp [stored, Option.filter_some]

theorem forwarded_eq (items : List (ContainerLogLine × Arrival)) :
    let after := items.foldl (forwardContainerLogLine container) ([], store)
    after.1 = (items.filter (·.2.pushed)).map (·.1) ∧ after.2.path = store.path ∧
      stored container after.2.file = checkpoint container store items := by
  induction items using List.reverseRecOn with
  | nil => exact ⟨rfl, rfl, rfl⟩
  | append_singleton items item ih =>
    obtain ⟨hlines, hpath, hsince⟩ := ih
    rw [foldl_concat, forwardContainerLogLine]
    cases hpushed : item.2.pushed with
    | false => simpa [hpushed, checkpoint] using And.intro hlines ⟨hpath, hsince⟩
    | true =>
      refine ⟨by simp [hlines, hpushed], ?_, ?_⟩
      · simp only [recordForwardedLine, if_true]
        split_ifs <;> exact hpath
      · simp only [recordForwardedLine, hpath, if_true]
        cases hstore : store.path with
        | false => simpa [checkpoint, hstore] using hsince
        | true =>
          cases hwritten : item.2.written with
          | false => simpa [checkpoint, hpushed, hwritten] using hsince
          | true => simp [checkpoint, hpushed, hwritten, hstore, stored_update]

/-- A tail without refused lines that goes on long enough forwards all it reads. -/
theorem tailed_forwarded (now : ℤ) (arrivals : List Arrival) (hpushed : ∀ a ∈ arrivals, a.pushed)
    (hlong : (tailed container printed store now).length ≤ arrivals.length) :
    (tailContainer container printed store now arrivals).1 =
      tailed container printed store now := by
  rw [tailContainer, (forwarded_eq container store _).1, filter_eq_self.mpr, map_fst_zip hlong]
  intro item hitem
  exact hpushed item.2 (of_mem_zip hitem).2

theorem zip_fst (lines : List ContainerLogLine) (arrivals : List Arrival) :
    (lines.zip arrivals).map (·.1) = lines.take arrivals.length := by
  induction lines generalizing arrivals with
  | nil => simp
  | cons line lines ih =>
    cases arrivals with
    | nil => rfl
    | cons arrival arrivals => simp [ih]

theorem missed_sublist (lines : List ContainerLogLine) (arrivals : List Arrival) :
    (missed lines arrivals).Sublist lines := by
  have hzip := filter_sublist (p := fun item => !item.2.pushed) (l := lines.zip arrivals)
  calc _ <+ lines.take arrivals.length ++ lines.drop arrivals.length := by
        rw [missed, ← zip_fst]
        exact (hzip.map _).append_right _
    _ = lines := take_append_drop _ _

theorem forwarded_missed (lines : List ContainerLogLine) (arrivals : List Arrival) :
    lines ~ ((lines.zip arrivals).filter (·.2.pushed)).map (·.1) ++ missed lines arrivals := by
  have hsplit := (filter_append_perm (fun item => item.2.pushed) (lines.zip arrivals)).map (·.1)
  calc lines = lines.take arrivals.length ++ lines.drop arrivals.length :=
        (take_append_drop _ _).symm
    _ ~ _ := by
      rw [missed, ← append_assoc, ← map_append, ← zip_fst]
      exact hsplit.symm.append_right _

theorem streamContainerLogs_sublist (since : ℤ) :
    (streamContainerLogs printed since).Sublist printed := by
  rw [streamContainerLogs]
  split
  · exact filter_sublist
  · exact Sublist.refl _

theorem mem_streamContainerLogs {since : ℤ} {line : ContainerLogLine} :
    line ∈ streamContainerLogs printed since ↔
      line ∈ printed ∧ ∀ s ∈ toI32 since, s * 1000000000 ≤ line.timestamp := by
  rw [streamContainerLogs]
  cases toI32 since with
  | none | some s => simp

/-- What a tail forwards and what it misses are the lines it was to read, and the tail after
a restart forwards all of the latter iff the first of them is not before the second sent. -/
theorem resumed_complete_iff (container : ObservableContainer) (printed : List ContainerLogLine)
    (store : ContainerLogCheckpointStore) (readable : Bool) (now restart : ℤ)
    (arrivals again : List Arrival)
    (hprinted : printed.Pairwise fun a b => a.timestamp ≤ b.timestamp)
    (hagain : ∀ a ∈ again, a.pushed) (hlong : printed.length ≤ again.length) :
    let lines := tailed container printed store now
    let first := tailContainer container printed store now arrivals
    let second := tailContainer container printed (openStore readable first.2.file) restart again
    let since := (if readable then checkpoint container store (lines.zip arrivals)
      else none).getD restart
    lines ~ first.1 ++ missed lines arrivals ∧
      ((∀ line ∈ missed lines arrivals, line ∈ second.1) ↔
        ∀ next ∈ (missed lines arrivals).head?, ∀ sent ∈ toI32 since,
          sent * 1000000000 ≤ next.timestamp) := by
  intro lines first second since
  obtain ⟨hforwarded, -, hstored⟩ := forwarded_eq container store (lines.zip arrivals)
  have hsince : resumeSince container (openStore readable first.2.file) =
      if readable then checkpoint container store (lines.zip arrivals) else none := by
    cases readable with
    | false => rfl
    | true => exact hstored
  have hsecond : second.1 = streamContainerLogs printed since := by
    have hread : tailed container printed (openStore readable first.2.file) restart =
        streamContainerLogs printed since := by
      rw [tailed, hsince]
    rw [← hread]
    exact tailed_forwarded container printed _ restart again hagain
      ((streamContainerLogs_sublist printed _).length_le.trans hlong)
  refine ⟨?_, ?_⟩
  · rw [show first.1 = _ from hforwarded]
    exact forwarded_missed lines arrivals
  rw [hsecond]
  have hmissed : (missed lines arrivals).Sublist printed :=
    (missed_sublist _ _).trans (streamContainerLogs_sublist printed _)
  generalize missed lines arrivals = left at hmissed ⊢
  have hsorted := hprinted.sublist hmissed
  simp only [mem_streamContainerLogs]
  cases left with
  | nil => simp
  | cons next rest =>
    constructor
    · rintro h _ ⟨⟩
      exact (h next mem_cons_self).2
    · intro h line hline
      refine ⟨hmissed.subset hline, fun sent hsent => ?_⟩
      have hnext := h next rfl sent hsent
      rcases mem_cons.mp hline with rfl | hlater
      · exact hnext
      · exact hnext.trans ((pairwise_cons.mp hsorted).1 line hlater)

end

def sampleContainer : ObservableContainer := ⟨str "7f", str "web"⟩

/-- The second line is printed in the eleventh second. -/
def sampleLines : List ContainerLogLine :=
  [⟨10000000000, str "started"⟩, ⟨11000000000, str "listening"⟩]

def sampleStore : ContainerLogCheckpointStore := openStore true fun _ => none

/-- What a first tail forwards, stopped after a line has arrived in a second, and what the
next one does. -/
def sampleForwarded (second : ℤ) : List ContainerLogLine × List ContainerLogLine :=
  let first := tailContainer sampleContainer sampleLines sampleStore 10 [⟨second, true, true⟩]
  (first.1, (tailContainer sampleContainer sampleLines (openStore true first.2.file) 20
    [⟨20, true, true⟩, ⟨20, true, true⟩]).1)

theorem punctual_line_resumed :
    (sampleForwarded 11).1 = sampleLines.take 1 ∧
      ∀ line ∈ sampleLines.drop 1, line ∈ (sampleForwarded 11).2 := by
  have h := resumed_complete_iff sampleContainer sampleLines sampleStore true 10 20
    [⟨11, true, true⟩] [⟨20, true, true⟩, ⟨20, true, true⟩] (by simp [sampleLines]) (by simp)
    (by decide)
  exact ⟨by decide, h.2.mpr (by decide)⟩

/-- A line printed before the other was forwarded is not asked for again. -/
theorem late_line_lost : sampleForwarded 15 = (sampleLines.take 1, []) := by decide

end Permanu.ContainerTails
