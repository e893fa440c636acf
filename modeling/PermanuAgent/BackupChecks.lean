import PermanuAgent.ByteText

/-!
# Backups reported as good

A Redis backup and the verification of a backup are sequences of docker commands. Some
commands are checked for their exit status; of others only the output is read, and a
`LASTSAVE` or a count that failed is taken like one that did not.
-/

set_option autoImplicit false

namespace Permanu.BackupChecks

open ByteText List

inductive Command where
  | networkInspect | networkCreate | volumeCreate | run | inspectRunning
  | stop | copy | start | restart | restore | ping | count | lastsave | bgsave
  deriving DecidableEq, Repr

structure CommandOutput where
  statusSuccess : Bool
  stdout : Str
  deriving DecidableEq, Repr

/-- What docker answers to a command, if it runs and does not time out. -/
abbrev Answer := Option CommandOutput

/-- The commands issued so far; the answer to command `n` is `docker n`. -/
abbrev Log := List Command

inductive BackupEngine where
  | postgres | mySql | mongo | redis
  deriving DecidableEq, Repr

def zero (answer : Answer) : Bool := answer.any CommandOutput.statusSuccess

def CommandOutput.text (output : CommandOutput) : Str := trim (lossy output.stdout)

def runDockerOutput (docker : ℕ → Answer) (log : Log) (command : Command) : Option Log :=
  if (docker log.length).isSome then some (log ++ [command]) else none

def runDockerSuccess (docker : ℕ → Answer) (log : Log) (command : Command) : Option Log :=
  if zero (docker log.length) then some (log ++ [command]) else none

/-- The result of `ensure_network` is dropped. -/
def ensureNetwork (docker : ℕ → Answer) (log : Log) : Log :=
  if zero (docker log.length) then log ++ [.networkInspect]
  else log ++ [.networkInspect, .networkCreate]

/-- Polls until an answer is as wanted, at most as often as the deadline leaves time for. -/
def poll (docker : ℕ → Answer) (command : Command) (wanted : CommandOutput → Bool) :
    ℕ → Log → Option Log
  | 0, _ => none
  | rounds + 1, log =>
    if (docker log.length).any wanted then some (log ++ [command])
    else poll docker command wanted rounds (log ++ [command])

def isRunning (output : CommandOutput) : Bool :=
  output.statusSuccess && output.text == str "true"

def waitContainerRunning (docker : ℕ → Answer) : ℕ → Log → Option Log :=
  poll docker .inspectRunning isRunning

/-- What the first `LASTSAVE` printed, or nothing. -/
def baseline (docker : ℕ → Answer) : Str := ((docker 0).map CommandOutput.text).getD []

def isNew (docker : ℕ → Answer) (output : CommandOutput) : Bool := output.text ≠ baseline docker

def waitRedisBgsave (docker : ℕ → Answer) : ℕ → Log → Option Log :=
  poll docker .lastsave (isNew docker)

def restoreBackup : BackupEngine → List Command
  | .postgres => [.stop, .copy, .start, .restore, .restart]
  | .mySql => [.stop, .copy, .start, .restore]
  | .mongo => [.copy, .restore]
  | .redis => [.stop, .copy, .start]

def validateService (docker : ℕ → Answer) : BackupEngine → Log → Option Log
  | .postgres, log | .redis, log =>
    (runDockerSuccess docker log .ping).bind (runDockerOutput docker · .count)
  | .mySql, log => runDockerOutput docker log .count
  | .mongo, log => runDockerSuccess docker log .ping

/-- The commands of a verification that ends with `verified`. -/
def verifyBackupInner (docker : ℕ → Answer) (engine : BackupEngine) (rounds : ℕ) :
    Option Log := do
  let created ← [.volumeCreate, .run].foldlM (runDockerSuccess docker) (ensureNetwork docker [])
  let running ← waitContainerRunning docker rounds created
  let restored ← (restoreBackup engine).foldlM (runDockerSuccess docker) running
  validateService docker engine restored

/-- The commands of a Redis backup that succeeds. -/
def createRedisBackup (docker : ℕ → Answer) (rounds : ℕ) : Option Log := do
  let saving ← runDockerSuccess docker [.lastsave] .bgsave
  let saved ← waitRedisBgsave docker rounds saving
  runDockerSuccess docker saved .copy

/-- `LASTSAVE` exited with zero before and after a `BGSAVE` and printed another value. -/
def SavedAnew (docker : ℕ → Answer) (log : Log) : Prop :=
  ∃ i j k old new, i < j ∧ j < k ∧ log[i]? = some .lastsave ∧ log[j]? = some .bgsave ∧
    log[k]? = some .lastsave ∧ docker i = some old ∧ old.statusSuccess = true ∧
    docker k = some new ∧ new.statusSuccess = true ∧ new.text ≠ old.text

/-- The answer `n` is the first from `start` on that is as wanted. -/
def First (docker : ℕ → Answer) (wanted : CommandOutput → Bool) (start n : ℕ) : Prop :=
  start ≤ n ∧ (docker n).any wanted = true ∧
    ∀ i, start ≤ i → i < n → (docker i).any wanted = false

/-- How many commands after the container runs the last query comes. -/
def lastQuery : BackupEngine → ℕ
  | .postgres => 7
  | .mySql => 5
  | .mongo => 3
  | .redis => 5

/-- The first `LASTSAVE`, and after the `BGSAVE` the first that prints another value, exit
with zero. -/
def ComparedZero (docker : ℕ → Answer) : Prop :=
  zero (docker 0) = true ∧ ∀ n, First docker (isNew docker) 2 n → zero (docker n) = true

/-- The network is there, no look at the container fails before it runs, and the last query
exits with zero. -/
def UncheckedZero (docker : ℕ → Answer) (engine : BackupEngine) : Prop :=
  zero (docker 0) = true ∧ ∀ n, First docker isRunning 3 n →
    (∀ i, 3 ≤ i → i < n → zero (docker i) = true) ∧ zero (docker (n + lastQuery engine)) = true

theorem First.unique {docker : ℕ → Answer} {wanted : CommandOutput → Bool} {start m n : ℕ}
    (hm : First docker wanted start m) (hn : First docker wanted start n) : m = n := by
  by_contra hne
  rcases Nat.lt_or_gt_of_ne hne with hless | hless
  · exact absurd hm.2.1 (by simp [hn.2.2 m hm.1 hless])
  · exact absurd hn.2.1 (by simp [hm.2.2 n hn.1 hless])

theorem success_ok {docker : ℕ → Answer} {log after : Log} {command : Command}
    (h : runDockerSuccess docker log command = some after) :
    zero (docker log.length) = true ∧ after = log ++ [command] := by
  obtain ⟨hzero,heq⟩ := Option.ite_none_right_eq_some.1 h
  exact ⟨hzero,(Option.some.inj heq).symm⟩

theorem output_ok {docker : ℕ → Answer} {log after : Log} {command : Command}
    (h : runDockerOutput docker log command = some after) : after = log ++ [command] :=
  (Option.some.inj (Option.ite_none_right_eq_some.1 h).2).symm

theorem each_ok {docker : ℕ → Answer} {commands : List Command} {log after : Log}
    (h : commands.foldlM (runDockerSuccess docker) log = some after) :
    after = log ++ commands ∧
      ∀ i, log.length ≤ i → i < after.length → zero (docker i) = true := by
  induction commands generalizing log with
  | nil =>
    cases h
    exact ⟨(append_nil _).symm,fun i hle hlt => by omega⟩
  | cons command rest ih =>
    obtain ⟨_,hone,hrest⟩ := Option.bind_eq_some_iff.1 h
    obtain ⟨hzero,rfl⟩ := success_ok hone
    obtain ⟨rfl,hall⟩ := ih hrest
    refine ⟨by simp,fun i hle hlt => ?_⟩
    rcases Nat.eq_or_lt_of_le hle with rfl | hlater
    · exact hzero
    · exact hall i (by rwa [length_append, length_singleton]) hlt

/-- A poll issues its command up to the first answer that is as wanted. -/
theorem poll_ok {docker : ℕ → Answer} {command : Command} {wanted : CommandOutput → Bool}
    {rounds : ℕ} {log after : Log} (h : poll docker command wanted rounds log = some after) :
    ∃ k, after = log ++ replicate (k + 1) command ∧
      First docker wanted log.length (log.length + k) := by
  induction rounds generalizing log with
  | zero => cases h
  | succ rounds ih =>
    rw [poll] at h
    split_ifs at h with hwanted
    · cases h
      exact ⟨0,rfl,le_refl _,hwanted,fun i hle hlt => by omega⟩
    · obtain ⟨k,rfl,-,hlast,hearly⟩ := ih h
      rw [length_append, length_singleton, Nat.add_assoc, Nat.add_comm 1 k] at hlast hearly
      refine ⟨k + 1,by rw [append_assoc, singleton_append, ← replicate_succ],by omega,hlast,?_⟩
      intro i hle hlt
      rcases Nat.eq_or_lt_of_le hle with rfl | hlater
      · simpa using hwanted
      · exact hearly i hlater hlt

theorem validateService_ok {docker : ℕ → Answer} {engine : BackupEngine} {log after : Log}
    (h : validateService docker engine log = some after) :
    after.length + (restoreBackup engine).length = log.length + lastQuery engine ∧
      ∀ i, log.length ≤ i → i + 1 < after.length → zero (docker i) = true := by
  cases engine with
  | postgres | redis =>
    obtain ⟨_,hping,hcount⟩ := Option.bind_eq_some_iff.1 h
    obtain ⟨hzero,rfl⟩ := success_ok hping
    rw [output_ok hcount]
    refine ⟨by simp [lastQuery, restoreBackup],fun i hle hlt => ?_⟩
    rw [length_append, length_append, length_singleton, length_singleton] at hlt
    rwa [show i = log.length by omega]
  | mySql =>
    rw [output_ok h]
    refine ⟨by simp [lastQuery, restoreBackup],fun i hle hlt => ?_⟩
    rw [length_append, length_singleton] at hlt
    omega
  | mongo =>
    rw [(success_ok h).2]
    refine ⟨by simp [lastQuery, restoreBackup],fun i hle hlt => ?_⟩
    rw [length_append, length_singleton] at hlt
    omega

/-- One `BGSAVE` stands in the log, behind one `LASTSAVE`. -/
theorem createRedisBackup_ok {docker : ℕ → Answer} {rounds : ℕ} {log : Log}
    (h : createRedisBackup docker rounds = some log) :
    ∃ m, First docker (isNew docker) 2 (2 + m) ∧
      log = .lastsave :: .bgsave :: (replicate (m + 1) .lastsave ++ [.copy]) := by
  obtain ⟨_,hsaving,h⟩ := Option.bind_eq_some_iff.1 h
  obtain ⟨_,hsaved,hcopied⟩ := Option.bind_eq_some_iff.1 h
  obtain ⟨-,rfl⟩ := success_ok hsaving
  obtain ⟨m,rfl,hfirst⟩ := poll_ok hsaved
  obtain ⟨-,rfl⟩ := success_ok hcopied
  exact ⟨m,hfirst,rfl⟩

theorem polled {m t : ℕ} {command : Command}
    (h : (replicate (m + 1) Command.lastsave ++ [.copy])[t]? = some command) :
    command = .copy ∨ command = .lastsave ∧ t ≤ m := by
  by_cases ht : t < m + 1
  · rw [getElem?_append_left (by simpa using ht), getElem?_replicate_of_lt ht] at h
    exact .inr ⟨(Option.some.inj h).symm,by omega⟩
  · rw [getElem?_append_right (by simpa using ht)] at h
    exact .inl (mem_singleton.1 (mem_of_getElem? h))

theorem redis_saved_iff {docker : ℕ → Answer} {rounds : ℕ} {log : Log}
    (h : createRedisBackup docker rounds = some log) :
    SavedAnew docker log ↔ ComparedZero docker := by
  obtain ⟨m,hfirst,rfl⟩ := createRedisBackup_ok h
  constructor
  · rintro ⟨i,j,k,old,new,hij,hjk,-,hj,hk,hold,hzero,hnew,hzero',hne⟩
    obtain rfl : j = 1 := by
      match j, hj with
      | 1, _ => rfl
      | j + 2, hj => rcases polled hj with heq | ⟨heq,-⟩ <;> cases heq
    obtain rfl : i = 0 := by omega
    obtain ⟨k,rfl⟩ := Nat.exists_eq_add_of_le' hjk
    obtain heq | ⟨-,hle⟩ := polled hk
    · cases heq
    have hlast : k + 2 = 2 + m := by
      by_contra hearlier
      have hsame := hfirst.2.2 (k + 2) (by omega) (by omega)
      rw [hnew] at hsame
      simp [isNew, baseline, hold, hne] at hsame
    refine ⟨by simp [zero, hold, hzero],fun n hn => ?_⟩
    rw [hn.unique hfirst, ← hlast, hnew]
    exact hzero'
  · rintro ⟨hzero,hlast⟩
    obtain ⟨old,hold,hzero⟩ := (Option.any_eq_true _ _).1 hzero
    obtain ⟨new,hnew,hzero'⟩ := (Option.any_eq_true _ _).1 (hlast _ hfirst)
    have hne := hfirst.2.1
    rw [hnew] at hne
    refine ⟨0,1,2 + m,old,new,by omega,by omega,rfl,rfl,?_,hold,hzero,hnew,hzero',?_⟩
    · rw [Nat.add_comm 2 m, getElem?_cons_succ, getElem?_cons_succ,
        getElem?_append_left (by simp), getElem?_replicate_of_lt (by omega)]
    · simpa [isNew, baseline, hold] using hne

/-- The verification issues the network commands, creates the container and polls it until it
runs. Of the further commands only the last is not checked. -/
theorem verifyBackupInner_ok {docker : ℕ → Answer} {engine : BackupEngine} {rounds : ℕ}
    {log : Log} (h : verifyBackupInner docker engine rounds = some log) :
    ∃ b n, (zero (docker 0) = true → b = 1) ∧ First docker isRunning (b + 2) n ∧
      log.length = n + lastQuery engine + 1 ∧
      ∀ i, b ≤ i → i < n + lastQuery engine → (b + 2 ≤ i → n ≤ i) → zero (docker i) = true := by
  obtain ⟨_,hcreated,h⟩ := Option.bind_eq_some_iff.1 h
  obtain ⟨_,hrunning,h⟩ := Option.bind_eq_some_iff.1 h
  obtain ⟨_,hrestored,hservice⟩ := Option.bind_eq_some_iff.1 h
  obtain ⟨rfl,hcreate⟩ := each_ok hcreated
  obtain ⟨m,rfl,hfirst⟩ := poll_ok hrunning
  obtain ⟨rfl,hrestore⟩ := each_ok hrestored
  obtain ⟨hlength,hquery⟩ := validateService_ok hservice
  simp only [length_append, length_cons, length_nil, length_replicate] at *
  refine ⟨_,_,fun hnetwork => by simp [ensureNetwork, hnetwork],hfirst,by omega,
    fun i hle hlt hpolled => ?_⟩
  rcases lt_trichotomy i ((ensureNetwork docker []).length + 2 + m) with hbefore | rfl | hafter
  · exact hcreate i hle (by omega)
  · obtain ⟨output,houtput,hruns⟩ := (Option.any_eq_true _ _).1 hfirst.2.1
    rw [isRunning, Bool.and_eq_true] at hruns
    simp [zero, houtput, hruns.1]
  · by_cases hrestores : i < (ensureNetwork docker []).length + 2 + (m + 1) +
        (restoreBackup engine).length
    · exact hrestore i (by omega) (by omega)
    · exact hquery i (by omega) (by omega)

theorem verified_iff {docker : ℕ → Answer} {engine : BackupEngine} {rounds : ℕ} {log : Log}
    (h : verifyBackupInner docker engine rounds = some log) :
    (∀ i < log.length, zero (docker i) = true) ↔ UncheckedZero docker engine := by
  obtain ⟨b,m,hnetwork,hfirst,hlength,hchecked⟩ := verifyBackupInner_ok h
  constructor
  · intro hall
    have hzero := hall 0 (by omega)
    cases hnetwork hzero
    refine ⟨hzero,fun n hn => ?_⟩
    rw [hn.unique hfirst]
    exact ⟨fun i _ hlt => hall i (by omega),hall _ (by omega)⟩
  · rintro ⟨hzero,hread⟩ i hi
    cases hnetwork hzero
    obtain ⟨hpolls,hlast⟩ := hread m hfirst
    by_cases hend : i = 0 ∨ i = m + lastQuery engine
    · rcases hend with rfl | rfl
      · exact hzero
      · exact hlast
    · by_cases hpoll : 3 ≤ i ∧ i < m
      · exact hpolls i hpoll.1 hpoll.2
      · exact hchecked i (by omega) (by omega) (by omega)

/-- A Redis backup that succeeds saw a new save iff the compared answers exited with zero. In a
verification that succeeds every command exited with zero iff the unchecked ones did. -/
theorem reported_good_iff (docker : ℕ → Answer) (engine : BackupEngine) (rounds : ℕ) :
    (∀ log ∈ createRedisBackup docker rounds, (SavedAnew docker log ↔ ComparedZero docker)) ∧
    ∀ log ∈ verifyBackupInner docker engine rounds,
      ((∀ i < log.length, zero (docker i) = true) ↔ UncheckedZero docker engine) :=
  ⟨fun _ => redis_saved_iff,fun _ => verified_iff⟩

/-- A first `LASTSAVE` that fails makes the old time look new, and a backup is verified
whose count could not be read. -/
theorem failed_commands_reported_good :
    (∃ log ∈ createRedisBackup (fun n => some ⟨n ≠ 0,if n = 0 then [] else str "1"⟩) 1,
      ¬ SavedAnew (fun n => some ⟨n ≠ 0,if n = 0 then [] else str "1"⟩) log) ∧
    ∃ log ∈ verifyBackupInner (fun n => some ⟨n ≠ 8,str "true"⟩) .redis 1,
      log[8]? = some .count := by
  constructor
  · have hsome : createRedisBackup (fun n => some ⟨n ≠ 0,if n = 0 then [] else str "1"⟩) 1 =
        some [.lastsave, .bgsave, .lastsave, .copy] := by decide +kernel
    refine ⟨_,hsome,?_⟩
    rw [redis_saved_iff hsome]
    exact fun h => absurd h.1 (by decide)
  · exact ⟨[.networkInspect, .volumeCreate, .run, .inspectRunning, .stop, .copy, .start, .ping,
      .count],by decide +kernel,rfl⟩

end Permanu.BackupChecks
