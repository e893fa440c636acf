import PermanuAgent.ByteText
import PermanuAgent.ResultSteps

/-!
# The status of a docker command

A docker command that cannot be run, or is not done in time, is an error of the
helper that runs it. One that exits with a failure is an answer, and its status is
for the caller to look at.
-/

set_option autoImplicit false

namespace Permanu.HostedCommands

open ByteText ResultSteps

structure CommandOutput where
  statusSuccess : Bool
  stdout : Str
  stderr : Str

abbrev Answer := Except Str CommandOutput

def exitedZero : Answer → Bool
  | .ok output => output.statusSuccess
  | .error _ => false

def exitedNonZero : Answer → Bool
  | .ok output => !output.statusSuccess
  | .error _ => false

def maxCommandOutputBytes : ℕ := 1024 * 1024

def runCommandOutput (answer : Answer) : Answer :=
  answer.map fun output =>
    { output with
      stdout := output.stdout.take maxCommandOutputBytes
      stderr := output.stderr.take maxCommandOutputBytes }

structure InspectContainer where
  id : Str
  running : Option Bool

def trimmed (output : Str) : Str := trim (lossy output)

def CommandOutput.combinedString (output : CommandOutput) : Str :=
  trimmed (output.stdout ++ output.stderr)

def ensureNetwork (inspected created : Answer) : Except Str Unit :=
  if exitedZero (runCommandOutput inspected) then .ok ()
  else do
    let output ← runCommandOutput created
    ensure output.statusSuccess (output.combinedString)

/-- The decoder reads the output of `docker inspect`. -/
def inspectContainer (decode : Str → Except Str (List InspectContainer)) (answer : Answer) :
    Except Str InspectContainer := do
  let output ← runCommandOutput answer
  ensure output.statusSuccess (output.combinedString)
  let containers ← decode output.stdout
  okOr containers.getLast? (str "empty docker inspect response")

structure DeployPayload where
  healthCheckOnly : Bool
  imageTag : Str
  skipPull : Bool

/-- The answers `AppDeploy` gets. Those of the connections to service networks are dropped. -/
structure DeployHost where
  probeContainerHealth : Except Str Bool
  sendRunning : Except Str Unit
  networkInspect : Answer
  networkCreate : Answer
  pull : Except Str Unit
  writeSecretFiles : Except Str Unit
  create : Answer
  start : Answer

def prepareDeploy (h : DeployHost) (p : DeployPayload) : Except Str Unit := do
  ensure (p.imageTag ≠ []) (str "image_tag is required for deploy")
  h.sendRunning.mapError (str "send deploy status: " ++ ·)
  (ensureNetwork h.networkInspect h.networkCreate).mapError
    (str "failed to ensure network: " ++ ·)
  (if p.skipPull then .ok () else h.pull).mapError (str "image pull failed: " ++ ·)
  h.writeSecretFiles.mapError (str "secret file write failed: " ++ ·)

def handleAppDeploy (h : DeployHost) (p : DeployPayload) : Except Str Str :=
  if p.healthCheckOnly then
    match h.probeContainerHealth with
    | .ok true => .ok (str "healthy")
    | .ok false => .error (str "health check failed after 60s")
    | .error error => .error (str "health check failed: " ++ error)
  else do
    prepareDeploy h p
    let created ← (runCommandOutput h.create).mapError (str "container create failed: " ++ ·)
    ensure (trimmed created.stdout ≠ []) (str "container create failed: empty container id")
    let _ ← (runCommandOutput h.start).mapError (str "container start failed: " ++ ·)
    pure (trimmed created.stdout)

/-- The answers to `docker update` and `docker rm` are dropped. -/
def handleAppStop (stop : Answer) : Except Str Str := do
  let _ ← (runCommandOutput stop).mapError (str "docker stop failed: " ++ ·)
  pure (str "stopped")

def handleAppRollback (decode : Str → Except Str (List InspectContainer))
    (inspect start : Answer) : Except Str Str := do
  let found ← (inspectContainer decode inspect).mapError
    (str "rollback container not found: " ++ ·)
  if found.running = some true then pure found.id
  else do
    let _ ← (runCommandOutput start).mapError (str "rollback start failed: " ++ ·)
    pure found.id

def printsId (answer : Answer) : Bool :=
  match runCommandOutput answer with
  | .ok output => trimmed output.stdout ≠ []
  | .error _ => false

structure CreateServicePayload where
  network : Str
  volumes : List Str
  healthCheck : Str

structure ServiceHost where
  pull : Except Str Unit
  networkInspect : Answer
  networkCreate : Answer
  volumeCreate : Str → Answer
  create : Answer
  start : Answer
  waitForContainerHealthy : Except Str Unit

def namedVolumeSource (mount : Str) : Option Str :=
  match splitOnce ':' mount with
  | none => none
  | some (source,_) =>
    if source = [] || oneOf "/.~" (source.headD 0) || source.contains (byte '\\') then none
    else some source

def createVolumes (volumeCreate : Str → Answer) : List Str → Except Str Unit
  | [] => .ok ()
  | mount :: rest => do
    match namedVolumeSource mount with
    | none => pure ()
    | some source =>
      let _ ← (runCommandOutput (volumeCreate source)).mapError
        (str "failed to create volume " ++ source ++ str ": " ++ ·)
    createVolumes volumeCreate rest

def prepareService (h : ServiceHost) (p : CreateServicePayload) : Except Str Unit := do
  h.pull.mapError (str "failed to pull image: " ++ ·)
  (if p.network = [] then .ok ()
    else ensureNetwork h.networkInspect h.networkCreate).mapError
      (str "failed to ensure network: " ++ ·)
  createVolumes h.volumeCreate p.volumes

def handleServiceCreate (h : ServiceHost) (p : CreateServicePayload) : Except Str Str := do
  prepareService h p
  let created ← (runCommandOutput h.create).mapError (str "failed to create container: " ++ ·)
  ensure created.statusSuccess
    (str "failed to create container: " ++ created.combinedString)
  ensure (trimmed created.stdout ≠ []) (str "failed to create container: empty container id")
  let _ ← (runCommandOutput h.start).mapError (str "failed to start container: " ++ ·)
  (if p.healthCheck = [] then .ok () else h.waitForContainerHealthy).mapError
    (str "health check failed: " ++ ·)
  pure (trimmed created.stdout)

section
variable {answer : Answer}

theorem isOk_iff {α : Type} {x : Except Str α} : x.isOk = true ↔ ∃ a, x = .ok a := by
  cases x <;> simp [Except.isOk, Except.toBool]

theorem ran_iff : (∃ output, runCommandOutput answer = .ok output) ↔ answer.isOk = true := by
  simp only [runCommandOutput, map_ok, isOk_iff]
  constructor
  · rintro ⟨_,output,h,-⟩
    exact ⟨output,h⟩
  · rintro ⟨output,h⟩
    exact ⟨_,output,h,rfl⟩

/-- A command that ran exited with zero, or with something else. -/
theorem exitedZero_of_ran :
    (answer.isOk = true → exitedZero answer = true) ↔ exitedNonZero answer = false := by
  cases answer <;> simp [Except.isOk, Except.toBool, exitedZero, exitedNonZero]

theorem exitedZero_run {output : CommandOutput} (h : runCommandOutput answer = .ok output) :
    exitedZero answer = output.statusSuccess := by
  cases answer with
  | error e => cases h
  | ok o =>
    cases h
    rfl

theorem printsId_iff : printsId answer = true ↔
    ∃ output, runCommandOutput answer = .ok output ∧ trimmed output.stdout ≠ [] := by
  unfold printsId
  cases runCommandOutput answer <;> simp

theorem printsId_ran (h : printsId answer = true) : answer.isOk = true := by
  obtain ⟨output,hrun,-⟩ := printsId_iff.mp h
  exact ran_iff.mp ⟨output,hrun⟩

theorem appDeploy_completes {h : DeployHost} {p : DeployPayload}
    (hdeploy : p.healthCheckOnly = false) :
    (handleAppDeploy h p).isOk = true ↔
      (prepareDeploy h p).isOk = true ∧ printsId h.create = true ∧
        h.start.isOk = true := by
  rw [isOk_iff, ← ran_iff, printsId_iff, isOk_iff]
  simp only [handleAppDeploy, hdeploy, Bool.false_eq_true, if_false, bind_ok, pure_ok,
    mapError_ok, ensure_ok, decide_eq_true_eq]
  constructor
  · rintro ⟨_,u,hprepared,created,hcreated,_,hid,started,hstarted,-⟩
    exact ⟨⟨u,hprepared⟩,⟨created,hcreated,hid⟩,started,hstarted⟩
  · rintro ⟨⟨u,hprepared⟩,⟨created,hcreated,hid⟩,started,hstarted⟩
    exact ⟨_,u,hprepared,created,hcreated,(),hid,started,hstarted,rfl⟩

theorem serviceCreate_completes {h : ServiceHost} {p : CreateServicePayload} :
    (handleServiceCreate h p).isOk = true ↔
      (prepareService h p).isOk = true ∧ printsId h.create = true ∧
        exitedZero h.create = true ∧ h.start.isOk = true ∧
        (p.healthCheck ≠ [] → h.waitForContainerHealthy.isOk = true) := by
  have hwait : (p.healthCheck ≠ [] → h.waitForContainerHealthy.isOk = true) ↔
      ∃ u, (if p.healthCheck = [] then .ok () else h.waitForContainerHealthy) = .ok u := by
    rw [← isOk_iff]
    split
    · simp [*, Except.isOk, Except.toBool]
    · simp [*]
  rw [isOk_iff, hwait, ← ran_iff, printsId_iff, isOk_iff]
  simp only [handleServiceCreate, bind_ok, pure_ok, mapError_ok, ensure_ok, decide_eq_true_eq]
  constructor
  · rintro ⟨_,u,hprepared,created,hcreated,_,hzero,_,hid,started,hstarted,v,hhealthy,-⟩
    exact ⟨⟨u,hprepared⟩,⟨created,hcreated,hid⟩,(exitedZero_run hcreated).trans hzero,
      ⟨started,hstarted⟩,v,hhealthy⟩
  · rintro ⟨⟨u,hprepared⟩,⟨created,hcreated,hid⟩,hzero,⟨started,hstarted⟩,v,hhealthy⟩
    rw [exitedZero_run hcreated] at hzero
    exact ⟨_,u,hprepared,created,hcreated,(),hzero,(),hid,started,hstarted,v,hhealthy,rfl⟩

theorem appRollback_completes {decode : Str → Except Str (List InspectContainer)}
    {inspect start : Answer} : (handleAppRollback decode inspect start).isOk = true ↔
      ∃ found, inspectContainer decode inspect = .ok found ∧
        (found.running = some true ∨ start.isOk = true) := by
  rw [isOk_iff, ← ran_iff]
  simp only [handleAppRollback, bind_ok, mapError_ok]
  constructor
  · rintro ⟨_,found,hfound,hrest⟩
    refine ⟨found,hfound,?_⟩
    split at hrest
    · next hrunning => exact .inl hrunning
    · simp only [bind_ok, mapError_ok] at hrest
      obtain ⟨started,hstarted,-⟩ := hrest
      exact .inr ⟨started,hstarted⟩
  · rintro ⟨found,hfound,hrest⟩
    refine ⟨found.id,found,hfound,?_⟩
    split
    · rfl
    · next hrunning =>
      obtain ⟨started,hstarted⟩ := hrest.resolve_left hrunning
      simp only [bind_ok, mapError_ok]
      exact ⟨started,hstarted,rfl⟩

theorem appStop_completes : (handleAppStop answer).isOk = true ↔ answer.isOk = true := by
  rw [isOk_iff, ← ran_iff]
  simp only [handleAppStop, bind_ok, pure_ok, mapError_ok]
  constructor
  · rintro ⟨_,output,hrun,-⟩
    exact ⟨output,hrun⟩
  · rintro ⟨output,hrun⟩
    exact ⟨_,output,hrun,rfl⟩

end

/-- A command says completed only if docker did it, iff docker does not fail with a
status that the handler does not look at. -/
theorem completed_iff_no_dropped_status
    (decode : Str → Except Str (List InspectContainer)) :
    (∀ h p, ((handleAppDeploy h p).isOk = true →
        p.healthCheckOnly = false ∧ exitedZero h.create = true ∧ exitedZero h.start = true) ↔
      if p.healthCheckOnly then h.probeContainerHealth ≠ .ok true
      else (prepareDeploy h p).isOk = true → printsId h.create = true →
        h.start.isOk = true → exitedNonZero h.create = false ∧ exitedNonZero h.start = false) ∧
    (∀ h p, ((handleServiceCreate h p).isOk = true →
        exitedZero h.create = true ∧ exitedZero h.start = true) ↔
      ((prepareService h p).isOk = true → printsId h.create = true →
        exitedZero h.create = true →
        (p.healthCheck ≠ [] → h.waitForContainerHealthy.isOk = true) →
        exitedNonZero h.start = false)) ∧
    (∀ inspect start, ((handleAppRollback decode inspect start).isOk = true →
        (∃ found, inspectContainer decode inspect = .ok found ∧
          found.running = some true) ∨ exitedZero start = true) ↔
      ∀ found, inspectContainer decode inspect = .ok found →
        found.running ≠ some true → exitedNonZero start = false) ∧
    ∀ stop, ((handleAppStop stop).isOk = true → exitedZero stop = true) ↔
      exitedNonZero stop = false := by
  refine ⟨?_,?_,?_,?_⟩
  · intro h p
    cases hmode : p.healthCheckOnly with
    | true =>
      rw [if_pos rfl, handleAppDeploy, if_pos hmode]
      cases h.probeContainerHealth with
      | error e => simp [Except.isOk, Except.toBool]
      | ok healthy => cases healthy <;> simp [Except.isOk, Except.toBool]
    | false =>
      rw [if_neg Bool.false_ne_true, appDeploy_completes hmode]
      constructor
      · intro hdone hprepared hid hstarted
        obtain ⟨-,hcreate,hstart⟩ := hdone ⟨hprepared,hid,hstarted⟩
        exact ⟨exitedZero_of_ran.mp fun _ => hcreate,exitedZero_of_ran.mp fun _ => hstart⟩
      · rintro hclean ⟨hprepared,hid,hstarted⟩
        obtain ⟨hcreate,hstart⟩ := hclean hprepared hid hstarted
        exact ⟨rfl,exitedZero_of_ran.mpr hcreate (printsId_ran hid),
          exitedZero_of_ran.mpr hstart hstarted⟩
  · intro h p
    rw [serviceCreate_completes]
    constructor
    · intro hdone hprepared hid hcreate hhealthy
      exact exitedZero_of_ran.mp fun hran => (hdone ⟨hprepared,hid,hcreate,hran,hhealthy⟩).2
    · rintro hclean ⟨hprepared,hid,hcreate,hran,hhealthy⟩
      exact ⟨hcreate,exitedZero_of_ran.mpr (hclean hprepared hid hcreate hhealthy) hran⟩
  · intro inspect start
    rw [appRollback_completes]
    constructor
    · intro hdone found hfound hdown
      apply exitedZero_of_ran.mp
      intro hran
      rcases hdone ⟨found,hfound,.inr hran⟩ with ⟨other,hother,hup⟩ | hzero
      · rw [hfound] at hother
        cases hother
        exact absurd hup hdown
      · exact hzero
    · rintro hclean ⟨found,hfound,hrest⟩
      by_cases hup : found.running = some true
      · exact .inl ⟨found,hfound,hup⟩
      · exact .inr (exitedZero_of_ran.mpr (hclean found hfound hup) (hrest.resolve_left hup))
  · intro stop
    rw [appStop_completes]
    exact exitedZero_of_ran

def sampleAnswer (success : Bool) (stdout : String) : Answer := .ok ⟨success,str stdout,[]⟩

/-- Every handler says completed though the last docker command it needs failed. -/
theorem completed_after_docker_failed :
    handleAppDeploy
        { probeContainerHealth := .ok true, sendRunning := .ok ()
          networkInspect := sampleAnswer true "", networkCreate := sampleAnswer true ""
          pull := .ok (), writeSecretFiles := .ok ()
          create := sampleAnswer true "4f1a", start := sampleAnswer false "" }
        { healthCheckOnly := false, imageTag := str "web:2", skipPull := false } =
      .ok (str "4f1a") ∧
    handleServiceCreate
        { pull := .ok (), networkInspect := sampleAnswer true ""
          networkCreate := sampleAnswer true "", volumeCreate := fun _ => sampleAnswer true ""
          create := sampleAnswer true "4f1a", start := sampleAnswer false ""
          waitForContainerHealthy := .ok () }
        { network := [], volumes := [], healthCheck := [] } = .ok (str "4f1a") ∧
    handleAppRollback (fun id => .ok [⟨id,some false⟩]) (sampleAnswer true "4f1a")
      (sampleAnswer false "") = .ok (str "4f1a") ∧
    handleAppStop (sampleAnswer false "") = .ok (str "stopped") := by
  decide +kernel

end Permanu.HostedCommands
