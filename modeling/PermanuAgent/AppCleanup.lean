import PermanuAgent.ByteText
import Mathlib.Data.List.Nodup

/-!
# The cleanup of an app

`handle_app_cleanup` asks docker for the containers whose name contains
`deploy-app-<slug>-`, removes them and collects the volumes they mount, adds the volumes
whose name contains `deploy-app-<slug>`, and removes old images and then these volumes.
Another app is touched when one of its names contains the text: slugs may contain `-`,
and the text for the volumes has no `-` at its end.

Docker answers each command as it likes to: it works, is refused, or is lost with or
without its effect. The names are ASCII, as docker accepts no others.
-/

set_option autoImplicit false

namespace Permanu.AppCleanup
open ByteText List

structure Container where
  name : Str
  /-- The names of the mounted volumes; a bind mount has an empty name. -/
  mounts : List Str
  deriving DecidableEq, Repr

structure Image where
  repository : Str
  tag : Str
  deriving DecidableEq, Repr

structure Host where
  containers : List Container
  volumes : List Str
  images : List Image
  unique : (containers.map Container.name).Nodup

inductive Command where
  /-- `docker ps -a` with a name filter. -/
  | listContainers (text : Str)
  | inspectMounts (container : Str)
  | removeContainer (container : Str)
  | listVolumes (text : Str)
  /-- `docker images` of the tags of a repository. -/
  | listImages (repository : Str)
  | removeImage (image : Str)
  | removeVolume (volume : Str)
  deriving DecidableEq, Repr

inductive Fate where
  | works
  | refused (stderr : Str)
  | lost (error : Str) (done : Bool)
  deriving DecidableEq, Repr

inductive Answer where
  | failed (error : Str)
  | exited (success : Bool) (stdout stderr : Str)
  deriving DecidableEq, Repr

def rendered (lines : List Str) : Str := lines.flatMap fun line => line ++ [10]

def Image.text (image : Image) : Str := image.repository ++ [byte ':'] ++ image.tag

def Host.find (host : Host) (name : Str) : Option Container :=
  host.containers.find? fun container => decide (container.name = name)

def Host.without (host : Host) (name : Str) : Host where
  containers := host.containers.filter fun container => decide (container.name ≠ name)
  volumes := host.volumes
  images := host.images
  unique := host.unique.sublist (filter_sublist.map Container.name)

def Host.withoutImage (host : Host) (image : Str) : Host :=
  { host with images := host.images.filter fun other => decide (other.text ≠ image) }

def Host.withoutVolume (host : Host) (volume : Str) : Host :=
  { host with volumes := host.volumes.filter fun other => decide (other ≠ volume) }

/-- The output and the effect of a command, or `none` when docker exits with an error. -/
def effect (host : Host) : Command → Option (Str × Host)
  | .listContainers text =>
    some (rendered ((host.containers.map Container.name).filter fun name =>
      decide (text <:+: name)),
      host)
  | .inspectMounts container =>
    (host.find container).map fun found =>
      (rendered [found.mounts.flatMap fun name => name ++ [32]],host)
  | .removeContainer container =>
    (host.find container).map fun _ => (rendered [container],host.without container)
  | .listVolumes text =>
    some (rendered (host.volumes.filter fun name => decide (text <:+: name)),host)
  | .listImages repository =>
    some (rendered ((host.images.filter fun image => decide (image.repository = repository)).map
      Image.text),host)
  | .removeImage image =>
    some (rendered [image],host.withoutImage image)
  | .removeVolume volume =>
    if host.containers.any fun container => container.mounts.contains volume then none
    else some (rendered [volume],host.withoutVolume volume)

structure Session where
  host : Host
  ran : List Command

section
variable (fates : ℕ → Fate)

def Session.runCommandOutput (s : Session) (command : Command) : Answer × Session :=
  match fates s.ran.length, effect s.host command with
  | .works, some (stdout,host) => (.exited true stdout [],⟨host,s.ran ++ [command]⟩)
  | .works, none => (.exited false [] [],⟨s.host,s.ran ++ [command]⟩)
  | .refused stderr, _ => (.exited false [] stderr,⟨s.host,s.ran ++ [command]⟩)
  | .lost error true, some (_,host) => (.failed error,⟨host,s.ran ++ [command]⟩)
  | .lost error _, _ => (.failed error,⟨s.host,s.ran ++ [command]⟩)

def maxCommandOutputBytes : ℕ := 1024 * 1024

def outputLines (stdout : Str) : List Str :=
  (((lossy (stdout.take maxCommandOutputBytes)).splitOn 10).map trim).filter (· ≠ [])

def dockerListLines (s : Session) (command : Command) : Except Str (List Str) × Session :=
  match s.runCommandOutput fates command with
  | (.failed error,after) => (.error error,after)
  | (.exited false stdout stderr,after) =>
    (.error (trim (lossy (stdout.take maxCommandOutputBytes ++
      stderr.take maxCommandOutputBytes))),after)
  | (.exited true stdout _,after) => (.ok (outputLines stdout),after)

structure Payload where
  appSlug : Str
  keepImage : Str
  keepContainer : Str
  deriving DecidableEq, Repr

def validateSlug (value : Str) : Except String Unit :=
  if value = [] then .error "app_slug is required"
  else if value = str "." || value = str ".." || startsWith value "-" then
    .error "app_slug contains invalid characters"
  else if !value.all fun b => isAlphanumeric b || oneOf "-_." b then
    .error "app_slug contains invalid characters"
  else .ok ()

def validateDockerResourceName (value : Str) (label : String) : Except String Unit :=
  if value = [] then .error (label ++ " is required")
  else if value.any fun b => b ≤ 32 || oneOf "/\\" b then
    .error (label ++ " contains invalid characters")
  else .ok ()

def rsplitOnce (b : UInt8) : Str → Option (Str × Str)
  | [] => none
  | first :: rest =>
    match rsplitOnce b rest with
    | some (front,back) => some (first :: front,back)
    | none => if first = b then some ([],rest) else none

def extractSlugFromContainer (name : Str) : Option Str :=
  match name.dropPrefix? (str "deploy-app-") with
  | none => none
  | some body =>
    match rsplitOnce (byte '-') body with
    | none => none
    | some (front,_) => if front = [] then none else some front

def appText (slug : Str) : Str := str "deploy-app-" ++ slug

def containerText (slug : Str) : Str := appText slug ++ [byte '-']

structure Sweep where
  session : Session
  volumes : List Str
  removed : ℕ

def Sweep.remove (s : Sweep) (container : Str) : Sweep :=
  let inspected := dockerListLines fates s.session (.inspectMounts container)
  let volumes :=
    match inspected.1 with
    | .ok lines => s.volumes ∪ lines.flatMap splitWhitespace
    | .error _ => s.volumes
  let answered := inspected.2.runCommandOutput fates (.removeContainer container)
  let removed :=
    match answered.1 with
    | .exited _ _ _ => s.removed + 1
    | .failed _ => s.removed
  ⟨answered.2,volumes,removed⟩

def sweepContainers (keep : Str) : List Str → Sweep → Sweep
  | [], s => s
  | container :: rest, s =>
    if container = [] || container = keep then sweepContainers keep rest s
    else sweepContainers keep rest (s.remove fates container)

def sweepImages (keep : Str) : List Str → Session × ℕ → Session × ℕ
  | [], s => s
  | image :: rest, s =>
    if image = [] || image = keep || endsWith image ":<none>" then sweepImages keep rest s
    else
      let answered := s.1.runCommandOutput fates (.removeImage image)
      let removed :=
        match answered.1 with
        | .exited _ _ _ => s.2 + 1
        | .failed _ => s.2
      sweepImages keep rest (answered.2,removed)

def sweepVolumes : List Str → Session → Session
  | [], s => s
  | volume :: rest, s =>
    match validateDockerResourceName volume "volume" with
    | .error _ => sweepVolumes rest s
    | .ok () => sweepVolumes rest (s.runCommandOutput fates (.removeVolume volume)).2

inductive Status where
  | completed
  | failed
  deriving DecidableEq, Repr

structure Outcome where
  session : Session
  running : List Str
  status : Status
  text : Str

def finishCleanup (payload : Payload) (running : List Str) (swept : Sweep) : Outcome :=
  let listed := dockerListLines fates swept.session (.listVolumes (appText payload.appSlug))
  let volumes :=
    match listed.1 with
    | .ok names => swept.volumes ∪ names
    | .error _ => swept.volumes
  let images := dockerListLines fates listed.2 (.listImages (appText payload.appSlug))
  match images.1 with
  | .error error => ⟨images.2,running,.failed,str "failed to list images: " ++ error⟩
  | .ok names =>
    let removed := sweepImages fates payload.keepImage names (images.2,0)
    ⟨sweepVolumes fates volumes removed.1,running,.completed,
      str "removed " ++ decimal removed.2 ++ str " old images"⟩

def handleAppCleanup (payload : Payload) (host : Host) : Outcome :=
  match validateSlug payload.appSlug with
  | .error error => ⟨⟨host,[]⟩,[],.failed,str "invalid payload: " ++ str error⟩
  | .ok () =>
    let listed := dockerListLines fates ⟨host,[]⟩ (.listContainers (containerText payload.appSlug))
    let names :=
      match listed.1 with
      | .ok names => names
      | .error _ => []
    let swept := sweepContainers fates payload.keepContainer names ⟨listed.2,[],0⟩
    finishCleanup fates payload
      [str "removing containers matching " ++ containerText payload.appSlug ++ str "*...\n",
        str "removed " ++ decimal swept.removed ++ str " containers\n"] swept

end

variable {b : UInt8}

theorem rsplitOnce_none {s : Str} : rsplitOnce b s = none ↔ b ∉ s := by
  induction s with
  | nil => simp [rsplitOnce]
  | cons first rest ih =>
    rw [rsplitOnce]
    cases hrest : rsplitOnce b rest with
    | some parts =>
      have hin : b ∈ rest := by
        by_contra hout
        rw [ih.2 hout] at hrest
        cases hrest
      simp [hin]
    | none =>
      have hout := ih.1 hrest
      by_cases hfirst : first = b
      · simp [hfirst]
      · simp [hfirst, hout, Ne.symm hfirst]

variable {back out : Str} {after : Host} {lines : List Str}

variable {front keep : Str} {names : List Str}

theorem rsplitOnce_append (h : b ∉ back) :
    rsplitOnce b (front ++ b :: back) = some (front,back) := by
  induction front with
  | nil => simp [rsplitOnce, rsplitOnce_none.2 h]
  | cons first front ih => simp [rsplitOnce, ih]

theorem rsplitOnce_split {s : Str} (h : rsplitOnce b s = some (front,back)) :
    s = front ++ b :: back ∧ b ∉ back := by
  induction s generalizing front with
  | nil => cases h
  | cons first rest ih =>
    rw [rsplitOnce] at h
    cases hrest : rsplitOnce b rest with
    | some parts =>
      rw [hrest] at h
      cases h
      obtain ⟨hsplit,hback⟩ := ih hrest
      exact ⟨by rw [hsplit, cons_append],hback⟩
    | none =>
      rw [hrest] at h
      dsimp only at h
      split at h
      · next hfirst =>
        cases h
        exact ⟨by rw [hfirst, nil_append],rsplitOnce_none.1 hrest⟩
      · cases h

variable {name slug : Str}

/-- The containers of an app: one more part without a dash behind the slug. -/
theorem extractSlug_iff : extractSlugFromContainer name = some slug ↔
    slug ≠ [] ∧ ∃ tail, byte '-' ∉ tail ∧ name = containerText slug ++ tail := by
  rw [extractSlugFromContainer]
  constructor
  · intro h
    split at h
    · cases h
    · next body hbody =>
      split at h
      · cases h
      · next front back hsplit =>
        split at h
        · cases h
        · next hfront =>
          cases h
          obtain ⟨head,hname,hhead⟩ := dropPrefix?_eq_some_iff.1 hbody
          obtain ⟨hrest,hback⟩ := rsplitOnce_split hsplit
          refine ⟨hfront,back,hback,?_⟩
          rw [hname, hrest, beq_iff_eq.1 hhead, containerText, appText]
          simp only [append_assoc, singleton_append]
  · rintro ⟨hslug,tail,htail,rfl⟩
    have hbody : (containerText slug ++ tail).dropPrefix? (str "deploy-app-") =
        some (slug ++ byte '-' :: tail) := by
      rw [dropPrefix?_eq_some_iff]
      refine ⟨str "deploy-app-",?_,beq_self_eq_true _⟩
      simp only [containerText, appText, append_assoc, singleton_append]
    simp only [hbody, rsplitOnce_append htail, if_neg hslug]

section commands

variable (fates : ℕ → Fate)

@[simp] theorem runCommandOutput_ran (s : Session) (command : Command) :
    (s.runCommandOutput fates command).2.ran = s.ran ++ [command] := by
  rw [Session.runCommandOutput]
  split <;> rfl

@[simp] theorem dockerListLines_ran (s : Session) (command : Command) :
    (dockerListLines fates s command).2.ran = s.ran ++ [command] := by
  have hran := runCommandOutput_ran fates s command
  rw [dockerListLines]
  split <;> next hanswer => rw [hanswer] at hran; exact hran

def swept (keep : Str) (names : List Str) : List Str :=
  names.filter fun name => decide (name ≠ [] ∧ name ≠ keep)

theorem sweepContainers_ran (keep : Str) (names : List Str) (s : Sweep) :
    (sweepContainers fates keep names s).session.ran = s.session.ran ++
      (swept keep names).flatMap fun name => [.inspectMounts name, .removeContainer name] := by
  induction names generalizing s with
  | nil => simp [sweepContainers, swept]
  | cons name rest ih =>
    rw [sweepContainers]
    by_cases hskip : name = [] ∨ name = keep
    · have hout : ¬ (name ≠ [] ∧ name ≠ keep) := by tauto
      rw [if_pos (by simpa using hskip), ih, swept, swept, filter_cons_of_neg (by simpa using hout)]
    · have hin : name ≠ [] ∧ name ≠ keep := by tauto
      rw [if_neg (by simpa using hskip), ih, swept, swept, filter_cons_of_pos (by simpa using hin)]
      simp [Sweep.remove]

theorem sweepImages_ran (s : Session × ℕ) :
    ∃ images : List Str, (sweepImages fates keep names s).1.ran =
      s.1.ran ++ images.map Command.removeImage := by
  induction names generalizing s with
  | nil => exact ⟨[],by simp [sweepImages]⟩
  | cons name rest ih =>
    rw [sweepImages]
    split
    · exact ih s
    · obtain ⟨images,himages⟩ := ih _
      exact ⟨name :: images,by rw [himages]; simp⟩

theorem sweepVolumes_ran (volumes : List Str) (s : Session) :
    (sweepVolumes fates volumes s).ran = s.ran ++ (volumes.filter fun volume =>
      (validateDockerResourceName volume "volume").isOk).map Command.removeVolume := by
  induction volumes generalizing s with
  | nil => simp [sweepVolumes]
  | cons volume rest ih =>
    rw [sweepVolumes]
    split
    · next hinvalid => rw [ih]; simp [hinvalid, Except.isOk, Except.toBool]
    · next hvalid => rw [ih]; simp [hvalid, Except.isOk, Except.toBool]

end commands

variable {host : Host}

theorem find_eq_some {container : Container} :
    host.find name = some container ↔ container ∈ host.containers ∧ container.name = name := by
  constructor
  · intro h
    have hname := find?_some h
    exact ⟨mem_of_find?_eq_some h,by simpa using hname⟩
  · rintro ⟨hin,hname⟩
    cases hfound : host.find name with
    | none => exact absurd hname (by simpa using find?_eq_none.1 hfound container hin)
    | some other =>
      have hother : other.name = name := by simpa using find?_some hfound
      rw [inj_on_of_nodup_map host.unique (mem_of_find?_eq_some hfound) hin
        (hother.trans hname.symm)]

/-- What a cleanup leaves of a host before it turns to the volumes. -/
structure Kept (host after : Host) : Prop where
  volumes : after.volumes = host.volumes
  containers : after.containers.Sublist host.containers

theorem Kept.refl : Kept host host := ⟨rfl,List.Sublist.refl _⟩

def removesVolume : Command → Bool
  | .removeVolume _ => true
  | _ => false

variable {command : Command}

theorem effect_keeps {before : Host} (h : Kept host before)
    (hcommand : removesVolume command = false)
    (heffect : effect before command = some (out,after)) :
    Kept host after := by
  cases command with
  | listContainers text => cases heffect; exact h
  | inspectMounts container =>
    obtain ⟨found,-,hsame⟩ := Option.map_eq_some_iff.1 heffect
    cases hsame
    exact h
  | removeContainer container =>
    obtain ⟨found,-,hsame⟩ := Option.map_eq_some_iff.1 heffect
    cases hsame
    exact ⟨h.volumes,filter_sublist.trans h.containers⟩
  | listVolumes text | listImages repository => cases heffect; exact h
  | removeImage image => cases heffect; exact ⟨h.volumes,h.containers⟩
  | removeVolume volume => cases hcommand

theorem runCommandOutput_keeps (fates : ℕ → Fate) {s : Session}
    (h : Kept host s.host) (hcommand : removesVolume command = false) :
    Kept host (s.runCommandOutput fates command).2.host := by
  rw [Session.runCommandOutput]
  split
  · next heffect => exact effect_keeps h hcommand heffect
  · exact h
  · exact h
  · next heffect => exact effect_keeps h hcommand heffect
  · exact h

theorem dockerListLines_host (fates : ℕ → Fate) (s : Session) (command : Command) :
    (dockerListLines fates s command).2 = (s.runCommandOutput fates command).2 := by
  rw [dockerListLines]
  split <;> next hanswer => rw [hanswer]

/-- A listing that succeeds gives the lines of the output. -/
theorem dockerListLines_ok {fates : ℕ → Fate} {s : Session}
    (h : (dockerListLines fates s command).1 = .ok lines) :
    ∃ out after, effect s.host command = some (out,after) ∧ lines = outputLines out := by
  rw [dockerListLines] at h
  split at h
  · cases h
  · cases h
  · next hanswer =>
    cases h
    rw [Session.runCommandOutput] at hanswer
    split at hanswer
    · next heffect => cases hanswer; exact ⟨_,_,heffect,rfl⟩
    all_goals cases hanswer

def mountNames (host : Host) (name : Str) : List Str :=
  match host.find name with
  | none => []
  | some found =>
    (outputLines (rendered [found.mounts.flatMap fun mount => mount ++ [32]])).flatMap
      splitWhitespace

variable {volume : Str}

theorem Kept.mountNames (h : Kept host after)
    (hvolume : volume ∈ mountNames after name) : volume ∈ mountNames host name := by
  rw [AppCleanup.mountNames] at hvolume ⊢
  cases hfound : after.find name with
  | none => rw [hfound] at hvolume; cases hvolume
  | some container =>
    obtain ⟨hin,hname⟩ := find_eq_some.1 hfound
    rw [hfound] at hvolume
    rw [find_eq_some.2 ⟨h.containers.subset hin,hname⟩]
    exact hvolume

theorem inspected {fates : ℕ → Fate} {s : Session}
    (h : (dockerListLines fates s (.inspectMounts name)).1 = .ok lines) :
    lines.flatMap splitWhitespace = mountNames s.host name := by
  obtain ⟨out,after,heffect,rfl⟩ := dockerListLines_ok h
  obtain ⟨found,hfound,hsame⟩ := Option.map_eq_some_iff.1 heffect
  cases hsame
  rw [mountNames, hfound]

variable {s : Sweep}

section
variable (fates : ℕ → Fate)

theorem Sweep.remove_keeps (h : Kept host s.session.host) :
    Kept host (s.remove fates name).session.host := by
  refine runCommandOutput_keeps fates ?_ rfl
  rw [dockerListLines_host]
  exact runCommandOutput_keeps fates h rfl

theorem Sweep.mem_remove_volumes {fates : ℕ → Fate} (h : volume ∈ (s.remove fates name).volumes) :
    volume ∈ s.volumes ∨ volume ∈ mountNames s.session.host name := by
  rw [Sweep.remove] at h
  split at h
  · next lines hlines =>
    rw [inspected hlines] at h
    exact mem_union_iff.1 h
  · exact .inl h

theorem sweepContainers_keeps (keep : Str) (names : List Str) (h : Kept host s.session.host) :
    Kept host (sweepContainers fates keep names s).session.host := by
  induction names generalizing s with
  | nil => exact h
  | cons name rest ih =>
    rw [sweepContainers]
    split
    · exact ih h
    · exact ih (Sweep.remove_keeps fates h)

/-- Whatever docker does, a sweep notes only volumes that its containers mount. -/
theorem sweepContainers_volumes (h : Kept host s.session.host)
    (hvolume : volume ∈ (sweepContainers fates keep names s).volumes) :
    volume ∈ s.volumes ∨ ∃ name ∈ swept keep names, volume ∈ mountNames host name := by
  induction names generalizing s with
  | nil => exact .inl hvolume
  | cons name rest ih =>
    have hmore : ∀ other ∈ swept keep rest, other ∈ swept keep (name :: rest) :=
      fun other hother => ((sublist_cons_self name rest).filter _).subset hother
    rw [sweepContainers] at hvolume
    split at hvolume
    · rcases ih h hvolume with hin | ⟨other,hother,hmount⟩
      · exact .inl hin
      · exact .inr ⟨other,hmore other hother,hmount⟩
    · next hkeep =>
      rcases ih (Sweep.remove_keeps fates h) hvolume with hin | ⟨other,hother,hmount⟩
      · rcases Sweep.mem_remove_volumes hin with hbefore | hmount
        · exact .inl hbefore
        · refine .inr ⟨name,mem_filter.2 ⟨mem_cons_self,?_⟩,h.mountNames hmount⟩
          simpa using hkeep
      · exact .inr ⟨other,hmore other hother,hmount⟩

def works (_ : ℕ) : Fate := .works

theorem dockerListLines_works {s : Session}
    (h : effect s.host command = some (out,after)) :
    dockerListLines works s command = (.ok (outputLines out),⟨after,s.ran ++ [command]⟩) := by
  simp only [dockerListLines, Session.runCommandOutput, works, h]

def Noted (host : Host) (s : Sweep) (name : Str) : Prop :=
  (∀ volume ∈ mountNames host name, volume ∈ s.volumes) ∨
    s.session.host.find name = host.find name

theorem find_without {other : Str} (h : other ≠ name) :
    (host.without name).find other = host.find other := by
  ext container
  rw [find_eq_some, find_eq_some, Host.without, mem_filter]
  constructor
  · rintro ⟨⟨hin,-⟩,hname⟩
    exact ⟨hin,hname⟩
  · rintro ⟨hin,hname⟩
    exact ⟨⟨hin,by simpa [hname] using h⟩,hname⟩

theorem Sweep.remove_works (s : Sweep) :
    (∀ volume ∈ s.volumes, volume ∈ (s.remove works name).volumes) ∧
    (∀ volume ∈ mountNames s.session.host name, volume ∈ (s.remove works name).volumes) ∧
    ∀ other, other ≠ name →
      (s.remove works name).session.host.find other = s.session.host.find other := by
  cases hfound : s.session.host.find name with
  | none =>
    have hsame : s.remove works name =
        ⟨⟨s.session.host,s.session.ran ++ [.inspectMounts name] ++ [.removeContainer name]⟩,
          s.volumes,s.removed + 1⟩ := by
      simp [Sweep.remove, dockerListLines, Session.runCommandOutput, works, effect, hfound]
    rw [hsame, mountNames, hfound]
    exact ⟨fun _ hvolume => hvolume,fun _ hvolume => (nomatch hvolume),fun _ _ => rfl⟩
  | some container =>
    have hsame : s.remove works name =
        ⟨⟨s.session.host.without name,
            s.session.ran ++ [.inspectMounts name] ++ [.removeContainer name]⟩,
          s.volumes ∪ mountNames s.session.host name,s.removed + 1⟩ := by
      simp [Sweep.remove, dockerListLines, Session.runCommandOutput, works, effect, hfound,
        mountNames]
    rw [hsame]
    exact ⟨fun _ hvolume => mem_union_iff.2 (.inl hvolume),
      fun _ hvolume => mem_union_iff.2 (.inr hvolume),
      fun _ hother => find_without hother⟩

theorem Noted.remove (h : ∀ name, Noted host s name) :
    (∀ volume ∈ mountNames host name, volume ∈ (s.remove works name).volumes) ∧
      ∀ other, Noted host (s.remove works name) other := by
  obtain ⟨hold,hnew,hfind⟩ := s.remove_works
  have hname : ∀ volume ∈ mountNames host name, volume ∈ (s.remove works name).volumes := by
    intro volume hvolume
    rcases h name with hnoted | hsame
    · exact hold volume (hnoted volume hvolume)
    · apply hnew
      rwa [mountNames, hsame]
  refine ⟨hname,fun other => ?_⟩
  by_cases hother : other = name
  · rw [hother]
    exact .inl hname
  · exact (h other).imp (fun hnoted volume hvolume => hold volume (hnoted volume hvolume))
      (hfind other hother).trans

theorem sweepContainers_works (h : ∀ name, Noted host s name) :
    (∀ volume ∈ s.volumes, volume ∈ (sweepContainers works keep names s).volumes) ∧
    ∀ name ∈ swept keep names, ∀ volume ∈ mountNames host name,
      volume ∈ (sweepContainers works keep names s).volumes := by
  induction names generalizing s with
  | nil => exact ⟨fun _ hvolume => hvolume,fun _ hname => nomatch hname⟩
  | cons name rest ih =>
    rw [sweepContainers]
    by_cases hskip : name = [] ∨ name = keep
    · have hout : ¬ (name ≠ [] ∧ name ≠ keep) := by tauto
      rw [if_pos (by simpa using hskip), swept, filter_cons_of_neg (by simpa using hout)]
      exact ih h
    · have hin : name ≠ [] ∧ name ≠ keep := by tauto
      obtain ⟨hname,hnoted⟩ := Noted.remove h
      obtain ⟨hold,hrest⟩ := ih hnoted
      rw [if_neg (by simpa using hskip), swept, filter_cons_of_pos (by simpa using hin)]
      refine ⟨fun volume hvolume => hold volume (s.remove_works.1 volume hvolume),?_⟩
      intro other hother volume hvolume
      rcases mem_cons.1 hother with rfl | hlater
      · exact hold volume (hname volume hvolume)
      · exact hrest other hlater volume hvolume

def listedContainers (host : Host) (slug : Str) : List Str :=
  outputLines (rendered ((host.containers.map Container.name).filter fun name =>
    decide (containerText slug <:+: name)))

def listedVolumes (host : Host) (slug : Str) : List Str :=
  outputLines (rendered (host.volumes.filter fun name => decide (appText slug <:+: name)))

def reachedVolumes (payload : Payload) (host : Host) : List Str :=
  (swept payload.keepContainer (listedContainers host payload.appSlug)).flatMap (mountNames host) ++
    listedVolumes host payload.appSlug

/-- Only containers of the slug are removed, and no volume that a container of another slug
mounts is passed to the removal of volumes. -/
def Separate (slug : Str) (host : Host) (ran : List Command) : Prop :=
  (∀ name, Command.removeContainer name ∈ ran → extractSlugFromContainer name = some slug) ∧
  ∀ volume, Command.removeVolume volume ∈ ran → ∀ container ∈ host.containers,
    volume ∈ container.mounts → ∀ other, extractSlugFromContainer container.name = some other →
    other = slug

/-- The condition on the host: each listed container but the kept one has a name with one more
part, and no other app mounts a volume that is reached. -/
structure Apart (payload : Payload) (host : Host) : Prop where
  containers : ∀ name ∈ listedContainers host payload.appSlug, name ≠ payload.keepContainer →
    ∃ tail, byte '-' ∉ tail ∧ name = containerText payload.appSlug ++ tail
  volumes : ∀ volume ∈ reachedVolumes payload host,
    (validateDockerResourceName volume "volume").isOk = true → ∀ container ∈ host.containers,
    volume ∈ container.mounts → ∀ other, extractSlugFromContainer container.name = some other →
    other = payload.appSlug

def lastVolumes (slug : Str) (s : Sweep) : List Str :=
  match (dockerListLines fates s.session (.listVolumes (appText slug))).1 with
  | .ok names => s.volumes ∪ names
  | .error _ => s.volumes

theorem finishCleanup_ran {payload : Payload} {running : List Str} :
    ∃ images : List Str, ∃ volumes : List Str,
      (finishCleanup fates payload running s).session.ran = s.session.ran ++
        .listVolumes (appText payload.appSlug) :: .listImages (appText payload.appSlug) ::
          (images.map Command.removeImage ++ volumes.map Command.removeVolume) ∧
      (∀ volume ∈ volumes, volume ∈ lastVolumes fates payload.appSlug s ∧
        (validateDockerResourceName volume "volume").isOk = true) ∧
      (fates = works → ∀ volume ∈ lastVolumes fates payload.appSlug s,
        (validateDockerResourceName volume "volume").isOk = true → volume ∈ volumes) := by
  rw [finishCleanup]
  split
  · next error herror =>
    refine ⟨[],[],by simp,fun _ hvolume => (nomatch hvolume),?_⟩
    rintro rfl
    cases herror
  · next names hnames =>
    obtain ⟨images,himages⟩ := sweepImages_ran fates
      ((dockerListLines fates (dockerListLines fates s.session
        (.listVolumes (appText payload.appSlug))).2 (.listImages (appText payload.appSlug))).2,0)
    refine ⟨images,(lastVolumes fates payload.appSlug s).filter fun volume =>
      (validateDockerResourceName volume "volume").isOk,?_,?_,?_⟩
    · rw [sweepVolumes_ran, himages]
      simp [lastVolumes]
    · exact fun volume hvolume => mem_filter.1 hvolume
    · exact fun _ volume hvolume hvalid => mem_filter.2 ⟨hvolume,hvalid⟩

theorem lastVolumes_reached (h : Kept host s.session.host)
    (hvolume : volume ∈ lastVolumes fates slug s) :
    volume ∈ s.volumes ∨ volume ∈ listedVolumes host slug := by
  rw [lastVolumes] at hvolume
  split at hvolume
  · next names hnames =>
    obtain ⟨out,after,heffect,rfl⟩ := dockerListLines_ok hnames
    cases heffect
    rw [h.volumes] at hvolume
    exact mem_union_iff.1 hvolume
  · exact .inl hvolume

theorem reached_lastVolumes (h : Kept host s.session.host)
    (hvolume : volume ∈ s.volumes ∨ volume ∈ listedVolumes host slug) :
    volume ∈ lastVolumes works slug s := by
  rw [lastVolumes, dockerListLines_works rfl]
  rw [h.volumes]
  exact mem_union_iff.2 hvolume

def cleanupSweep (payload : Payload) (host : Host) : List Str × Sweep :=
  let listed := dockerListLines fates ⟨host,[]⟩ (.listContainers (containerText payload.appSlug))
  let names :=
    match listed.1 with
    | .ok names => names
    | .error _ => []
  (names,sweepContainers fates payload.keepContainer names ⟨listed.2,[],0⟩)

end

theorem handleAppCleanup_eq (fates : ℕ → Fate) (payload : Payload) (host : Host)
    (h : validateSlug payload.appSlug = .ok ()) :
    ∃ running, handleAppCleanup fates payload host =
      finishCleanup fates payload running (cleanupSweep fates payload host).2 := by
  simp only [handleAppCleanup, h]
  exact ⟨_,rfl⟩

theorem cleanupSweep_kept (fates : ℕ → Fate) (payload : Payload) (host : Host) :
    Kept host (cleanupSweep fates payload host).2.session.host := by
  apply sweepContainers_keeps
  rw [dockerListLines_host]
  exact runCommandOutput_keeps fates Kept.refl rfl

theorem cleanupSweep_ran (fates : ℕ → Fate) (payload : Payload) (host : Host) :
    (cleanupSweep fates payload host).2.session.ran =
      .listContainers (containerText payload.appSlug) ::
        (swept payload.keepContainer (cleanupSweep fates payload host).1).flatMap fun name =>
          [.inspectMounts name, .removeContainer name] := by
  simp only [cleanupSweep, sweepContainers_ran, dockerListLines_ran, nil_append,
    singleton_append]

theorem cleanupSweep_names (fates : ℕ → Fate) (payload : Payload) (host : Host)
    (h : name ∈ (cleanupSweep fates payload host).1) :
    name ∈ listedContainers host payload.appSlug := by
  rw [cleanupSweep] at h
  split at h
  · next names hnames =>
    obtain ⟨out,after,heffect,rfl⟩ := dockerListLines_ok hnames
    cases heffect
    exact h
  · cases h

theorem cleanupSweep_works (payload : Payload) (host : Host) :
    (cleanupSweep works payload host).1 = listedContainers host payload.appSlug := by
  rfl

theorem swept_listed (fates : ℕ → Fate) (payload : Payload) (host : Host)
    (h : name ∈ swept payload.keepContainer (cleanupSweep fates payload host).1) :
    name ∈ swept payload.keepContainer (listedContainers host payload.appSlug) := by
  obtain ⟨hin,hkeep⟩ := mem_filter.1 h
  exact mem_filter.2 ⟨cleanupSweep_names fates payload host hin,hkeep⟩

theorem cleanupSweep_volumes (fates : ℕ → Fate) (payload : Payload) (host : Host)
    (h : volume ∈ (cleanupSweep fates payload host).2.volumes) :
    ∃ name ∈ swept payload.keepContainer (listedContainers host payload.appSlug),
      volume ∈ mountNames host name := by
  have hkept : Kept host (dockerListLines fates ⟨host,[]⟩
      (.listContainers (containerText payload.appSlug))).2.host := by
    rw [dockerListLines_host]
    exact runCommandOutput_keeps fates Kept.refl rfl
  rcases sweepContainers_volumes fates hkept h with hin | ⟨name,hname,hmount⟩
  · cases hin
  · exact ⟨name,swept_listed fates payload host hname,hmount⟩

theorem cleanup_touches (fates : ℕ → Fate) (payload : Payload) (host : Host)
    (h : validateSlug payload.appSlug = .ok ()) :
    (∀ name, Command.removeContainer name ∈ (handleAppCleanup fates payload host).session.ran →
      name ∈ swept payload.keepContainer (listedContainers host payload.appSlug)) ∧
    ∀ volume, Command.removeVolume volume ∈ (handleAppCleanup fates payload host).session.ran →
      volume ∈ reachedVolumes payload host ∧
        (validateDockerResourceName volume "volume").isOk = true := by
  obtain ⟨running,heq⟩ := handleAppCleanup_eq fates payload host h
  obtain ⟨images,volumes,hran,hvolumes,-⟩ :=
    finishCleanup_ran fates
  rw [heq, hran, cleanupSweep_ran]
  constructor
  · intro name hname
    simp only [mem_append, mem_cons, mem_flatMap, mem_map, reduceCtorEq,
      not_mem_nil, false_or, or_false, Command.removeContainer.injEq, and_false,
      exists_false, exists_eq_right'] at hname
    exact swept_listed fates payload host hname
  · intro volume hvolume
    simp only [mem_append, mem_cons, mem_flatMap, mem_map, reduceCtorEq,
      not_mem_nil, false_or, or_false, Command.removeVolume.injEq, exists_eq_right, and_false,
      exists_false] at hvolume
    obtain ⟨hin,hvalid⟩ := hvolumes volume hvolume
    refine ⟨?_,hvalid⟩
    rcases lastVolumes_reached fates (cleanupSweep_kept fates payload host) hin with
      hmount | hlisted
    · obtain ⟨name,hname,hmounted⟩ := cleanupSweep_volumes fates payload host hmount
      exact mem_append_left _ (mem_flatMap.2 ⟨name,hname,hmounted⟩)
    · exact mem_append_right _ hlisted

theorem cleanup_touches_all {payload : Payload}
    (h : validateSlug payload.appSlug = .ok ()) :
    (∀ name ∈ swept payload.keepContainer (listedContainers host payload.appSlug),
      Command.removeContainer name ∈ (handleAppCleanup works payload host).session.ran) ∧
    ∀ volume ∈ reachedVolumes payload host,
      (validateDockerResourceName volume "volume").isOk = true →
      Command.removeVolume volume ∈ (handleAppCleanup works payload host).session.ran := by
  obtain ⟨running,heq⟩ := handleAppCleanup_eq works payload host h
  obtain ⟨images,volumes,hran,-,hvolumes⟩ :=
    finishCleanup_ran works
  rw [heq, hran, cleanupSweep_ran, cleanupSweep_works]
  constructor
  · intro name hname
    apply mem_append_left
    apply mem_cons_of_mem
    exact mem_flatMap.2 ⟨name,hname,by simp⟩
  · intro volume hvolume hvalid
    have hlast :
        volume ∈ lastVolumes works payload.appSlug (cleanupSweep works payload host).2 := by
      apply reached_lastVolumes (cleanupSweep_kept works payload host)
      refine (mem_append.1 hvolume).imp_left fun hmount => ?_
      obtain ⟨name,hname,hmounted⟩ := mem_flatMap.1 hmount
      -- no container is gone when the sweep starts
      refine (sweepContainers_works fun other => .inr ?_).2 name hname
        volume hmounted
      rw [dockerListLines_works rfl]
    have hin := hvolumes rfl volume hlast hvalid
    apply mem_append_right
    simp [hin]

/-- A cleanup of a valid slug keeps to the app, whatever docker does, exactly when each listed
container but the kept one has one more part without a dash behind the slug, and no other app
mounts a volume that is listed or that a listed container mounts. -/
theorem cleanup_separate_iff (payload : Payload) (host : Host)
    (h : validateSlug payload.appSlug = .ok ()) :
    (∀ fates, Separate payload.appSlug host (handleAppCleanup fates payload host).session.ran) ↔
      Apart payload host := by
  have hslug : payload.appSlug ≠ [] := by
    intro hempty
    rw [validateSlug, if_pos hempty] at h
    cases h
  constructor
  · intro hall
    obtain ⟨hnames,hvolumes⟩ := cleanup_touches_all h
    refine ⟨fun name hname hkeep => ?_,fun volume hvolume hvalid => ?_⟩
    · have hfull : name ≠ [] := by
        have hline := (mem_filter.1 hname).2
        simpa using hline
      have hin : name ∈ swept payload.keepContainer (listedContainers host payload.appSlug) :=
        mem_filter.2 ⟨hname,by simpa using ⟨hfull,hkeep⟩⟩
      exact (extractSlug_iff.1 ((hall works).1 name (hnames name hin))).2
    · exact (hall works).2 volume (hvolumes volume hvolume hvalid)
  · intro hapart fates
    obtain ⟨hnames,hvolumes⟩ := cleanup_touches fates payload host h
    refine ⟨fun name hname => ?_,fun volume hvolume => ?_⟩
    · obtain ⟨hin,hkeep⟩ := mem_filter.1 (hnames name hname)
      have hneq : name ≠ [] ∧ name ≠ payload.keepContainer := of_decide_eq_true hkeep
      exact extractSlug_iff.2 ⟨hslug,hapart.containers name hin hneq.2⟩
    · obtain ⟨hin,hvalid⟩ := hvolumes volume hvolume
      exact hapart.volumes volume hin hvalid

def cleanA : Payload := ⟨str "a",[],[]⟩

/-- The app `a` with a volume, beside the app `c`. -/
def ownHost : Host where
  containers :=
    [⟨str "deploy-app-a-1",[str "deploy-app-a-data"]⟩, ⟨str "deploy-app-c-1",[str "data"]⟩]
  volumes := [str "deploy-app-a-data", str "data"]
  images := []
  unique := by decide +kernel

theorem ownHost_apart : Apart cleanA ownHost where
  containers := by
    have hlisted : listedContainers ownHost cleanA.appSlug = [str "deploy-app-a-1"] := by
      decide +kernel
    intro name hname _
    rw [hlisted, mem_singleton] at hname
    exact ⟨str "1",by decide +kernel,by rw [hname]; decide +kernel⟩
  volumes := by
    have hreached : reachedVolumes cleanA ownHost =
      [str "deploy-app-a-data", str "deploy-app-a-data"] := by
      decide +kernel
    intro volume hvolume _
    have hsame : volume = str "deploy-app-a-data" := by
      rw [hreached] at hvolume
      simpa using hvolume
    subst hsame
    decide +kernel

theorem cleanup_separate_own_host : Apart cleanA ownHost ∧
    ∀ fates, Separate cleanA.appSlug ownHost (handleAppCleanup fates cleanA ownHost).session.ran :=
  ⟨ownHost_apart,(cleanup_separate_iff cleanA ownHost rfl).2 ownHost_apart⟩

/-- The apps `a`, `a-b` and `ab`, the last two with volumes. -/
def sharedHost : Host where
  containers := [⟨str "deploy-app-a-1",[]⟩, ⟨str "deploy-app-a-b-1",[str "data"]⟩,
    ⟨str "deploy-app-ab-1",[str "deploy-app-ab-data"]⟩]
  volumes := [str "data", str "deploy-app-ab-data"]
  images := []
  unique := by decide +kernel

/-- A cleanup of `a` removes the container of `a-b` with its volume, and passes the volume of
`ab` to docker. -/
theorem cleanup_removes_other_apps :
    (validateSlug cleanA.appSlug).isOk = true ∧
    (Command.removeContainer (str "deploy-app-a-b-1") ∈
        (handleAppCleanup works cleanA sharedHost).session.ran ∧
      extractSlugFromContainer (str "deploy-app-a-b-1") = some (str "a-b")) ∧
    Command.removeVolume (str "deploy-app-ab-data") ∈
        (handleAppCleanup works cleanA sharedHost).session.ran ∧
      (⟨str "deploy-app-ab-1",[str "deploy-app-ab-data"]⟩ : Container) ∈ sharedHost.containers ∧
      extractSlugFromContainer (str "deploy-app-ab-1") = some (str "ab") := by
  decide +kernel

end Permanu.AppCleanup
