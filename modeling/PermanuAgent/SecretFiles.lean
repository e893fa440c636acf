import PermanuAgent.AppCleanup
import PermanuAgent.ComposeFiles

/-!
# Secret files

`write_secret_files` keeps the secret files of an app in one directory of the host,
under the last component of their mount path. The directory is named after the slug
that the container's name gives, so files of one name there replace each other.
-/

set_option autoImplicit false

namespace Permanu.SecretFiles

open AppCleanup ByteText ComposeFiles List ResultSteps

structure SecretFileMount where
  mountPath : Str
  content : Str
  mode : ℕ

structure VolumeMount where
  hostPath : List Str
  containerPath : Str
  readOnly : Bool

def fileName (path : Str) : Option Str := (components path).getLast?.filter (· ≠ str "..")

def validateNoControl (value : Str) (label : String) : Except String Unit :=
  ensure (!value.any fun b => b == 0 || b == 13 || b == 10)
    (label ++ " contains invalid characters")

def validateAbsPath (value : Str) (label : String) : Except String Unit := do
  validateNoControl value label
  ensure (startsWith value "/") (label ++ " must be absolute")

variable {secrets : List SecretFileMount} {after tree : Tree} {mounts : List VolumeMount}

section
variable (decode : Str → Option Str) (dir : List Str)

def writeSecret (secret : SecretFileMount) (tree : Tree) : Except String (VolumeMount × Tree) := do
  validateAbsPath secret.mountPath "secret mount_path"
  let name ← okOr (fileName secret.mountPath) "secret mount_path must include a file name"
  validateNoControl name "secret file name"
  ensure (!name.contains (byte '/') && name ≠ str "." && name ≠ str "..")
    "secret file name contains invalid characters"
  let raw ← okOr (decode secret.content) "invalid secret base64"
  ensure ((if secret.mode = 0 then 0o400 else secret.mode) ≤ 0o777) "secret mode must be <= 0777"
  pure (⟨dir ++ [name],secret.mountPath,true⟩,Function.update tree (dir ++ [name]) (some raw))

def writeSecrets : List SecretFileMount → Tree → Except String (List VolumeMount × Tree)
  | [], tree => .ok ([],tree)
  | secret :: rest, tree => do
    let (mount,written) ← writeSecret decode dir secret tree
    let (mounts,after) ← writeSecrets rest written
    pure (mount :: mounts,after)

def appDir (containerName : Str) : List Str :=
  components (str "/var/lib/permanu-agent/secrets") ++
    [(extractSlugFromContainer containerName).getD (str "unknown")]

def writeSecretFiles (secrets : List SecretFileMount) (containerName : Str) (tree : Tree) :
    Except String (List VolumeMount × Tree) := do
  if secrets = [] then pure ([],tree)
  else
    validateSlug ((extractSlugFromContainer containerName).getD (str "unknown"))
    writeSecrets decode (appDir containerName) secrets tree

/-- The mount of a secret with the decoded content it is to show. -/
def mounted (secret : SecretFileMount) : VolumeMount × Option Str :=
  (⟨dir ++ [(fileName secret.mountPath).getD []],secret.mountPath,true⟩,decode secret.content)

def written (files : List (VolumeMount × Option Str)) (tree : Tree) : Tree :=
  files.foldl (fun tree file => Function.update tree file.1.hostPath file.2) tree

variable {decode} {dir}

theorem writeSecrets_ok (h : writeSecrets decode dir secrets tree = .ok (mounts,after)) :
    mounts = (secrets.map (mounted decode dir)).map Prod.fst ∧
      after = written (secrets.map (mounted decode dir)) tree := by
  induction secrets generalizing tree mounts with
  | nil =>
    cases h
    exact ⟨rfl,rfl⟩
  | cons secret rest ih =>
    simp only [writeSecrets, writeSecret, bind_ok, okOr_ok, pure_ok] at h
    obtain ⟨_,⟨_,-,name,hname,_,-,_,-,raw,hraw,_,-,rfl⟩,⟨others,final⟩,hrest,hsame⟩ := h
    cases hsame
    obtain ⟨rfl,rfl⟩ := ih hrest
    simp [mounted, written, hname, hraw]

theorem writeSecretFiles_ok {name : Str}
    (h : writeSecretFiles decode secrets name tree = .ok (mounts,after)) :
    mounts = (secrets.map (mounted decode (appDir name))).map Prod.fst ∧
      after = written (secrets.map (mounted decode (appDir name))) tree := by
  rw [writeSecretFiles] at h
  split_ifs at h with hnone
  · subst hnone
    exact writeSecrets_ok h
  · obtain ⟨_,-,hwritten⟩ := bind_ok.mp h
    exact writeSecrets_ok hwritten

/-- Files hold what was written to them iff those of one path were to hold the same. -/
theorem written_iff (files : List (VolumeMount × Option Str)) (tree : Tree) :
    (∀ file ∈ files, written files tree file.1.hostPath = file.2) ↔
      ∀ file ∈ files, ∀ other ∈ files, file.1.hostPath = other.1.hostPath → file.2 = other.2 := by
  constructor
  · intro h file hfile other hother hsame
    rw [← h file hfile, hsame, h other hother]
  · intro h
    induction files using List.reverseRecOn with
    | nil => simp
    | append_singleton files last ih =>
      intro file hfile
      rw [written, foldl_append, foldl_cons, foldl_nil, Function.update_apply]
      split_ifs with hsame
      · exact (h file hfile last (by simp) hsame).symm
      · rcases mem_append.mp hfile with hearlier | hlast
        · exact ih (fun f hf g hg => h f (mem_append_left _ hf) g (mem_append_left _ hg))
            file hearlier
        · exact absurd (by rw [mem_singleton.mp hlast]) hsame

end

/-- After the calls for two apps each mount shows the content given for it iff the
secrets of both that share a directory and a file name have the same content. -/
theorem secrets_own_content_iff (decode : Str → Option Str) (first second : List SecretFileMount)
    (firstName secondName : Str) (tree between after : Tree)
    (firstMounts secondMounts : List VolumeMount)
    (hfirst : writeSecretFiles decode first firstName tree = .ok (firstMounts,between))
    (hsecond : writeSecretFiles decode second secondName between = .ok (secondMounts,after)) :
    let files := first.map (mounted decode (appDir firstName)) ++
      second.map (mounted decode (appDir secondName))
    firstMounts ++ secondMounts = files.map Prod.fst ∧
      ((∀ file ∈ files, after file.1.hostPath = file.2) ↔
        ∀ file ∈ files, ∀ other ∈ files, file.1.hostPath = other.1.hostPath →
          file.2 = other.2) := by
  obtain ⟨rfl,rfl⟩ := writeSecretFiles_ok hfirst
  obtain ⟨rfl,rfl⟩ := writeSecretFiles_ok hsecond
  refine ⟨map_append.symm,?_⟩
  rw [← written_iff _ tree, written, written, written, foldl_append]

def sampleSecret (path content : String) : SecretFileMount := ⟨str path,str content,0⟩

def sampleCall (secrets : List SecretFileMount) (name : String) (tree : Tree) : Tree :=
  ((writeSecretFiles some secrets (str name) tree).toOption.map Prod.snd).getD fun _ => none

theorem own_directories_keep_content :
    sampleCall [sampleSecret "/run/key" "b"] "deploy-app-api-1"
      (sampleCall [sampleSecret "/run/key" "a"] "deploy-app-web-1" fun _ => none)
        (appDir (str "deploy-app-web-1") ++ [str "key"]) = some (str "a") :=
  ((secrets_own_content_iff some [sampleSecret "/run/key" "a"] [sampleSecret "/run/key" "b"]
    (str "deploy-app-web-1") (str "deploy-app-api-1") (fun _ => none) _ _ _ _ rfl rfl).2.mpr
      (by decide) _ mem_cons_self)

/-- Two mount paths that end in one name share a host file, and so do the files of the
apps `shop` and `shop-api` when the suffix of the first one's container has a dash. -/
theorem shared_name_shows_other_content :
    sampleCall [sampleSecret "/a/key" "a", sampleSecret "/b/key" "b"] "deploy-app-web-1"
      (fun _ => none) (appDir (str "deploy-app-web-1") ++ [str "key"]) = some (str "b") ∧
    sampleCall [sampleSecret "/run/key" "b"] "deploy-app-shop-api-2"
      (sampleCall [sampleSecret "/run/key" "a"] "deploy-app-shop-api-1" fun _ => none)
        (appDir (str "deploy-app-shop-api-1") ++ [str "key"]) = some (str "b") :=
  ⟨by decide,by decide⟩

end Permanu.SecretFiles
