import PermanuAgent.ComposeContent
import Mathlib.Logic.Function.Basic

/-!
# The files of a compose project

`ComposeUp` validates the compose file of a request, writes it, and then writes
the extra files of the request into the same directory. Extra files are checked
for leaving the directory only, so one of them may lead to the compose file.
-/

set_option autoImplicit false

namespace Permanu.ComposeFiles

open ByteText ComposeContent ResultSteps List

structure ComposeUpPayload where
  projectName : Str
  composeContent : Str
  /-- The map of extra files, in the order of its iteration. -/
  extraFiles : List (Str × Str)
  restoreBackup : Bool

abbrev Tree := List Str → Option Str

/-- What the host answers. A path leads to a file over the links there are; a
write may be refused, as it is for a path that ends in a separator. -/
structure Host where
  quoted : Str → Str
  ensureDeployNet : Except Str Unit
  tree : Tree
  /-- The backup that is made of a project there is, and the one that is put back. -/
  backedUp : Option (Except Str Tree)
  restored : Option (Except Str Tree)
  resolve : List Str → List Str
  refused : ℕ → Except Str Unit

def components (path : Str) : List Str :=
  (path.splitOn (byte '/')).filter fun name => name ≠ [] ∧ name ≠ str "."

def pathWithinRoot (path root : List Str) : Bool := path == root || root.isPrefixOf path

def validateProjectName (h : Host) (name : Str) : Except Str Unit :=
  ensure (name ≠ [] && name ≠ str "." && name ≠ str ".." && name.length ≤ 128 &&
      name.head?.any isAlphanumeric &&
      (name.drop 1).all (fun b => isAlphanumeric b || oneOf "_.-" b) &&
      !(containsText name ".." || name.contains (byte '/') || name.contains (byte '\\')))
    (str "invalid compose project name " ++ h.quoted name)

def deploymentBaseDir : List Str := components (str "/opt/permanu-agent/deployments")

def deploymentProjectDir (h : Host) (name : Str) : Except Str (List Str) := do
  validateProjectName h name
  ensure (pathWithinRoot (deploymentBaseDir ++ [name]) deploymentBaseDir)
    (str "deployment dir escapes deployment root")
  pure (deploymentBaseDir ++ [name])

def deploymentExtraFilePath (h : Host) (dir : List Str) (rel : Str) : Except Str (List Str) := do
  ensure (rel ≠ [] && rel ≠ str "." && rel ≠ str "..")
    (str "invalid extra file path " ++ h.quoted rel)
  ensure (rel.head? ≠ some (byte '/') && !rel.contains (byte '\\'))
    (str "invalid extra file path " ++ h.quoted rel)
  ensure (!(components rel).contains (str "..")) (str "extra file path escapes deployment dir")
  ensure (pathWithinRoot (dir ++ components rel) dir)
    (str "extra file path escapes deployment dir")
  pure (dir ++ components rel)

def write (h : Host) (n : ℕ) (path : List Str) (content : Str) (tree : Tree) : Except Str Tree :=
  (h.refused n).map fun _ => Function.update tree (h.resolve path) (some content)

def writeComposeFile (h : Host) (dir : List Str) (content : Str) (tree : Tree) : Except Str Tree :=
  write h 0 (dir ++ [str "compose.yaml"]) content tree

def writeExtraFiles (h : Host) (dir : List Str) : ℕ → List (Str × Str) → Tree → Except Str Tree
  | _, [], tree => .ok tree
  | n, (rel,content) :: rest, tree => do
    let path ← deploymentExtraFilePath h dir rel
    let written ← write h (n+1) path content tree
    writeExtraFiles h dir (n+1) rest written

def writeProject (h : Host) (p : ComposeUpPayload) (dir : List Str) : Except Str Tree := do
  let tree ← (h.backedUp.getD (.ok h.tree)).mapError
    (str "failed to backup deployment for rollback: " ++ ·)
  (validateComposeUpContent p.composeContent).mapError (str "compose validation failed: " ++ ·)
  let composed ← (writeComposeFile h dir p.composeContent tree).mapError
    (str "failed to write compose file: " ++ ·)
  (writeExtraFiles h dir 0 p.extraFiles composed).mapError
    (str "failed to write extra files: " ++ ·)

def restoreProject (h : Host) (p : ComposeUpPayload) (dir : List Str) : Except Str Tree := do
  let tree ←
    if p.restoreBackup then
      (h.restored.getD (.error (str "no deployment backup found for rollback"))).mapError fun e =>
        if h.restored.isSome then str "failed to restore deployment backup: " ++ e else e
    else .ok h.tree
  ensure (tree (h.resolve (dir ++ [str "compose.yaml"]))).isSome
    (str "no compose file found for project (was it deployed?)")
  pure tree

/-- The tree that `docker compose up` starts on, or the text of the failure before. -/
def handleComposeUp (h : Host) (p : ComposeUpPayload) : Except Str Tree := do
  let dir ← deploymentProjectDir h p.projectName
  h.ensureDeployNet.mapError (str "failed to ensure deploy-net network: " ++ ·)
  if p.composeContent ≠ [] then writeProject h p dir else restoreProject h p dir

def composeFile (h : Host) (p : ComposeUpPayload) : List Str :=
  h.resolve (deploymentBaseDir ++ [p.projectName] ++ [str "compose.yaml"])

def overwrites (h : Host) (p : ComposeUpPayload) : List Str :=
  (p.extraFiles.filter fun file =>
    h.resolve (deploymentBaseDir ++ [p.projectName] ++ components file.1) = composeFile h p).map
      Prod.snd

theorem write_ok {n : ℕ} {after tree : Tree} {h : Host} {path : List Str} {content : Str}
    (hw : write h n path content tree = .ok after) (target : List Str) :
    after target = if h.resolve path = target then some content else tree target := by
  rw [write, map_ok] at hw
  obtain ⟨_,-,rfl⟩ := hw
  by_cases hsame : h.resolve path = target
  · rw [if_pos hsame, ← hsame, Function.update_self]
  · rw [if_neg hsame, Function.update_of_ne (Ne.symm hsame)]

/-- After the extra files a file holds what the last one that leads to it holds. -/
theorem writeExtraFiles_ok {n : ℕ} {after tree : Tree} {h : Host} {dir : List Str}
    (target : List Str) {files : List (Str × Str)}
    (hw : writeExtraFiles h dir n files tree = .ok after) :
    after target = ((files.filter fun file =>
      h.resolve (dir ++ components file.1) = target).map Prod.snd).getLast?.or (tree target) := by
  induction files generalizing n tree with
  | nil =>
    cases hw
    rfl
  | cons file rest ih =>
    simp only [writeExtraFiles, deploymentExtraFilePath, bind_ok, pure_ok] at hw
    obtain ⟨path,⟨_,-,_,-,_,-,_,-,rfl⟩,written,hone,hrest⟩ := hw
    rw [ih hrest, write_ok hone target]
    by_cases hsame : h.resolve (dir ++ components file.1) = target
    · rw [if_pos hsame, filter_cons_of_pos (by simpa using hsame), map_cons,
        getLast?_cons]
      cases ((rest.filter _).map Prod.snd).getLast? <;> rfl
    · rw [if_neg hsame, filter_cons_of_neg (by simpa using hsame)]

/-- Whenever `docker compose up` is reached with a compose file of the request, that
file was validated; it is the one that runs iff the last extra file that leads to it,
if there is one, holds the same. -/
theorem compose_file_validated_iff (h : Host) (p : ComposeUpPayload) (tree : Tree)
    (hcontent : p.composeContent ≠ []) (hup : handleComposeUp h p = .ok tree) :
    validateComposeUpContent p.composeContent = .ok () ∧
      (tree (composeFile h p) = some p.composeContent ↔
        ∀ content ∈ (overwrites h p).getLast?, content = p.composeContent) := by
  simp only [handleComposeUp, deploymentProjectDir, writeProject, writeComposeFile, hcontent,
    ne_eq, not_false_eq_true, if_true, bind_ok, pure_ok, mapError_ok] at hup
  obtain ⟨_,⟨_,-,_,-,rfl⟩,_,-,_,-,_,hvalid,composed,hcomposed,hextra⟩ := hup
  refine ⟨hvalid,?_⟩
  have hfile := writeExtraFiles_ok (composeFile h p) hextra
  have hfirst := write_ok hcomposed (composeFile h p)
  rw [composeFile, if_pos rfl] at hfirst
  rw [hfile, ← overwrites, composeFile, hfirst]
  cases (overwrites h p).getLast? <;> simp

/-- A host that has no project yet and takes every write. -/
def sampleHost : Host where
  quoted := fun text => [byte '"'] ++ text ++ [byte '"']
  ensureDeployNet := .ok ()
  tree := fun _ => none
  backedUp := none
  restored := none
  resolve := id
  refused := fun _ => .ok ()

def sampleContent : Str := str "services:\n web:\n  image: web"

def sampleUp (file : String) (content : String) : ComposeUpPayload where
  projectName := str "web"
  composeContent := sampleContent
  extraFiles := [(str file,str content)]
  restoreBackup := false

theorem compose_file_validated_config : ∃ tree,
    handleComposeUp sampleHost (sampleUp "conf/app.env" "A=1") = .ok tree ∧
      tree (composeFile sampleHost (sampleUp "conf/app.env" "A=1")) = some sampleContent :=
  ⟨_,rfl,(compose_file_validated_iff sampleHost (sampleUp "conf/app.env" "A=1") _ (by decide)
    rfl).2.mpr (by decide)⟩

/-- An extra file of the same path replaces the validated file by one that would be refused. -/
theorem extra_file_replaces_compose_file :
    validateComposeUpContent sampleContent = .ok () ∧
    ((handleComposeUp sampleHost (sampleUp "./compose.yaml" "services:\n web:\n  privileged: true")
        ).toOption.map fun tree => tree (composeFile sampleHost (sampleUp "./compose.yaml" ""))) =
      some (some (str "services:\n web:\n  privileged: true")) ∧
    (validateComposeUpContent (str "services:\n web:\n  privileged: true")).isOk = false :=
  ⟨by decide,by decide,by decide⟩

end Permanu.ComposeFiles
