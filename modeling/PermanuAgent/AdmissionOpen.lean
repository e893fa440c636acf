import PermanuAgent.AdmissionRun

/-!
# Opening the admission store

The store is one SQLite file. Opening it uses the file if it is sound, and
otherwise moves it aside and creates an empty store that admits nothing for a
while. What the file system and the database answer during the call is input:
any of the answers may be a failure.
-/

set_option autoImplicit false

namespace Permanu.AdmissionOpen
open ByteText PlanText ResultSteps AdmissionStore

inductive StoreError where
  | sqlite
  | io
  | notSafe (detail : Str)
  | tooNew (version : ℤ)
  deriving DecidableEq, Repr

structure OpenReport where
  created : Bool
  recreated : Bool
  movedAside : Option Str
  quarantineEndsAt : Option ℤ
  deriving DecidableEq, Repr

def quarantineSeconds : ℤ := 1200

/-- The answers of a database; `none` and `false` are failed statements. -/
structure Database where
  opened : Bool
  quickCheck : Option Str
  userVersion : Option ℤ
  journalMode : Option Str
  pragmas : Bool
  /-- The foreign key violations after the statements of a migration. -/
  applied : ℕ → Option ℕ
  metaRows : Option ℕ
  store : Store

def migrations : List Bool := [false, false, true]

def lowerAscii (text : Str) : Str :=
  text.map fun b => if byte 'A' ≤ b && b ≤ byte 'Z' then b + 32 else b

def configure (db : Database) : Except StoreError Unit := do
  let mode ← okOr db.journalMode .sqlite
  ensure (lowerAscii mode == str "wal") (.notSafe (str "journal_mode is " ++ mode))
  ensure db.pragmas .sqlite

def applyMigration (db : Database) (rebuilds : Bool) (version : ℕ) : Except StoreError Unit := do
  let violations ← okOr (db.applied version) .sqlite
  ensure (!(rebuilds && violations != 0)) (.notSafe (str "migration to user_version "
    ++ decimal version ++ str ": " ++ decimal violations ++ str " foreign key violations"))

def applyMigrations (db : Database) : List (Bool × ℕ) → Except StoreError Unit
  | [] => .ok ()
  | (rebuilds, index)::rest => do
    applyMigration db rebuilds (index + 1)
    applyMigrations db rest

def migrate (db : Database) : Except StoreError Unit := do
  let version ← okOr db.userVersion .sqlite
  if version > schemaVersion then .error (.tooNew version)
  -- a negative version is cast to a huge index, which skips every step
  else applyMigrations db (if version < 0 then [] else migrations.zipIdx.drop version.toNat)

def openExisting (db : Database) : Except StoreError Store := do
  ensure db.opened .sqlite
  let check ← okOr db.quickCheck .sqlite
  ensure (check == str "ok") (.notSafe (str "quick_check: " ++ check))
  let version ← okOr db.userVersion .sqlite
  ensure (version != 0) (.notSafe (str "uninitialised store"))
  configure db
  migrate db
  let rows ← okOr db.metaRows .sqlite
  ensure (rows == 1) (.notSafe (str "meta row missing"))
  return db.store

inductive Entry where
  | missing
  | special
  | file (db : Database)
  | unreadable

structure Host where
  dirReady : Except StoreError Unit
  entry : Entry
  renames : Bool
  creates : Bool
  fresh : Database
  inserts : Bool
  secures : Except StoreError Unit

def asidePath (path : Str) (now : ℤ) : Str :=
  path ++ str ".corrupt-" ++ (formatTimestamp now).filter fun b => b != byte ':'

section
variable (host : Host) (path : Str)

def moveAside (now : ℤ) : Except StoreError Str := do
  ensure host.renames .io
  return asidePath path now

def create (host : Host) (now : ℤ) (quarantine : Option ℤ) : Except StoreError Store := do
  ensure host.creates .io
  ensure host.fresh.opened .sqlite
  configure host.fresh
  migrate host.fresh
  ensure host.inserts .sqlite
  return createdStore now quarantine

def createNew (host : Host) (now : ℤ) (movedAside : Option Str) (recreated : Bool) :
    Except StoreError (Store × OpenReport) := do
  let quarantine := if recreated then some (now + quarantineSeconds) else none
  let store ← create host now quarantine
  host.secures
  return (store, ⟨true,recreated,movedAside,quarantine⟩)

def openStore (trustPresent : Bool) (now : ℤ) :
    Except StoreError (Store × OpenReport) := do
  host.dirReady
  match host.entry with
  | .file db =>
    match openExisting db with
    | .ok store => do
      host.secures
      return (store, ⟨false,false,none,store.quarantineEndsAt⟩)
    | .error (.tooNew version) => .error (.tooNew version)
    | .error _ => do
      let aside ← moveAside host path now
      createNew host now (some aside) true
  | .special => do
    let aside ← moveAside host path now
    createNew host now (some aside) true
  | .missing => createNew host now none trustPresent
  | .unreadable => .error .io

def moveExisting (now : ℤ) : Except StoreError (Option Str) :=
  match host.entry with
  | .missing => .ok none
  | .unreadable => .error .io
  | _ => (moveAside host path now).map some

def reseed (now : ℤ) : Except StoreError (Store × OpenReport) := do
  let movedAside ← moveExisting host path now
  let (store, report) ← openStore { host with entry := .missing } path true now
  ensure report.recreated (.notSafe (str "re-seed opened an existing store"))
  return (store, { report with movedAside := report.movedAside.or movedAside })

/-- The store at the path is lost: missing on a server that has its trust, no regular
file, or a database that does not open. -/
def lost (trustPresent : Bool) : Entry → Bool
  | .missing => trustPresent
  | .special => true
  | .file db =>
    match openExisting db with
    | .ok _ => false
    | .error (.tooNew _) => false
    | .error _ => true
  | .unreadable => false

/-- The store that takes the place of a lost one, or of one that is re-seeded. -/
def Replaces (trustPresent : Bool) (now : ℤ) (store : Store) : Prop :=
  (lost trustPresent host.entry = true ∧
    ∃ report, openStore host path trustPresent now = .ok (store, report)) ∨
  ∃ report, reseed host path now = .ok (store, report)

end

variable {now : ℤ} {store : Store}

theorem createNew_ok {host : Host} {movedAside : Option Str} {recreated : Bool}
    {report : OpenReport} (h : createNew host now movedAside recreated = .ok (store, report)) :
    store = createdStore now (if recreated then some (now + quarantineSeconds) else none) := by
  simp only [createNew, create, bind_ok, pure_ok, ensure_ok, Prod.mk.injEq] at h
  obtain ⟨_,⟨_,_,_,_,_,_,_,_,_,_,rfl⟩,_,_,rfl,_⟩ := h
  rfl

/-- Whatever was lost, and however, the new store is empty and quarantined. -/
theorem Replaces.created {host : Host} {path : Str} {trustPresent : Bool}
    (h : Replaces host path trustPresent now store) :
    store = createdStore now (some (now + quarantineSeconds)) := by
  rcases h with ⟨hlost,report,hopen⟩ | ⟨report,hseed⟩
  · simp only [openStore, bind_ok] at hopen
    obtain ⟨_,_,hopen⟩ := hopen
    split at hopen
    · rename_i db hentry
      rw [hentry, lost] at hlost
      split at hopen
      · rename_i hdb
        simp [hdb] at hlost
      · cases hopen
      · simp only [bind_ok] at hopen
        obtain ⟨_,_,hopen⟩ := hopen
        exact createNew_ok hopen
    · simp only [bind_ok] at hopen
      obtain ⟨_,_,hopen⟩ := hopen
      exact createNew_ok hopen
    · rename_i hentry
      rw [hentry, lost] at hlost
      rw [createNew_ok hopen, hlost]
      rfl
    · cases hopen
  · simp only [reseed, bind_ok, pure_ok, ensure_ok, Prod.mk.injEq] at hseed
    obtain ⟨_,_,_,hopen,_,_,rfl,_⟩ := hseed
    simp only [openStore, bind_ok] at hopen
    obtain ⟨_,_,hopen⟩ := hopen
    exact createNew_ok hopen

end Permanu.AdmissionOpen
