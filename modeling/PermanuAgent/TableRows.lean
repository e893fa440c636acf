import Mathlib.Data.List.Sort
import Mathlib.Data.List.Nodup

/-!
# Tables as lists of rows

A table is the list of its rows in the order of their insertion. The statements
of a relational store are functions on such lists: an insertion that a unique
constraint can refuse, an insertion that ignores a row already there, an
insertion that replaces the row of its key, and an update of the rows that meet
a condition. Keys are functions of the row.
-/

set_option autoImplicit false

namespace Permanu.TableRows

open List

/-- `UPDATE … WHERE`: the rows that meet the condition are rewritten in place. -/
def updateWhere {ρ : Type} (p : ρ → Bool) (f : ρ → ρ) (rows : List ρ) : List ρ :=
  rows.map fun r => if p r then f r else r

/-- `DELETE … WHERE`. -/
def deleteWhere {ρ : Type} (p : ρ → Bool) (rows : List ρ) : List ρ := rows.filter fun r => !p r

/-- `INSERT` under unique constraints: refused when an old row conflicts with the new one. -/
def insertNew {ρ : Type} (conflicts : ρ → Bool) (row : ρ) (rows : List ρ) : Option (List ρ) :=
  if rows.any conflicts then none else some (rows ++ [row])

def insertAllNew {ρ : Type} (conflicts : ρ → ρ → Bool) : List ρ → List ρ → Option (List ρ)
  | [], rows => some rows
  | row::rest, rows =>
    match insertNew (conflicts row) row rows with
    | none => none
    | some inserted => insertAllNew conflicts rest inserted

def rowOf {ρ κ : Type} [DecidableEq κ] (key : ρ → κ) (k : κ) (rows : List ρ) : Option ρ :=
  rows.find? fun r => key r = k

/-- `INSERT OR IGNORE`: a row whose key is taken is dropped. -/
def insertIgnore {ρ κ : Type} [DecidableEq κ] (key : ρ → κ) (row : ρ) (rows : List ρ) : List ρ :=
  if (rowOf key (key row) rows).isSome then rows else rows ++ [row]

/-- `INSERT … ON CONFLICT DO UPDATE`: the row replaces the old row of its key. -/
def upsert {ρ κ : Type} [DecidableEq κ] (key : ρ → κ) (row : ρ) : List ρ → List ρ
  | [] => [row]
  | r::rest => if key r = key row then row::rest else r::upsert key row rest

theorem map_updateWhere {ρ κ : Type} (p : ρ → Bool) (f : ρ → ρ) (key : ρ → κ)
    (hk : ∀ r, key (f r) = key r) (rows : List ρ) :
    (updateWhere p f rows).map key = rows.map key := by
  rw [updateWhere, map_map]
  apply map_congr_left
  intro r _
  by_cases hp : p r = true
  · simp [hp, hk]
  · simp [hp]

theorem mem_updateWhere {ρ : Type} (p : ρ → Bool) (f : ρ → ρ) {rows : List ρ} {r : ρ} :
    r ∈ updateWhere p f rows ↔ ∃ s ∈ rows, r = if p s then f s else s := by
  simp only [updateWhere, mem_map]
  constructor
  all_goals
    rintro ⟨s,hs,rfl⟩
    exact ⟨s,hs,rfl⟩

/-- Rows of one key are at most one where keys are unique. -/
theorem countP_le_one {ρ κ : Type} (p : ρ → Bool) (key : ρ → κ) {k : κ} {rows : List ρ}
    (hp : ∀ r ∈ rows, p r = true → key r = k) (hn : (rows.map key).Nodup) :
    rows.countP p ≤ 1 := by
  induction rows with
  | nil => simp
  | cons r rest ih =>
    rw [map_cons, nodup_cons] at hn
    rw [forall_mem_cons] at hp
    by_cases hr : p r = true
    · have hrest : rest.countP p = 0 := by
        rw [countP_eq_zero]
        intro s hs hps
        exact hn.1 (mem_map.mpr ⟨s,hs,(hp.2 s hs hps).trans (hp.1 hr).symm⟩)
      rw [countP_cons, hrest, if_pos hr]
    · rw [countP_cons, if_neg hr]
      exact ih hp.2 hn.2

theorem insertNew_eq_some {ρ : Type} (conflicts : ρ → Bool) {row : ρ} {rows rows' : List ρ} :
    insertNew conflicts row rows = some rows' ↔
      (∀ r ∈ rows, conflicts r = false) ∧ rows' = rows ++ [row] := by
  by_cases h : rows.any conflicts = true
  · simp only [insertNew, h, if_true, reduceCtorEq, false_iff, not_and]
    intro hn
    obtain ⟨r,hr,hc⟩ := any_eq_true.mp h
    simp [hn r hr] at hc
  · have hn : ∀ r ∈ rows, conflicts r = false := by simpa using h
    simp only [insertNew, h, Bool.false_eq_true, if_false, Option.some.injEq]
    exact ⟨fun he => ⟨hn,he.symm⟩,fun he => he.2.symm⟩

theorem insertAllNew_eq_some {ρ : Type} (conflicts : ρ → ρ → Bool) {new rows' : List ρ}
    (rows : List ρ) (h : insertAllNew conflicts new rows = some rows') : rows' = rows ++ new := by
  induction new generalizing rows with
  | nil =>
    cases h
    simp
  | cons row rest ih =>
    simp only [insertAllNew] at h
    split at h
    · cases h
    · rename_i inserted hi
      rw [ih inserted h, ((insertNew_eq_some _).mp hi).2]
      simp

theorem rowOf_some {ρ κ : Type} [DecidableEq κ] {k : κ} {r : ρ} (key : ρ → κ) {rows : List ρ}
    (h : rowOf key k rows = some r) :
    r ∈ rows ∧ key r = k :=
  ⟨mem_of_find?_eq_some h,by simpa using find?_some h⟩

theorem rowOf_none {ρ κ : Type} [DecidableEq κ] {k : κ} (key : ρ → κ) {rows : List ρ} :
    rowOf key k rows = none ↔ ∀ r ∈ rows, key r ≠ k := by
  simp [rowOf]

theorem mem_insertIgnore {ρ κ : Type} [DecidableEq κ] {r : ρ} (key : ρ → κ) (row : ρ)
    {rows : List ρ} (h : r ∈ insertIgnore key row rows) : r ∈ rows ∨ r = row := by
  simp only [insertIgnore] at h
  split_ifs at h
  · exact .inl h
  · simpa using h

theorem subset_insertIgnore {ρ κ : Type} [DecidableEq κ] (key : ρ → κ) (row : ρ) {rows : List ρ} :
    rows ⊆ insertIgnore key row rows := by
  intro r hr
  simp only [insertIgnore]
  split_ifs
  · exact hr
  · simp [hr]

theorem nodup_insertIgnore {ρ κ : Type} [DecidableEq κ] (key : ρ → κ) (row : ρ) {rows : List ρ}
    (h : (rows.map key).Nodup) : ((insertIgnore key row rows).map key).Nodup := by
  simp only [insertIgnore]
  split_ifs with htaken
  · exact h
  · rw [Option.not_isSome_iff_eq_none, rowOf_none] at htaken
    rw [map_append, nodup_append]
    refine ⟨h,nodup_singleton _,?_⟩
    simpa using htaken

/-- The key of an ignored or inserted row is there afterwards. -/
theorem exists_key_insertIgnore {ρ κ : Type} [DecidableEq κ] (key : ρ → κ) (row : ρ)
    {rows : List ρ} : ∃ r ∈ insertIgnore key row rows, key r = key row := by
  by_cases h : (rowOf key (key row) rows).isSome = true
  · obtain ⟨r,hr⟩ := Option.isSome_iff_exists.mp h
    obtain ⟨hm,hk⟩ := rowOf_some key hr
    exact ⟨r,by simpa [insertIgnore, h] using hm,hk⟩
  · exact ⟨row,by simp [insertIgnore, h],rfl⟩

theorem mem_upsert {ρ κ : Type} [DecidableEq κ] {r : ρ} (key : ρ → κ) (row : ρ) {rows : List ρ}
    (h : r ∈ upsert key row rows) : r ∈ rows ∨ r = row := by
  induction rows with
  | nil => simpa [upsert] using h
  | cons s rest ih =>
    simp only [upsert] at h
    split_ifs at h with hk
    · rcases mem_cons.mp h with rfl | hm
      · exact .inr rfl
      · exact .inl (by simp [hm])
    · rcases mem_cons.mp h with rfl | hm
      · exact .inl (by simp)
      · rcases ih hm with hm | rfl
        · exact .inl (by simp [hm])
        · exact .inr rfl

theorem mem_upsert_self {ρ κ : Type} [DecidableEq κ] (key : ρ → κ) (row : ρ) {rows : List ρ} :
    row ∈ upsert key row rows := by
  induction rows with
  | nil => simp [upsert]
  | cons s rest ih =>
    simp only [upsert]
    split_ifs
    · exact mem_cons_self
    · exact mem_cons_of_mem s ih

theorem mem_upsert_of_ne {ρ κ : Type} [DecidableEq κ] {r : ρ} (key : ρ → κ) (row : ρ)
    {rows : List ρ} (hne : key r ≠ key row) (h : r ∈ rows) : r ∈ upsert key row rows := by
  induction rows with
  | nil => cases h
  | cons s rest ih =>
    simp only [upsert]
    rcases mem_cons.mp h with rfl | hm
    · simp [hne]
    · split_ifs
      · exact mem_cons_of_mem row hm
      · exact mem_cons_of_mem s (ih hm)

theorem rowOf_upsert {ρ κ : Type} [DecidableEq κ] (key : ρ → κ) (row : ρ) (rows : List ρ) (k : κ) :
    rowOf key k (upsert key row rows) = if key row = k then some row else rowOf key k rows := by
  induction rows with
  | nil => simp [upsert, rowOf]
  | cons s rest ih =>
    simp only [upsert]
    by_cases hs : key s = key row
    · by_cases hk : key row = k <;> simp [rowOf, hs, hk]
    · by_cases hsk : key s = k
      · have hk : key row ≠ k := fun h => hs (hsk.trans h.symm)
        simp only [hs, if_false, hk]
        simp [rowOf, hsk]
      · simp only [hs, if_false, rowOf, find?_cons, hsk, decide_false] at ih ⊢
        exact ih

theorem lookup_of_mem {κ : Type} {k : κ} {β : Type} [BEq κ] [LawfulBEq κ] {l : List (κ × β)}
    (hn : (l.map Prod.fst).Nodup) {b : β} (h : (k, b) ∈ l) : l.lookup k = some b := by
  induction l with
  | nil => cases h
  | cons entry rest ih =>
    obtain ⟨k',b'⟩ := entry
    simp only [map_cons, nodup_cons] at hn
    rcases mem_cons.mp h with he | hm
    · cases he
      simp
    · have hne : (k == k') = false := by
        rw [beq_eq_false_iff_ne]
        rintro rfl
        exact hn.1 (mem_map.mpr ⟨_,hm,rfl⟩)
      rw [lookup_cons, hne]
      exact ih hn.2 hm

theorem mem_of_lookup {κ : Type} {k : κ} {β : Type} [BEq κ] [LawfulBEq κ] {l : List (κ × β)} {b : β}
    (h : l.lookup k = some b) : (k, b) ∈ l := by
  obtain ⟨l₁,l₂,rfl,_⟩ := lookup_eq_some_iff.mp h
  simp

theorem map_of_core {ρ β : Type} (core : ρ → ρ) {rows rows' : List ρ} (f : ρ → β)
    (hf : ∀ r, f (core r) = f r) (h : rows'.map core = rows.map core) :
    rows'.map f = rows.map f := by
  have hmap : ∀ l : List ρ, l.map f = (l.map core).map f := by
    intro l
    simp [map_map, Function.comp_def, hf]
  rw [hmap, h, ← hmap]

theorem mem_of_core {ρ : Type} {r : ρ} {β : Type} {rows rows' : List ρ} {core : ρ → β}
    (h : rows'.map core = rows.map core) (hr : r ∈ rows') :
    ∃ s ∈ rows, core s = core r := by
  have : core r ∈ rows.map core := h ▸ mem_map_of_mem hr
  simpa using this

theorem filter_of_core {ρ : Type} {core : ρ → ρ} {rows rows' : List ρ} (p : ρ → Bool)
    (hp : ∀ r, p (core r) = p r) (h : rows'.map core = rows.map core) :
    (rows'.filter p).map core = (rows.filter p).map core := by
  have hfilter : ∀ l : List ρ, (l.filter p).map core = (l.map core).filter p := by
    intro l
    simp [filter_map, Function.comp_def, hp]
  rw [hfilter, h, ← hfilter]

theorem find?_of_core {ρ β : Type} {core : ρ → ρ} {rows rows' : List ρ}
    (h : rows'.map core = rows.map core) (p : ρ → Bool) (f : ρ → β) (hp : ∀ r, p (core r) = p r)
    (hf : ∀ r, f (core r) = f r) :
    (rows'.find? p).map f = (rows.find? p).map f := by
  have hfind : ∀ l : List ρ, (l.find? p).map f = ((l.map core).find? p).map f := by
    intro l
    simp [find?_map, Function.comp_def, hp, hf]
  rw [hfind, h, ← hfind]

end Permanu.TableRows
