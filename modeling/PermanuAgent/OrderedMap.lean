import Mathlib.Data.List.Nodup
import Mathlib.Algebra.BigOperators.Group.List.Basic
import Mathlib.Algebra.GroupWithZero.Nat

/-!
# Maps in the order of iteration

A map is the list of its entries in the order of iteration, with no key twice.
An insertion replaces the value of a key that is there and otherwise places the
entry where the order of the keys says.
-/

set_option autoImplicit false

namespace Permanu

open List

structure OrderedMap (κ υ : Type) where
  entries : List (κ × υ)
  unique : (entries.map Prod.fst).Nodup

variable {κ υ : Type}

namespace OrderedMap

variable {m n : OrderedMap κ υ}

theorem ext_entries (h : m.entries = n.entries) : m = n := by
  cases m
  cases n
  cases h
  rfl

instance [DecidableEq κ] [DecidableEq υ] : DecidableEq (OrderedMap κ υ) := fun m n =>
  decidable_of_iff (m.entries = n.entries) ⟨ext_entries,fun h => congrArg entries h⟩

def empty : OrderedMap κ υ := { entries := [], unique := nodup_nil }

def keys (m : OrderedMap κ υ) : List κ := m.entries.map Prod.fst

def mapValues (f : κ → υ → υ) (m : OrderedMap κ υ) : OrderedMap κ υ where
  entries := m.entries.map fun entry => (entry.1,f entry.1 entry.2)
  unique := by
    have hkeys : (m.entries.map fun entry => (entry.1,f entry.1 entry.2)).map Prod.fst =
        m.entries.map Prod.fst := by
      rw [map_map]
      rfl
    rw [hkeys]
    exact m.unique

def total (f : κ → υ → ℕ) (m : OrderedMap κ υ) : ℕ :=
  (m.entries.map fun entry => f entry.1 entry.2).sum

variable [DecidableEq κ]

def get? (m : OrderedMap κ υ) (k : κ) : Option υ :=
  (m.entries.find? fun entry => entry.1 = k).map Prod.snd

def erase (k : κ) (m : OrderedMap κ υ) : OrderedMap κ υ where
  entries := m.entries.filter fun entry => entry.1 ≠ k
  unique := m.unique.sublist (filter_sublist.map Prod.fst)

def place (before : κ → κ → Bool) (k : κ) (v : υ) : List (κ × υ) → List (κ × υ)
  | [] => [(k,v)]
  | entry :: rest =>
    if before k entry.1 then (k,v) :: entry :: rest else entry :: place before k v rest

omit [DecidableEq κ] in
theorem place_perm (before : κ → κ → Bool) {k : κ} {v : υ} {entries : List (κ × υ)} :
    (place before k v entries).Perm ((k,v) :: entries) := by
  induction entries with
  | nil => exact List.Perm.refl _
  | cons entry rest ih =>
    unfold place
    split_ifs
    · exact List.Perm.refl _
    · exact (ih.cons entry).trans (List.Perm.swap _ _ _)

def replace (k : κ) (v : υ) (entries : List (κ × υ)) : List (κ × υ) :=
  entries.map fun entry => if entry.1 = k then (k,v) else entry

theorem replace_keys (k : κ) (v : υ) (entries : List (κ × υ)) :
    (replace k v entries).map Prod.fst = entries.map Prod.fst := by
  rw [replace, map_map]
  apply map_congr_left
  intro entry _
  by_cases hk : entry.1 = k <;> simp [hk]

def insert (before : κ → κ → Bool) (k : κ) (v : υ) (m : OrderedMap κ υ) : OrderedMap κ υ :=
  if h : k ∈ m.keys then
    { entries := replace k v m.entries
      unique := by
        rw [replace_keys]
        exact m.unique }
  else
    { entries := place before k v m.entries
      unique := by
        rw [((place_perm before).map Prod.fst).nodup_iff]
        exact nodup_cons.mpr ⟨h,m.unique⟩ }

variable {k : κ} {v : υ}

omit [DecidableEq κ] in
theorem eq_of_mem {w : υ} (hv : (k,v) ∈ m.entries) (hw : (k,w) ∈ m.entries) : v = w :=
  (Prod.mk.inj (inj_on_of_nodup_map m.unique hv hw rfl)).2

theorem get?_eq_some : m.get? k = some v ↔ (k,v) ∈ m.entries := by
  constructor
  · intro h
    obtain ⟨entry,hfind,rfl⟩ := Option.map_eq_some_iff.mp h
    have hkey : entry.1 = k := by simpa using find?_some hfind
    have hmem := mem_of_find?_eq_some hfind
    rw [← hkey]
    exact hmem
  · intro h
    cases hfind : m.entries.find? fun entry => decide (entry.1 = k) with
    | none =>
      have habsent := find?_eq_none.mp hfind (k,v) h
      simp at habsent
    | some entry =>
      have hkey : entry.1 = k := by simpa using find?_some hfind
      have hmem := mem_of_find?_eq_some hfind
      have hvalue : (k,entry.2) ∈ m.entries := by
        rw [← hkey]
        exact hmem
      rw [get?, hfind, Option.map_some, eq_of_mem hvalue h]

theorem ne_of_get?_none {j : κ} (h : m.get? k = none) (hj : (j,v) ∈ m.entries) : j ≠ k := by
  rintro rfl
  rw [← get?_eq_some, h] at hj
  cases hj

theorem get?_eq_none : m.get? k = none ↔ k ∉ m.keys := by
  rw [get?, Option.map_eq_none_iff, find?_eq_none, keys, mem_map]
  constructor
  · rintro h ⟨entry,hentry,rfl⟩
    exact h entry hentry (by simp)
  · intro h entry hentry hkey
    exact h ⟨entry,hentry,by simpa using hkey⟩

omit [DecidableEq κ] in
theorem mem_keys : k ∈ m.keys ↔ ∃ v, (k,v) ∈ m.entries := by
  rw [keys, mem_map]
  constructor
  · rintro ⟨entry,hentry,rfl⟩
    exact ⟨entry.2,hentry⟩
  · rintro ⟨v,hv⟩
    exact ⟨(k,v),hv,rfl⟩

variable {j : κ}

theorem mem_erase {w : υ} : (j,w) ∈ (m.erase k).entries ↔ j ≠ k ∧ (j,w) ∈ m.entries := by
  rw [erase, mem_filter]
  simp [and_comm]

theorem mem_insert {before : κ → κ → Bool} {w : υ} :
    (j,w) ∈ (insert before k v m).entries ↔
      (j = k ∧ w = v) ∨ (j ≠ k ∧ (j,w) ∈ m.entries) := by
  unfold insert
  by_cases hk : k ∈ m.keys
  · rw [dif_pos hk]
    show (j,w) ∈ replace k v m.entries ↔ _
    rw [replace, mem_map]
    constructor
    · rintro ⟨entry,hentry,heq⟩
      by_cases hkey : entry.1 = k
      · rw [if_pos hkey, Prod.mk.injEq] at heq
        exact .inl ⟨heq.1.symm,heq.2.symm⟩
      · rw [if_neg hkey] at heq
        subst heq
        exact .inr ⟨hkey,hentry⟩
    · rintro (⟨rfl,rfl⟩ | ⟨hne,hmem⟩)
      · obtain ⟨old,hold⟩ := mem_keys.mp hk
        exact ⟨(j,old),hold,if_pos rfl⟩
      · exact ⟨(j,w),hmem,if_neg hne⟩
  · rw [dif_neg hk]
    rw [(place_perm before).mem_iff, mem_cons, Prod.mk.injEq]
    constructor
    · rintro (h | h)
      · exact .inl h
      · refine .inr ⟨?_,h⟩
        rintro rfl
        exact hk (mem_keys.mpr ⟨w,h⟩)
    · rintro (h | h)
      · exact .inl h
      · exact .inr h.2

theorem get?_congr (h : ∀ v, (k,v) ∈ m.entries ↔ (k,v) ∈ n.entries) : m.get? k = n.get? k := by
  cases hn : n.get? k with
  | some v => exact get?_eq_some.mpr ((h v).mpr (get?_eq_some.mp hn))
  | none =>
    rw [get?_eq_none, mem_keys] at hn ⊢
    rintro ⟨v,hv⟩
    exact hn ⟨v,(h v).mp hv⟩

variable {entries : List (κ × υ)}

section

variable (before : κ → κ → Bool)

theorem get?_insert_self :
    (insert before k v m).get? k = some v :=
  get?_eq_some.mpr (mem_insert.mpr (.inl ⟨rfl,rfl⟩))

theorem get?_insert_ne (h : j ≠ k) :
    (insert before k v m).get? j = m.get? j := by
  apply get?_congr
  intro w
  rw [mem_insert]
  simp [h]

def insertAll (entries : List (κ × υ)) (m : OrderedMap κ υ) : OrderedMap κ υ :=
  entries.foldl (fun map entry => map.insert before entry.1 entry.2) m

theorem get?_insertAll_of_not_mem (h : k ∉ entries.map Prod.fst) (m : OrderedMap κ υ) :
    (insertAll before entries m).get? k = m.get? k := by
  induction entries generalizing m with
  | nil => rfl
  | cons entry rest ih =>
    rw [map_cons, mem_cons, not_or] at h
    exact (ih h.2 _).trans (get?_insert_ne before h.1)

theorem get?_insertAll_of_mem
    (hunique : (entries.map Prod.fst).Nodup) (h : (k,v) ∈ entries) (m : OrderedMap κ υ) :
    (insertAll before entries m).get? k = some v := by
  induction entries generalizing m with
  | nil => cases h
  | cons entry rest ih =>
    obtain ⟨hfirst,hrest⟩ := nodup_cons.1 hunique
    rcases mem_cons.1 h with rfl | hlater
    · exact (get?_insertAll_of_not_mem before hfirst _).trans (get?_insert_self before)
    · exact ih hrest hlater _

end

theorem get?_erase_ne (h : j ≠ k) : (m.erase k).get? j = m.get? j := by
  apply get?_congr
  intro w
  rw [mem_erase]
  simp [h]

omit [DecidableEq κ] in
theorem mem_mapValues {f : κ → υ → υ} :
    (k,v) ∈ (mapValues f m).entries ↔ ∃ old, (k,old) ∈ m.entries ∧ f k old = v := by
  rw [mapValues, mem_map]
  constructor
  · rintro ⟨entry,hentry,heq⟩
    obtain ⟨rfl,rfl⟩ := heq
    exact ⟨entry.2,hentry,rfl⟩
  · rintro ⟨old,hold,rfl⟩
    exact ⟨(k,old),hold,rfl⟩

section

variable (before : κ → κ → Bool)

theorem erase_of_not_mem (h : k ∉ m.keys) : m.erase k = m := by
  apply ext_entries
  apply filter_eq_self.mpr
  intro entry hentry
  have hne : entry.1 ≠ k := by
    rintro rfl
    exact h (mem_map.mpr ⟨entry,hentry,rfl⟩)
  simpa using hne

theorem insert_of_mem (h : (k,v) ∈ m.entries) : insert before k v m = m := by
  apply ext_entries
  unfold insert
  rw [dif_pos (mem_keys.mpr ⟨v,h⟩)]
  nth_rewrite 2 [← map_id m.entries]
  apply map_congr_left
  rintro ⟨j,w⟩ hjw
  by_cases hj : j = k
  · subst hj
    rw [if_pos rfl, eq_of_mem hjw h, id]
  · rw [if_neg hj, id]

theorem insert_insert {u : υ}
    (h : k ∈ m.keys) : insert before k v (insert before k u m) = insert before k v m := by
  have hmid : k ∈ (insert before k u m).keys := mem_keys.mpr ⟨u,mem_insert.mpr (.inl ⟨rfl,rfl⟩)⟩
  apply ext_entries
  rw [insert, dif_pos hmid, insert, dif_pos h, insert, dif_pos h]
  show replace k v (replace k u m.entries) = replace k v m.entries
  rw [replace, replace, replace, map_map]
  apply map_congr_left
  rintro ⟨j,w⟩ _
  by_cases hj : j = k <;> simp [hj]

end

end OrderedMap

end Permanu
