import Mathlib.Logic.Relation
import Mathlib.Data.List.Nodup
import Mathlib.Data.List.Induction

/-!
# Cascades

Each row has a key and may name the key of a row it came from. One pass over the rows marks
every row whose origin is marked. If every origin stands before the rows that name it, the
one pass reaches everything that is connected to a marked key.
-/

set_option autoImplicit false

namespace Permanu.ListCascade

open List

variable {ρ κ : Type}

def Leads (key : ρ → κ) (origin : ρ → Option κ) (rows : List ρ) (p c : κ) : Prop :=
  ∃ r ∈ rows, key r = c ∧ origin r = some p

def OriginsFirst (key : ρ → κ) (origin : ρ → Option κ) (rows : List ρ) : Prop :=
  ∀ before r after, rows = before ++ r :: after → ∀ p, origin r = some p → p ∈ before.map key

variable [BEq κ]

def spread (key : ρ → κ) (origin : ρ → Option κ) (found : List κ) (r : ρ) : List κ :=
  if (origin r).any found.contains then found ++ [key r] else found

def cascade (key : ρ → κ) (origin : ρ → Option κ) (rows : List ρ) (found : List κ) : List κ :=
  rows.foldl (spread key origin) found

variable (key : ρ → κ) (origin : ρ → Option κ) (rows : List ρ) (found : List κ)

theorem cascade_append (rest : List ρ) (found : List κ) :
    cascade key origin (rows ++ rest) found =
      cascade key origin rest (cascade key origin rows found) := foldl_append

theorem subset_spread {r : ρ} : found ⊆ spread key origin found r := by
  intro k hk
  rw [spread]
  split_ifs
  · exact mem_append_left _ hk
  · exact hk

theorem subset_cascade : found ⊆ cascade key origin rows found := by
  induction rows generalizing found with
  | nil => exact List.Subset.refl found
  | cons r rest ih =>
    intro k hk
    exact ih _ (subset_spread key origin found hk)

variable [LawfulBEq κ]

theorem mem_spread {r : ρ} {k : κ} (h : k ∈ spread key origin found r) :
    k ∈ found ∨ k = key r ∧ ∃ p ∈ found, origin r = some p := by
  rw [spread] at h
  split_ifs at h with ho
  · rcases mem_append.mp h with hk | hk
    · exact .inl hk
    · obtain ⟨p,hp,hf⟩ := (Option.any_eq_true _ _).mp ho
      exact .inr ⟨mem_singleton.mp hk,p,by simpa using hf,hp⟩
  · exact .inl h

theorem mem_cascade_new {k : κ}
    (h : k ∈ cascade key origin rows found) : k ∈ found ∨ k ∈ rows.map key := by
  induction rows generalizing found with
  | nil => exact .inl h
  | cons r rest ih =>
    rcases ih _ h with hk | hk
    · rcases mem_spread key origin found hk with hk | ⟨rfl,_⟩
      · exact .inl hk
      · exact .inr (by simp)
    · exact .inr (mem_cons_of_mem _ hk)

/-- Everything marked is connected to a key marked at the start. -/
theorem cascade_connected (k : κ) (h : k ∈ cascade key origin rows found) :
    ∃ root ∈ found, Relation.ReflTransGen (Leads key origin rows) root k := by
  induction rows using List.reverseRecOn generalizing k with
  | nil => exact ⟨k,h,.refl⟩
  | append_singleton rows r ih =>
    have hmono : ∀ p c, Leads key origin rows p c → Leads key origin (rows ++ [r]) p c :=
      fun p c ⟨s,hs,hk⟩ => ⟨s,mem_append_left _ hs,hk⟩
    rw [cascade_append] at h
    rcases mem_spread key origin _ h with hk | ⟨rfl,p,hp,ho⟩
    · obtain ⟨root,hroot,hpath⟩ := ih k hk
      exact ⟨root,hroot,Relation.ReflTransGen.mono hmono _ _ hpath⟩
    · obtain ⟨root,hroot,hpath⟩ := ih p hp
      exact ⟨root,hroot,(Relation.ReflTransGen.mono hmono _ _ hpath).tail ⟨r,by simp,rfl,ho⟩⟩

theorem cascade_closed (hn : (rows.map key).Nodup)
    (ho : OriginsFirst key origin rows) {p c : κ} (hp : p ∈ cascade key origin rows found)
    (hl : Leads key origin rows p c) : c ∈ cascade key origin rows found := by
  obtain ⟨r,hr,rfl,hor⟩ := hl
  obtain ⟨before,after,rfl⟩ := append_of_mem hr
  have hearly := ho before r after rfl p hor
  -- the rest of the pass adds only keys of the rest, and the origin is not one of them
  have hmarked : p ∈ cascade key origin before found := by
    rw [cascade_append] at hp
    rcases mem_cascade_new key origin _ _ hp with hp | hp
    · exact hp
    · rw [map_append, nodup_append] at hn
      exact absurd rfl (hn.2.2 p hearly p hp)
  rw [cascade_append]
  apply subset_cascade key origin after
  rw [spread, if_pos]
  · exact mem_append_right _ (mem_singleton_self _)
  · rw [hor, Option.any_some]
    simpa using hmarked

/-- One pass in the order of introduction reaches exactly the connected keys. -/
theorem mem_cascade (hn : (rows.map key).Nodup)
    (ho : OriginsFirst key origin rows) (k : κ) : k ∈ cascade key origin rows found ↔
      ∃ root ∈ found, Relation.ReflTransGen (Leads key origin rows) root k := by
  constructor
  · exact cascade_connected key origin rows found k
  · rintro ⟨root,hroot,hpath⟩
    induction hpath with
    | refl => exact subset_cascade key origin rows found hroot
    | tail _ hl ih => exact cascade_closed key origin rows found hn ho ih hl

end Permanu.ListCascade
