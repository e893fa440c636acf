import Mathlib.Data.List.Perm.Basic
import Mathlib.Data.List.Pairwise
import Mathlib.Data.Int.Order.Basic
import Mathlib.Tactic.Linarith

/-!
# Merging by the fronts

Several readers are merged by taking, again and again, a front of the highest
rank, the last of the readers among equals. The merge has the elements of the
readers, and it is in the order of the ranks when each of them is.
-/

set_option autoImplicit false

namespace Permanu.FrontMerge

open List Option

variable {α : Type} (rank : α → ℤ)

def popBest : List (List α) → Option (α × List (List α))
  | [] => none
  | reader :: rest =>
    match reader, popBest rest with
    | [], none => none
    | [], some (best, left) => some (best, [] :: left)
    | front :: tail, none => some (front, tail :: rest)
    | front :: tail, some (best, left) =>
      if rank front ≤ rank best then some (best, (front :: tail) :: left)
      else some (front, tail :: rest)

def drain : ℕ → List (List α) → List α
  | 0, _ => []
  | fuel + 1, readers =>
    match popBest rank readers with
    | none => []
    | some (best, left) => best :: drain fuel left

def merge (readers : List (List α)) : List α := drain rank readers.flatten.length readers

def Descending (elements : List α) : Prop := elements.Pairwise fun a b => rank b ≤ rank a

variable {rank}

theorem popBest_none {readers : List (List α)} (h : popBest rank readers = none) :
    readers.flatten = [] := by
  induction readers with
  | nil => rfl
  | cons reader rest ih =>
    cases reader with
    | nil =>
      cases hrest : popBest rank rest with
      | none => simpa using ih hrest
      | some found => simp [popBest, hrest] at h
    | cons front tail =>
      cases hrest : popBest rank rest with
      | none => simp [popBest, hrest] at h
      | some found =>
        simp only [popBest, hrest] at h
        split_ifs at h

variable {readers left : List (List α)} {best : α}

/-- The best front leaves its reader, and no other front has a higher rank. -/
theorem popBest_cases (h : popBest rank readers = some (best,left)) :
    (∃ before tail after, readers = before ++ (best :: tail) :: after ∧
      left = before ++ tail :: after) ∧
    ∀ reader ∈ readers, ∀ front ∈ reader.head?, rank front ≤ rank best := by
  induction readers generalizing best left with
  | nil => cases h
  | cons reader rest ih =>
    cases hrest : popBest rank rest with
    | none =>
      -- the other readers are empty
      cases reader with
      | nil => simp [popBest, hrest] at h
      | cons front tail =>
        simp only [popBest, hrest, some.injEq, Prod.mk.injEq] at h
        obtain ⟨rfl,rfl⟩ := h
        have hempty := popBest_none hrest
        rw [flatten_eq_nil_iff] at hempty
        refine ⟨⟨[],tail,rest,rfl,rfl⟩,forall_mem_cons.2 ⟨by simp,fun other hother => ?_⟩⟩
        simp [hempty other hother]
    | some found =>
      obtain ⟨⟨before,tail',after,hsplit,hleft⟩,hbest⟩ := ih hrest
      cases reader with
      | nil =>
        simp only [popBest, hrest, some.injEq, Prod.mk.injEq] at h
        obtain ⟨rfl,rfl⟩ := h
        exact ⟨⟨[] :: before,tail',after,by rw [hsplit]; rfl,by rw [hleft]; rfl⟩,
          forall_mem_cons.2 ⟨by simp,hbest⟩⟩
      | cons front tail =>
        simp only [popBest, hrest] at h
        split_ifs at h with hle
        · obtain ⟨rfl,rfl⟩ := Prod.mk.inj (some.inj h)
          exact ⟨⟨(front :: tail) :: before,tail',after,by rw [hsplit]; rfl,by rw [hleft]; rfl⟩,
            forall_mem_cons.2 ⟨by simpa using hle,hbest⟩⟩
        · obtain ⟨rfl,rfl⟩ := Prod.mk.inj (some.inj h)
          refine ⟨⟨[],tail,rest,rfl,rfl⟩,forall_mem_cons.2 ⟨by simp,fun other ho other' ho' => ?_⟩⟩
          exact (hbest other ho other' ho').trans (le_of_not_ge hle)

/-- One element leaves the readers, which stay in their order. -/
theorem popBest_perm (h : popBest rank readers = some (best,left)) :
    readers.flatten.Perm (best :: left.flatten) := by
  obtain ⟨⟨before,tail,after,rfl,rfl⟩,-⟩ := popBest_cases h
  simp

theorem Descending.le_head {reader : List α} (h : Descending rank reader) {bound : ℤ}
    (hhead : ∀ front ∈ reader.head?, rank front ≤ bound) : ∀ a ∈ reader, rank a ≤ bound := by
  cases reader with
  | nil => simp
  | cons front tail =>
    have hfront : rank front ≤ bound := hhead front rfl
    exact forall_mem_cons.2 ⟨hfront,fun a ha => ((pairwise_cons.1 h).1 a ha).trans hfront⟩

theorem popBest_descending (h : popBest rank readers = some (best,left))
    (hs : ∀ r ∈ readers, Descending rank r) :
    (∀ r ∈ left, Descending rank r) ∧ ∀ a ∈ left.flatten, rank a ≤ rank best := by
  have hperm := popBest_perm h
  obtain ⟨⟨before,tail,after,rfl,rfl⟩,hbest⟩ := popBest_cases h
  constructor
  · rw [forall_mem_append, forall_mem_cons] at hs ⊢
    exact ⟨hs.1,(pairwise_cons.1 hs.2.1).2,hs.2.2⟩
  · intro a ha
    obtain ⟨reader,hreader,hmem⟩ := mem_flatten.1 (hperm.mem_iff.2 (mem_cons_of_mem _ ha))
    exact (hs reader hreader).le_head (hbest reader hreader) a hmem

theorem drain_perm {fuel : ℕ} (readers : List (List α)) (h : readers.flatten.length ≤ fuel) :
    (drain rank fuel readers).Perm readers.flatten := by
  induction fuel generalizing readers with
  | zero =>
    rw [eq_nil_of_length_eq_zero (Nat.le_zero.mp h)]
    exact List.Perm.refl _
  | succ fuel ih =>
    unfold drain
    cases hpop : popBest rank readers with
    | none =>
      rw [popBest_none hpop]
    | some found =>
      have hperm := popBest_perm hpop
      have hlength := hperm.length_eq
      rw [length_cons] at hlength
      exact ((ih found.2 (by omega)).cons found.1).trans hperm.symm

theorem merge_perm (rank : α → ℤ) :
    (merge rank readers).Perm readers.flatten :=
  drain_perm readers (Nat.le_refl _)

theorem drain_descending {fuel : ℕ} (readers : List (List α))
    (hfuel : readers.flatten.length ≤ fuel) (hs : ∀ r ∈ readers, Descending rank r) :
    Descending rank (drain rank fuel readers) := by
  induction fuel generalizing readers with
  | zero => exact List.Pairwise.nil
  | succ fuel ih =>
    unfold drain
    cases hpop : popBest rank readers with
    | none => exact List.Pairwise.nil
    | some found =>
      have hlength := (popBest_perm hpop).length_eq
      rw [length_cons] at hlength
      have hless : found.2.flatten.length ≤ fuel := by omega
      obtain ⟨hleft,hbest⟩ := popBest_descending hpop hs
      apply List.Pairwise.cons
      · intro a ha
        exact hbest a ((drain_perm found.2 hless).mem_iff.mp ha)
      · exact ih found.2 hless hleft

/-- Readers in the order of their ranks are merged into one in that order. -/
theorem merge_descending (rank : α → ℤ)
    (hs : ∀ r ∈ readers, Descending rank r) : Descending rank (merge rank readers) :=
  drain_descending readers (Nat.le_refl _) hs

end Permanu.FrontMerge
