import Mathlib.Data.Fintype.Card

/-!
# Walks along a queue

A queue of places is worked off from its front. A place that was visited before is passed
over; any other is visited, and the places next to it join the queue at its end. On a finite
type the walk ends, as every visit leaves fewer places to visit.
-/

set_option autoImplicit false

namespace Permanu.QueueWalk

open List

/-- The places in the order of their visits, when those of `order` were visited before. -/
def walk {α : Type} [Fintype α] [DecidableEq α] (next : α → List α) :
    List α → List α → List α
  | [], order => order
  | place :: queue, order =>
    if place ∈ order then walk next queue order
    else walk next (queue ++ next place) (order ++ [place])
termination_by queue order => (Fintype.card α - order.toFinset.card, queue.length)
decreasing_by
  · exact Prod.Lex.right _ (Nat.lt_succ_self _)
  · next hnew =>
    have hinsert : (order ++ [place]).toFinset = insert place order.toFinset := by
      ext
      simp
    have hcard : (order ++ [place]).toFinset.card = order.toFinset.card + 1 := by
      rw [hinsert, Finset.card_insert_of_notMem (by simpa using hnew)]
    have hmost := (order ++ [place]).toFinset.card_le_univ
    exact Prod.Lex.left _ _ (by omega)

/-- A walk that began with the queue `start`, before it takes the front of `queue`. -/
structure Walked {α : Type} (next : α → List α) (start queue order : List α) : Prop where
  nodup : order.Nodup
  begun : start ⊆ order ++ queue
  closed : ∀ place ∈ order, next place ⊆ order ++ queue
  due : ∀ place ∈ queue, place ∈ start ∨ ∃ earlier ∈ order, place ∈ next earlier
  /-- What was not queued at the start is next to a place that was visited earlier. -/
  led : ∀ front place back, order = front ++ place :: back →
    place ∈ start ∨ ∃ earlier ∈ front, place ∈ next earlier

theorem Walked.start {α : Type} (next : α → List α) (start : List α) :
    Walked next start start [] where
  nodup := nodup_nil
  begun := Subset.refl _
  closed := by simp
  due := fun _ h => .inl h
  led := by simp

theorem Walked.pass {α : Type} {next : α → List α} {start queue order : List α} {place : α}
    (h : Walked next start (place :: queue) order) (hin : place ∈ order) :
    Walked next start queue order := by
  have hsub : order ++ place :: queue ⊆ order ++ queue := by
    intro other hother
    rw [mem_append, mem_cons] at hother
    rcases hother with hold | rfl | hqueued
    · exact mem_append_left _ hold
    · exact mem_append_left _ hin
    · exact mem_append_right _ hqueued
  exact ⟨h.nodup,Subset.trans h.begun hsub,
    fun other hother => Subset.trans (h.closed other hother) hsub,
    fun other hother => h.due other (mem_cons_of_mem _ hother),h.led⟩

theorem Walked.visit {α : Type} {next : α → List α} {start queue order : List α} {place : α}
    (h : Walked next start (place :: queue) order) (hnew : place ∉ order) :
    Walked next start (queue ++ next place) (order ++ [place]) := by
  have hsub : order ++ place :: queue ⊆ order ++ [place] ++ (queue ++ next place) := by
    rw [append_assoc, singleton_append, ← cons_append, ← append_assoc]
    exact subset_append_left _ _
  refine ⟨nodup_append.2 ⟨h.nodup,nodup_singleton _,?_⟩,Subset.trans h.begun hsub,?_,?_,?_⟩
  · rintro other hother _ hlast rfl
    exact hnew (mem_singleton.1 hlast ▸ hother)
  · intro other hother
    rcases mem_append.1 hother with hold | hlast
    · exact Subset.trans (h.closed other hold) hsub
    · rw [mem_singleton.1 hlast, ← append_assoc]
      exact subset_append_right _ _
  · intro other hother
    rcases mem_append.1 hother with hold | hnext
    · exact (h.due other (mem_cons_of_mem _ hold)).imp_right fun ⟨earlier,hin,hnext⟩ =>
        ⟨earlier,mem_append_left _ hin,hnext⟩
    · exact .inr ⟨place,by simp,hnext⟩
  · intro front other back heq
    rcases eq_nil_or_concat' back with rfl | ⟨rest,last,rfl⟩
    · obtain ⟨rfl,hlast⟩ := append_inj' heq rfl
      cases hlast
      exact h.due place mem_cons_self
    · rw [← cons_append, ← append_assoc] at heq
      exact h.led front other rest (append_inj' heq rfl).1

theorem Walked.whole {α : Type} [Fintype α] [DecidableEq α] {next : α → List α}
    {start queue order : List α} (h : Walked next start queue order) :
    Walked next start [] (walk next queue order) := by
  fun_induction walk next queue order with
  | case1 order => exact h
  | case2 order place queue hin ih => exact ih (h.pass hin)
  | case3 order place queue hnew ih => exact ih (h.visit hnew)

/-- What holds of the first queue and is passed on holds of every place the walk visits. -/
theorem Walked.sound {α : Type} {next : α → List α} {start order : List α} {P : α → Prop}
    (h : Walked next start [] order) (hstart : ∀ place ∈ start, P place)
    (hnext : ∀ earlier place, P earlier → place ∈ next earlier → P place) :
    ∀ place ∈ order, P place := by
  -- by the number of places visited before this one
  have hfront : ∀ n front place back, front.length = n → order = front ++ place :: back →
      P place := by
    intro n
    induction n using Nat.strong_induction_on with
    | h n ih =>
      rintro front place back rfl heq
      rcases h.led front place back heq with hqueued | ⟨earlier,hin,hleads⟩
      · exact hstart place hqueued
      · obtain ⟨before,after,rfl⟩ := append_of_mem hin
        refine hnext earlier place 
          (ih before.length ?_ before earlier (after ++ place :: back) rfl ?_) hleads
        · simp
        · rw [heq, append_assoc, cons_append]
  intro place hplace
  obtain ⟨front,back,heq⟩ := append_of_mem hplace
  exact hfront _ front place back rfl heq

end Permanu.QueueWalk
