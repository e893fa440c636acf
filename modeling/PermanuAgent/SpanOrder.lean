import PermanuAgent.ByteText
import PermanuAgent.QueueWalk
import Mathlib.Data.List.FinRange
import Mathlib.Data.List.Sort

/-!
# The order of the spans of a trace

`parents_first` sorts the spans of a trace by start time and id and walks them from the
roots on: a span that is visited queues the spans that name its id as their parent. Ids may
repeat and parents may form cycles, so some spans are queued more than once and others
never; those come last.
-/

set_option autoImplicit false

namespace Permanu.SpanOrder

open ByteText List QueueWalk

structure Timestamp where
  seconds : ℤ
  nanos : ℤ
  deriving DecidableEq, Repr

structure Span where
  spanId : Str
  parentSpanId : Str
  startTime : Option Timestamp
  deriving DecidableEq, Repr

/-- The range of an `i64`, in which sums and products saturate. -/
def saturated (n : ℤ) : ℤ := max (-2^63) (min n (2^63 - 1))

def nanosOf (time : Timestamp) : ℤ := saturated (saturated (time.seconds * 10^9) + time.nanos)

def Span.started (span : Span) : ℤ := (span.startTime.map nanosOf).getD 0

/-- By start time and then by id. -/
def Before (a b : Span) : Prop :=
  a.started < b.started ∨ a.started = b.started ∧ a.spanId ≤ b.spanId

instance : DecidableRel Before := fun _ _ => inferInstanceAs (Decidable (_ ∨ _ ∧ _))

instance : Std.Total Before where
  total a b := by
    rcases lt_trichotomy a.started b.started with hless | hsame | hmore
    · exact .inl (.inl hless)
    · exact (List.le_total a.spanId b.spanId).imp (.inr ⟨hsame,·⟩) (.inr ⟨hsame.symm,·⟩)
    · exact .inr (.inl hmore)

instance : IsTrans Span Before where
  trans a b c := by
    rintro (hab | ⟨hab,hid⟩) (hbc | ⟨hbc,hid'⟩)
    · exact .inl (hab.trans hbc)
    · exact .inl (hbc ▸ hab)
    · exact .inl (hab ▸ hbc)
    · exact .inr ⟨hab.trans hbc,List.le_trans hid hid'⟩

def sorted (spans : List Span) : List Span := spans.insertionSort Before

def IsRoot (spans : List Span) (span : Span) : Prop :=
  span.parentSpanId = [] ∨ span.parentSpanId ∉ spans.map Span.spanId ∨
    span.parentSpanId = span.spanId

instance (spans : List Span) (span : Span) : Decidable (IsRoot spans span) :=
  inferInstanceAs (Decidable (_ ∨ _ ∨ _))

def roots (spans : List Span) : List (Fin spans.length) :=
  (finRange spans.length).filter fun i => IsRoot spans (spans.get i)

def children (spans : List Span) (id : Str) : List (Fin spans.length) :=
  (finRange spans.length).filter fun i =>
    ¬ IsRoot spans (spans.get i) ∧ (spans.get i).parentSpanId = id

def walked (spans : List Span) : List (Fin spans.length) :=
  walk (fun i => children spans (spans.get i).spanId) (roots spans) []

/-- No index is in the order twice, so that every slot is taken once. -/
def order (spans : List Span) : List (Fin spans.length) :=
  walked spans ++ (finRange spans.length).filter fun i => i ∉ walked spans

def parentsFirst (spans : List Span) : List Span :=
  (order (sorted spans)).map (sorted spans).get

/-- A chain of parents leads from the span to a root. -/
inductive Rooted (spans : List Span) : Span → Prop
  | root {span : Span} (mem : span ∈ spans) (root : IsRoot spans span) : Rooted spans span
  | child {span parent : Span} (mem : span ∈ spans) (rooted : Rooted spans parent)
    (named : span.parentSpanId = parent.spanId) : Rooted spans span

theorem Rooted.mem {spans : List Span} {span : Span} (h : Rooted spans span) : span ∈ spans := by
  cases h with
  | root hmem => exact hmem
  | child hmem => exact hmem

theorem isRoot_perm {spans other : List Span} (h : spans ~ other) (span : Span) :
    IsRoot spans span ↔ IsRoot other span := by
  rw [IsRoot, IsRoot, (h.map Span.spanId).mem_iff]

theorem Rooted.perm {spans other : List Span} {span : Span} (hperm : spans ~ other)
    (h : Rooted spans span) : Rooted other span := by
  induction h with
  | root hmem hroot => exact .root (hperm.mem_iff.1 hmem) ((isRoot_perm hperm _).1 hroot)
  | child hmem _ hnamed ih => exact .child (hperm.mem_iff.1 hmem) ih hnamed

theorem sorted_perm (spans : List Span) : sorted spans ~ spans := perm_insertionSort _ spans

theorem walked_spec (spans : List Span) :
    Walked (fun i => children spans (spans.get i).spanId) (roots spans) [] (walked spans) :=
  (Walked.start _ _).whole

theorem mem_roots {spans : List Span} {i : Fin spans.length} :
    i ∈ roots spans ↔ IsRoot spans (spans.get i) := by
  simp [roots]

theorem mem_children {spans : List Span} {id : Str} {i : Fin spans.length} :
    i ∈ children spans id ↔
      ¬ IsRoot spans (spans.get i) ∧ (spans.get i).parentSpanId = id := by
  simp [children]

/-- The walk visits the spans from which a chain of parents leads to a root. -/
theorem mem_walked {spans : List Span} {i : Fin spans.length} :
    i ∈ walked spans ↔ Rooted spans (spans.get i) := by
  have h := walked_spec spans
  constructor
  · refine h.sound (P := fun j => Rooted spans (spans.get j)) ?_ ?_ i
    · exact fun j hj => .root (get_mem spans j) (mem_roots.1 hj)
    · exact fun j k hj hk => .child (get_mem spans k) hj (mem_children.1 hk).2
  · intro hrooted
    -- equal spans may stand at several indices
    generalize hspan : spans.get i = span at hrooted
    induction hrooted generalizing i with
    | root hmem hroot =>
      simpa using h.begun (mem_roots.2 (hspan ▸ hroot))
    | @child span parent hmem hparent hnamed ih =>
      by_cases hroot : IsRoot spans (spans.get i)
      · simpa using h.begun (mem_roots.2 hroot)
      · obtain ⟨j,hj⟩ := get_of_mem hparent.mem
        have hin : i ∈ children spans (spans.get j).spanId :=
          mem_children.2 ⟨hroot,by rw [hspan, hnamed, hj]⟩
        simpa using h.closed j (ih hj) hin

theorem order_perm (spans : List Span) : order spans ~ finRange spans.length := by
  have hnodup : (order spans).Nodup := by
    refine nodup_append.2 ⟨(walked_spec spans).nodup,(nodup_finRange _).filter _,?_⟩
    rintro i hin _ hout rfl
    exact absurd hin (by simpa using hout)
  refine (perm_ext_iff_of_nodup hnodup (nodup_finRange _)).2 fun i => ?_
  simp [order, em]

/-- The spans are those of the trace. First come those from which a chain of parents leads to
a root, each that is no root itself after a span that its parent id names; then the others,
by start time and id. -/
theorem parents_come_first (spans : List Span) :
    parentsFirst spans ~ spans ∧ ∃ rooted rest, parentsFirst spans = rooted ++ rest ∧
      (∀ span ∈ rooted, Rooted spans span) ∧
      (∀ front span back, rooted = front ++ span :: back → ¬ IsRoot spans span →
        ∃ parent ∈ front, parent.spanId = span.parentSpanId) ∧
      (∀ span ∈ rest, ¬ Rooted spans span) ∧ rest.Pairwise Before := by
  have hsorted := sorted_perm spans
  have hspec := walked_spec (sorted spans)
  have hget := map_get_finRange (sorted spans)
  constructor
  · have hperm := (order_perm (sorted spans)).map (sorted spans).get
    rw [hget] at hperm
    exact hperm.trans hsorted
  · refine ⟨_,_,map_append,?_,?_,?_,?_⟩
    · intro span hspan
      obtain ⟨i,hi,rfl⟩ := mem_map.1 hspan
      exact (mem_walked.1 hi).perm hsorted
    · intro front span back heq hroot
      obtain ⟨before,after,hwalk,rfl,hafter⟩ := map_eq_append_iff.1 heq
      obtain ⟨i,rest,rfl,rfl,-⟩ := map_eq_cons_iff.1 hafter
      rcases hspec.led before i rest hwalk with hstart | ⟨j,hj,hchild⟩
      · exact absurd ((isRoot_perm hsorted _).1 (mem_roots.1 hstart)) hroot
      · exact ⟨_,mem_map_of_mem hj,(mem_children.1 hchild).2.symm⟩
    · intro span hspan hrooted
      obtain ⟨i,hi,rfl⟩ := mem_map.1 hspan
      have hout : i ∉ walked (sorted spans) := by simpa using hi
      exact hout (mem_walked.2 (hrooted.perm hsorted.symm))
    · have hsub : ((finRange (sorted spans).length).filter fun i => i ∉ walked (sorted spans)).map
          (sorted spans).get <+ sorted spans := by
        conv_rhs => rw [← hget]
        exact filter_sublist.map _
      exact (pairwise_insertionSort _ spans).sublist hsub

end Permanu.SpanOrder
