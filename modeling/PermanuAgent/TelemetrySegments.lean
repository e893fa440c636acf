import PermanuAgent.TelemetryStore

/-!
# The blocks of a segment

The blocks of a segment cut its frames into groups, and the range of a block
holds its group. A forward reader skips the blocks before the one that the
cursor can be in, a backward reader takes the blocks from the last one on, and
both give every frame of the segment that the bounds of the scan admit. A closed
segment is read back from its files as it was.
-/

set_option autoImplicit false

namespace Permanu.TelemetrySegments

open TelemetryStore List Option Nat

@[simp] theorem framesBytes_nil : framesBytes [] = 0 := rfl

@[simp] theorem framesBytes_cons (frame : Frame) (rest : List Frame) :
    framesBytes (frame :: rest) = frame.bytes + framesBytes rest := by
  simp [framesBytes]

@[simp] theorem framesBytes_append (left right : List Frame) :
    framesBytes (left ++ right) = framesBytes left + framesBytes right := by
  simp [framesBytes]

theorem Frame.bytes_pos (frame : Frame) : 0 < frame.bytes := by
  simp [Frame.bytes, frameHeader]

variable {frames : List Frame}

theorem framesBytes_pos (h : frames ≠ []) : 0 < framesBytes frames := by
  cases frames with
  | nil => exact absurd rfl h
  | cons frame rest =>
    rw [framesBytes_cons]
    have := Frame.bytes_pos frame
    omega

variable {start : ℕ} {groups : List (List Frame)} {frame : Frame} {spec : ScanSpec} {minTs : ℤ}

theorem framesBetween_skip {stop : ℕ} {before : List Frame} {rest : List Frame} (position : ℕ)
    (h : position + framesBytes before = start) :
    framesBetween start stop position (before ++ rest) = framesBetween start stop start rest := by
  induction before generalizing position with
  | nil =>
    rw [framesBytes_nil, add_zero] at h
    rw [nil_append, h]
  | cons frame before ih =>
    rw [framesBytes_cons] at h
    have hpos := Frame.bytes_pos frame
    rw [cons_append, framesBetween, if_pos (by omega)]
    exact ih (position + frame.bytes) (by omega)

theorem framesBetween_group {group after : List Frame} (position : ℕ)
    (h : start ≤ position) :
    framesBetween start (position + framesBytes group) position (group ++ after) = group := by
  induction group generalizing position with
  | nil =>
    cases after with
    | nil => rfl
    | cons frame after =>
      have hpos := Frame.bytes_pos frame
      rw [framesBytes_nil, add_zero, nil_append, framesBetween, if_neg (by omega),
        if_neg (by omega)]
  | cons frame group ih =>
    rw [framesBytes_cons, cons_append, framesBetween, if_neg (by omega), if_pos (by omega),
      ← add_assoc]
    rw [ih (position + frame.bytes) (by omega)]

def marks : ℕ → List (List Frame) → List (ℕ × ℕ)
  | _, [] => []
  | offset, group :: rest =>
    (offset,(group.head?.map Frame.seq).getD 0) :: marks (offset + framesBytes group) rest

def spans : ℕ → List (List Frame) → List (ℕ × ℕ)
  | _, [] => []
  | offset, group :: rest =>
    (offset,offset + framesBytes group) :: spans (offset + framesBytes group) rest

theorem blockRanges_marks (groups : List (List Frame)) (offset : ℕ) :
    blockRanges (offset + framesBytes groups.flatten) (marks offset groups) =
      spans offset groups := by
  induction groups generalizing offset with
  | nil => rfl
  | cons group rest ih =>
    rw [flatten_cons, framesBytes_append, ← add_assoc]
    cases rest with
    | nil => simp [marks, spans, blockRanges]
    | cons next rest =>
      have htail := ih (offset + framesBytes group)
      simp only [marks, spans, blockRanges] at htail ⊢
      rw [htail, Nat.min_eq_left (by omega)]

theorem spans_read (keep : Frame → Bool)
    (before : List Frame) (hgroups : ∀ group ∈ groups, group ≠ [])
    (hframes : frames = before ++ groups.flatten) :
    ((spans (framesBytes before) groups).flatMap fun range =>
      if range.2 ≤ range.1 then []
      else (framesBetween range.1 range.2 0 frames).filter keep) =
      groups.flatten.filter keep := by
  induction groups generalizing before with
  | nil => rfl
  | cons group rest ih =>
    have hgroup := framesBytes_pos (hgroups group mem_cons_self)
    have htail := ih (before ++ group) (fun g hg => hgroups g (mem_cons_of_mem _ hg))
      (by rw [hframes, flatten_cons, append_assoc])
    rw [framesBytes_append] at htail
    have hread : framesBetween (framesBytes before) (framesBytes before + framesBytes group) 0
        frames = group := by
      rw [hframes, framesBetween_skip 0 (zero_add _), flatten_cons]
      exact framesBetween_group _ (le_refl _)
    simp only [spans, flatMap_cons, flatten_cons, filter_append]
    rw [htail, if_neg (by omega), hread]

theorem spans_drop (groups : List (List Frame)) (offset n : ℕ) :
    (spans offset groups).drop n =
      spans (offset + framesBytes (groups.take n).flatten) (groups.drop n) := by
  induction groups generalizing offset n with
  | nil => simp [spans]
  | cons group rest ih =>
    cases n with
    | zero => simp
    | succ n =>
      simp only [spans, drop_succ_cons, take_succ_cons, flatten_cons,
        framesBytes_append, ih, add_assoc]

theorem rposition_some {α : Type} (p : α → Bool) {elements : List α} (i : ℕ)
    (h : rposition p elements = some i) : ∃ a, elements[i]? = some a ∧ p a = true := by
  induction elements generalizing i with
  | nil => cases h
  | cons a rest ih =>
    unfold rposition at h
    cases hrest : rposition p rest with
    | some j =>
      rw [hrest] at h
      cases h
      simpa using ih j hrest
    | none =>
      rw [hrest] at h
      split_ifs at h with ha
      cases h
      exact ⟨a,rfl,ha⟩

theorem marks_get (offset i : ℕ) {block : ℕ × ℕ}
    (h : (marks offset groups)[i]? = some block) :
    ∃ group, groups[i]? = some group ∧ block.2 = (group.head?.map Frame.seq).getD 0 := by
  induction groups generalizing offset i with
  | nil => simp [marks] at h
  | cons group rest ih =>
    cases i with
    | zero =>
      simp only [marks, getElem?_cons_zero, Option.some.injEq] at h
      exact ⟨group,rfl,by rw [← h]⟩
    | succ i =>
      exact ih _ i h

/-- The blocks of a segment are those of a division of its frames into groups. -/
def Blocked (frames : List Frame) (blocks : List (ℕ × ℕ)) : Prop :=
  ∃ groups : List (List Frame), (∀ group ∈ groups, group ≠ []) ∧ groups.flatten = frames ∧
    marks 0 groups = blocks

def Ascending (frames : List Frame) : Prop := frames.Pairwise fun a b => a.seq < b.seq

/-- What a segment says of itself is true of its files. -/
structure Consistent (segment : Segment) : Prop where
  ascending : Ascending segment.frames
  first : ∀ frame ∈ segment.frames, segment.firstSeq ≤ frame.seq
  times : ∀ frame ∈ segment.frames, segment.minTs ≤ frame.ts ∧ frame.ts ≤ segment.maxTs
  records : segment.records = segment.frames.length
  segBytes : segment.segBytes = framesBytes segment.frames
  idxBytes : segment.idxBytes = segment.index.length * idxEntryBytes
  blocks : blocksOf segment.index = segment.blocks
  summary : summaryOf segment.index =
    if segment.closed then
      some (segment.records,segment.lastSeq,segment.minTs,segment.maxTs)
    else none
  blocked : Blocked segment.frames segment.blocks

structure Sound (segment : Segment) : Prop extends Consistent segment where
  nonempty : segment.frames ≠ []
  last : segment.frames.getLast?.map Frame.seq = some segment.lastSeq

variable {segment : Segment}

theorem Sound.last_mem (h : Sound segment) :
    ∃ frame ∈ segment.frames, frame.seq = segment.lastSeq := by
  obtain ⟨frame,hlast,hseq⟩ := map_eq_some_iff.mp h.last
  exact ⟨frame,mem_of_getLast? hlast,hseq⟩

theorem Sound.blockRanges_eq (h : Sound segment) {groups : List (List Frame)}
    (hflat : groups.flatten = segment.frames) (hmarks : marks 0 groups = segment.blocks) :
    blockRanges segment.segBytes segment.blocks = spans 0 groups := by
  have hall := blockRanges_marks groups 0
  rwa [zero_add, hflat, ← h.segBytes, hmarks] at hall

theorem Sound.le_last (h : Sound segment)
    (hf : frame ∈ segment.frames) : frame.seq ≤ segment.lastSeq := by
  obtain ⟨final,hlast,hseq⟩ := map_eq_some_iff.mp h.last
  have hsplit := dropLast_append_getLast? final hlast
  have hpairs : (segment.frames.dropLast ++ [final]).Pairwise fun a b => a.seq < b.seq := by
    rw [hsplit]
    exact h.ascending
  rw [pairwise_append] at hpairs
  rw [← hsplit, mem_append, mem_singleton] at hf
  rcases hf with hf | rfl
  · have := hpairs.2.2 frame hf final (mem_singleton.mpr rfl)
    omega
  · omega

theorem loadSegment_sound (h : Sound segment) (hclosed : segment.closed = true) :
    loadSegment (segment.firstSeq,segment.frames,segment.index) = some segment := by
  have hsummary := h.summary
  rw [hclosed, if_pos rfl] at hsummary
  unfold loadSegment
  simp only [hsummary]
  cases segment
  simp only [Option.some.injEq, Segment.mk.injEq, true_and, and_true] at *
  exact ⟨h.segBytes.symm,h.idxBytes.symm,h.blocks,hclosed.symm⟩

theorem summaryOf_append (index : List IdxEntry) (records lastSeq : ℕ) (minTs maxTs : ℤ) :
    summaryOf (index ++ [.summary records lastSeq minTs maxTs]) =
      some (records,lastSeq,minTs,maxTs) := by
  simp [summaryOf]

theorem summaryOf_block {index : List IdxEntry} {offset firstSeq : ℕ} {firstTs : ℤ} :
    summaryOf (index ++ [.block offset firstSeq firstTs]) = summaryOf index := by
  simp [summaryOf]

theorem closeSegment_sound (h : Sound segment) : Sound (closeSegment segment) :=
  { h with
    idxBytes := by
      show segment.idxBytes + idxEntryBytes = _
      rw [h.idxBytes]
      simp [closeSegment, add_mul]
    blocks := by
      show blocksOf (segment.index ++ [_]) = segment.blocks
      rw [← h.blocks]
      simp [blocksOf]
    summary := by
      show summaryOf (segment.index ++ [_]) = _
      rw [summaryOf_append]
      rfl }

theorem marks_concat (groups : List (List Frame)) (group : List Frame) (offset : ℕ) :
    marks offset (groups ++ [group]) = marks offset groups ++
      [(offset + framesBytes groups.flatten,(group.head?.map Frame.seq).getD 0)] := by
  induction groups generalizing offset with
  | nil => simp [marks]
  | cons first rest ih => simp [marks, ih, add_assoc]

variable {blocks : List (ℕ × ℕ)}

theorem blocked_new (h : Blocked frames blocks) (frame : Frame) :
    Blocked (frames ++ [frame]) (blocks ++ [(framesBytes frames,frame.seq)]) := by
  obtain ⟨groups,hgroups,rfl,rfl⟩ := h
  refine ⟨groups ++ [[frame]],?_,by simp,?_⟩
  · exact forall_mem_append.mpr ⟨hgroups,forall_mem_singleton.mpr (cons_ne_nil _ _)⟩
  · rw [marks_concat, zero_add]
    rfl

theorem blocked_same (h : Blocked frames blocks)
    (hsome : blocks ≠ []) : Blocked (frames ++ [frame]) blocks := by
  obtain ⟨groups,hgroups,rfl,rfl⟩ := h
  rcases eq_nil_or_concat groups with rfl | ⟨init,group,rfl⟩
  · exact absurd rfl hsome
  · rw [concat_eq_append] at hgroups ⊢
    have hgroup : group ≠ [] := hgroups group (by simp)
    refine ⟨init ++ [group ++ [frame]],?_,by simp,?_⟩
    · intro g hg
      rcases mem_append.mp hg with hg | hg
      · exact hgroups g (mem_append_left _ hg)
      · rw [mem_singleton.mp hg]
        simp
    · rw [marks_concat, marks_concat, head?_append_of_ne_nil _ hgroup]

structure Started (frame : Frame) (segment started : Segment) : Prop where
  frames : started.frames = segment.frames
  firstSeq : started.firstSeq = segment.firstSeq
  closed : started.closed = segment.closed
  minTs : started.minTs = segment.minTs
  maxTs : started.maxTs = segment.maxTs
  records : started.records = segment.records
  segBytes : started.segBytes = segment.segBytes
  idxBytes : started.idxBytes = started.index.length * idxEntryBytes
  blocks : blocksOf started.index = started.blocks
  summary : summaryOf started.index = summaryOf segment.index
  blocked : Blocked (segment.frames ++ [frame]) started.blocks

theorem newBlock_started (h : Consistent segment) :
    Started frame segment (newBlock frame segment) where
  frames := rfl
  firstSeq := rfl
  closed := rfl
  minTs := rfl
  maxTs := rfl
  records := rfl
  segBytes := rfl
  idxBytes := by
    simp only [newBlock, h.idxBytes, length_append, length_singleton, add_mul,
      one_mul]
  blocks := by
    simp only [newBlock, ← h.blocks, blocksOf, filterMap_append, filterMap_cons,
      filterMap_nil]
  summary := summaryOf_block
  blocked := by
    have hnew := blocked_new h.blocked frame
    rwa [← h.segBytes] at hnew

theorem startBlock_started (files : OpenFiles) (frame : Frame)
    (h : Consistent segment) : Started frame segment (startBlock files frame segment).1 := by
  unfold startBlock
  split_ifs with hnew
  · exact newBlock_started h
  · exact
      { frames := rfl
        firstSeq := rfl
        closed := rfl
        minTs := rfl
        maxTs := rfl
        records := rfl
        segBytes := rfl
        idxBytes := h.idxBytes
        blocks := h.blocks
        summary := rfl
        blocked := blocked_same h.blocked (fun hnil => hnew (.inr hnil)) }

theorem addFrame_sound {started : Segment} (hstarted : Started frame segment started)
    (h : Consistent segment) (hopen : segment.closed = false)
    (hnew : ∀ other ∈ segment.frames, other.seq < frame.seq)
    (hfirst : segment.firstSeq ≤ frame.seq) :
    Sound (addFrame frame started) := by
  have hall : (addFrame frame started).frames = segment.frames ++ [frame] :=
    congrArg (· ++ [frame]) hstarted.frames
  exact
    { ascending := by
        rw [hall, Ascending, pairwise_append]
        refine ⟨h.ascending,pairwise_singleton _ _,?_⟩
        intro other ho last hl
        rw [mem_singleton.mp hl]
        exact hnew other ho
      first := by
        intro other ho
        rw [hall] at ho
        show started.firstSeq ≤ other.seq
        rw [hstarted.firstSeq]
        rcases mem_append.mp ho with ho | ho
        · exact h.first other ho
        · rw [mem_singleton.mp ho]
          exact hfirst
      times := by
        intro other ho
        rw [hall] at ho
        show min started.minTs frame.ts ≤ other.ts ∧ other.ts ≤ max started.maxTs frame.ts
        rw [hstarted.minTs, hstarted.maxTs]
        rcases mem_append.mp ho with ho | ho
        · obtain ⟨hmin,hmax⟩ := h.times other ho
          exact ⟨(min_le_left _ _).trans hmin,hmax.trans (le_max_left _ _)⟩
        · rw [mem_singleton.mp ho]
          exact ⟨min_le_right _ _,le_max_right _ _⟩
      records := by
        rw [hall, length_append, ← h.records]
        exact congrArg (· + 1) hstarted.records
      segBytes := by
        rw [hall, framesBytes_append, ← h.segBytes]
        show started.segBytes + frame.bytes = _
        rw [hstarted.segBytes]
        simp
      idxBytes := hstarted.idxBytes
      blocks := hstarted.blocks
      summary := by
        show summaryOf started.index = if started.closed then _ else _
        rw [hstarted.closed, hopen, hstarted.summary, h.summary, hopen]
        rfl
      blocked := hall ▸ hstarted.blocked
      nonempty := by
        rw [hall]
        simp
      last := by
        simp [addFrame] }

def directed {α : Type} : Direction → List α → List α
  | .forward, elements => elements
  | .backward, elements => elements.reverse

section
variable {α β : Type} (direction : Direction) (elements : List α)

theorem directed_perm : (directed direction elements).Perm elements := by
  cases direction with
  | forward => exact List.Perm.refl _
  | backward => exact reverse_perm _

theorem directed_filter (p : α → Bool) :
    (directed direction elements).filter p = directed direction (elements.filter p) := by
  cases direction with
  | forward => rfl
  | backward => exact filter_reverse

theorem directed_map (f : α → β) :
    (directed direction elements).map f = directed direction (elements.map f) := by
  cases direction with
  | forward => rfl
  | backward => exact map_reverse

theorem directed_flatMap (f : α → List β) :
    ((directed direction elements).flatMap fun a => directed direction (f a)) =
      directed direction (elements.flatMap f) := by
  cases direction with
  | forward => rfl
  | backward => exact reverse_flatMap.symm

end

theorem flatMap_filter {α β : Type} (p : α → Bool) (f : α → List β) {elements : List α} :
    (elements.filter p).flatMap f = elements.flatMap fun a => if p a then f a else [] := by
  induction elements with
  | nil => rfl
  | cons a rest ih =>
    by_cases ha : p a = true <;> simp [ha, ih]

theorem wantedFrame_iff :
    wantedFrame spec minTs frame = true ↔
      (∀ after, spec.afterSeq = some after → after < frame.seq) ∧
      (∀ before, spec.beforeSeq = some before → frame.seq < before) ∧
      spec.fromTs ≤ frame.ts ∧ minTs ≤ frame.ts ∧ frame.ts ≤ spec.toTs := by
  unfold wantedFrame
  cases spec.afterSeq <;> cases spec.beforeSeq <;> simp [and_assoc]

theorem wantedSegment_iff :
    wantedSegment spec minTs segment = true ↔
      max spec.fromTs minTs ≤ segment.maxTs ∧ segment.minTs ≤ spec.toTs ∧
      (∀ after, spec.afterSeq = some after → after < segment.lastSeq) ∧
      ∀ before, spec.beforeSeq = some before → segment.firstSeq < before := by
  unfold wantedSegment
  cases spec.afterSeq <;> cases spec.beforeSeq <;> simp [and_assoc]

def forwardFrom (after : ℕ) (fromTs toTs : ℤ) (producers : Option (List Producer)) : ScanSpec where
  direction := .forward
  afterSeq := some after
  beforeSeq := none
  fromTs := fromTs
  toTs := toTs
  producers := producers

/-- The frames in the blocks before the reader's first one are not after the cursor. -/
theorem skipped_unwanted {after : ℕ}
    (hafter : spec.afterSeq = some after) {offset : ℕ}
    (hgroups : ∀ group ∈ groups, group ≠ []) (hsorted : Ascending groups.flatten) {skip : ℕ}
    (hskip : rposition (fun block : ℕ × ℕ => decide (block.2 ≤ after + 1)) (marks offset groups) =
      some skip) : (groups.take skip).flatten.filter (wantedFrame spec minTs) = [] := by
  obtain ⟨block,hblock,hle⟩ := rposition_some _ _ hskip
  obtain ⟨group,hgroup,hfirst⟩ := marks_get offset skip hblock
  have hnonempty : group ≠ [] := hgroups group (mem_of_getElem? hgroup)
  obtain ⟨head,tail,rfl⟩ := exists_cons_of_ne_nil hnonempty
  have hseq : head.seq ≤ after + 1 := by
    have hbound := of_decide_eq_true hle
    rw [hfirst] at hbound
    simpa using hbound
  have hdrop : (groups.drop skip).flatten = head :: (tail ++ (groups.drop (skip + 1)).flatten) := by
    rw [drop_eq_getElem?_toList_append, hgroup]
    simp
  have hpairs : ((groups.take skip).flatten ++ (groups.drop skip).flatten).Pairwise
      fun a b : Frame => a.seq < b.seq := by
    rw [← flatten_append, take_append_drop]
    exact hsorted
  rw [filter_eq_nil_iff]
  intro frame hframe
  have hless := (pairwise_append.mp hpairs).2.2 frame hframe head (by rw [hdrop]; simp)
  intro hwanted
  have hmore := (wantedFrame_iff.mp hwanted).1 after hafter
  omega

/-- A reader gives the frames of a segment that the bounds admit, in its direction. -/
theorem readSegment_eq (h : Sound segment) (spec : ScanSpec) (minTs : ℤ) :
    readSegment spec minTs segment =
      directed spec.direction (segment.frames.filter (wantedFrame spec minTs)) := by
  obtain ⟨groups,hgroups,hflat,hmarks⟩ := h.blocked
  have hsome : segment.blocks ≠ [] := by
    rw [← hmarks]
    cases groups with
    | nil => exact absurd hflat.symm h.nonempty
    | cons group rest => simp [marks]
  have hranges := h.blockRanges_eq hflat hmarks
  -- the frames from any block on that has nothing wanted before it
  have hfrom : ∀ skip, (groups.take skip).flatten.filter (wantedFrame spec minTs) = [] →
      ((spans 0 groups).drop skip).flatMap (fun range => if range.2 ≤ range.1 then []
        else (framesBetween range.1 range.2 0 segment.frames).filter (wantedFrame spec minTs)) =
      segment.frames.filter (wantedFrame spec minTs) := by
    intro skip hskipped
    have hsplit : segment.frames = (groups.take skip).flatten ++ (groups.drop skip).flatten := by
      rw [← flatten_append, take_append_drop, hflat]
    rw [spans_drop, zero_add, spans_read (wantedFrame spec minTs) _
      (fun group hg => hgroups group (mem_of_mem_drop hg)) hsplit]
    rw [hsplit, filter_append, hskipped, nil_append]
  unfold readSegment
  simp only [if_neg hsome, hranges]
  cases spec.direction with
  | backward =>
    rw [directed, ← hfrom 0 rfl, drop_zero, reverse_flatMap]
    rfl
  | forward =>
    apply hfrom
    cases hafter : spec.afterSeq with
    | none => rfl
    | some after =>
      cases hfound : rposition (fun block : ℕ × ℕ => decide (block.2 ≤ after + 1))
          segment.blocks with
      | none => simp [hfound]
      | some found =>
        simp only [hfound, Option.getD_some]
        exact skipped_unwanted hafter hgroups (hflat ▸ h.ascending)
          (hmarks ▸ hfound)

/-- A segment that the bounds exclude has no frame that they admit. -/
theorem unwanted_segment (h : Sound segment)
    (hunwanted : ¬ wantedSegment spec minTs segment = true) :
    segment.frames.filter (wantedFrame spec minTs) = [] := by
  rw [filter_eq_nil_iff]
  intro frame hframe hwanted
  apply hunwanted
  rw [wantedSegment_iff]
  obtain ⟨hmin,hmax⟩ := h.times frame hframe
  obtain ⟨hafter,hbefore,hfrom,hold,hto⟩ := wantedFrame_iff.mp hwanted
  refine ⟨max_le (hfrom.trans hmax) (hold.trans hmax),hmin.trans hto,?_,?_⟩
  · intro after heq
    exact (hafter after heq).trans_le (h.le_last hframe)
  · intro before heq
    exact (h.first frame hframe).trans_lt (hbefore before heq)

end Permanu.TelemetrySegments
