import PermanuAgent.AdmissionReconcile

/-!
# Passes over a growing log

A pass sorts the lines it read, drops those up to the cursor and applies the
rest. A log grows at its end only, so a later read holds the lines of every
earlier one, and of all the lines of the log each read holds those up to some
number. Passes over such reads apply every line once and in order, as one pass
over the last of them would.
-/

set_option autoImplicit false

namespace Permanu.AdmissionPasses
open ByteText PlanText PlanActions List
open AdmissionStore AdmissionReconcile

/-- In the strict order of the sequence numbers. -/
def Ascending (lines : List ConsumedLine) : Prop := lines.Pairwise fun a b => a.seq < b.seq

/-- A sequence number names one line. -/
def Numbered (lines : List ConsumedLine) : Prop :=
  ∀ a ∈ lines, ∀ b ∈ lines, a.seq = b.seq → a = b

section
variable (line : ConsumedLine) (lines : List ConsumedLine)

theorem mem_insertLine_seq {l : ConsumedLine}
    (h : l ∈ insertLine line lines) : l = line ∨ l ∈ lines := by
  induction lines with
  | nil => exact .inl (mem_singleton.mp h)
  | cons first rest ih =>
    rw [insertLine] at h
    split_ifs at h
    · exact mem_cons.mp h
    · rcases mem_cons.mp h with h | h
      · exact .inl h
      · exact .inr (mem_cons_of_mem _ h)
    · rcases mem_cons.mp h with h | h
      · exact .inr (mem_cons.mpr (.inl h))
      · exact (ih h).imp id (mem_cons_of_mem _)

theorem insertLine_ascending (h : Ascending lines) : Ascending (insertLine line lines) := by
  induction lines with
  | nil => exact pairwise_singleton _ _
  | cons first rest ih =>
    obtain ⟨hfirst,hrest⟩ := pairwise_cons.mp h
    rw [insertLine]
    split_ifs with hlt heq
    · refine pairwise_cons.mpr ⟨fun l hl => ?_,h⟩
      rcases mem_cons.mp hl with rfl | hl
      · exact hlt
      · exact hlt.trans (hfirst l hl)
    · refine pairwise_cons.mpr ⟨fun l hl => ?_,hrest⟩
      rw [heq]
      exact hfirst l hl
    · refine pairwise_cons.mpr ⟨fun l hl => ?_,ih hrest⟩
      rcases mem_insertLine_seq line rest hl with rfl | hl
      · omega
      · exact hfirst l hl

theorem mem_insertLine (hn : Numbered (line :: lines)) {l : ConsumedLine} :
    l ∈ insertLine line lines ↔ l = line ∨ l ∈ lines := by
  refine ⟨mem_insertLine_seq line lines,fun h => ?_⟩
  induction lines with
  | nil => simpa [insertLine] using h
  | cons first rest ih =>
    have hrest : Numbered (line :: rest) := by
      intro a ha b hb
      refine hn a ?_ b ?_
      · exact (mem_cons.mp ha).elim (fun h => by simp [h]) fun h => by simp [h]
      · exact (mem_cons.mp hb).elim (fun h => by simp [h]) fun h => by simp [h]
    rw [insertLine]
    split_ifs with hlt heq
    · exact mem_cons.mpr h
    · -- the line that was there is the same line
      obtain rfl := hn line (by simp) first (by simp) heq
      rcases h with rfl | h
      · exact mem_cons_self
      · exact h
    · rcases h with rfl | h
      · exact mem_cons_of_mem _ (ih hrest (.inl rfl))
      · rcases mem_cons.mp h with rfl | h
        · exact mem_cons_self
        · exact mem_cons_of_mem _ (ih hrest (.inr h))

end

theorem foldr_insertLine {lines : List ConsumedLine} : Ascending (lines.foldr insertLine []) ∧
    (∀ l ∈ lines.foldr insertLine [], l ∈ lines) ∧
    (Numbered lines → ∀ l ∈ lines, l ∈ lines.foldr insertLine []) := by
  induction lines with
  | nil => exact ⟨List.Pairwise.nil,by simp,by simp⟩
  | cons line rest ih =>
    obtain ⟨hasc,hsub,hall⟩ := ih
    refine ⟨insertLine_ascending line _ hasc,fun l hl => ?_,fun hn l hl => ?_⟩
    · rcases mem_insertLine_seq line _ hl with rfl | hl
      · exact mem_cons_self
      · exact mem_cons_of_mem _ (hsub l hl)
    · have hrest : Numbered rest := fun a ha b hb =>
        hn a (mem_cons_of_mem _ ha) b (mem_cons_of_mem _ hb)
      refine (mem_insertLine line _ (fun a ha b hb => hn a ?_ b ?_)).mpr ?_
      · exact (mem_cons.mp ha).elim (fun h => by simp [h]) fun h => by simp [hsub a h]
      · exact (mem_cons.mp hb).elim (fun h => by simp [h]) fun h => by simp [hsub b h]
      · rcases mem_cons.mp hl with rfl | hl
        · exact .inl rfl
        · exact .inr (hall hrest l hl)

theorem newLines_ascending (lastSeq : ℕ) (lines : List ConsumedLine) :
    Ascending (newLines lastSeq lines) := foldr_insertLine.1

variable {lines : List ConsumedLine}

variable {l : ConsumedLine} {first second : LogRead}

variable {lastSeq : ℕ} {now : ℤ}

theorem newLines_mem
    (h : l ∈ newLines lastSeq lines) : l ∈ lines ∧ lastSeq < l.seq := by
  have := foldr_insertLine.2.1 l h
  simpa using this

theorem mem_newLines (hn : Numbered lines)
    (l : ConsumedLine) : l ∈ newLines lastSeq lines ↔ l ∈ lines ∧ lastSeq < l.seq := by
  refine ⟨newLines_mem,fun h => ?_⟩
  refine foldr_insertLine.2.2 (fun a ha b hb => ?_) l (by simpa using h)
  exact hn a (mem_of_mem_filter ha) b (mem_of_mem_filter hb)

theorem Ascending.eq {a b : List ConsumedLine} (ha : Ascending a) (hb : Ascending b)
    (h : ∀ l, l ∈ a ↔ l ∈ b) : a = b := by
  have hna : a.Nodup := ha.imp fun hlt heq => by simp [heq] at hlt
  have hnb : b.Nodup := hb.imp fun hlt heq => by simp [heq] at hlt
  refine ((perm_ext_iff_of_nodup hna hnb).mpr h).eq_of_pairwise (fun x y _ _ hxy hyx => ?_) ha hb
  exact absurd hxy (Nat.lt_asymm hyx)

def seqAfter (lastSeq : ℕ) (lines : List ConsumedLine) : ℕ :=
  (lines.getLast?.map ConsumedLine.seq).getD lastSeq

theorem seqAfter_append (lastSeq : ℕ) (first second : List ConsumedLine) :
    seqAfter lastSeq (first ++ second) = seqAfter (seqAfter lastSeq first) second := by
  simp only [seqAfter, getLast?_append]
  cases second.getLast? with
  | none | some last => rfl

theorem applyLines_seq (lastSeq : ℕ) (store : Store) :
    (applyLines lastSeq lines store).2.1 = seqAfter lastSeq lines := by
  induction lines generalizing lastSeq store with
  | nil => rfl
  | cons line rest ih =>
    simp only [applyLines, ih]
    cases rest with
    | nil => rfl
    | cons next rest =>
      cases h : (next :: rest).getLast? with
      | none => simp at h
      | some last => rfl

theorem applyLines_append (first second : List ConsumedLine) (lastSeq : ℕ) (store : Store) :
    applyLines lastSeq (first ++ second) store =
      ((applyLines (seqAfter lastSeq first) second (applyLines lastSeq first store).1).1,
        (applyLines (seqAfter lastSeq first) second (applyLines lastSeq first store).1).2.1,
        (applyLines lastSeq first store).2.2 ++
          (applyLines (seqAfter lastSeq first) second (applyLines lastSeq first store).1).2.2) := by
  rw [← applyLines_seq lastSeq store]
  induction first generalizing lastSeq store with
  | nil => rfl
  | cons line rest ih =>
    simp only [cons_append, applyLines, ih, append_assoc]

section Cursor
variable (store : Store) (cursor : Option Cursor)

theorem settleRuleRevoke_cursor (planId : Str) (actionIndex : ℕ) (outcome : Outcome) (time : Str) :
    settleRuleRevoke planId actionIndex outcome time { store with cursor := cursor } =
      { settleRuleRevoke planId actionIndex outcome time store with cursor := cursor } := by
  have hrow : Store.actionRow { store with cursor := cursor } planId actionIndex =
      Store.actionRow store planId actionIndex := rfl
  simp only [settleRuleRevoke, hrow]
  split_ifs <;> rfl

theorem finishAdmissionIfDone_cursor (planId : Str) :
    finishAdmissionIfDone planId { store with cursor := cursor } =
      ({ (finishAdmissionIfDone planId store).1 with cursor := cursor },
        (finishAdmissionIfDone planId store).2) := by
  simp only [finishAdmissionIfDone]
  split <;> rfl

theorem applyResult_cursor {line : ConsumedLine} :
    applyResult line { store with cursor := cursor } =
      ({ (applyResult line store).1 with cursor := cursor }, (applyResult line store).2) := by
  simp only [applyResult]
  cases line.outcome.bind outcomeOf with
  | none => rfl
  | some outcome =>
    have hrecord : recordResult line.planId line.actionIndex outcome line.time line.seq
        { store with cursor := cursor } =
        { recordResult line.planId line.actionIndex outcome line.time line.seq store with
          cursor := cursor } := rfl
    simp only [hrecord, settleRuleRevoke_cursor, finishAdmissionIfDone_cursor]

theorem applyLine_cursor (line : ConsumedLine) :
    applyLine line { store with cursor := cursor } =
      ({ (applyLine line store).1 with cursor := cursor }, (applyLine line store).2) := by
  have hnames : namesAdmission { store with cursor := cursor } line = namesAdmission store line :=
    rfl
  simp only [applyLine, hnames]
  split_ifs
  · rfl
  · rfl
  · exact applyResult_cursor store cursor
  · rfl

end Cursor

theorem applyLines_cursor (lines : List ConsumedLine) (lastSeq : ℕ) (store : Store)
    (cursor : Option Cursor) :
    applyLines lastSeq lines { store with cursor := cursor } =
      ({ (applyLines lastSeq lines store).1 with cursor := cursor },
        (applyLines lastSeq lines store).2.1, (applyLines lastSeq lines store).2.2) := by
  induction lines generalizing lastSeq store with
  | nil => rfl
  | cons line rest ih =>
    simp only [applyLines]
    split_ifs
    all_goals simp only [applyLine_cursor, ih]

/-- A read without problems of the lines of a log up to some number, in any order and
with repetitions. -/
structure Reading (log : List ConsumedLine) (read : LogRead) : Prop where
  within : read.lines ⊆ log
  closed : ∀ l ∈ read.lines, ∀ m ∈ log, m.seq < l.seq → m ∈ read.lines
  clean : read.problems = []

theorem seqAfter_cases (lastSeq : ℕ) (lines : List ConsumedLine) :
    (lines = [] ∧ seqAfter lastSeq lines = lastSeq) ∨
      ∃ l ∈ lines, seqAfter lastSeq lines = l.seq := by
  cases h : lines.getLast? with
  | none => exact .inl ⟨getLast?_eq_none_iff.mp h,by rw [seqAfter, h]; rfl⟩
  | some last => exact .inr ⟨last,mem_of_getLast? h,by rw [seqAfter, h]; rfl⟩

theorem Ascending.le_seqAfter (h : Ascending lines) (lastSeq : ℕ) (hl : l ∈ lines) :
    l.seq ≤ seqAfter lastSeq lines := by
  obtain ⟨before,last,rfl⟩ := (eq_nil_or_concat lines).resolve_left (ne_nil_of_mem hl)
  rw [concat_eq_append] at h hl ⊢
  have hlast : seqAfter lastSeq (before ++ [last]) = last.seq := by
    rw [seqAfter, getLast?_concat]
    rfl
  rw [hlast]
  rcases mem_append.mp hl with hl | hl
  · exact Nat.le_of_lt ((pairwise_append.mp h).2.2 l hl last (by simp))
  · rw [mem_singleton.mp hl]

variable {log : List ConsumedLine}

/-- What a later read adds is above the cursor that the earlier one left. -/
theorem newLines_split (hlog : Numbered log)
    (h1 : Reading log first) (h2 : Reading log second) (hsub : first.lines ⊆ second.lines)
    (lastSeq : ℕ) : newLines lastSeq second.lines = newLines lastSeq first.lines ++
      newLines (seqAfter lastSeq (newLines lastSeq first.lines)) second.lines := by
  have hn1 : Numbered first.lines := fun a ha b hb => hlog a (h1.within ha) b (h1.within hb)
  have hn2 : Numbered second.lines := fun a ha b hb => hlog a (h2.within ha) b (h2.within hb)
  have hasc := newLines_ascending lastSeq first.lines
  apply (newLines_ascending lastSeq second.lines).eq
  · refine pairwise_append.mpr ⟨hasc,newLines_ascending _ _,fun a ha b hb => ?_⟩
    exact (hasc.le_seqAfter lastSeq ha).trans_lt (newLines_mem hb).2
  · intro l
    rw [mem_append, mem_newLines hn2, mem_newLines hn1, mem_newLines hn2]
    constructor
    · rintro ⟨hl,hlt⟩
      by_cases hle : l.seq ≤ seqAfter lastSeq (newLines lastSeq first.lines)
      · -- a line up to the last one of the first read was already in that read
        refine .inl ⟨?_,hlt⟩
        rcases seqAfter_cases lastSeq (newLines lastSeq first.lines) with ⟨_,hseq⟩ | ⟨m,hm,hseq⟩
        · omega
        · rw [hseq] at hle
          have hmem := (newLines_mem hm).1
          rcases Nat.lt_or_eq_of_le hle with hlt | heq
          · exact h1.closed m hmem l (h2.within hl) hlt
          · exact hlog m (h1.within hmem) l (h2.within hl) heq.symm ▸ hmem
      · exact .inr ⟨hl,by omega⟩
    · rintro (⟨hl,hlt⟩ | ⟨hl,hlt⟩)
      · exact ⟨hsub hl,hlt⟩
      · refine ⟨hl,?_⟩
        rcases seqAfter_cases lastSeq (newLines lastSeq first.lines) with ⟨_,hseq⟩ | ⟨m,hm,hseq⟩
        · rwa [hseq] at hlt
        · rw [hseq] at hlt
          exact (newLines_mem hm).2.trans hlt

def lastSeqOf (store : Store) : ℕ := (store.cursor.map Cursor.lastSeq).getD 0

theorem reconcile_eq {read : LogRead} {store : Store} (h : read.problems = []) :
    reconcile read now store =
      let lines := newLines (lastSeqOf store) read.lines
      ({ (applyLines (lastSeqOf store) lines store).1 with
        cursor := some ⟨seqAfter (lastSeqOf store) lines,read.inode,read.offset,
          formatTimestamp now⟩ },
        (applyLines (lastSeqOf store) lines store).2.2) := by
  simp only [reconcile, h, map_nil, nil_append, lastSeqOf, applyLines_seq]

/-- A pass and a later one over a longer read do what the later one does alone. -/
theorem reconcile_twice (hlog : Numbered log) (h1 : Reading log first) (h2 : Reading log second)
    (hsub : first.lines ⊆ second.lines) {earlier : ℤ} {store : Store} :
    (reconcile second now (reconcile first earlier store).1).1 = (reconcile second now store).1 ∧
    (reconcile first earlier store).2 ++
      (reconcile second now (reconcile first earlier store).1).2 =
        (reconcile second now store).2 := by
  have hseq : lastSeqOf (reconcile first earlier store).1 =
      seqAfter (lastSeqOf store) (newLines (lastSeqOf store) first.lines) := by
    rw [reconcile_eq h1.clean]
    rfl
  rw [reconcile_eq h2.clean, reconcile_eq h2.clean, hseq,
    reconcile_eq h1.clean]
  simp only [applyLines_cursor, newLines_split hlog h1 h2 hsub (lastSeqOf store),
    applyLines_append, seqAfter_append]
  exact ⟨trivial,trivial⟩

def reconcileAll : List (LogRead × ℤ) → Store → Store × List ReconcileEffect
  | [], store => (store, [])
  | (read, now)::rest, store =>
    let (applied, effects) := reconcile read now store
    let (final, later) := reconcileAll rest applied
    (final, effects ++ later)

theorem reconcileAll_last (hlog : Numbered log)
    {passes : List (LogRead × ℤ)} {last : LogRead}
    (hreads : ∀ pass ∈ passes, Reading log pass.1 ∧ pass.1.lines ⊆ last.lines)
    (hlast : Reading log last) (store : Store) :
    reconcileAll (passes ++ [(last, now)]) store = reconcile last now store := by
  induction passes generalizing store with
  | nil => simp [reconcileAll]
  | cons pass rest ih =>
    obtain ⟨read,time⟩ := pass
    obtain ⟨hread,hsub⟩ := hreads (read, time) mem_cons_self
    have hrest := ih (fun pass hp => hreads pass (mem_cons_of_mem _ hp))
      (reconcile read time store).1
    obtain ⟨htables,heffects⟩ := reconcile_twice hlog hread hlast hsub
    simp only [cons_append, reconcileAll, hrest]
    rw [heffects]
    exact Prod.ext htables rfl

/-- Admissions, actions, rules and the number of the last applied line agree. -/
structure SameTables (a b : Store) : Prop where
  admissions : a.admissions = b.admissions
  actions : a.actions = b.actions
  rules : a.rules = b.rules
  lastSeq : lastSeqOf a = lastSeqOf b

/-- Passes over ever longer reads of a log leave the tables and report the effects of one
pass over the last read; a pass that reads nothing new does neither. -/
theorem incremental_reconcile_eq_one_shot :
    (∀ (log : List ConsumedLine) (passes : List (LogRead × ℤ)) (last : LogRead) (now time : ℤ)
      (store : Store), Numbered log → (∀ pass ∈ passes, Reading log pass.1) → Reading log last →
      (passes.map Prod.fst ++ [last]).IsChain (fun a b => a.lines ⊆ b.lines) →
      SameTables (reconcileAll (passes ++ [(last, now)]) store).1 (reconcile last time store).1 ∧
      (reconcileAll (passes ++ [(last, now)]) store).2 = (reconcile last time store).2) ∧
    ∀ (read : LogRead) (now : ℤ) (store : Store), read.problems = [] →
      (∀ l ∈ read.lines, l.seq ≤ lastSeqOf store) →
      SameTables (reconcile read now store).1 store ∧ (reconcile read now store).2 = [] := by
  constructor
  · intro log passes last now time store hlog hreads hlast hchain
    have htrans : IsTrans LogRead (fun a b => a.lines ⊆ b.lines) :=
      ⟨fun _ _ _ hab hbc => List.Subset.trans hab hbc⟩
    have hsub : ∀ pass ∈ passes, pass.1.lines ⊆ last.lines := by
      intro pass hp
      have hpair := isChain_iff_pairwise.mp hchain
      exact (pairwise_append.mp hpair).2.2 _ (mem_map_of_mem hp) last (by simp)
    rw [reconcileAll_last hlog (fun pass hp => ⟨hreads pass hp,hsub pass hp⟩) hlast]
    rw [reconcile_eq hlast.clean, reconcile_eq hlast.clean]
    exact ⟨⟨rfl,rfl,rfl,rfl⟩,rfl⟩
  · intro read now store hclean hold
    have hnone : newLines (lastSeqOf store) read.lines = [] := by
      rw [eq_nil_iff_forall_not_mem]
      intro l hl
      obtain ⟨hmem,hlt⟩ := newLines_mem hl
      exact absurd (hold l hmem) (by omega)
    rw [reconcile_eq hclean, hnone]
    exact ⟨⟨rfl,rfl,rfl,rfl⟩,rfl⟩

def logLine (seq : ℕ) (event : String) (outcome : Option String) : ConsumedLine :=
  ⟨seq,str "2026-01-02T00:10:00Z",str event,str "plan",str "digest",0,outcome.map str,none⟩

def sampleLog : List ConsumedLine := [logLine 1 "consumed" none, logLine 2 "result" (some "failed")]

def firstRead : LogRead := ⟨[logLine 1 "consumed" none],[],none,0⟩

def secondRead : LogRead :=
  ⟨[logLine 2 "result" (some "failed"), logLine 1 "consumed" none, logLine 1 "consumed" none],[],
    none,0⟩

def openStore : Store := { createdStore 0 none with
  admissions := [⟨str "plan",str "digest",[],.client,str "op",[],none,none,1,[],str "user",[],[],[],
    [],[],[],none,none,[],[]⟩]
  actions := [⟨str "plan",0,str "restart",none,none,none,none,none,none⟩] }

theorem two_passes_eq_one :
    SameTables (reconcileAll [(firstRead, 10), (secondRead, 20)] openStore).1
      (reconcile secondRead 20 openStore).1 ∧
    (reconcileAll [(firstRead, 10), (secondRead, 20)] openStore).2 =
      (reconcile secondRead 20 openStore).2 ∧
    (reconcile firstRead 30 (reconcile secondRead 20 openStore).1).2 = [] := by
  have hlog : Numbered sampleLog := by
    unfold Numbered
    decide
  have hfirst : Reading sampleLog firstRead := ⟨by decide,by decide,rfl⟩
  have hsecond : Reading sampleLog secondRead := ⟨by decide,by decide,rfl⟩
  have htwo := incremental_reconcile_eq_one_shot.1 sampleLog [(firstRead, 10)] secondRead 20 20
    openStore hlog (by simpa using hfirst) hsecond (by decide)
  refine ⟨htwo.1,htwo.2,?_⟩
  exact (incremental_reconcile_eq_one_shot.2 firstRead 30 _ rfl (by decide)).2

end Permanu.AdmissionPasses
