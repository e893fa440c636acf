import PermanuAgent.OpsStore

/-!
# The claims of fire times

A scheduled run starts only after its fire time is claimed. The table of claims is
pruned with the run history, and the floor of the store stands for what was pruned:
every claim ever made is in the table or lies below the floor. The clock of a pruning
is any number, so the floor is the largest one it was ever set to.
-/

set_option autoImplicit false

namespace Permanu.SlotClaims
open ByteText PlanText JsonRoundTrip StepRuns List Except
open ScheduleBinding OpsStore
open AdmissionOpen (StoreError)

/-- A fire time follows the second its definition took effect, which is a timestamp, and
is an instant of the calendar library: it lies in the years 1 to 9999. -/
structure FireTime where
  seconds : ℤ
  first : -62135596800 ≤ seconds
  last : seconds ≤ 253402300799

def FireTime.slot (t : FireTime) : Str := formatTimestamp t.seconds

theorem FireTime.timestamp_slot (t : FireTime) : timestamp t.slot = some t.seconds :=
  timestamp_formatTimestamp t.first t.last

/-- SQLite reads the seconds of every fire time. -/
def ReadsFireTimes (strftime : Str → Option ℤ) : Prop :=
  ∀ t : FireTime, strftime t.slot = some t.seconds

theorem parseI64_digits {s : Str} (h : s ≠ []) (hd : ∀ b ∈ s, isDigit b = true) :
    parseI64 s = inI64 (parseDecimal s) := by
  cases s with
  | nil => exact absurd rfl h
  | cons b rest =>
    have hb := hd b mem_cons_self
    have hminus : b ≠ byte '-' := by
      rintro rfl
      exact absurd hb (by decide)
    have hplus : b ≠ byte '+' := by
      rintro rfl
      exact absurd hb (by decide)
    have hall : digits (b :: rest) = true := by
      rw [digits, all_eq_true.mpr hd]
      rfl
    rw [parseI64, if_neg hminus, if_neg hplus, if_pos hall]

theorem decimal_ne_nil (n : ℕ) : decimal n ≠ [] :=
  length_pos_iff.mp (decimal_length_pos n)

variable {n status time : ℤ} {floor : Option ℤ}

/-- The floor is read back from the text it is stored as. -/
theorem parseI64_decimalInt (h0 : minI64 ≤ n) (h1 : n ≤ maxI64) :
    parseI64 (decimalInt n) = some n := by
  cases n with
  | ofNat n =>
    rw [decimalInt, parseI64_digits (decimal_ne_nil n) (decimal_digits n), parseDecimal_decimal]
    exact if_pos ⟨h0,h1⟩
  | negSucc n =>
    have hdigits : digits (decimal (n+1)) = true := by
      have hne := decimal_ne_nil (n+1)
      rw [digits, all_eq_true.mpr (decimal_digits (n+1)), Bool.and_true]
      simpa using hne
    rw [decimalInt, parseI64, if_pos rfl, if_pos hdigits, parseDecimal_decimal]
    exact if_pos ⟨h0,h1⟩

variable {β : Type}

variable {store : Store β}

theorem slotFloor_of_meta {after : Store β}
    (h : tryMeta after slotFloorKey = tryMeta store slotFloorKey) :
    slotFloor after = slotFloor store := by
  rw [slotFloor, slotFloor, h]

theorem slotFloor_set (store : Store β) (h0 : minI64 ≤ n) (h1 : n ≤ maxI64) :
    slotFloor (trySetMeta store slotFloorKey (decimalInt n)) = .ok (some n) := by
  have hmeta : tryMeta (trySetMeta store slotFloorKey (decimalInt n)) slotFloorKey =
      some (decimalInt n) := by
    simp [tryMeta, trySetMeta]
  simp only [slotFloor, hmeta, parseI64_decimalInt h0 h1, if_true]

/-- A floor that was read is a number the column holds. -/
theorem slotFloor_bounds {floor : ℤ} (h : slotFloor store = .ok (some floor)) :
    minI64 ≤ floor ∧ floor ≤ maxI64 := by
  have hin : ∀ n m, inI64 n = some m → minI64 ≤ m ∧ m ≤ maxI64 := by
    intro n m hn
    rw [inI64] at hn
    split_ifs at hn with hb
    exact Option.some.inj hn ▸ hb
  have hparse : ∀ value n, parseI64 value = some n → minI64 ≤ n ∧ n ≤ maxI64 := by
    intro value n hn
    cases value with
    | nil => cases hn
    | cons sign rest =>
      rw [parseI64] at hn
      split_ifs at hn <;> exact hin _ _ hn
  rw [slotFloor] at h
  split at h
  · cases h
  · split at h
    · cases h
    · rename_i n hn
      split_ifs at h
      simp only [ok.injEq, Option.some.injEq] at h
      exact h ▸ hparse _ n hn

structure Held (store after : Store β) : Prop where
  floor : slotFloor after = slotFloor store
  claimed : store.claimedSlots ⊆ after.claimedSlots

theorem Held.refl : Held store store := ⟨rfl,List.Subset.refl _⟩

theorem Held.of_tables {after : Store β} (hm : after.metaRows = store.metaRows)
    (hc : store.claimedSlots ⊆ after.claimedSlots) : Held store after :=
  ⟨slotFloor_of_meta (by rw [tryMeta, tryMeta, hm]),hc⟩

variable {kind : RecordKind} {schedule : ScheduleRef} {id : Str}

theorem bindSchedule_tables {after : Store β}
    (h : bindSchedule store kind id schedule = .ok after) :
    after.metaRows = store.metaRows ∧ after.claimedSlots = store.claimedSlots := by
  rw [bindSchedule] at h
  split_ifs at h
  split at h
  · split_ifs at h
    cases h
    exact ⟨rfl,rfl⟩
  · cases h
    exact ⟨rfl,rfl⟩

variable {len : β → ℕ} {subject : Str} {message : β}

theorem writeRecord_tables {after : Store β} {slot : Str}
    (h : writeRecord len store kind id subject slot status time message = .ok after) :
    after.metaRows = store.metaRows ∧ after.claimedSlots = store.claimedSlots := by
  rw [writeRecord] at h
  split_ifs at h
  all_goals
    cases h
    exact ⟨rfl,rfl⟩

/-- A successful claim names a fire time that was free and takes it. -/
theorem claimScheduled_ok {after : Store β} {taken : Bool}
    (h : claimScheduled len store kind id subject status time message schedule =
      .ok (after,taken)) :
    Held store after ∧ (taken = true → belowFloor store schedule.scheduledFor = .ok false ∧
      (⟨kind,subject,schedule.scheduledFor⟩ : ClaimedSlot) ∉ store.claimedSlots ∧
      ⟨kind,subject,schedule.scheduledFor⟩ ∈ after.claimedSlots) := by
  rw [claimScheduled] at h
  split at h
  · cases h
  split at h
  · cases h
  · cases h
    exact ⟨Held.refl,by simp⟩
  · rename_i hbelow
    split at h
    · cases h
      exact ⟨Held.refl,by simp⟩
    · rename_i hmem
      split at h
      · cases h
      · rename_i bound hbound
        obtain ⟨hmeta,hclaimed⟩ := bindSchedule_tables hbound
        rw [withRecord] at h
        split_ifs at h
        simp only [ok.injEq, Prod.mk.injEq] at h
        obtain ⟨rfl,rfl⟩ := h
        refine ⟨Held.of_tables hmeta ?_,fun _ => ⟨hbelow,hmem,?_⟩⟩
        · rw [hclaimed]
          exact subset_append_left _ _
        · rw [hclaimed]
          exact mem_append_right _ (mem_singleton_self _)

/-- The floor of `after` is at least the floor of `store`, and both can be read. -/
def FloorRises (store after : Store β) : Prop :=
  ∃ floor floor', slotFloor store = .ok floor ∧ slotFloor after = .ok floor' ∧
    ∀ f ∈ floor, ∃ f' ∈ floor', f ≤ f'

theorem FloorRises.refl (h : slotFloor store = .ok floor) :
    FloorRises store store := ⟨floor,floor,h,h,fun f hf => ⟨f,hf,le_refl f⟩⟩

theorem FloorRises.trans {a b d : Store β} (hab : FloorRises a b) (hbd : FloorRises b d) :
    FloorRises a d := by
  obtain ⟨fa,fb,ha,hb,hle⟩ := hab
  obtain ⟨fb',fd,hb',hd,hle'⟩ := hbd
  obtain rfl : fb = fb' := ok.inj (hb.symm.trans hb')
  refine ⟨fa,fd,ha,hd,fun f hf => ?_⟩
  obtain ⟨g,hg,hfg⟩ := hle f hf
  obtain ⟨k,hk,hgk⟩ := hle' g hg
  exact ⟨k,hk,hfg.trans hgk⟩

variable {strftime : Str → Option ℤ}

/-- A pruning raises the floor over every claim that it drops. -/
theorem tryPrune_ok {after : Store β} {now : Int64} (h : tryPrune strftime store now = .ok after) :
    FloorRises store after ∧ ∃ floor, slotFloor after = .ok (some floor) ∧
      ∀ claimed ∈ store.claimedSlots, claimed ∈ after.claimedSlots ∨
        ∃ seconds, strftime claimed.slot = some seconds ∧ seconds < floor := by
  rw [tryPrune] at h
  split at h
  · cases h
  · rename_i floor hfloor
    simp only [ok.injEq] at h
    subst h
    have hlow : minI64 ≤ max (retentionStart now) (floor.getD minI64) :=
      le_max_of_le_left (le_max_left _ _)
    have hhigh : max (retentionStart now) (floor.getD minI64) ≤ maxI64 := by
      have hnow := Int64.toInt_lt now
      have hget : floor.getD minI64 ≤ maxI64 := by
        cases floor with
        | none => decide
        | some f => exact (slotFloor_bounds hfloor).2
      apply max_le _ hget
      apply max_le (by decide)
      simp only [maxI64, historySeconds]
      omega
    have hafter := slotFloor_set store hlow hhigh
    refine ⟨⟨floor,_,hfloor,hafter,?_⟩,_,hafter,?_⟩
    · intro f hf
      refine ⟨_,rfl,?_⟩
      rw [Option.mem_def.mp hf]
      exact le_max_right _ _
    · intro claimed hc
      by_cases hold : (strftime claimed.slot).any
          fun seconds => decide (seconds < max (retentionStart now) (floor.getD minI64))
      · right
        obtain ⟨seconds,hs,hlt⟩ := (Option.any_eq_true _ _).mp hold
        exact ⟨seconds,hs,of_decide_eq_true hlt⟩
      · left
        exact mem_filter.mpr ⟨hc,by simpa using hold⟩

/-- Every call but a pruning keeps the floor and the claims. -/
theorem step_held (len : β → ℕ) (strftime : Str → Option ℤ) (store : Store β) {op : Op β}
    (h : ∀ now, op ≠ .prune now) : Held store (step len strftime store op) := by
  have hkept : ∀ result : Except StoreError (Store β),
      (∀ after, result = .ok after → Held store after) → Held store (kept store result) := by
    intro result hr
    cases result with
    | error e => exact Held.refl
    | ok after => exact hr after rfl
  have hwrite : ∀ after : Store β, after.metaRows = store.metaRows ∧
      after.claimedSlots = store.claimedSlots → Held store after :=
    fun after h => Held.of_tables h.1 (h.2 ▸ List.Subset.refl _)
  cases op with
  | claimScheduled kind id subject status time message schedule =>
    apply hkept
    intro after ha
    cases hc : claimScheduled len store kind id subject status time message schedule with
    | error e =>
      rw [hc] at ha
      cases ha
    | ok result =>
      obtain ⟨written,taken⟩ := result
      rw [hc] at ha
      cases ha
      exact (claimScheduled_ok hc).1
  | hasSlot kind subject slot => exact Held.refl
  | put kind id subject slot status time message =>
    exact hkept _ fun after ha => hwrite after (writeRecord_tables ha)
  | putScheduledRecord kind id subject status time message schedule =>
    apply hkept
    intro after ha
    rw [putScheduledRecord] at ha
    split at ha
    · cases ha
    · rename_i bound hb
      have hbound := bindSchedule_tables hb
      have hwritten := writeRecord_tables ha
      exact hwrite after ⟨hwritten.1.trans hbound.1,hwritten.2.trans hbound.2⟩
  | remove kind id => exact hwrite _ ⟨rfl,rfl⟩
  | setCheckpoint checkpoint value =>
    refine ⟨slotFloor_of_meta ?_,List.Subset.refl _⟩
    have hkey : (slotFloorKey == checkpoint.key) = false := by
      cases checkpoint with
      | cron | backup => decide +kernel
    have hne : slotFloorKey ≠ checkpoint.key := by simpa using hkey
    have hlookup : ∀ rows : List (Str × Str),
        (rows.filter fun row => row.1 != checkpoint.key).lookup slotFloorKey =
          rows.lookup slotFloorKey := by
      intro rows
      induction rows with
      | nil => rfl
      | cons row rows ih =>
        by_cases hrow : row.1 = checkpoint.key
        · have hmiss : (slotFloorKey == row.1) = false := hrow ▸ hkey
          rw [filter_cons_of_neg (by simp [hrow]), ih, lookup_cons, hmiss]
        · rw [filter_cons_of_pos (by simpa using hrow), lookup_cons, lookup_cons, ih]
    rw [tryMeta, tryMeta]
    show List.lookup slotFloorKey (_ :: _) = _
    rw [lookup_cons, hkey, hlookup]
  | prune now => exact absurd rfl (h now)
  | reopen => exact Held.of_tables rfl (subset_append_left _ _)

def claims (len : β → ℕ) (store : Store β) : Op β → List ClaimedSlot
  | .claimScheduled kind id subject status time message schedule =>
    match claimScheduled len store kind id subject status time message schedule with
    | .ok (_,true) => [⟨kind,subject,schedule.scheduledFor⟩]
    | _ => []
  | _ => []

structure World (β : Type) where
  store : Store β
  claimed : List ClaimedSlot

def advance (len : β → ℕ) (strftime : Str → Option ℤ) (w : World β) (op : Op β) : World β where
  store := step len strftime w.store op
  claimed := w.claimed ++ claims len w.store op

def after (len : β → ℕ) (strftime : Str → Option ℤ) (ops : List (Op β)) : World β :=
  run (advance len strftime) ⟨emptyStore,[]⟩ ops

/-- A claim of the fire time will be refused. -/
def Covered (store : Store β) (kind : RecordKind) (subject : Str) (t : FireTime) : Prop :=
  (⟨kind,subject,t.slot⟩ : ClaimedSlot) ∈ store.claimedSlots ∨
    ∃ floor, slotFloor store = .ok (some floor) ∧ t.seconds < floor

variable {t : FireTime}

theorem Covered.refused {written : Store β} (hc : Covered store kind subject t)
    (ht : schedule.scheduledFor = t.slot) :
    claimScheduled len store kind id subject status time message schedule ≠ .ok (written,true) := by
  intro h
  obtain ⟨hbelow,hfree,_⟩ := (claimScheduled_ok h).2 rfl
  rw [ht] at hbelow hfree
  rcases hc with hmem | ⟨floor,hfloor,hlt⟩
  · exact hfree hmem
  · simp [belowFloor, t.timestamp_slot, hfloor, hlt] at hbelow

theorem Covered.step (hs : ReadsFireTimes strftime) (op : Op β) (h : Covered store kind subject t) :
    Covered (step len strftime store op) kind subject t := by
  by_cases hop : ∃ now, op = .prune now
  · obtain ⟨now,rfl⟩ := hop
    show Covered (kept store (tryPrune strftime store now)) kind subject t
    cases hp : tryPrune strftime store now with
    | error e => exact h
    | ok pruned =>
      obtain ⟨⟨floor,floor',hfloor,hfloor',hle⟩,raised,hraised,hcovers⟩ := tryPrune_ok hp
      rcases h with hmem | ⟨f,hf,hlt⟩
      · rcases hcovers _ hmem with hstays | ⟨seconds,hseconds,hlow⟩
        · exact .inl hstays
        · rw [hs t, Option.some.injEq] at hseconds
          exact .inr ⟨raised,hraised,hseconds ▸ hlow⟩
      · obtain rfl : floor = some f := ok.inj (hfloor.symm.trans hf)
        obtain ⟨f',hf',hff'⟩ := hle f rfl
        exact .inr ⟨f',hfloor'.trans (by rw [Option.mem_def.mp hf']),lt_of_lt_of_le hlt hff'⟩
  · have hheld := step_held len strftime store fun now h => hop ⟨now,h⟩
    rcases h with hmem | ⟨f,hf,hlt⟩
    · exact .inl (hheld.claimed hmem)
    · exact .inr ⟨f,hheld.floor.trans hf,hlt⟩

/-- The floor can be read after every call, and no call lowers it. -/
theorem step_floor (len : β → ℕ) (strftime : Str → Option ℤ)
    (h : slotFloor store = .ok floor) {op : Op β} :
    FloorRises store (step len strftime store op) := by
  by_cases hop : ∃ now, op = .prune now
  · obtain ⟨now,rfl⟩ := hop
    show FloorRises store (kept store (tryPrune strftime store now))
    cases hp : tryPrune strftime store now with
    | error e => exact FloorRises.refl h
    | ok pruned => exact (tryPrune_ok hp).1
  · have hheld := step_held len strftime store fun now h => hop ⟨now,h⟩
    exact ⟨floor,floor,h,hheld.floor.trans h,fun f hf => ⟨f,hf,le_refl f⟩⟩

/-- Every claim made is covered, and no fire time was claimed twice. -/
structure Accounted (w : World β) : Prop where
  floor : ∃ floor, slotFloor w.store = .ok floor
  covered : ∀ kind subject (t : FireTime), (⟨kind,subject,t.slot⟩ : ClaimedSlot) ∈ w.claimed →
    Covered w.store kind subject t
  once : ∀ kind subject (t : FireTime), w.claimed.count ⟨kind,subject,t.slot⟩ ≤ 1

variable {op : Op β}

theorem mem_claims (h : (⟨kind,subject,t.slot⟩ : ClaimedSlot) ∈ claims len store op) :
    ∃ id status time message schedule written,
      op = .claimScheduled kind id subject status time message schedule ∧
      t.slot = schedule.scheduledFor ∧
      claimScheduled len store kind id subject status time message schedule =
        .ok (written,true) := by
  cases op with
  | claimScheduled kind id subject status time message schedule =>
    rw [claims] at h
    split at h
    · rename_i written hc
      obtain ⟨rfl,rfl,ht⟩ := ClaimedSlot.mk.inj (mem_singleton.mp h)
      exact ⟨id,status,time,message,schedule,written,rfl,ht,hc⟩
    · cases h
  | _ => cases h

theorem claims_length (len : β → ℕ) :
    (claims len store op).length ≤ 1 := by
  cases op with
  | claimScheduled kind id subject status time message schedule =>
    rw [claims]
    split
    · exact le_refl 1
    · exact Nat.zero_le 1
  | _ => exact Nat.zero_le 1

theorem claims_free (h : (⟨kind,subject,t.slot⟩ : ClaimedSlot) ∈ claims len store op) :
    ¬ Covered store kind subject t := by
  obtain ⟨id,status,time,message,schedule,written,rfl,ht,hc⟩ := mem_claims h
  exact fun hcovered => hcovered.refused ht.symm hc

theorem claims_covered (len : β → ℕ) (strftime : Str → Option ℤ)
    (h : (⟨kind,subject,t.slot⟩ : ClaimedSlot) ∈ claims len store op) :
    Covered (step len strftime store op) kind subject t := by
  obtain ⟨id,status,time,message,schedule,written,rfl,ht,hc⟩ := mem_claims h
  left
  rw [ht, step, hc]
  exact ((claimScheduled_ok hc).2 rfl).2.2

theorem Accounted.advance (hs : ReadsFireTimes strftime) {w : World β}
    (h : Accounted w) (op : Op β) : Accounted (advance len strftime w op) := by
  obtain ⟨floor,hfloor⟩ := h.floor
  refine ⟨?_,?_,?_⟩
  · obtain ⟨_,floor',_,hfloor',_⟩ := step_floor len strftime hfloor
    exact ⟨floor',hfloor'⟩
  · intro kind subject t hm
    rcases mem_append.mp hm with hold | hnew
    · exact (h.covered kind subject t hold).step hs op
    · exact claims_covered len strftime hnew
  · intro kind subject t
    show (w.claimed ++ claims len w.store op).count _ ≤ 1
    rw [count_append]
    by_cases hm : (⟨kind,subject,t.slot⟩ : ClaimedSlot) ∈ claims len w.store op
    · -- a claim that is made now was never made before
      have hold : (⟨kind,subject,t.slot⟩ : ClaimedSlot) ∉ w.claimed := fun hold =>
        claims_free hm (h.covered kind subject t hold)
      rw [count_eq_zero.mpr hold, Nat.zero_add]
      exact count_le_length.trans (claims_length len)
    · rw [count_eq_zero.mpr hm]
      exact h.once kind subject t

theorem accounted (len : β → ℕ) (strftime : Str → Option ℤ) (hs : ReadsFireTimes strftime)
    {ops : List (Op β)} : Accounted (after len strftime ops) := by
  refine run_invariant (SlotClaims.advance len strftime) Accounted ?_
    (fun w op h => h.advance hs op) ops
  exact ⟨⟨none,rfl⟩,by simp,by simp⟩

theorem floor_rises (len : β → ℕ) (strftime : Str → Option ℤ) (hs : ReadsFireTimes strftime)
    {before rest : List (Op β)} :
    FloorRises (after len strftime before).store (after len strftime (before ++ rest)).store := by
  induction rest using List.reverseRecOn with
  | nil =>
    obtain ⟨floor,h⟩ := (accounted len strftime hs).floor
    rw [append_nil]
    exact FloorRises.refl h
  | append_singleton rest op ih =>
    obtain ⟨floor,h⟩ := (accounted len strftime hs).floor
    have hrun : after len strftime (before ++ (rest ++ [op])) =
        SlotClaims.advance len strftime (after len strftime (before ++ rest)) op := by
      rw [← append_assoc, after, run_concat]
      rfl
    rw [hrun]
    exact ih.trans (step_floor len strftime h)

/-- Over the whole life of the store every fire time of a subject is claimed at most once,
and the floor never goes down. -/
theorem slot_claimed_once (len : β → ℕ) (strftime : Str → Option ℤ)
    (hs : ReadsFireTimes strftime) (ops : List (Op β)) :
    (∀ kind subject (t : FireTime),
      (after len strftime ops).claimed.count ⟨kind,subject,t.slot⟩ ≤ 1) ∧
    ∀ before, before <+: ops →
      FloorRises (after len strftime before).store (after len strftime ops).store := by
  constructor
  · exact (accounted len strftime hs).once
  · rintro before ⟨rest,rfl⟩
    exact floor_rises len strftime hs

def sampleTime : FireTime := ⟨1790000000,by decide,by decide⟩

def sampleClaim (id : String) : Op Unit :=
  .claimScheduled .cronRun (str id) (str "job") 1 sampleTime.seconds ()
    ⟨⟨str "01a0cdb5-3500-7000-8000-000000000001",List.replicate 64 (byte 'a'),0⟩,sampleTime.slot,1⟩

def sampleOps : List (Op Unit) :=
  [sampleClaim "first", .prune 1797776001, sampleClaim "second", .prune 0, .reopen,
    sampleClaim "third"]

theorem slot_claimed_once_pruned :
    (after (fun _ => 0) timestamp sampleOps).claimed =
      [⟨.cronRun,str "job",sampleTime.slot⟩] ∧
    (after (fun _ => 0) timestamp sampleOps).claimed.count
      ⟨.cronRun,str "job",sampleTime.slot⟩ ≤ 1 :=
  ⟨by decide +kernel,
    (slot_claimed_once (fun _ => 0) timestamp FireTime.timestamp_slot sampleOps).1 _ _ _⟩

end Permanu.SlotClaims
