import PermanuAgent.CronScheduler

/-!
# The ledger of issued ids

Every id the scheduler works with was given out once, for one job and one use. The
chains, the records, the dispatched attempts and the reservations of a state agree with
that, whatever happens.
-/

set_option autoImplicit false

namespace Permanu.CronScheduler
open ByteText PlanText JsonRoundTrip List
open ScheduleBinding OpsStore CronJobs
open AdmissionOpen (StoreError)

variable (env : Env)

def Issued (grants : List Grant) (id cronId : Str) (use : Use) : Prop :=
  ∃ n : ℕ, grants[n]? = some ⟨cronId,use⟩ ∧ env.newId n = id

variable {w : World} {width : ℕ} {seconds : ℤ}

section Ids
variable {env} {grants later : List Grant} {id cronId other : Str} {use use' : Use}

theorem Issued.mono (h : Issued env grants id cronId use) (hlater : grants <+: later) :
    Issued env later id cronId use := by
  obtain ⟨n,hn,hid⟩ := h
  obtain ⟨rest,rfl⟩ := hlater
  refine ⟨n,?_,hid⟩
  rw [getElem?_append_left (List.getElem?_eq_some_iff.mp hn).1, hn]

theorem Issued.unique (h : Issued env grants id cronId use) (h' : Issued env grants id other use') :
    cronId = other ∧ use = use' := by
  obtain ⟨n,hn,hid⟩ := h
  obtain ⟨m,hm,hid'⟩ := h'
  have hnm : n = m := env.newId_injective (hid.trans hid'.symm)
  subst hnm
  rw [hn, Option.some.injEq, Grant.mk.injEq] at hm
  exact hm

theorem fresh_not_issued : ¬ Issued env w.issued (fresh env w) cronId use := by
  rintro ⟨n,hn,hid⟩
  have hlength : n = w.issued.length := env.newId_injective hid
  rw [hlength] at hn
  simp at hn

theorem issued_fresh :
    Issued env (w.issue cronId use).issued (fresh env w) cronId use :=
  ⟨w.issued.length,by simp [World.issue],rfl⟩

theorem issue_grows :
    w.issued <+: (w.issue cronId use).issued := prefix_append _ _

end Ids

theorem manualSlot_injective : Function.Injective manualSlot := fun _ _ h => append_cancel_left h

theorem m_not_mem_padded {n : ℕ} : byte 'm' ∉ padded width n := by
  intro h
  rw [padded, List.leftpad, mem_append, mem_replicate] at h
  rcases h with ⟨_,h⟩ | h
  · exact absurd h (by decide)
  · exact absurd (decimal_digits n _ h) (by decide)

theorem m_not_mem_paddedInt {n : ℤ} : byte 'm' ∉ paddedInt width n := by
  cases n with
  | ofNat n => exact m_not_mem_padded
  | negSucc n =>
    rw [paddedInt, mem_cons, not_or]
    exact ⟨by decide,m_not_mem_padded⟩

theorem m_not_mem_formatTimestamp : byte 'm' ∉ formatTimestamp seconds := by
  simp only [formatTimestamp, mem_append, mem_singleton, not_or]
  refine ⟨⟨⟨⟨⟨⟨⟨⟨⟨⟨⟨?_,?_⟩,?_⟩,?_⟩,?_⟩,?_⟩,?_⟩,?_⟩,?_⟩,?_⟩,?_⟩,?_⟩
  all_goals first | exact m_not_mem_paddedInt | decide

theorem formatTimestamp_ne_manualSlot (planId : Str) :
    formatTimestamp seconds ≠ manualSlot planId := by
  intro h
  apply m_not_mem_formatTimestamp
  rw [h, manualSlot, mem_append]
  exact .inl (by decide)

theorem nil_ne_manualSlot (planId : Str) : [] ≠ manualSlot planId := fun h =>
  absurd (append_eq_nil_iff.mp h.symm).1 (by decide)

theorem slotOf_ne_manualSlot {run : CronRun} (planId : Str) : slotOf run ≠ manualSlot planId := by
  unfold slotOf
  cases run.scheduledFor with
  | none => exact nil_ne_manualSlot planId
  | some time => exact formatTimestamp_ne_manualSlot planId

inductive RowUse (grants : List Grant) (row : Row CronRun) : Prop
  | manual (issued : Issued env grants row.id row.subject (.manual row.body.planId))
      (trigger : row.body.trigger = .manual) (slot : row.slot = manualSlot row.body.planId)
  | attempt (issued : Issued env grants row.id row.subject .attempt)
      (trigger : row.body.trigger ≠ .manual) (slot : ∀ planId, row.slot ≠ manualSlot planId)
  | closed (use : Use) (issued : Issued env grants row.id row.subject use)
      (final : row.body.status.isFinal = true) (slot : ∀ planId, row.slot ≠ manualSlot planId)

structure RowOk (grants : List Grant) (row : Row CronRun) : Prop where
  kind : row.kind = .cronRun
  valid : validRow env row = true
  use : RowUse env grants row

def rowOf (seq : ℕ) (time : ℤ) (run : CronRun) (slot : Str) : Row CronRun :=
  ⟨seq,.cronRun,run.id,run.cronId,slot,run.status.code,time,run⟩

structure Put (old new : Store CronRun) (run : CronRun) (slot : Str) : Prop where
  small : env.len run ≤ maxRecordBytes
  rows : ∃ seq time, ∀ row, row ∈ new.records ↔
    row = rowOf seq time run slot ∨ row ∈ old.records ∧ row.id ≠ run.id
  ids : (new.records.map Row.id).Nodup
  reservations : new.manualReservations = old.manualReservations

section Rows
variable {env} {grants later : List Grant} {row : Row CronRun} {run : CronRun} {slot : Str}
  {old new bound : Store CronRun} {time : ℤ} {schedule : ScheduleRef}

theorem RowUse.mono (h : RowUse env grants row) (hlater : grants <+: later) :
    RowUse env later row := by
  cases h with
  | manual issued trigger slot => exact .manual (issued.mono hlater) trigger slot
  | attempt issued trigger slot => exact .attempt (issued.mono hlater) trigger slot
  | closed use issued final slot => exact .closed use (issued.mono hlater) final slot

theorem RowOk.mono (h : RowOk env grants row) (hlater : grants <+: later) : RowOk env later row :=
  ⟨h.kind,h.valid,h.use.mono hlater⟩

theorem RowOk.id_eq (h : RowOk env grants row) : row.body.id = row.id := by
  have hvalid := h.valid
  simp only [validRow, Bool.and_eq_true, beq_iff_eq] at hvalid
  exact hvalid.1.1.2

theorem RowOk.cronId_eq (h : RowOk env grants row) : row.body.cronId = row.subject := by
  have hvalid := h.valid
  simp only [validRow, Bool.and_eq_true, beq_iff_eq] at hvalid
  exact hvalid.1.2

/-- A record in the slot of a manual run is the one of a manual run of that plan. -/
theorem RowOk.manual_of_slot (h : RowOk env grants row) {planId : Str}
    (hslot : row.slot = manualSlot planId) :
    Issued env grants row.id row.subject (.manual row.body.planId) ∧ row.body.trigger = .manual ∧
      row.body.planId = planId := by
  cases h.use with
  | manual issued trigger slot =>
    exact ⟨issued,trigger,manualSlot_injective (slot.symm.trans hslot)⟩
  | attempt _ _ slot | closed _ _ _ slot => exact absurd hslot (slot planId)

theorem rowOf_ok {seq : ℕ} (hsmall : env.len run ≤ maxRecordBytes)
    (huse : RowUse env grants (rowOf seq time run slot)) :
    RowOk env grants (rowOf seq time run slot) := by
  refine ⟨rfl,?_,huse⟩
  simp [validRow, rowOf, hsmall]

theorem sameRecord_cronRun (hkind : row.kind = .cronRun) (id : Str) :
    sameRecord .cronRun id row = (row.id == id) := by
  simp [sameRecord, hkind]

/-- Rows with different ids stay; the one with the id of the run is replaced or added. -/
theorem writeRecord_put (hkind : ∀ row ∈ old.records, row.kind = .cronRun)
    (hids : (old.records.map Row.id).Nodup)
   
    (h : writeRecord env.len old .cronRun run.id run.cronId slot run.status.code time run =
      .ok new) :
    Put env old new run slot := by
  unfold writeRecord at h
  split at h
  · cases h
  next hsmall =>
  split at h
  next hany =>
    obtain ⟨found,hfound,hsame⟩ := any_eq_true.mp hany
    rw [sameRecord_cronRun (hkind found hfound), beq_iff_eq] at hsame
    obtain rfl : _ = new := Except.ok.inj h
    refine ⟨Nat.le_of_not_lt hsmall,⟨found.seq,time,?_⟩,?_,rfl⟩
    · intro row
      rw [mem_map]
      constructor
      · rintro ⟨old,hold,rfl⟩
        rw [sameRecord_cronRun (hkind old hold)]
        by_cases hid : old.id = run.id
        · have hfoundEq : old = found :=
            inj_on_of_nodup_map hids hold hfound (hid.trans hsame.symm)
          rw [if_pos (by simpa using hid), hfoundEq]
          exact .inl rfl
        · rw [if_neg (by simpa using hid)]
          exact .inr ⟨hold,hid⟩
      · rintro (rfl | ⟨hrow,hid⟩)
        · refine ⟨found,hfound,?_⟩
          rw [sameRecord_cronRun (hkind found hfound), if_pos (by simpa using hsame)]
          rfl
        · refine ⟨row,hrow,?_⟩
          rw [sameRecord_cronRun (hkind row hrow), if_neg (by simpa using hid)]
    · have hmap : ∀ rows : List (Row CronRun), (∀ row ∈ rows, row.kind = .cronRun) →
          (rows.map fun row => if sameRecord .cronRun run.id row then
            (⟨row.seq,.cronRun,run.id,run.cronId,slot,run.status.code,time,run⟩ : Row CronRun)
            else row).map Row.id = rows.map Row.id := by
        intro rows hrows
        rw [map_map]
        apply map_congr_left
        intro row hrow
        rw [Function.comp_apply, sameRecord_cronRun (hrows row hrow)]
        split_ifs with hid
        · exact (by simpa using hid : row.id = run.id).symm
        · rfl
      rw [hmap _ hkind]
      exact hids
  next hany =>
    have hnew : ∀ row ∈ old.records, row.id ≠ run.id := by
      intro row hrow hid
      apply hany
      rw [any_eq_true]
      exact ⟨row,hrow,by rw [sameRecord_cronRun (hkind row hrow), beq_iff_eq]; exact hid⟩
    obtain rfl : _ = new := Except.ok.inj h
    refine ⟨Nat.le_of_not_lt hsmall,⟨old.lastSeq+1,time,?_⟩,?_,rfl⟩
    · intro row
      rw [mem_append, mem_singleton]
      constructor
      · rintro (hrow | rfl)
        · exact .inr ⟨hrow,hnew row hrow⟩
        · exact .inl rfl
      · rintro (rfl | ⟨hrow,_⟩)
        · exact .inr rfl
        · exact .inl hrow
    · rw [map_append, nodup_append]
      refine ⟨hids,nodup_singleton _,?_⟩
      intro a ha b hb
      rw [map_singleton, mem_singleton] at hb
      obtain ⟨row,hrow,rfl⟩ := mem_map.mp ha
      rw [hb]
      exact hnew row hrow

theorem bindSchedule_records (h : bindSchedule old .cronRun run.id schedule = .ok bound) :
    bound.records = old.records ∧ bound.manualReservations = old.manualReservations := by
  unfold bindSchedule at h
  simp only at h
  split at h
  · cases h
  split at h
  · split at h
    · cases h
      exact ⟨rfl,rfl⟩
    · cases h
  · cases h
    exact ⟨rfl,rfl⟩

theorem putScheduledRecord_put (hkind : ∀ row ∈ old.records, row.kind = .cronRun)
    (hids : (old.records.map Row.id).Nodup)
    (h : putScheduledRecord env.len old .cronRun run.id run.cronId run.status.code time run
      schedule =
      .ok new) : Put env old new run schedule.scheduledFor := by
  unfold putScheduledRecord at h
  split at h
  · cases h
  next bound hbound =>
  obtain ⟨hrecords,hreservations⟩ := bindSchedule_records hbound
  have hput := writeRecord_put (by rwa [hrecords]) (by rwa [hrecords]) h
  have hrows := hput.rows
  rw [hrecords] at hrows
  exact ⟨hput.small,hrows,hput.ids,hput.reservations.trans hreservations⟩

theorem claimScheduled_put (hkind : ∀ row ∈ old.records, row.kind = .cronRun)
    (hids : (old.records.map Row.id).Nodup)
    (h : claimScheduled env.len old .cronRun run.id run.cronId run.status.code time run schedule =
      .ok (new,true)) : Put env old new run schedule.scheduledFor := by
  unfold claimScheduled at h
  simp only at h
  split at h
  · cases h
  next hsmall =>
  split at h
  · cases h
  · cases h
  split at h
  · cases h
  split at h
  · cases h
  next bound hbound =>
  obtain ⟨hrecords,hreservations⟩ := bindSchedule_records hbound
  unfold withRecord at h
  split at h
  · cases h
  next hnone =>
  have hwrite : writeRecord env.len bound .cronRun run.id run.cronId schedule.scheduledFor
      run.status.code time run = .ok new := by
    unfold writeRecord
    rw [if_neg hsmall, if_neg hnone]
    cases h
    rfl
  have hput := writeRecord_put (by rwa [hrecords]) (by rwa [hrecords]) hwrite
  have hrows := hput.rows
  rw [hrecords] at hrows
  exact ⟨hput.small,hrows,hput.ids,hput.reservations.trans hreservations⟩

end Rows

inductive ChainUse (grants : List Grant) (id : Str) (chain : Chain) : Prop
  | attempt (issued : Issued env grants id chain.cronId .attempt)
      (run : Issued env grants chain.run.id chain.cronId .attempt)
      (trigger : chain.run.trigger ≠ .manual)
  | manual (issued : Issued env grants id chain.cronId (.manual chain.run.planId))
      (run : chain.run.id = id)
      (trigger : chain.run.trigger = .manual) (waiting : chain.waiting = false)
      (retryAt : chain.retryAt = none)

structure ChainOk (grants : List Grant) (id : Str) (chain : Chain) : Prop where
  cronId : chain.run.cronId = chain.cronId
  use : ChainUse env grants id chain

structure CallOk (grants : List Grant) (call : Call) : Prop where
  cronId : call.run.cronId = call.job.cronId
  chain : Issued env grants call.chainId call.job.cronId .attempt
  run : Issued env grants call.run.id call.job.cronId .attempt
  trigger : call.run.trigger ≠ .manual

structure Owned (w : World) : Prop where
  jobs : ∀ cronId job, (cronId,job) ∈ w.state.jobs.entries → job.cronId = cronId
  chains : ∀ id chain, (id,chain) ∈ w.state.chains.entries → ChainOk env w.issued id chain
  queued : ∀ cronId id, (cronId,id) ∈ w.state.queued.entries →
    Issued env w.issued id cronId .attempt
  slots : ∀ id ∈ w.state.slots, ∃ cronId, Issued env w.issued id cronId .attempt
  calls : ∀ call ∈ w.calls, CallOk env w.issued call
  rows : ∀ row ∈ w.ops.records, RowOk env w.issued row
  ids : (w.ops.records.map Row.id).Nodup
  reservations : ∀ planId r, (planId,r) ∈ w.state.manualReservations.entries →
    r.planId = planId ∧ Issued env w.issued r.runId r.cronId (.manual r.planId)
  stored : ∀ r, r ∈ w.ops.manualReservations ↔ (r.planId,r) ∈ w.state.manualReservations.entries
  storedIds : (w.ops.manualReservations.map ManualCronReservation.planId).Nodup

end Permanu.CronScheduler
