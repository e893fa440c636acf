import PermanuAgent.CronLedger
import Mathlib.Logic.Relation

/-!
# The moves of the scheduler

Whatever the scheduler does is a sequence of a few moves: a chain joins the line or a
queue, starts, rests until its retry, ends, and manual runs open and close beside them.
A move carries what the code has checked before it. In a sequence that spares the queued
chains nothing that one of them waits for ends without the chain taking its place.
-/

set_option autoImplicit false

namespace Permanu.CronScheduler
open ByteText OpsStore CronJobs List OrderedMap World

variable (env : Env) (spared : Prop)

structure Background (w w' : World) : Prop where
  state : ∃ submitting, w'.state = { w.state with manualSubmitting := submitting }
  calls : w'.calls = w.calls
  issued : w.issued <+: w'.issued
  rows : ∀ row ∈ w'.ops.records, row ∈ w.ops.records ∨ RowOk env w'.issued row
  ids : (w.ops.records.map Row.id).Nodup → (w'.ops.records.map Row.id).Nodup
  reservations : w'.ops.manualReservations = w.ops.manualReservations

structure ManualRun (w : World) (run : CronRun) : Prop where
  trigger : run.trigger = .manual
  issued : Issued env w.issued run.id run.cronId (.manual run.planId)

structure SameRun (run old : CronRun) : Prop where
  id : run.id = old.id
  cronId : run.cronId = old.cronId
  trigger : run.trigger = old.trigger
  planId : run.planId = old.planId

def World.queue (w : World) (cronId id : Str) : World :=
  { w with state := { w.state with queued := w.state.queued.insert env.order cronId id } }

def World.line (w : World) (slots : List Str) : World :=
  { w with state := { w.state with slots := slots } }

def World.answered (w : World) (index : ℕ) : World := { w with calls := w.calls.eraseIdx index }

def World.store (w : World) (ops : Store CronRun) : World := { w with ops := ops }

def World.recovery (w : World) (recovering : List Str) (running : ℕ) : World :=
  { w with state := { w.state with recovering := recovering, running := running } }

def World.reserve (w : World) (r : ManualCronReservation) : World :=
  { w with
    ops := { w.ops with manualReservations := w.ops.manualReservations ++ [r] }
    state := { w.state with
      manualReservations := w.state.manualReservations.insert env.order r.planId r } }

inductive Move : World → World → Prop
  | background {w w' : World} (h : Background env w w') : Move w w'
  | started {w : World} (id : Str) (chain : Chain) (absent : w.state.chains.get? id = none)
      (ok : ChainOk env w.issued id chain) (waits : chain.waiting = true) :
      Move w ((w.setChain env id chain).pushSlot id)
  | enqueued {w : World} (id : Str) (chain : Chain) (absent : w.state.chains.get? id = none)
      (ok : ChainOk env w.issued id chain) (waits : chain.waiting = true)
      (active : 0 < activeChains w.state chain.cronId)
      (enabled : (w.state.jobs.get? chain.cronId).any JobDef.enabled = true) :
      Move w (queue env (w.setChain env id chain) chain.cronId id)
  | popped {w : World} (id : Str) (rest : List Str) (slots : w.state.slots = id :: rest) :
      Move w (line w rest)
  | launched {w : World} (id : Str) (rest : List Str) (chain : Chain) (call : Call)
      (slots : w.state.slots = id :: rest) (known : (id,chain) ∈ w.state.chains.entries)
      (waits : chain.waiting = true) (chainId : call.chainId = id)
      (job : call.job.cronId = chain.cronId) (run : SameRun call.run chain.run) :
      Move w { (line w rest).runs.setChain env id
        { chain with waiting := false, run := call.run } with calls := w.calls ++ [call] }
  | cancelled {w : World} (id : Str) (rest : List Str) (chain : Chain)
      (slots : w.state.slots = id :: rest) (known : (id,chain) ∈ w.state.chains.entries)
      (gone : w.state.jobs.get? chain.cronId = none) :
      Move w ((line w rest).dropChain id)
  | retried {w : World} (index : ℕ) (call : Call) (time : ℤ) (run : CronRun)
      (flies : w.calls[index]? = some call) (same : SameRun run call.run) :
      Move w ((answered w index).stops.updateChain env call.chainId fun chain =>
        { chain with retryAt := some time, run := run })
  | ended {w : World} (index : ℕ) (call : Call) (flies : w.calls[index]? = some call) :
      Move w (endChain call.job.cronId call.chainId (answered w index).stops)
  | held {w : World} (index : ℕ) (id : Str) : Move w ((answered w index).holds id)
  | retryDropped {w : World} (id : Str) (chain : Chain)
      (known : (id,chain) ∈ w.state.chains.entries)
      (gone : (w.state.jobs.get? chain.cronId).any JobDef.enabled = false) :
      Move w (w.dropChain id)
  | renewed {w : World} (id : Str) (chain : Chain) (run : CronRun)
      (known : (id,chain) ∈ w.state.chains.entries) (rests : chain.retryAt.isSome = true)
      (issued : Issued env w.issued run.id chain.cronId .attempt)
      (cronId : run.cronId = chain.cronId) (trigger : run.trigger ≠ .manual) :
      Move w ((w.setChain env id
        { chain with retryAt := none, waiting := true, run := run }).pushSlot id)
  | recorded {w : World} (run : CronRun) (ops : Store CronRun)
      (put : Put env w.ops ops run (manualSlot run.planId)) (manual : ManualRun env w run)
      (own : ∀ r, w.state.manualReservations.get? run.planId = some r → r.cronId = run.cronId) :
      Move w (openManual env run run.cronId
        (((store w (removeReservation run.planId ops)).unreserve run.planId).unsubmit run.planId))
  | opened {w : World} (run : CronRun) (manual : ManualRun env w run) :
      Move w (openManual env run run.cronId w)
  | settled {w : World} (run : CronRun) (manual : ManualRun env w run) :
      Move w (closeManual run.cronId run.id w)
  | renamed {w : World} (id : Str) (chain : Chain) (run : CronRun)
      (known : (id,chain) ∈ w.state.chains.entries) (same : SameRun run chain.run) :
      Move w (w.setChain env id { chain with run := run })
  | reserved {w : World} (r : ManualCronReservation)
      (absent : w.state.manualReservations.get? r.planId = none)
      (issued : Issued env w.issued r.runId r.cronId (.manual r.planId)) :
      Move w (reserve env w r)
  | lapsed {w : World} (planId : Str)
      (unawaited : spared → ∀ r, w.state.manualReservations.get? planId = some r →
        w.state.queued.get? r.cronId = none) :
      Move w (w.dropReservation planId)
  | recovered {w : World} (id : Str) (recovering : List Str) (running : ℕ)
      (unawaited : spared → ∀ chain, (id,chain) ∈ w.state.chains.entries →
        w.state.queued.get? chain.cronId = none) :
      Move w ((recovery w recovering running).dropChain id)
  | unknown {w : World} (id : Str) (chain : Chain) (recovering : List Str) (running : ℕ)
      (ok : ChainOk env w.issued id chain) :
      Move w ((recovery w recovering running).setChain env id chain)

abbrev Moves : World → World → Prop := Relation.ReflTransGen (Move env spared)

variable {grants : List Grant}

section Ownership
variable {env} {spared} {w w' : World} {id cronId planId : Str} {chain : Chain} {run : CronRun}
  {slot : Str}
  {ops : Store CronRun}

theorem SameRun.chainOk (same : SameRun run chain.run)
    (h : ChainOk env grants id chain) {waiting : Bool} {retryAt : Option ℤ}
    (hmanual : chain.run.trigger = .manual → waiting = false ∧ retryAt = none) :
    ChainOk env grants id { chain with waiting := waiting, retryAt := retryAt, run := run } := by
  refine ⟨same.cronId.trans h.cronId,?_⟩
  cases h.use with
  | attempt issued hrun trigger =>
    exact .attempt issued (same.id ▸ hrun) (same.trigger ▸ trigger)
  | manual issued hrun trigger _ _ =>
    exact .manual (same.planId ▸ issued) (same.id.trans hrun) (same.trigger.trans trigger)
      (hmanual trigger).1 (hmanual trigger).2

theorem Owned.setChain (h : Owned env w) (ok : ChainOk env w.issued id chain) :
    Owned env (w.setChain env id chain) :=
  { h with
    chains := by
      intro j other hmem
      rcases mem_insert.mp hmem with ⟨rfl,rfl⟩ | ⟨_,hold⟩
      · exact ok
      · exact h.chains j other hold }

theorem Owned.dropChain (h : Owned env w) (id : Str) : Owned env (w.dropChain id) :=
  { h with chains := fun j other hmem => h.chains j other (mem_erase.mp hmem).2 }

theorem Owned.updateChain (h : Owned env w) (change : Chain → Chain)
    (ok : ∀ chain, (id,chain) ∈ w.state.chains.entries → ChainOk env w.issued id (change chain)) :
    Owned env (w.updateChain env id change) := by
  unfold World.updateChain
  split
  · exact h
  next chain hchain => exact h.setChain (ok chain (get?_eq_some.mp hchain))

theorem Owned.pushSlot (h : Owned env w) (issued : Issued env w.issued id cronId .attempt) :
    Owned env (w.pushSlot id) :=
  { h with
    slots := by
      exact forall_mem_append.mpr ⟨h.slots,forall_mem_singleton.mpr ⟨cronId,issued⟩⟩ }

theorem Owned.line (h : Owned env w) {rest : List Str} (slots : w.state.slots = id :: rest) :
    Owned env (line w rest) :=
  { h with slots := fun j hj => h.slots j (slots ▸ mem_cons_of_mem id hj) }

theorem Owned.promote (h : Owned env w) {next : Str}
    (hnext : w.state.queued.get? cronId = some next) : Owned env (w.promote cronId next) :=
  { h.pushSlot (h.queued cronId next (get?_eq_some.mp hnext)) with
    queued := fun c q hmem => h.queued c q (mem_erase.mp hmem).2 }

theorem ChainOk.attempt_of_waiting (ok : ChainOk env grants id chain)
    (waits : chain.waiting = true) : Issued env grants id chain.cronId .attempt := by
  cases ok.use with
  | attempt issued _ _ => exact issued
  | manual _ _ _ waiting _ => rw [waits] at waiting; cases waiting

theorem endChain_cases :
    (endChain cronId id w = w.dropChain id ∧
      (0 < activeChains (w.dropChain id).state cronId ∨ w.state.queued.get? cronId = none)) ∨
    ∃ next, w.state.queued.get? cronId = some next ∧
      activeChains (w.dropChain id).state cronId = 0 ∧
      endChain cronId id w = (w.dropChain id).promote cronId next := by
  unfold endChain
  simp only
  split
  next hzero =>
    split
    next hnone => exact .inl ⟨rfl,.inr hnone⟩
    next next hnext => exact .inr ⟨next,hnext,hzero,rfl⟩
  next hactive => exact .inl ⟨rfl,.inl (Nat.pos_of_ne_zero hactive)⟩

theorem dropChain_absent (h : w.state.chains.get? id = none) : w.dropChain id = w := by
  have herase : w.state.chains.erase id = w.state.chains :=
    OrderedMap.erase_of_not_mem (get?_eq_none.mp h)
  rw [dropChain, herase]

theorem Owned.endChain (h : Owned env w) (cronId id : Str) : Owned env (endChain cronId id w) := by
  unfold CronScheduler.endChain
  simp only
  split
  · split
    · exact h.dropChain id
    next next hnext => exact (h.dropChain id).promote hnext
  · exact h.dropChain id

theorem Owned.put (h : Owned env w) (hput : Put env w.ops ops run slot)
    (huse : ∀ seq time, RowUse env w.issued (rowOf seq time run slot)) :
    Owned env (store w ops) := by
  obtain ⟨seq,time,hrows⟩ := hput.rows
  exact { h with
    rows := by
      intro row hrow
      rcases (hrows row).mp hrow with rfl | ⟨hold,_⟩
      · exact rowOf_ok hput.small (huse seq time)
      · exact h.rows row hold
    ids := hput.ids
    stored := by
      intro r
      show r ∈ ops.manualReservations ↔ _
      rw [hput.reservations]
      exact h.stored r
    storedIds := by
      show (ops.manualReservations.map _).Nodup
      rw [hput.reservations]
      exact h.storedIds }

theorem ManualRun.rowUse (manual : ManualRun env w run) (seq : ℕ) (time : ℤ) :
    RowUse env w.issued (rowOf seq time run (manualSlot run.planId)) :=
  .manual manual.issued manual.trigger rfl

theorem Owned.putManual (h : Owned env w) (hput : Put env w.ops ops run (manualSlot run.planId))
    (manual : ManualRun env w run) : Owned env (store w ops) :=
  h.put hput manual.rowUse

theorem ManualRun.chainOk (trigger : run.trigger = .manual)
    (issued : Issued env grants run.id run.cronId (.manual run.planId)) :
    ChainOk env grants run.id ⟨run.cronId,run,none,false⟩ :=
  ⟨rfl,.manual issued rfl trigger rfl rfl⟩

theorem Owned.openManual (h : Owned env w) (trigger : run.trigger = .manual)
    (issued : Issued env w.issued run.id run.cronId (.manual run.planId)) :
    Owned env (openManual env run run.cronId w) := by
  unfold CronScheduler.openManual
  split
  · exact h
  · have hruns : Owned env w.runs := { h with }
    exact hruns.setChain (ManualRun.chainOk trigger issued)

theorem Owned.giveBack (h : Owned env w) : Owned env (w.giveBack id) := by
  unfold World.giveBack
  split
  · exact { h.dropChain id with }
  · exact h

theorem Owned.closeManual (h : Owned env w) (cronId id : Str) :
    Owned env (closeManual cronId id w) := by
  unfold CronScheduler.closeManual
  simp only
  split
  · exact h.giveBack.endChain cronId id
  · exact h.giveBack

theorem Owned.dropReservation (h : Owned env w) : Owned env (w.dropReservation planId) :=
  { h with
    reservations := fun p r hmem => h.reservations p r (mem_erase.mp hmem).2
    stored := by
      intro r
      show r ∈ w.ops.manualReservations.filter _ ↔ (r.planId,r) ∈ (OrderedMap.erase _ _).entries
      rw [mem_filter, mem_erase, h.stored r, bne_iff_ne]
      exact and_comm
    storedIds := h.storedIds.sublist (filter_sublist.map _) }

theorem Owned.background (h : Owned env w) (hb : Background env w w') : Owned env w' := by
  obtain ⟨submitting,hstate⟩ := hb.state
  refine ⟨?_,?_,?_,?_,?_,?_,hb.ids h.ids,?_,?_,?_⟩
  · rw [hstate]
    exact h.jobs
  · rw [hstate]
    intro id chain hmem
    have hold := h.chains id chain hmem
    refine ⟨hold.cronId,?_⟩
    cases hold.use with
    | attempt issued run trigger =>
      exact .attempt (issued.mono hb.issued) (run.mono hb.issued) trigger
    | manual issued run trigger waiting retryAt =>
      exact .manual (issued.mono hb.issued) run trigger waiting retryAt
  · rw [hstate]
    exact fun c q hmem => (h.queued c q hmem).mono hb.issued
  · rw [hstate]
    exact fun id hid => (h.slots id hid).imp fun _ issued => issued.mono hb.issued
  · rw [hb.calls]
    intro call hcall
    have hold := h.calls call hcall
    exact ⟨hold.cronId,hold.chain.mono hb.issued,hold.run.mono hb.issued,hold.trigger⟩
  · intro row hrow
    rcases hb.rows row hrow with hold | hnew
    · exact (h.rows row hold).mono hb.issued
    · exact hnew
  · rw [hstate]
    exact fun p r hmem => ⟨(h.reservations p r hmem).1,(h.reservations p r hmem).2.mono hb.issued⟩
  · rw [hstate, hb.reservations]
    exact h.stored
  · rw [hb.reservations]
    exact h.storedIds

theorem Owned.reserve (h : Owned env w) {r : ManualCronReservation}
    (absent : w.state.manualReservations.get? r.planId = none)
    (issued : Issued env w.issued r.runId r.cronId (.manual r.planId)) :
    Owned env (reserve env w r) := by
  have hfree : ∀ other ∈ w.ops.manualReservations, other.planId ≠ r.planId :=
    fun other hother => ne_of_get?_none absent ((h.stored other).mp hother)
  exact { h with
    reservations := by
      intro p other hmem
      rcases mem_insert.mp hmem with ⟨rfl,rfl⟩ | ⟨_,hold⟩
      · exact ⟨rfl,issued⟩
      · exact h.reservations p other hold
    stored := by
      intro other
      show other ∈ w.ops.manualReservations ++ [r] ↔
        (other.planId,other) ∈ (OrderedMap.insert _ _ _ _).entries
      rw [mem_append, mem_singleton, mem_insert, ← h.stored other]
      constructor
      · rintro (hold | rfl)
        · exact .inr ⟨hfree other hold,hold⟩
        · exact .inl ⟨rfl,rfl⟩
      · rintro (⟨_,rfl⟩ | ⟨_,hold⟩)
        · exact .inr rfl
        · exact .inl hold
    storedIds := by
      show ((w.ops.manualReservations ++ [r]).map _).Nodup
      rw [map_append, nodup_append]
      refine ⟨h.storedIds,nodup_singleton _,?_⟩
      intro a ha b hb
      obtain ⟨other,hother,rfl⟩ := mem_map.mp ha
      rw [map_singleton, mem_singleton] at hb
      rw [hb]
      exact hfree other hother }

theorem Owned.answered (h : Owned env w) {index : ℕ} : Owned env (answered w index).stops :=
  { h with calls := fun call hcall => h.calls call (mem_of_mem_eraseIdx hcall) }

theorem Owned.move (h : Owned env w) (hmove : Move env spared w w') : Owned env w' := by
  cases hmove with
  | background hb => exact h.background hb
  | started id chain absent ok waits =>
    exact (h.setChain ok).pushSlot (ok.attempt_of_waiting waits)
  | enqueued id chain absent ok waits active enabled =>
    have hset := h.setChain ok
    exact { hset with
      queued := by
        intro c q hmem
        rcases mem_insert.mp hmem with ⟨rfl,rfl⟩ | ⟨_,hold⟩
        · exact ok.attempt_of_waiting waits
        · exact h.queued c q hold }
  | popped id rest slots => exact h.line slots
  | launched id rest chain call slots known waits chainId job run =>
    have hok := h.chains id chain known
    have hrun : ChainOk env w.issued id { chain with waiting := false, run := call.run } := by
      apply run.chainOk hok
      intro htrigger
      cases hok.use with
      | attempt _ _ trigger => exact absurd htrigger trigger
      | manual _ _ _ _ retryAt => exact ⟨rfl,retryAt⟩
    have hset : Owned env ((World.line w rest).runs.setChain env id
        { chain with waiting := false, run := call.run }) :=
      Owned.setChain (w := (World.line w rest).runs) { h.line slots with } hrun
    exact { hset with
      calls := by
        intro c hc
        rcases mem_append.mp hc with hold | hnew
        · exact h.calls c hold
        · rw [mem_singleton.mp hnew]
          cases hok.use with
          | attempt issued hissued trigger =>
            refine ⟨?_,?_,?_,?_⟩
            · rw [run.cronId, job, hok.cronId]
            · rw [chainId, job]
              exact issued
            · rw [run.id, job]
              exact hissued
            · rw [run.trigger]
              exact trigger
          | manual _ _ _ waiting _ => rw [waits] at waiting; cases waiting }
  | cancelled id rest chain slots known gone =>
    exact (h.line slots).dropChain id
  | retried index call time run flies same =>
    apply h.answered.updateChain
    intro chain hchain
    have hcall := h.calls call (mem_of_getElem? flies)
    have hok := h.chains call.chainId chain hchain
    cases hok.use with
    | manual issued _ _ _ _ =>
      have huse := (hcall.chain.unique issued).2
      cases huse
    | attempt issued _ _ =>
      have hjob := (hcall.chain.unique issued).1
      refine ⟨?_,.attempt issued ?_ ?_⟩
      · rw [same.cronId, hcall.cronId, hjob]
      · rw [same.id, ← hjob]
        exact hcall.run
      · rw [same.trigger]
        exact hcall.trigger
  | ended index call flies => exact h.answered.endChain _ _
  | held index id => exact { h.answered with }
  | retryDropped id chain known gone => exact h.dropChain id
  | renewed id chain run known rests issued cronId trigger =>
    have hok := h.chains id chain known
    cases hok.use with
    | attempt hid _ _ =>
      have hset : Owned env
          (w.setChain env id { chain with retryAt := none, waiting := true, run := run }) :=
        h.setChain ⟨cronId,.attempt hid issued trigger⟩
      exact hset.pushSlot hid
    | manual _ _ _ _ retryAt => rw [retryAt] at rests; cases rests
  | recorded run ops put manual own =>
    have hput := h.putManual put manual
    have hdrop : Owned env ((store w (removeReservation run.planId ops)).unreserve run.planId) :=
      hput.dropReservation
    exact Owned.openManual (w := unsubmit _ run.planId) { hdrop with } manual.trigger manual.issued
  | opened run manual => exact h.openManual manual.trigger manual.issued
  | settled run manual => exact h.closeManual _ _
  | renamed id chain run known same =>
    have hok := h.chains id chain known
    apply h.setChain
    apply same.chainOk hok
    intro htrigger
    cases hok.use with
    | attempt _ _ trigger => exact absurd htrigger trigger
    | manual _ _ _ waiting retryAt => exact ⟨waiting,retryAt⟩
  | reserved r absent issued => exact h.reserve absent issued
  | lapsed planId unawaited => exact h.dropReservation
  | recovered id recovering running unawaited =>
    exact Owned.dropChain (w := recovery w recovering running) { h with } id
  | unknown id chain recovering running ok =>
    exact Owned.setChain (w := recovery w recovering running) { h with } ok

theorem Owned.moves (h : Owned env w) (hmoves : Moves env spared w w') : Owned env w' := by
  induction hmoves with
  | refl => exact h
  | tail _ hmove ih => exact ih.move hmove

/-- What every move keeps, beside the owners, every sequence keeps. -/
theorem Moves.invariant {P : World → Prop} (hmoves : Moves env spared w w') (h : Owned env w)
    (hp : P w) (step : ∀ u v, Owned env u → P u → Move env spared u v → P v) : P w' := by
  induction hmoves with
  | refl => exact hp
  | tail hmoves hmove ih => exact step _ _ (h.moves hmoves) ih hmove

end Ownership

end Permanu.CronScheduler
