import PermanuAgent.CronCalls

/-!
# Queued runs

A job that queues keeps one chain back until no other chain or reservation of the job is
active. Every end of a chain that the scheduler itself brings about promotes the chain
kept back. What is dropped on the way does not: the retry of a paused or deleted job, a
chain of a deleted job, a reservation, a run that recovery ends.
-/

set_option autoImplicit false

namespace Permanu.CronScheduler
open ByteText PlanText PlanActions AdmissionDefinitions List OrderedMap Option World
open OpsStore CronJobs JsonValue
open RunnerRequests (RunnerFailure)

section Queues
variable {env : Env} {w w' : World} {id cronId planId : Str} {chain : Chain}
  {use : Use}

def Active (state : State) (cronId : Str) : Prop :=
  (∃ id chain, (id,chain) ∈ state.chains.entries ∧ chain.cronId = cronId ∧
      state.queued.get? cronId ≠ some id) ∨
    ∃ planId r, (planId,r) ∈ state.manualReservations.entries ∧ r.cronId = cronId

theorem activeChains_pos {state : State} : 0 < activeChains state cronId ↔ Active state cronId := by
  unfold activeChains Active
  rw [Nat.add_pos_iff_pos_or_pos, countP_pos_iff, countP_pos_iff]
  apply or_congr
  · constructor
    · rintro ⟨⟨id,chain⟩,known,h⟩
      rw [Bool.and_eq_true, beq_iff_eq, bne_iff_ne] at h
      exact ⟨id,chain,known,h⟩
    · rintro ⟨id,chain,known,h⟩
      refine ⟨(id,chain),known,?_⟩
      rw [Bool.and_eq_true, beq_iff_eq, bne_iff_ne]
      exact h
  · constructor
    · rintro ⟨⟨planId,r⟩,known,h⟩
      exact ⟨planId,r,known,by simpa using h⟩
    · rintro ⟨planId,r,known,h⟩
      exact ⟨(planId,r),known,by simpa using h⟩

/-- Chains of the job that are kept, under the same queue, keep it active. -/
theorem Active.mono {state state' : State} (h : Active state cronId)
    (hqueued : state'.queued.get? cronId = state.queued.get? cronId)
    (hchains : ∀ id chain, (id,chain) ∈ state.chains.entries → chain.cronId = cronId →
      ∃ chain', (id,chain') ∈ state'.chains.entries ∧ chain'.cronId = cronId)
    (hreservations : ∀ planId r, (planId,r) ∈ state.manualReservations.entries →
      r.cronId = cronId → (planId,r) ∈ state'.manualReservations.entries) :
    Active state' cronId := by
  rcases h with ⟨id,chain,known,howner,hfree⟩ | ⟨planId,r,known,howner⟩
  · obtain ⟨chain',known',howner'⟩ := hchains id chain known howner
    exact .inl ⟨id,chain',known',howner',by rw [hqueued]; exact hfree⟩
  · exact .inr ⟨planId,r,hreservations planId r known howner,howner⟩

structure Awaited (w : World) : Prop where
  active : ∀ cronId id, w.state.queued.get? cronId = some id → Active w.state cronId
  kept : ∀ cronId id, w.state.queued.get? cronId = some id →
    (w.state.jobs.get? cronId).any JobDef.enabled = true

theorem Owned.owner (h : Owned env w) (known : (id,chain) ∈ w.state.chains.entries)
    (issued : Issued env w.issued id cronId use) : chain.cronId = cronId := by
  cases (h.chains id chain known).use with
  | attempt hid _ _ | manual hid _ _ _ _ => exact (hid.unique issued).1

theorem ChainOk.issued {grants : List Grant} (h : ChainOk env grants id chain) :
    ∃ use, Issued env grants id chain.cronId use := by
  cases h.use with
  | attempt hid _ _ | manual hid _ _ _ _ => exact ⟨_,hid⟩

theorem Awaited.setChain (h : Awaited w)
    (hsame : ∀ old, (id,old) ∈ w.state.chains.entries → old.cronId = chain.cronId) :
    Awaited (w.setChain env id chain) := by
  refine ⟨?_,h.kept⟩
  intro c q hq
  refine (h.active c q hq).mono rfl ?_ fun _ _ known _ => known
  intro j other known howner
  by_cases hj : j = id
  · subst hj
    exact ⟨chain,mem_insert.mpr (.inl ⟨rfl,rfl⟩),(hsame other known).symm.trans howner⟩
  · exact ⟨other,mem_insert.mpr (.inr ⟨hj,known⟩),howner⟩

theorem Awaited.setNew (h : Awaited w) (absent : w.state.chains.get? id = none) :
    Awaited (w.setChain env id chain) :=
  h.setChain fun _ known => absurd rfl (ne_of_get?_none absent known)

theorem Awaited.updateChain (h : Awaited w) {change : Chain → Chain}
    (hsame : ∀ chain, (change chain).cronId = chain.cronId) :
    Awaited (w.updateChain env id change) := by
  unfold World.updateChain
  split
  · exact h
  next chain hchain =>
    apply h.setChain
    intro old known
    rw [eq_of_mem known (get?_eq_some.mp hchain), hsame]

/-- Other jobs keep their chains when one of this job goes. -/
theorem Active.dropChain {other : Str} (h : Active w.state other)
    (howner : ∀ chain, (id,chain) ∈ w.state.chains.entries → chain.cronId = cronId)
    (hne : other ≠ cronId) : Active (w.dropChain id).state other := by
  refine h.mono rfl ?_ fun _ _ known _ => known
  intro j chain known hchain
  refine ⟨chain,mem_erase.mpr ⟨?_,known⟩,hchain⟩
  rintro rfl
  exact hne (hchain.symm.trans (howner chain known))

theorem Awaited.dropChain (h : Awaited w)
    (howner : ∀ chain, (id,chain) ∈ w.state.chains.entries → chain.cronId = cronId)
    (hfree : w.state.queued.get? cronId = none) : Awaited (w.dropChain id) := by
  refine ⟨?_,h.kept⟩
  intro c q hq
  apply (h.active c q hq).dropChain howner
  rintro rfl
  rw [show w.state.queued.get? c = some q from hq] at hfree
  cases hfree

/-- The queue of a job that is not defined and enabled is empty. -/
theorem Awaited.free (h : Awaited w)
    (hgone : (w.state.jobs.get? cronId).any JobDef.enabled = false) :
    w.state.queued.get? cronId = none := by
  cases hqueued : w.state.queued.get? cronId with
  | none => rfl
  | some next =>
    have hkept := h.kept cronId next hqueued
    rw [hgone] at hkept
    cases hkept

/-- The end of a chain promotes the one that waits for it. -/
theorem awaited_endChain
    (hactive : ∀ c q, c ≠ cronId → w.state.queued.get? c = some q → Active w.state c)
    (hkept : ∀ c q, w.state.queued.get? c = some q →
      (w.state.jobs.get? c).any JobDef.enabled = true)
    (howner : ∀ chain, (id,chain) ∈ w.state.chains.entries → chain.cronId = cronId) :
    Awaited (endChain cronId id w) := by
  rcases endChain_cases with ⟨heq,hleft⟩ | ⟨next,hnext,_,heq⟩
  · rw [heq]
    refine ⟨?_,hkept⟩
    intro c q hq
    by_cases hc : c = cronId
    · subst hc
      rcases hleft with hpos | hnone
      · exact activeChains_pos.mp hpos
      · rw [show w.state.queued.get? c = some q from hq] at hnone
        cases hnone
    · exact (hactive c q hc hq).dropChain howner hc
  · rw [heq]
    have hqueued : ∀ c q, ((w.dropChain id).promote cronId next).state.queued.get? c = some q →
        c ≠ cronId ∧ w.state.queued.get? c = some q := by
      intro c q hq
      obtain ⟨hne,hmem⟩ := mem_erase.mp (get?_eq_some.mp hq)
      exact ⟨hne,get?_eq_some.mpr hmem⟩
    refine ⟨?_,fun c q hq => hkept c q (hqueued c q hq).2⟩
    intro c q hq
    obtain ⟨hne,hold⟩ := hqueued c q hq
    refine ((hactive c q hne hold).dropChain howner hne).mono ?_ ?_ fun _ _ known _ => known
    · exact get?_erase_ne hne
    · exact fun j chain known hchain => ⟨chain,known,hchain⟩

theorem Awaited.enqueued (h : Awaited w) (absent : w.state.chains.get? id = none)
    (active : 0 < activeChains w.state chain.cronId)
    (enabled : (w.state.jobs.get? chain.cronId).any JobDef.enabled = true) :
    Awaited (queue env (w.setChain env id chain) chain.cronId id) := by
  have hset : Awaited (w.setChain env id chain) := h.setNew absent
  constructor
  · intro c q hq
    by_cases hc : c = chain.cronId
    · subst hc
      rcases activeChains_pos.mp active with ⟨j,other,known,howner,_⟩ | hreserved
      · have hne := ne_of_get?_none absent known
        refine .inl ⟨j,other,mem_insert.mpr (.inr ⟨hne,known⟩),howner,?_⟩
        -- the chain kept back is the new one
        show (OrderedMap.insert _ _ _ _).get? _ ≠ some j
        rw [get?_insert_self, Ne, Option.some.injEq]
        exact hne.symm
      · exact .inr hreserved
    · have hqueued : (queue env (w.setChain env id chain) chain.cronId id).state.queued.get? c =
          w.state.queued.get? c := get?_insert_ne _ hc
      rw [hqueued] at hq
      exact (hset.active c q hq).mono hqueued (fun j other known howner => ⟨other,known,howner⟩)
        fun _ _ known _ => known
  · intro c q hq
    by_cases hc : c = chain.cronId
    · rw [hc]
      exact enabled
    · refine h.kept c q ?_
      rw [← hq]
      exact (get?_insert_ne _ hc).symm

theorem Awaited.background (h : Awaited w) (hb : Background env w w') : Awaited w' := by
  obtain ⟨submitting,hstate⟩ := hb.state
  refine ⟨?_,?_⟩
  · rw [hstate]
    exact h.active
  · rw [hstate]
    exact h.kept

structure Opens (id : Str) (w w' : World) : Prop where
  issued : w'.issued = w.issued
  jobs : w'.state.jobs = w.state.jobs
  queued : w'.state.queued = w.state.queued
  reservations : w'.state.manualReservations = w.state.manualReservations
  keeps : ∀ j chain, (j,chain) ∈ w.state.chains.entries → (j,chain) ∈ w'.state.chains.entries
  chain : ∃ chain, (id,chain) ∈ w'.state.chains.entries

theorem openManual_opens (env : Env) (run : CronRun) (cronId : Str) (w : World) :
    Opens run.id w (openManual env run cronId w) := by
  unfold openManual
  split
  next hsome =>
    obtain ⟨chain,hget⟩ := isSome_iff_exists.mp hsome
    exact ⟨rfl,rfl,rfl,rfl,fun _ _ known => known,chain,get?_eq_some.mp hget⟩
  next hnone =>
    refine ⟨rfl,rfl,rfl,rfl,?_,_,mem_insert.mpr (.inl ⟨rfl,rfl⟩)⟩
    have hnew := not_isSome_iff_eq_none.mp hnone
    exact fun j chain known => mem_insert.mpr (.inr ⟨ne_of_get?_none hnew known,known⟩)

theorem Awaited.opens (h : Awaited w) (hopens : Opens id w w') : Awaited w' := by
  constructor
  · intro c q hq
    rw [hopens.queued] at hq
    refine (h.active c q hq).mono (by rw [hopens.queued]) ?_ ?_
    · exact fun j other known howner => ⟨other,hopens.keeps j other known,howner⟩
    · rw [hopens.reservations]
      exact fun _ _ known _ => known
  · rw [hopens.queued, hopens.jobs]
    exact h.kept

theorem Awaited.dropReservation (h : Awaited w)
    (hfree : ∀ r, w.state.manualReservations.get? planId = some r →
      w.state.queued.get? r.cronId = none) : Awaited (w.dropReservation planId) := by
  refine ⟨?_,h.kept⟩
  intro c q hq
  refine (h.active c q hq).mono rfl (fun j other known howner => ⟨other,known,howner⟩) ?_
  intro p r known howner
  refine mem_erase.mpr ⟨?_,known⟩
  rintro rfl
  have hnone := hfree r (get?_eq_some.mpr known)
  rw [howner, show w.state.queued.get? c = some q from hq] at hnone
  cases hnone

/-- The chain that takes the place of a reservation is one to wait for. -/
theorem Awaited.recorded (h : Awaited w) (ho' : Owned env w')
    (issued : Issued env w'.issued id cronId (.manual planId))
    (own : ∀ r, w.state.manualReservations.get? planId = some r → r.cronId = cronId)
    {u : World} (hu : u.state.jobs = w.state.jobs ∧ u.state.queued = w.state.queued ∧
      u.state.chains = w.state.chains ∧
      u.state.manualReservations = w.state.manualReservations.erase planId)
    (hopens : Opens id u w') : Awaited w' := by
  obtain ⟨hjobs,hqueued,hchains,hreservations⟩ := hu
  have hsame : w'.state.queued = w.state.queued := hopens.queued.trans hqueued
  constructor
  · intro c q hq
    by_cases hc : c = cronId
    · subst hc
      obtain ⟨chain,known⟩ := hopens.chain
      refine .inl ⟨id,chain,known,ho'.owner known issued,?_⟩
      rw [hq, Ne, Option.some.injEq]
      rintro rfl
      -- the id of a queued chain was given out for an attempt
      have huse := ((ho'.queued _ _ (get?_eq_some.mp hq)).unique issued).2
      cases huse
    · rw [hsame] at hq
      refine (h.active c q hq).mono (by rw [hsame]) ?_ ?_
      · intro j other known howner
        exact ⟨other,hopens.keeps j other (hchains ▸ known),howner⟩
      · intro p r known howner
        rw [hopens.reservations, hreservations]
        refine mem_erase.mpr ⟨?_,known⟩
        rintro rfl
        exact hc (howner.symm.trans (own r (get?_eq_some.mpr known)))
  · rw [hsame, hopens.jobs, hjobs]
    exact h.kept

theorem Awaited.closeManual (h : Awaited w)
    (howner : ∀ chain, (id,chain) ∈ w.state.chains.entries → chain.cronId = cronId) :
    Awaited (closeManual cronId id w) := by
  have hdropped : ∀ c q, c ≠ cronId → w.state.queued.get? c = some q →
      Active (w.dropChain id).state c := fun c q hc hq => (h.active c q hq).dropChain howner hc
  unfold CronScheduler.closeManual
  by_cases hchain : (w.state.chains.get? id).isSome = true
  · rw [giveBack, if_pos hchain]
    simp only
    split
    · exact awaited_endChain hdropped h.kept fun chain known =>
        howner chain (mem_erase.mp known).2
    next hjob =>
      have hfree : w.state.queued.get? cronId = none := by
        have hgone : w.state.jobs.get? cronId = none := not_isSome_iff_eq_none.mp hjob
        apply h.free
        rw [hgone]
        rfl
      have hdrop := h.dropChain howner hfree
      exact ⟨hdrop.active,hdrop.kept⟩
  · rw [giveBack, if_neg hchain]
    simp only
    split
    · exact awaited_endChain (fun c q _ hq => h.active c q hq) h.kept howner
    · exact h

/-- What a queued chain waits for survives every move that spares it. -/
theorem Awaited.move (h : Awaited w) (ho : Owned env w)
    (hmove : Move env True w w') : Awaited w' := by
  have ho' := ho.move hmove
  cases hmove with
  | background hb => exact h.background hb
  | started id chain absent ok _ =>
    have hset : Awaited (w.setChain env id chain) := h.setNew absent
    exact ⟨hset.active,hset.kept⟩
  | enqueued id chain absent ok _ active enabled => exact h.enqueued absent active enabled
  | popped id rest slots => exact ⟨h.active,h.kept⟩
  | launched id rest chain call slots known _ chainId job run =>
    have hset : Awaited (w.setChain env id { chain with waiting := false, run := call.run }) := by
      apply h.setChain
      intro old hold
      rw [eq_of_mem hold known]
    exact ⟨hset.active,hset.kept⟩
  | cancelled id rest chain slots known gone =>
    have hdrop : Awaited (w.dropChain id) := by
      apply h.dropChain
      · exact fun other hother => by rw [eq_of_mem hother known]
      · exact h.free (by rw [gone]; rfl)
    exact ⟨hdrop.active,hdrop.kept⟩
  | retried index call time run flies same =>
    have hanswered : Awaited (answered w index).stops := ⟨h.active,h.kept⟩
    exact hanswered.updateChain fun _ => rfl
  | ended index call flies =>
    have hcall := ho.calls call (mem_of_getElem? flies)
    apply awaited_endChain
    · exact fun c q _ hq => h.active c q hq
    · exact h.kept
    · exact fun chain known => ho.owner known hcall.chain
  | held index id => exact ⟨h.active,h.kept⟩
  | retryDropped id chain known gone =>
    apply h.dropChain
    · exact fun other hother => by rw [eq_of_mem hother known]
    · exact h.free gone
  | renewed id chain run known rests issued cronId trigger =>
    have hset : Awaited
        (w.setChain env id { chain with retryAt := none, waiting := true, run := run }) := by
      apply h.setChain
      intro old hold
      rw [eq_of_mem hold known]
    exact ⟨hset.active,hset.kept⟩
  | recorded run ops put manual own =>
    have hopens := openManual_opens env run run.cronId
      (((store w (removeReservation run.planId ops)).unreserve run.planId).unsubmit run.planId)
    refine h.recorded ho' ?_ own ?_ hopens
    · rw [hopens.issued]
      exact manual.issued
    · exact ⟨rfl,rfl,rfl,rfl⟩
  | opened run manual => exact h.opens (openManual_opens env run run.cronId w)
  | settled run manual => exact h.closeManual fun chain known => ho.owner known manual.issued
  | renamed id chain run known same =>
    apply h.setChain
    intro old hold
    rw [eq_of_mem hold known]
  | reserved r absent issued =>
    refine ⟨?_,h.kept⟩
    intro c q hq
    refine (h.active c q hq).mono rfl (fun j other known howner => ⟨other,known,howner⟩) ?_
    exact fun p other known _ => mem_insert.mpr (.inr ⟨ne_of_get?_none absent known,known⟩)
  | lapsed planId unawaited => exact h.dropReservation (unawaited trivial)
  | recovered id recovering running unawaited =>
    have hdrop : Awaited (w.dropChain id) := by
      cases hget : w.state.chains.get? id with
      | none =>
        rw [dropChain_absent hget]
        exact h
      | some chain =>
        have known := get?_eq_some.mp hget
        apply h.dropChain
        · exact fun other hother => by rw [eq_of_mem hother known]
        · exact unawaited trivial chain known
    exact ⟨hdrop.active,hdrop.kept⟩
  | unknown id chain recovering running ok =>
    have hset : Awaited (w.setChain env id chain) := by
      apply h.setChain
      intro old hold
      obtain ⟨use,issued⟩ := ok.issued
      exact ho.owner hold issued
    exact ⟨hset.active,hset.kept⟩

/-- No job with a queued run is deleted or paused by the definitions that are taken over. -/
def Keeps (view : View) (w : World) : Prop :=
  ∀ entry ∈ w.state.queued.entries,
    ((loadJobs (view.admitted cronKinds)).get? entry.1).any JobDef.enabled = true

/-- No reservation that a queued run may wait for runs out or ends in an old record. -/
def HoldsAll (view : View) (w : World) : Prop := ∀ r ∈ w.ops.manualReservations, Holds view w r

variable (env) in
/-- No run that recovery takes up belongs to a job with a queued run. -/
def RecoversAside (view : View) (w : World) : Prop :=
  ∀ row ∈ unended env view w, Recovers (refreshed env view w) row →
    (refreshed env view w).state.queued.get? row.subject = none

/-- The reservation of the plan, if there is one, is not awaited or becomes a new chain. -/
def ConvertsAwaited (w : World) (planId : Str) : Prop :=
  ∀ entry ∈ w.state.manualReservations.entries, entry.1 = planId →
    w.state.queued.get? entry.2.cronId = none ∨ ¬ Recorded w entry.2.cronId planId

variable (env) in
def Spares (w : World) : Op → Prop
  | .tick view => Keeps view w ∧ HoldsAll view w ∧ RecoversAside env view w
  | .jobs view => Keeps view w
  | .beginAdmittedManual view _ admission => Keeps view w ∧ HoldsAll view w ∧
    ConvertsAwaited (reconciled env view w) admission.planId
  | .reserveManual view _ _ _ _ => Keeps view w ∧ HoldsAll view w
  | .releaseUnadmittedManual view planId => view.admission planId = none →
    ∀ entry ∈ w.state.manualReservations.entries, entry.1 = planId →
      w.state.queued.get? entry.2.cronId = none
  | .recordManual _ _ planId _ => ConvertsAwaited w planId
  | .finish _ _ _ | .finishAdmittedManual _ | .recordSkippedManual _ _ _
  | .prune _ => True

instance (view : View) (w : World) : Decidable (Keeps view w) :=
  inferInstanceAs (Decidable (∀ entry ∈ w.state.queued.entries, _))

instance (view : View) (w : World) : Decidable (HoldsAll view w) :=
  inferInstanceAs (Decidable (∀ r ∈ w.ops.manualReservations, _))

instance (view : View) (w : World) : Decidable (RecoversAside env view w) :=
  inferInstanceAs (Decidable (∀ row ∈ unended env view w, _))

instance (w : World) (planId : Str) : Decidable (ConvertsAwaited w planId) :=
  inferInstanceAs (Decidable (∀ entry ∈ w.state.manualReservations.entries, _))

instance (w : World) (op : Op) : Decidable (Spares env w op) :=
  match op with
  | .tick _ | .beginAdmittedManual _ _ _ | .reserveManual _ _ _ _ _ =>
    inferInstanceAs (Decidable (_ ∧ _))
  | .jobs view => inferInstanceAs (Decidable (Keeps view w))
  | .releaseUnadmittedManual _ _ => inferInstanceAs (Decidable (_ → _))
  | .recordManual _ _ planId _ => inferInstanceAs (Decidable (ConvertsAwaited w planId))
  | .finish _ _ _ | .finishAdmittedManual _ | .recordSkippedManual _ _ _
  | .prune _ => inferInstanceAs (Decidable True)

theorem ConvertsAwaited.get (h : ConvertsAwaited w planId) (r : ManualCronReservation)
    (hr : w.state.manualReservations.get? planId = some r) :
    w.state.queued.get? r.cronId = none ∨ ¬ Recorded w r.cronId planId :=
  h (planId,r) (get?_eq_some.mp hr) rfl

theorem Spares.allowed {op : Op} (h : Spares env w op) : Allowed env True w op := by
  cases op with
  | tick view => exact ⟨fun _ => h.2.1,fun _ => h.2.2⟩
  | beginAdmittedManual view cronId admission => exact ⟨fun _ => h.2.1,fun _ => h.2.2.get⟩
  | reserveManual view cronId planId digestHex expiresAt => exact fun _ => h.2
  | releaseUnadmittedManual view planId =>
    exact fun _ hnone r hr => h hnone (planId,r) (get?_eq_some.mp hr) rfl
  | recordManual view cronId planId operationId => exact fun hown => ⟨hown,fun _ => h.get⟩
  | _ => trivial

theorem Awaited.reload {view : View} (h : Awaited w) (hkeeps : Keeps view w) :
    Awaited (reload view w) := by
  refine ⟨h.active,?_⟩
  intro c q hq
  exact hkeeps (c,q) (get?_eq_some.mp hq)

theorem Awaited.base {op : Op} (h : Awaited w) (hspares : Spares env w op) :
    Awaited (op.base w) := by
  cases op with
  | tick view => exact h.reload hspares.1
  | jobs view => exact h.reload hspares
  | beginAdmittedManual view cronId admission
  | reserveManual view cronId planId digestHex expiresAt => exact h.reload hspares.1
  | _ => exact h

variable (env) in
structure Queues (w : World) : Prop where
  owned : Owned env w
  awaited : Awaited w

theorem Queues.step (strftime : Str → Option ℤ) {op : Op} (h : Queues env w)
    (hspares : Spares env w op) : Queues env (step env strftime w op) := by
  have hmoves := step_moves strftime h.owned hspares.allowed
  have hbase := h.owned.base op
  exact ⟨hbase.moves hmoves,hmoves.invariant hbase (h.awaited.base hspares)
    fun u u' hu hawaited hmove => hawaited.move hu hmove⟩

theorem Queues.start : Queues env start := by
  refine ⟨owned_start,?_,?_⟩
  all_goals
    intro c q hq
    cases hq

/-- In a run whose steps spare what queued runs wait for, every queued run waits for a chain
or a reservation of its job. -/
theorem queued_run_awaits_chain (env : Env) (strftime : Str → Option ℤ) (ops : List Op)
    (hspares : ∀ before op, before ++ [op] <+: ops → Spares env (after env strftime before) op) :
    ∀ entry ∈ (after env strftime ops).state.queued.entries,
      0 < activeChains (after env strftime ops).state entry.1 := by
  have hqueues : Queues env (after env strftime ops) :=
    StepRuns.run_invariant_along (Spares env) (Queues env) Queues.start
      (fun w op h hop => h.step strftime hop) ops hspares
  intro entry hentry
  rw [activeChains_pos]
  exact hqueues.awaited.active entry.1 entry.2 (get?_eq_some.mpr hentry)

end Queues

def everyMinute (time : ℤ) : Option ℤ := some ((time / 60 + 1) * 60)

def minuteEnv : Env where
  len _ := 100
  newId n := List.replicate n 0
  newId_injective a b h := by simpa using congrArg List.length h
  calendar _ _ := some everyMinute
  order a b := ltText a b

def minuteAction (seq : ℕ) (planId kind : String) (params : List (String × Value)) :
    AdmittedAction :=
  ⟨str planId,str "1111111111111111111111111111111111111111111111111111111111111111",0,seq,
    formatTimestamp 1767312000,str "op",str kind,
    .object ((("cron_id",.string (str "job")) :: params).map fun p => (str p.1,p.2)),
    (str "p",str "production",str "e"),some .succeeded,none⟩

def minuteJob (overlap : String) : AdmittedAction :=
  minuteAction 1 "01a0cdb5-3500-7000-8000-000000000001" "cron.create"
    [("schedule",.string (str "* * * * *")), ("timezone",.string (str "UTC")),
      ("retries",.number 1),
      ("overlap",.string (str overlap))]

def minutePause : AdmittedAction :=
  minuteAction 2 "01a0cdb5-3500-7000-8000-000000000002" "cron.pause" []

def minuteView (actions : List AdmittedAction) (seconds : ℤ) : View :=
  ⟨actions,[],none,1767312000 + seconds⟩

def outcomeLine (outcome : String) : Except RunnerFailure Value :=
  .ok (.object [(str "outcome",.string (str outcome))])

def queuedBehindRetry : List Op :=
  [.tick (minuteView [minuteJob "queue"] 50), .tick (minuteView [minuteJob "queue"] 60),
    .tick (minuteView [minuteJob "queue"] 120),
    .finish (minuteView [minuteJob "queue"] 125) 0 (outcomeLine "failed")]

/-- The retry is dispatched and the second run still waits for it. -/
theorem queued_run_awaits_retry :
    (after minuteEnv timestamp (queuedBehindRetry ++
        [.tick (minuteView [minuteJob "queue"] 140)])).state.queued.entries ≠ [] ∧
      ∀ entry ∈ (after minuteEnv timestamp (queuedBehindRetry ++
          [.tick (minuteView [minuteJob "queue"] 140)])).state.queued.entries,
        0 < activeChains (after minuteEnv timestamp (queuedBehindRetry ++
          [.tick (minuteView [minuteJob "queue"] 140)])).state entry.1 :=
  ⟨by decide +kernel,queued_run_awaits_chain minuteEnv timestamp _
    (StepRuns.along_of_take _ (by decide +kernel))⟩

/-- The job is paused before its retry is due. The retry is dropped, and the queued run is
left without anything to wait for. -/
theorem paused_retry_strands_queued_run :
    ((after minuteEnv timestamp (queuedBehindRetry ++
        [.tick (minuteView [minutePause, minuteJob "queue"] 140)])).state.jobs.get? (str "job")).map
        JobDef.overlap = some .queue ∧
      ((after minuteEnv timestamp (queuedBehindRetry ++
        [.tick (minuteView [minutePause, minuteJob "queue"] 140)])).state.queued.get?
        (str "job")).isSome = true ∧
      activeChains (after minuteEnv timestamp (queuedBehindRetry ++
        [.tick (minuteView [minutePause, minuteJob "queue"] 140)])).state (str "job") = 0 := by
  decide +kernel

end Permanu.CronScheduler
