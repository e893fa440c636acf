import PermanuAgent.AdmissionMarks
import PermanuAgent.AdmissionChain

/-!
# The order of the admitted actions

The definitions of an object are read from the stored envelopes, newest first: by
the number of the admission and, within a plan, by the index of the action. An
operation of the store changes this history in two ways only. An admission puts
the actions of its plan in front, and every other operation at most settles
actions that are there.
-/

set_option autoImplicit false

namespace Permanu.AdmissionHistory
open ByteText JsonValue PlanJcs PlanCrypto PlanActions List Option
open PlanVerify PlanAuthority TableRows
open AdmissionStore AdmissionDefinitions AdmissionAdmit
open AdmissionWrite AdmissionRun AdmissionResults
open AdmissionRevocations

/-- Admitted later, or later in the same plan. -/
def Newer (a b : AdmittedAction) : Prop :=
  b.admissionSeq < a.admissionSeq ∨
    b.admissionSeq = a.admissionSeq ∧ b.actionIndex < a.actionIndex

instance : DecidableRel Newer := fun _ _ => inferInstanceAs (Decidable (_ ∨ _ ∧ _))

theorem readAction_row {row : AdmissionRow × ActionRow} {a : AdmittedAction}
    (h : readAction row = some a) : a.planId = row.1.planId ∧ a.actionIndex = row.2.actionIndex ∧
      a.admissionSeq = row.1.admissionSeq ∧ a.kind = row.2.kind ∧ a.outcome = row.2.outcome := by
  unfold readAction at h
  split at h
  · cases h
  · dsimp only at h
    split_ifs at h
    obtain rfl := Option.some.inj h
    exact ⟨rfl,rfl,rfl,rfl,rfl⟩

theorem mem_admittedActions {store : Store} {kinds : List String} {a : AdmittedAction} :
    a ∈ admittedActions store kinds ↔ ∃ x ∈ store.actions, kindIn kinds x.kind = true ∧
      ∃ row, store.admission x.planId = some row ∧ readAction (row, x) = some a := by
  simp only [admittedActions, joinedActions, mem_filterMap, mem_insertionSort,
    mem_filter, map_eq_some_iff]
  constructor
  · rintro ⟨_,⟨x,⟨hx,hk⟩,row,hrow,rfl⟩,hread⟩
    exact ⟨x,hx,hk,row,hrow,hread⟩
  · rintro ⟨x,hx,hk,row,hrow,hread⟩
    exact ⟨(row, x),⟨x,⟨hx,hk⟩,row,hrow,rfl⟩,hread⟩

instance : Std.Total newerFirst := by
  constructor
  intro a b
  unfold newerFirst
  omega

instance : IsTrans (AdmissionRow × ActionRow) newerFirst := by
  constructor
  intro a b c hab hbc
  unfold newerFirst at *
  omega

theorem admittedActions_sorted {store : Store} {kinds : List String} :
    (admittedActions store kinds).Pairwise fun a b => ¬ Newer b a := by
  apply (pairwise_insertionSort newerFirst (joinedActions store kinds)).filterMap
  intro r s hrs a ha b hb
  obtain ⟨_,hai,has,_⟩ := readAction_row ha
  obtain ⟨_,hbi,hbs,_⟩ := readAction_row hb
  unfold newerFirst at hrs
  unfold Newer
  omega

/-- Two actions at one place of the history are the same. -/
theorem admittedActions_place {kinds : List String} {b a : AdmittedAction} {store : Store}
    (hkeyed : Keyed store) (hseqs : (store.admissions.map AdmissionRow.admissionSeq).Nodup)
    (ha : a ∈ admittedActions store kinds) (hb : b ∈ admittedActions store kinds)
    (hseq : a.admissionSeq = b.admissionSeq) (hindex : a.actionIndex = b.actionIndex) : a = b := by
  obtain ⟨x,hx,_,row,hrow,hread⟩ := mem_admittedActions.mp ha
  obtain ⟨y,hy,_,row',hrow',hread'⟩ := mem_admittedActions.mp hb
  obtain ⟨_,hxi,hxs,_⟩ := readAction_row hread
  obtain ⟨_,hyi,hys,_⟩ := readAction_row hread'
  obtain ⟨hmem,hid⟩ := rowOf_some _ hrow
  obtain ⟨hmem',hid'⟩ := rowOf_some _ hrow'
  obtain rfl : row = row' := inj_on_of_nodup_map hseqs hmem hmem'
    (hxs.symm.trans (hseq.trans hys))
  obtain rfl : x = y := by
    apply inj_on_of_nodup_map hkeyed hx hy
    exact Prod.ext (hid.symm.trans hid') (hxi.symm.trans (hindex.trans hyi))
  exact Option.some.inj (hread.symm.trans hread')

theorem admissionSeqs_nodup {prim : Primitives} {alerts : AlertSpecs} {now : ℤ}
    {quarantine : Option ℤ} {ops : List Op} :
    ((storeAfter prim alerts now quarantine ops).admissions.map
      AdmissionRow.admissionSeq).Nodup := by
  rw [(AdmissionChain.chained_reachable prim alerts).seqs]
  exact nodup_range'

def core (a : AdmittedAction) : AdmittedAction := { a with outcome := none, finishedAt := none }

theorem seq_of_core {a b : AdmittedAction} (h : core a = core b) :
    a.admissionSeq = b.admissionSeq :=
  show (core a).admissionSeq = (core b).admissionSeq by rw [h]

theorem index_of_core {a b : AdmittedAction} (h : core a = core b) :
    a.actionIndex = b.actionIndex :=
  show (core a).actionIndex = (core b).actionIndex by rw [h]

theorem kind_of_core {a b : AdmittedAction} (h : core a = core b) : a.kind = b.kind :=
  show (core a).kind = (core b).kind by rw [h]

theorem params_of_core {a b : AdmittedAction} (h : core a = core b) : a.params = b.params :=
  show (core a).params = (core b).params by rw [h]

theorem readAction_core (row : AdmissionRow) (x : ActionRow) :
    readAction (row.core, x.core) = (readAction (row, x)).map core := by
  unfold readAction
  dsimp +instances only [AdmissionRow.core, ActionRow.core]
  cases parseStrict row.signedPlanJson maxSignedPlanBytes with
  | none => rfl
  | some envelope =>
    dsimp only
    split_ifs <;> rfl

theorem admission_core {rows rows' : List AdmissionRow}
    (h : rows'.map AdmissionRow.core = rows.map AdmissionRow.core) (planId : Str) :
    (rowOf AdmissionRow.planId planId rows').map AdmissionRow.core =
      (rowOf AdmissionRow.planId planId rows).map AdmissionRow.core :=
  find?_of_core h _ _ (fun _ => rfl) (fun _ => rfl)

/-- An action of one of two stores with the same rows up to results stands in the other,
settled as its row is. -/
theorem mem_of_cores {kinds : List String} {b : AdmittedAction} {store after : Store}
    (hadm : after.admissions.map AdmissionRow.core = store.admissions.map AdmissionRow.core)
    (hact : after.actions.map ActionRow.core = store.actions.map ActionRow.core)
    (hb : b ∈ admittedActions after kinds) :
    ∃ a ∈ admittedActions store kinds, core a = core b ∧
      ∃ x ∈ store.actions, ∃ y ∈ after.actions, ActionRow.key x = ActionRow.key y ∧
        x.outcome = a.outcome ∧
        y.outcome = b.outcome := by
  obtain ⟨y,hy,hkind,row',hrow',hread'⟩ := mem_admittedActions.mp hb
  obtain ⟨x,hx,hxy⟩ := mem_of_core hact hy
  have hplan : x.planId = y.planId := show x.core.planId = y.core.planId by rw [hxy]
  have hrows := admission_core hadm y.planId
  rw [Store.admission] at hrow'
  rw [hrow', map_some] at hrows
  obtain ⟨row,hrow,hcore⟩ := map_eq_some_iff.mp hrows.symm
  have hread := readAction_core row x
  rw [hcore, hxy, readAction_core, hread', map_some] at hread
  obtain ⟨a,ha,hab⟩ := map_eq_some_iff.mp hread.symm
  refine ⟨a,mem_admittedActions.mpr ⟨x,hx,?_,row,?_,ha⟩,hab,x,hx,y,hy,?_,?_,?_⟩
  · rw [show x.kind = y.kind from show x.core.kind = y.core.kind by rw [hxy]]
    exact hkind
  · rw [Store.admission, hplan]
    exact hrow
  · exact Prod.ext hplan (show x.core.actionIndex = y.core.actionIndex by rw [hxy])
  · exact (readAction_row ha).2.2.2.2.symm
  · exact (readAction_row hread').2.2.2.2.symm

/-- No outcome that an action has is changed. -/
def SettlesOnce (store after : Store) : Prop :=
  ∀ x ∈ store.actions, ∀ y ∈ after.actions, ActionRow.key x = ActionRow.key y → x.outcome ≠ none →
    y.outcome = x.outcome

/-- The action `b` of the later store is the action `a`, settled at most. -/
structure Settled (a b : AdmittedAction) : Prop where
  same : core a = core b
  once : a.outcome ≠ none → b.outcome = a.outcome

theorem Kept.settled_from {kinds : List String} {b : AdmittedAction} {store after : Store}
    (h : Kept store after) (hs : SettlesOnce store after) (hb : b ∈ admittedActions after kinds) :
    ∃ a ∈ admittedActions store kinds, Settled a b := by
  obtain ⟨a,ha,hab,x,hx,y,hy,hkey,hxa,hyb⟩ := mem_of_cores h.admissions h.actions hb
  refine ⟨a,ha,hab,fun hne => ?_⟩
  rw [← hyb, ← hxa]
  exact hs x hx y hy hkey (hxa ▸ hne)

theorem Kept.settled_to {kinds : List String} {a : AdmittedAction} {store after : Store}
    (h : Kept store after) (hs : SettlesOnce store after) (ha : a ∈ admittedActions store kinds) :
    ∃ b ∈ admittedActions after kinds, Settled a b := by
  obtain ⟨b,hb,hba,y,hy,x,hx,hkey,hyb,hxa⟩ := mem_of_cores h.admissions.symm h.actions.symm ha
  refine ⟨b,hb,hba.symm,fun hne => ?_⟩
  rw [← hyb, ← hxa]
  exact hs x hx y hy hkey.symm (hxa ▸ hne)

theorem Written.old_actions {a : AdmittedAction} {prim : Primitives} {store after : Store}
    {v : VerifiedPlan} {input : AdmitInput} {kinds : List String}
    (hw : Written prim store v input after) (ha : a ∈ admittedActions store kinds) :
    a ∈ admittedActions after kinds := by
  obtain ⟨x,hx,hk,row,hrow,hread⟩ := mem_admittedActions.mp ha
  refine mem_admittedActions.mpr ⟨x,?_,hk,row,?_,hread⟩
  · rw [hw.actions]
    exact mem_append_left _ hx
  · exact Written.admission_old prim hw hrow

/-- The history after an admission has the actions of the plan besides the old ones. -/
theorem Written.actions_from {b : AdmittedAction} {prim : Primitives} {store after : Store}
    {v : VerifiedPlan} {input : AdmitInput} {signatures : List Value} {kinds : List String}
    (hw : Written prim store v input after) (hrows : RuleRows store)
    (hp : parseEnvelope prim input.envelope = .ok (v.plan, signatures))
    (hb : b ∈ admittedActions after kinds) : b ∈ admittedActions store kinds ∨
      ∃ action ∈ v.plan["actions"]!.items, action["kind"]! = .string b.kind ∧
        action["params"]! = b.params ∧ kindIn kinds b.kind = true := by
  obtain ⟨x,hx,hk,row,hrow,hread⟩ := mem_admittedActions.mp hb
  rw [hw.actions, mem_append] at hx
  rcases hx with hx | hx
  · -- an old action keeps its admission
    left
    obtain ⟨old,hold⟩ := isSome_iff_exists.mp (hrows.owned x hx)
    rw [Written.admission_old prim hw hold] at hrow
    obtain rfl := Option.some.inj hrow
    exact mem_admittedActions.mpr ⟨x,hx,hk,old,hold,hread⟩
  · right
    have hvalid := validatePlan_actions (parseEnvelope_ok hp).1
    obtain ⟨action,ha,hat,_,hplan,_⟩ := mem_actionRows hvalid hx
    obtain ⟨envelope,hparse,henv⟩ := (parseEnvelope_ok hp).2.2
    rw [hplan, Written.admission_new prim hw] at hrow
    obtain rfl := Option.some.inj hrow
    simp only [readAction, admissionRow, hparse, henv, hat] at hread
    split_ifs at hread with hkind
    obtain rfl := Option.some.inj hread
    exact ⟨action,ha,hkind,rfl,hk⟩

end Permanu.AdmissionHistory
