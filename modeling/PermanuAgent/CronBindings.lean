import PermanuAgent.CronJobs
import PermanuAgent.SlotClaims
import PermanuAgent.AdmissionHistory

/-!
# The bindings of scheduled attempts

The scheduler binds every attempt to the action that defined its job, and looks the
binding up when the attempt has to be retried or reconciled. The writer takes any
attempt that the retries of the definition allow; the reader checks the stored row
again with bounds of its own.
-/

set_option autoImplicit false

namespace Permanu.CronBindings
open ByteText JsonValue PlanText PlanCrypto PlanActions List Option OrderedMap Bool
open PlanSchema (check check_field check_pattern)
open PlanVerify PlanAuthority StepRuns
open AdmissionStore (createdStore)
open AdmissionDefinitions AdmissionAdmit
open AdmissionRun (storeAfter admission_written)
open AdmissionMarks (rows_reachable)
open AdmissionStore AdmissionHistory TableRows
open AdmissionRules (actionOk_param)
open ScheduleBinding OpsStore SlotClaims CronJobs
open AdmissionOpen (StoreError)

variable {a : AdmittedAction}

section Accepted
variable (prim : Primitives)

/-- The action is one of a plan that the schema accepts, under the digest of some text. -/
structure Accepted (a : AdmittedAction) : Prop where
  plan : ∃ p, validatePlan prim p = true ∧ a.planId = p["id"]!.text ∧
    ((p["actions"]!)[a.actionIndex]!)["kind"]! = .string a.kind ∧
    ((p["actions"]!)[a.actionIndex]!)["params"]! = a.params
  digest : ∃ digest : Digest, a.planDigestHex = hex digest.val

theorem hexDigit_lower {d : ℕ} (h : d < 16) : isLowerHex (hexDigit d) = true := by
  interval_cases d <;> rfl

theorem hex64_hex {digest : Digest} : hex64 (hex digest.val) = true := by
  have hlength : ∀ bytes : Str, (hex bytes).length = 2 * bytes.length := by
    intro bytes
    induction bytes with
    | nil => rfl
    | cons b rest ih =>
      have hcons : hex (b :: rest) = [hexDigit (b.toNat / 16), hexDigit (b.toNat % 16)] ++
        hex rest :=
        rfl
      rw [hcons, length_append, ih]
      simp
      omega
  have hlower : ∀ b ∈ hex digest.val, isLowerHex b = true := by
    intro b hb
    obtain ⟨c,_,hc⟩ := mem_flatMap.mp hb
    have hlt := UInt8.toNat_lt c
    rcases mem_pair.mp hc with rfl | rfl <;> exact hexDigit_lower (by omega)
  rw [hex64, hexN, hlength, digest.property, all_eq_true.mpr hlower]
  rfl

theorem item_mem {v a : Value} {i : ℕ} (h : v[i]! = a) (ha : a ≠ .null) : a ∈ v.items := by
  cases v with
  | array items =>
    change (items[i]?).getD .null = a at h
    cases hi : items[i]? with
    | none =>
      rw [hi] at h
      exact absurd h.symm ha
    | some b =>
      rw [hi] at h
      exact h ▸ mem_of_getElem? hi
  | _ => exact absurd h.symm ha

variable {prim}

theorem Accepted.uuid7 (h : Accepted prim a) : PlanText.uuid7 a.planId = true := by
  obtain ⟨p,hv,hid,_⟩ := h.plan
  simp only [validatePlan, and_eq_true] at hv
  have hcheck := check_field "id" PlanSchema.uuid7 hv.1 (by simp [planFields])
  obtain ⟨text,htext,hmatch⟩ := check_pattern _ hcheck
  rw [hid, htext]
  exact hmatch

theorem Accepted.hex64 (h : Accepted prim a) : PlanText.hex64 a.planDigestHex = true := by
  obtain ⟨digest,hd⟩ := h.digest
  rw [hd]
  exact hex64_hex

theorem Accepted.action (h : Accepted prim a) : ∃ action,
    actionOk action = true ∧ action["kind"]! = .string a.kind ∧ action["params"]! = a.params := by
  obtain ⟨p,hv,_,hkind,hparams⟩ := h.plan
  refine ⟨_,validatePlan_actions hv _ (item_mem rfl ?_),hkind,hparams⟩
  intro hnull
  rw [hnull] at hkind
  cases hkind

theorem Accepted.retries (h : Accepted prim a)
    (hk : kindIn ["cron.create", "cron.update"] a.kind = true) :
    numberParam a.params "retries" ≤ 10 := by
  obtain ⟨action,hok,hkind,hparams⟩ := h.action
  have hcheck : check (.int 0 10) a.params["retries"]! = true := by
    simp only [kindIn, any_cons, any_nil, Bool.or_false, Bool.or_eq_true,
      beq_iff_eq] at hk
    rw [← hparams]
    rcases hk with hk | hk
    all_goals
      exact actionOk_param "retries" _ hok (hk ▸ hkind)
        (fun _ => rfl) rfl (by simp [cronParams])
  cases hv : a.params["retries"]! with
  | number n =>
    rw [hv] at hcheck
    obtain ⟨m,hm,hrange⟩ := (Option.any_eq_true _ _).mp hcheck
    rw [and_eq_true, decide_eq_true_eq, decide_eq_true_eq] at hrange
    rw [Value.asI64] at hm
    split_ifs at hm
    obtain rfl := Option.some.inj hm
    have hread : numberParam a.params "retries" = n.toNat := by
      have hsize : (0 ≤ n && n < 2^64) = true := by
        rw [and_eq_true, decide_eq_true_eq, decide_eq_true_eq]
        omega
      have hfits : n.toNat ≤ maxU32 := by
        simp only [maxU32]
        omega
      rw [numberParam, hv, Value.asU64, if_pos hsize, filter_some_pos (by simpa using hfits)]
      rfl
    omega
  | _ => simp [numberParam, hv, Value.asU64]

end Accepted

/-- The admitted actions as the scheduler reads them: definitions that the schema accepted,
one for each reference. -/
structure History (prim : Primitives) where
  admitted : List String → List AdmittedAction
  accepted : ∀ kinds, ∀ a ∈ admitted kinds, Accepted prim a
  kinds : ∀ kinds, ∀ a ∈ admitted kinds, kindIn kinds a.kind = true
  unique : ∀ kinds, ∀ a ∈ admitted kinds, ∀ b ∈ admitted kinds, planRef a = planRef b → a = b

theorem History.find_planRef {prim : Primitives} (history : History prim) {kinds : List String}
    (ha : a ∈ history.admitted kinds) :
    (history.admitted kinds).find? (fun action => planRef action = planRef a) = some a := by
  cases hf : (history.admitted kinds).find? (fun action => planRef action = planRef a) with
  | none =>
    have hmiss := find?_eq_none.mp hf a ha
    simp at hmiss
  | some b =>
    have heq : planRef b = planRef a := by simpa using find?_some hf
    rw [history.unique _ b (mem_of_find?_eq_some hf) a ha heq]

theorem Accepted.index_lt {prim : Primitives} (h : Accepted prim a) : a.actionIndex < 64 := by
  obtain ⟨p,hv,_,hkind,_⟩ := h.plan
  simp only [validatePlan, and_eq_true] at hv
  have hcheck := check_field "actions" (.custom actionsOk) hv.1 (by simp [planFields])
  simp only [check, actionsOk, Option.any_eq_true, and_eq_true, PlanSchema.within,
    decide_eq_true_eq] at hcheck
  obtain ⟨items,hitems,⟨_,hcount⟩,_⟩ := hcheck
  cases hactions : p["actions"]! with
  | array found =>
    rw [hactions] at hitems hkind
    obtain rfl : found = items := Option.some.inj hitems
    by_contra hlarge
    have hnone : found[a.actionIndex]? = none := getElem?_eq_none (by omega)
    change ((found[a.actionIndex]?).getD .null)["kind"]! = _ at hkind
    rw [hnone] at hkind
    cases hkind
  | _ =>
    rw [hactions] at hitems
    cases hitems

section Reachable
variable {prim : Primitives} {alerts : AlertSpecs} {now : ℤ} {quarantine : Option ℤ}
  {ops : List AdmissionRun.Op} {kinds : List String} {b : AdmittedAction}

/-- An action that is read from a reachable store is the one of the plan that its row admitted. -/
theorem accepted_reachable
    (ha : a ∈ admittedActions (storeAfter prim alerts now quarantine ops) kinds) :
    Accepted prim a := by
  obtain ⟨x,_,_,row,hrow,hread⟩ := mem_admittedActions.mp ha
  obtain ⟨before,trust,input,v,hafter,hcore⟩ := admission_written row (rowOf_some _ hrow).1
  obtain ⟨signatures,digest,_,hfacts⟩ := verifySignedPlan_admit hafter.admits.verified
  obtain ⟨hvalid,_,envelope,hparse,hplan⟩ := parseEnvelope_ok hfacts.envelope
  have hid : row.planId = v.plan["id"]!.text := congrArg AdmissionRow.planId hcore
  have hdigest : row.planDigestHex = v.digestHex := congrArg AdmissionRow.planDigestHex hcore
  have htext : row.signedPlanJson = input.envelope := congrArg AdmissionRow.signedPlanJson hcore
  simp only [readAction, htext, hparse, hplan] at hread
  split_ifs at hread with hkind
  obtain rfl := Option.some.inj hread
  exact ⟨⟨v.plan,hvalid,hid,hkind,rfl⟩,digest,hdigest.trans hfacts.digestHex⟩

/-- The actions of a plan have indices below the cap of a reference, so that a reference
names one action. -/
theorem planRef_unique
    (ha : a ∈ admittedActions (storeAfter prim alerts now quarantine ops) kinds)
    (hb : b ∈ admittedActions (storeAfter prim alerts now quarantine ops) kinds)
    (h : planRef a = planRef b) : a = b := by
  have hplan : a.planId = b.planId := congrArg RunnerRequests.PlanRef.planId h
  have hindex : min a.actionIndex maxU32 = min b.actionIndex maxU32 :=
    congrArg RunnerRequests.PlanRef.actionIndex h
  have halt := (accepted_reachable ha).index_lt
  have hblt := (accepted_reachable hb).index_lt
  obtain ⟨x,_,_,row,hrow,hread⟩ := mem_admittedActions.mp ha
  obtain ⟨y,_,_,row',hrow',hread'⟩ := mem_admittedActions.mp hb
  obtain ⟨hax,_,hseq,_⟩ := readAction_row hread
  obtain ⟨hby,_,hseq',_⟩ := readAction_row hread'
  have hsame : x.planId = y.planId := by
    rw [← (rowOf_some _ hrow).2, ← (rowOf_some _ hrow').2, ← hax, ← hby, hplan]
  rw [hsame, hrow', Option.some.injEq] at hrow
  refine admittedActions_place (rows_reachable prim alerts now quarantine ops).keyed
    admissionSeqs_nodup ha hb ?_ ?_
  · rw [hseq, hseq', hrow]
  · simp only [maxU32] at hindex
    omega

/-- The history that a reachable admission store gives the scheduler. -/
def historyAfter (prim : Primitives) (alerts : AlertSpecs) (now : ℤ) (quarantine : Option ℤ)
    (ops : List AdmissionRun.Op) : History prim where
  admitted := admittedActions (storeAfter prim alerts now quarantine ops)
  accepted _ _ ha := accepted_reachable ha
  kinds _ _ ha := by
    obtain ⟨x,_,hkind,row,_,hread⟩ := mem_admittedActions.mp ha
    rw [(readAction_row hread).2.2.2.1]
    exact hkind
  unique _ _ ha _ hb h := planRef_unique ha hb h

end Reachable

section Stored
variable {schedule : ScheduleRef} {kind' : RecordKind} {id' subject : Str} {status time : ℤ}
  {β : Type} {store : Store β} {kind : RecordKind} {id : Str} {intent : ScheduledIntent}

theorem bindSchedule_intent {bound : Store β}
    (h : bindSchedule store kind id schedule = .ok bound) :
    (encodeBinding schedule).length ≤ maxIntentBytes ∧
      (intentOf bound kind id).map ScheduledIntent.binding = some (encodeBinding schedule) := by
  rw [bindSchedule] at h
  split at h
  · cases h
  · rename_i hlength
    refine ⟨Nat.le_of_not_lt hlength,?_⟩
    split at h
    · rename_i intent hintent
      split_ifs at h with heq
      cases h
      rw [hintent, map_some, heq]
    · rename_i hnone
      cases h
      have hself : sameIntent kind id ⟨kind,id,encodeBinding schedule⟩ = true := by
        simp [sameIntent]
      rw [intentOf] at hnone ⊢
      rw [find?_append, hnone, none_or, find?_cons_of_pos hself]
      rfl

/-- Another binding is put behind the ones that are there. -/
theorem bindSchedule_keeps {bound : Store β}
    (h : bindSchedule store kind' id' schedule = .ok bound)
    (hi : intentOf store kind id = some intent) : intentOf bound kind id = some intent := by
  rw [bindSchedule] at h
  split at h
  · cases h
  · split at h
    · split_ifs at h
      cases h
      exact hi
    · cases h
      rw [intentOf] at hi ⊢
      rw [find?_append, hi]
      rfl

variable {after : Store β}

theorem writeRecord_intents {len : β → ℕ} {slot : Str}
    {message : β} (h : writeRecord len store kind id subject slot status time message = .ok after) :
    after.scheduledIntents = store.scheduledIntents := by
  rw [writeRecord] at h
  split_ifs at h
  all_goals
    cases h
    rfl

theorem claimScheduled_keeps {len : β → ℕ} {message : β} {taken : Bool}
    (h : claimScheduled len store kind' id' subject status time message schedule =
      .ok (after,taken)) (hi : intentOf store kind id = some intent) :
    intentOf after kind id = some intent := by
  rw [claimScheduled] at h
  split at h
  · cases h
  split at h
  · cases h
  · cases h
    exact hi
  · split at h
    · cases h
      exact hi
    · split at h
      · cases h
      · rename_i bound hbound
        have hkept : intentOf bound kind id = some intent := bindSchedule_keeps hbound hi
        rw [withRecord] at h
        split_ifs at h
        cases h
        exact hkept

theorem tryPrune_intent {strftime : Str → Option ℤ} {now : Int64}
    (h : tryPrune strftime store now = .ok after) (hi : intentOf store kind id = some intent)
    (hs : (intentOf after kind id).isSome = true) : intentOf after kind id = some intent := by
  rw [tryPrune] at h
  split at h
  · cases h
  · rename_i floor _
    simp only [Except.ok.injEq] at h
    subst h
    obtain ⟨found,hfound⟩ := isSome_iff_exists.mp hs
    rw [hfound, ← hi]
    simp only [intentOf, find?_filter] at hfound ⊢
    -- the record that a binding needs is the same for all bindings of a run
    have hkey : ∀ i, sameIntent kind id i = true → i.kind = kind ∧ i.id = id := by
      intro i h
      simpa [sameIntent] using h
    have hmatch := find?_some hfound
    rw [decide_eq_true_eq] at hmatch
    obtain ⟨hk,hid⟩ := hkey found hmatch.2
    rw [← hfound]
    congr 1
    funext i
    cases hsame : sameIntent kind id i with
    | false => simp
    | true =>
      obtain ⟨hk',hid'⟩ := hkey i hsame
      rw [hk', hid', ← hk, ← hid]
      simp [hmatch.1]

theorem kept_intent {result : Except StoreError (Store β)}
    (hi : intentOf store kind id = some intent)
    (h : ∀ after, result = .ok after → intentOf after kind id = some intent) :
    intentOf (kept store result) kind id = some intent := by
  cases result with
  | error e => exact hi
  | ok after => exact h after rfl

/-- Only a pruning can lose a binding, and nothing changes one. -/
theorem step_intent (len : β → ℕ) (strftime : Str → Option ℤ) {op : Op β}
    (hi : intentOf store kind id = some intent)
    (hs : (intentOf (step len strftime store op) kind id).isSome = true) :
    intentOf (step len strftime store op) kind id = some intent := by
  cases op with
  | claimScheduled kind' id' subject status time message schedule =>
    refine kept_intent hi fun after ha => ?_
    cases hc : claimScheduled len store kind' id' subject status time message schedule with
    | error e =>
      rw [hc] at ha
      cases ha
    | ok result =>
      rw [hc] at ha
      cases ha
      exact claimScheduled_keeps hc hi
  | hasSlot kind' subject slot => exact hi
  | put kind' id' subject slot status time message =>
    refine kept_intent hi fun after ha => ?_
    rw [intentOf, writeRecord_intents ha]
    exact hi
  | putScheduledRecord kind' id' subject status time message schedule =>
    refine kept_intent hi fun after ha => ?_
    rw [putScheduledRecord] at ha
    split at ha
    · cases ha
    · rename_i bound hb
      rw [intentOf, writeRecord_intents ha]
      exact bindSchedule_keeps hb hi
  | remove kind' id' | setCheckpoint checkpoint value => exact hi
  | prune now =>
    simp only [step] at hs ⊢
    cases hp : tryPrune strftime store now with
    | error e => exact hi
    | ok pruned =>
      rw [hp] at hs
      exact tryPrune_intent hp hi hs
  | reopen => exact hi

/-- The binding of a run stays what it is for as long as it is there. -/
theorem run_intent (len : β → ℕ) (strftime : Str → Option ℤ) {later : List (Op β)}
    (hi : intentOf store kind id = some intent) (hs : ∀ before, before <+: later →
      (intentOf (run (step len strftime) store before) kind id).isSome = true) :
    intentOf (run (step len strftime) store later) kind id = some intent := by
  induction later using List.reverseRecOn with
  | nil => exact hi
  | append_singleton later op ih =>
    have hprevious := ih fun before hb => hs before (hb.trans (prefix_append later [op]))
    have hlast := hs (later ++ [op]) (prefix_refl _)
    rw [run_concat] at hlast ⊢
    exact step_intent len strftime hprevious hlast

/-- The reader takes back the binding of an attempt up to the third. -/
theorem readIntent_encodeBinding
    (hlength : (encodeBinding schedule).length ≤ maxIntentBytes)
    (hindex : schedule.plan.actionIndex < 2^32) (hu32 : schedule.attempt < 2^32)
    (hid : uuid7 schedule.plan.planId = true) (hdigest : hex64 schedule.plan.planDigestHex = true)
    (htime : (timestamp schedule.scheduledFor).isSome = true) (hfirst : 1 ≤ schedule.attempt) :
    readIntent (encodeBinding schedule) =
      if schedule.attempt ≤ 3 then .ok schedule else .error invalidIntent := by
  rw [readIntent, if_neg (Nat.not_lt.mpr hlength), decode_encodeBinding schedule hindex hu32]
  have hnone : (timestamp schedule.scheduledFor).isNone = false := by
    rw [← not_isSome, htime]
    rfl
  simp only [hid, hdigest, hnone, Bool.not_true, Bool.false_or, decide_eq_true hfirst,
    Bool.true_and, Bool.not_eq_true', decide_eq_false_iff_not]
  by_cases h : schedule.attempt ≤ 3
  · rw [if_neg (not_not.mpr h), if_pos h]
  · rw [if_pos h, if_neg h]

end Stored

theorem loadJobs_single {cronId : Str}
    (hk : kindIn ["cron.create", "cron.update"] a.kind = true) (hs : a.succeeded = true)
    (hid : a.params["cron_id"]! = .string cronId) :
    (loadJobs [a]).get? cronId = some (definedJob cronId a none) := by
  have hload : loadJobs [a] = applyAction empty a := by
    simp [loadJobs, hs]
  have hempty : (empty : Jobs).get? cronId = none := rfl
  rw [hload, applyAction, hid]
  simp only [Value.asStr, hk, if_true, hempty, any_none, false_eq_true, if_false]
  exact get?_insert_self _

section Attempt
variable {prim : Primitives} (len : CronRun → ℕ) (strftime : Str → Option ℤ)

/-- A run of the job that the action `a` defines, in an attempt that its retries allow. -/
structure AttemptOf (a : AdmittedAction) (t : FireTime) (run : CronRun) : Prop where
  cronId : a.params["cron_id"]! = .string run.cronId
  planId : run.planId = a.planId
  scheduledFor : run.scheduledFor = some t.seconds
  first : 1 ≤ run.attempt
  last : run.attempt ≤ (definedJob run.cronId a none).retries + 1

/-- The binding that the launch of an attempt stores is read back, and leads to the
definition of the attempt, exactly if the attempt is one of the first three. -/
theorem binding_read_back (history : History prim) (a : AdmittedAction)
    (ha : a ∈ history.admitted ["cron.create", "cron.update"]) (hs : a.succeeded = true)
    (t : FireTime) (run : CronRun) (hrun : AttemptOf a t run) (store bound : Store CronRun)
    (time : ℤ)
    (hput : putScheduledRecord len store .cronRun run.id run.cronId run.status.code time run
      (launchSchedule (definedJob run.cronId a none) run) = .ok bound)
    (later : List (Op CronRun)) (hkept : ∀ before, before <+: later →
      (intentOf (StepRuns.run (step len strftime) bound before) .cronRun run.id).isSome = true) :
    (scheduledIntent (StepRuns.run (step len strftime) bound later) .cronRun run.id =
        .ok (some (launchSchedule (definedJob run.cronId a none) run)) ∧
      runAuthority history.admitted (StepRuns.run (step len strftime) bound later) run =
        some (planRef a) ∧
      originalJob history.admitted (StepRuns.run (step len strftime) bound later) run =
        some (definedJob run.cronId a none)) ↔ run.attempt ≤ 3 := by
  have haccepted := history.accepted _ a ha
  have hkind := history.kinds _ a ha
  have hretries : (definedJob run.cronId a none).retries ≤ 10 := haccepted.retries hkind
  have hlast := hrun.last
  have hslot : slotOf run = t.slot := by
    rw [slotOf, hrun.scheduledFor]
    rfl
  -- the stored text is the one of the launch
  rw [putScheduledRecord] at hput
  split at hput
  · cases hput
  rename_i stored hstored
  obtain ⟨hlength,hbinding⟩ := bindSchedule_intent hstored
  obtain ⟨intent,hintent,htext⟩ := map_eq_some_iff.mp hbinding
  have hbound : intentOf bound .cronRun run.id = some intent := by
    rw [intentOf, writeRecord_intents hput]
    exact hintent
  have hfinal := run_intent len strftime hbound hkept
  have hread := readIntent_encodeBinding
    hlength (by simp only [launchSchedule, definedJob, planRef, maxU32]; omega)
    (by simp only [launchSchedule]; omega) haccepted.uuid7 haccepted.hex64
    (by simp only [launchSchedule, hslot, t.timestamp_slot, isSome_some]) hrun.first
  have hscheduled : scheduledIntent (StepRuns.run (step len strftime) bound later) .cronRun run.id =
      if run.attempt ≤ 3 then .ok (some (launchSchedule (definedJob run.cronId a none) run))
      else .error invalidIntent := by
    rw [scheduledIntent, hfinal]
    dsimp only
    rw [htext, hread]
    by_cases h : run.attempt ≤ 3
    · rw [if_pos h, if_pos (show (launchSchedule _ run).attempt ≤ 3 from h)]
    · rw [if_neg h, if_neg (show ¬ (launchSchedule _ run).attempt ≤ 3 from h)]
  constructor
  · rintro ⟨hok,_⟩
    by_contra h
    rw [hscheduled, if_neg h] at hok
    cases hok
  · intro h
    rw [if_pos h] at hscheduled
    have hauthority : runAuthority history.admitted
        (StepRuns.run (step len strftime) bound later) run = some (planRef a) := by
      rw [runAuthority, hscheduled]
      exact if_pos hrun.planId.symm
    refine ⟨hscheduled,hauthority,?_⟩
    rw [originalJob, hauthority]
    dsimp only
    rw [history.find_planRef ha]
    exact loadJobs_single hkind hs hrun.cronId

end Attempt

def nightlyAction : Value := sampleAction "cron.create"
  [("cron_id", ident 30), ("service_id", ident 10), ("name", .txt "nightly"),
    ("schedule", .txt "0 3 * * *"), ("timezone", .txt "UTC"), ("command", .array [.txt "true"]),
    ("timeout_seconds", .number 60), ("retries", .number 3), ("overlap", .txt "skip"),
    ("heartbeat_alert", .bool false)]

def nightlyPlan : Value :=
  samplePlan 70 "SAAAAAAAAAAAAAAAAAAAAA" 5 [ident 10] [nightlyAction] false genesisHead

def nightlyDigest : Digest :=
  digestOfNat 0x70038a7ccfeda5ef7088e726a5c093680b62e8e91b08b5f366828e9abe588fc5

def noPrimitives : Primitives := tablePrimitives [] [] []

def nightly : AdmittedAction :=
  ⟨(ident 70).text,hex nightlyDigest.val,0,1,str "2026-01-02T00:00:10Z",(ident 71).text,
    str "cron.create",nightlyAction["params"]!,
    ((ident 5).text,str "production",(ident 6).text),some .succeeded,
    some (str "2026-01-02T00:00:20Z")⟩

theorem nightly_accepted : Accepted noPrimitives nightly where
  plan := ⟨nightlyPlan,by decide +kernel,by decide +kernel,by decide +kernel,by decide +kernel⟩
  digest := ⟨nightlyDigest,rfl⟩

def nightlyHistory : History noPrimitives where
  admitted kinds := [nightly].filter fun a => kindIn kinds a.kind
  accepted kinds a h := by
    rw [mem_singleton.mp (mem_filter.mp h).1]
    exact nightly_accepted
  kinds kinds a h := (mem_filter.mp h).2
  unique kinds a ha b hb _ := by
    rw [mem_singleton.mp (mem_filter.mp ha).1,
      mem_singleton.mp (mem_filter.mp hb).1]

/-- The attempt `n` of the run at three in the morning. -/
def nightlyRun (n : ℕ) : CronRun :=
  { newRun (ident (100+n)).text (ident 30).text n (if n = 1 then .schedule else .retry) .running
      (ident 70).text with
    scheduledFor := some 1790046000
    startedAt := some 1790046001 }

def nightlyTime : FireTime := ⟨1790046000,by decide,by decide⟩

theorem nightly_attempt {n : ℕ} (h1 : 1 ≤ n) (h4 : n ≤ 4) :
    AttemptOf nightly nightlyTime (nightlyRun n) where
  cronId := rfl
  planId := rfl
  scheduledFor := rfl
  first := h1
  last := h4

/-- What the launch of the attempt `n` asks the store to write. -/
def nightlyPut (n : ℕ) : Except StoreError (Store CronRun) :=
  putScheduledRecord (fun _ => 0) emptyStore .cronRun (nightlyRun n).id (nightlyRun n).cronId
    (nightlyRun n).status.code 1790046000 (nightlyRun n)
    (launchSchedule (definedJob (nightlyRun n).cronId nightly none) (nightlyRun n))

def nightlyStored (n : ℕ) : Store CronRun := kept emptyStore (nightlyPut n)

def nightlyLater : List (Op CronRun) := [.hasSlot .cronRun (ident 30).text nightlyTime.slot,
  .prune 1790046300, .reopen]

/-- The binding of a second attempt is read back after a pruning and a restart. -/
theorem binding_read_back_second :
    nightlyPut 2 = .ok (nightlyStored 2) ∧ ((nightlyRun 2).attempt ≤ 3 ∧
      originalJob nightlyHistory.admitted
        (StepRuns.run (step (fun _ => 0) timestamp) (nightlyStored 2) nightlyLater) (nightlyRun 2) =
        some (definedJob (nightlyRun 2).cronId nightly none)) := by
  have hput : nightlyPut 2 = .ok (nightlyStored 2) := by decide +kernel
  have hkept : ∀ before ∈ nightlyLater.inits, (intentOf
      (StepRuns.run (step (fun _ => 0) timestamp) (nightlyStored 2) before) .cronRun
      (nightlyRun 2).id).isSome = true := by
    decide +kernel
  have hlimit : (nightlyRun 2).attempt ≤ 3 := by decide
  refine ⟨hput,hlimit,?_⟩
  exact ((binding_read_back (fun _ => 0) timestamp nightlyHistory nightly
    (mem_filter.mpr ⟨mem_singleton_self _,rfl⟩) rfl nightlyTime (nightlyRun 2)
    (nightly_attempt (by decide) (by decide)) emptyStore (nightlyStored 2) 1790046000 hput
    nightlyLater fun before hb => hkept before ((mem_inits before nightlyLater).mpr hb)).mpr
    hlimit).2.2

/-- A job with three retries is allowed a fourth attempt, whose binding is stored and
never read back. -/
theorem fourth_attempt_unreadable :
    (definedJob (nightlyRun 4).cronId nightly none).retries = 3 ∧
      AttemptOf nightly nightlyTime (nightlyRun 4) ∧
      nightlyPut 4 = .ok (nightlyStored 4) ∧
      scheduledIntent (nightlyStored 4) .cronRun (nightlyRun 4).id = .error invalidIntent ∧
      runAuthority nightlyHistory.admitted (nightlyStored 4) (nightlyRun 4) = none ∧
      originalJob nightlyHistory.admitted (nightlyStored 4) (nightlyRun 4) = none :=
  ⟨by decide +kernel,nightly_attempt (by decide) (by decide),by decide +kernel,by decide +kernel,
    by decide +kernel,by decide +kernel⟩

end Permanu.CronBindings
