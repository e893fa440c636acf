import PermanuAgent.RunnerRequests

/-!
# The binding of a scheduled run

A scheduled run executes under the admitted action that defines its job, at a fire
time and in an attempt. The scheduler stores this binding as a compact JSON object
whose members stand in the order of the fields of the structure, and reads it back
with every member required and no other allowed.
-/

set_option autoImplicit false

namespace Permanu.ScheduleBinding
open ByteText JsonValue JsonReader JsonOrder PlanJcs List
open JsonRoundTrip
open RunnerRequests (PlanRef)

structure ScheduleRef where
  plan : PlanRef
  scheduledFor : Str
  attempt : ℕ
  deriving DecidableEq, Repr

def objectText (members : List (Str × Str)) : Str :=
  byte '\x7b' :: (commaSeparated (members.map fun m => memberText m.1 m.2) ++ [byte '\x7d'])

def planRefText (plan : PlanRef) : Str :=
  objectText [(str "plan_id",encodeString plan.planId),
    (str "plan_digest_hex",encodeString plan.planDigestHex),
    (str "action_index",decimal plan.actionIndex)]

variable {n : ℕ} {plan : PlanRef} {value : Value}

section
variable (schedule : ScheduleRef)

def encodeBinding : Str :=
  objectText [(str "plan",planRefText schedule.plan),
    (str "scheduled_for",encodeString schedule.scheduledFor),
    (str "attempt",decimal schedule.attempt)]

def readU32 : Value → Option ℕ
  | .number n => if 0 ≤ n ∧ n < 4294967296 then some n.toNat else none
  | _ => none

/-- The three values of a structure with these fields: an object with each member once,
or an array of the values. -/
def readFields (a b c : String) : Value → Option (Value × Value × Value)
  | .object members =>
    if members.length = 3 then do
      return (← members.lookup (str a),← members.lookup (str b),← members.lookup (str c))
    else none
  | .array [u, v, w] => some (u,v,w)
  | _ => none

def readPlanRef (v : Value) : Option PlanRef :=
  match readFields "plan_id" "plan_digest_hex" "action_index" v with
  | none => none
  | some (planId,digest,index) =>
    match planId.asStr, digest.asStr, readU32 index with
    | some planId, some digest, some index => some ⟨planId,digest,index⟩
    | _, _, _ => none

def readScheduleRef (v : Value) : Option ScheduleRef :=
  match readFields "plan" "scheduled_for" "attempt" v with
  | none => none
  | some (plan,scheduledFor,attempt) =>
    match readPlanRef plan, scheduledFor.asStr, readU32 attempt with
    | some plan, some scheduledFor, some attempt => some ⟨plan,scheduledFor,attempt⟩
    | _, _, _ => none

def decodeBinding (text : Str) : Option ScheduleRef := (readDocument text).bind readScheduleRef

theorem reads_string {text : Str} : Reads (encodeString text) (.string text) 0 := by
  obtain ⟨w,hw,hread⟩ := readable_string (encodeString text) rfl
  cases w with
  | string s =>
    exact hw ▸ hread
  | _ => simp [Value.normalise] at hw

theorem reads_u32 (h : n < 2^32) : Reads (decimal n) (.number n) 0 := by
  have hint : integersOnly (.number n) = true := by
    simp only [integersOnly, maxSafeInteger, Int.natAbs_natCast]
    exact decide_eq_true (by omega)
  have htext : encode (.number n) = some (decimal n) := by
    rw [encode, if_pos hint]
    rfl
  obtain ⟨w,hw,hread⟩ := readable_number (decimal n) htext
  cases w with
  | number m =>
    exact hw ▸ hread
  | _ => simp [Value.normalise] at hw

structure Field where
  name : Str
  text : Str
  value : Value

def Field.written (f : Field) : Str := memberText f.name f.text

def Field.member (f : Field) : Str × Value := (f.name,f.value)

theorem fields_steps {fields : List Field}
    (h : ∀ f ∈ fields, Reads f.text f.value (depth f.value)) (level : ℕ)
    (hd : depthMembers (fields.map Field.member) < level) :
    List.Forall₂ (Steps readMembers level) (fields.map Field.member)
      (fields.map Field.written) := by
  induction fields with
  | nil => exact .nil
  | cons f fields ih =>
    rw [map_cons, Field.member, depthMembers, max_lt_iff] at hd
    exact .cons (readMembers_steps
      (h f mem_cons_self) hd.1) (ih (fun g hg => h g (mem_cons_of_mem f hg)) hd.2)

theorem reads_object {fields : List Field}
    (h : ∀ g ∈ fields, Reads g.text g.value (depth g.value)) :
    Reads (objectText (fields.map fun g => (g.name,g.text))) (.object (fields.map Field.member))
      (depth (.object (fields.map Field.member))) := by
  rw [objectText, map_map, depth]
  exact reads_members (fields_steps h)

def planRefFields (plan : PlanRef) : List Field :=
  [⟨str "plan_id",encodeString plan.planId,.string plan.planId⟩,
    ⟨str "plan_digest_hex",encodeString plan.planDigestHex,.string plan.planDigestHex⟩,
    ⟨str "action_index",decimal plan.actionIndex,.number plan.actionIndex⟩]

theorem planRefFields_read (hi : plan.actionIndex < 2^32) :
    ∀ f ∈ planRefFields plan, Reads f.text f.value (depth f.value) := by
  intro f hf
  simp only [planRefFields, mem_cons, not_mem_nil, or_false] at hf
  rcases hf with rfl | rfl | rfl
  · exact reads_string
  · exact reads_string
  · exact reads_u32 hi

theorem readFields_object {a b c : String} {u v w : Value} (hba : b ≠ a) (hca : c ≠ a)
    (hcb : c ≠ b) :
    readFields a b c (.object [(str a,u), (str b,v), (str c,w)]) = some (u,v,w) := by
  have hba' : (str b == str a) = false := beq_false_of_ne (str_injective.ne hba)
  have hca' : (str c == str a) = false := beq_false_of_ne (str_injective.ne hca)
  have hcb' : (str c == str b) = false := beq_false_of_ne (str_injective.ne hcb)
  simp [readFields, lookup_cons, hba', hca', hcb']

def planValue (plan : PlanRef) : Value := .object ((planRefFields plan).map Field.member)

theorem readU32_natCast (h : n < 2^32) : readU32 (.number n) = some n := by
  have hbounds : 0 ≤ (n : ℤ) ∧ (n : ℤ) < 4294967296 := by omega
  rw [readU32, if_pos hbounds, Int.toNat_natCast]

theorem readPlanRef_fields {index : Value}
    (hf : readFields "plan_id" "plan_digest_hex" "action_index" value =
      some (.string plan.planId,.string plan.planDigestHex,index))
    (hi : readU32 index = some plan.actionIndex) : readPlanRef value = some plan := by
  simp only [readPlanRef, hf, Value.asStr, hi]

theorem readPlanRef_planValue (hi : plan.actionIndex < 2^32) :
    readPlanRef (planValue plan) = some plan :=
  readPlanRef_fields (readFields_object (by simp) (by simp) (by simp))
    (readU32_natCast hi)

theorem readScheduleRef_fields {plan attempt : Value}
    (hf : readFields "plan" "scheduled_for" "attempt" value =
      some (plan,.string schedule.scheduledFor,attempt))
    (hp : readPlanRef plan = some schedule.plan) (ha : readU32 attempt = some schedule.attempt) :
    readScheduleRef value = some schedule := by
  simp only [readScheduleRef, hf, hp, Value.asStr, ha]

def bindingFields : List Field :=
  [⟨str "plan",planRefText schedule.plan,planValue schedule.plan⟩,
    ⟨str "scheduled_for",encodeString schedule.scheduledFor,.string schedule.scheduledFor⟩,
    ⟨str "attempt",decimal schedule.attempt,.number schedule.attempt⟩]

theorem bindingFields_read (hi : schedule.plan.actionIndex < 2^32) (ha : schedule.attempt < 2^32) :
    ∀ f ∈ bindingFields schedule, Reads f.text f.value (depth f.value) := by
  intro f hf
  simp only [bindingFields, mem_cons, not_mem_nil, or_false] at hf
  rcases hf with rfl | rfl | rfl
  · exact reads_object (planRefFields_read hi)
  · exact reads_string
  · exact reads_u32 ha

theorem decode_encodeBinding (hi : schedule.plan.actionIndex < 2^32)
    (ha : schedule.attempt < 2^32) : decodeBinding (encodeBinding schedule) = some schedule := by
  have hread : Reads (encodeBinding schedule)
      (.object ((bindingFields schedule).map Field.member)) 2 :=
    reads_object (bindingFields_read schedule hi ha)
  have hvalue := hread (2 * (encodeBinding schedule).length + 2) 128 [] (by omega) (by omega)
    (by simp [Stops])
  have hdocument : readDocument (encodeBinding schedule) =
      some (.object ((bindingFields schedule).map Field.member)) := by
    rw [append_nil] at hvalue
    simp [readDocument, hvalue, skipBlanks]
  rw [decodeBinding, hdocument, Option.bind_some]
  exact readScheduleRef_fields schedule
    (readFields_object (by simp) (by simp) (by simp))
    (readPlanRef_planValue hi) (readU32_natCast ha)

end

end Permanu.ScheduleBinding
