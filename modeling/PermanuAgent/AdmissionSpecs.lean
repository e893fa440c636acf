import PermanuAgent.AdmissionRun
import PermanuAgent.PlanBinding

/-!
# The origin of the stored specs

Every stored spec, and every spec made current for a service, comes from a plan
the run admitted. A spec is stored once under its digest, so a later plan with
the same digest has the same text unless two submitted texts collide.
-/

set_option autoImplicit false

namespace Permanu.AdmissionSpecs
open ByteText JsonValue PlanText PlanCrypto PlanSpec List
open PlanActions PlanTrust PlanVerify PlanAuthority
open PlanBinding TableRows
open AdmissionStore AdmissionAdmit AdmissionWrite AdmissionRun

variable (prim : Primitives) (alerts : AlertSpecs)

def opSpecs : Op → List Str
  | .admitPlan _ input => input.specs
  | _ => []

def submittedSpecs (ops : List Op) : List Str := ops.flatMap opSpecs

/-- No two of the texts have the same spec digest. -/
def CollisionFree (texts : List Str) : Prop :=
  ∀ a ∈ texts, ∀ b ∈ texts, digestHex prim specPrefix a = digestHex prim specPrefix b → a = b

variable {action p : Value} {e : Str × (Value × Str)} {row : SpecRow}

section Admitted
variable {now : ℤ} {quarantine : Option ℤ} {ops before : List Op} {trust : TrustStore}
  {input : AdmitInput} {v : VerifiedPlan}

theorem AdmittedAfter.bound
    (h : AdmittedAfter prim alerts now quarantine ops before trust input v) :
    Bound prim v.plan input.specs v.specs := by
  obtain ⟨_,_,_,f⟩ := verifySignedPlan_admit h.admits.verified
  exact bindSpecs_bound prim f.specs

theorem AdmittedAfter.plan_eq
    (h : AdmittedAfter prim alerts now quarantine ops before trust input v)
    (hp : (parseEnvelope prim input.envelope).toOption.map Prod.fst = some p) : v.plan = p := by
  obtain ⟨signatures,_,_,f⟩ := verifySignedPlan_admit h.admits.verified
  rw [f.envelope] at hp
  exact Option.some.inj hp

theorem AdmittedAfter.submitted
    (h : AdmittedAfter prim alerts now quarantine ops before trust input v) (he : e ∈ v.specs) :
    e.2.2 ∈ submittedSpecs ops := by
  have hop : Op.admitPlan trust input ∈ ops := h.within.subset (by simp)
  exact mem_flatMap.mpr ⟨_,hop,((AdmittedAfter.bound prim alerts h).entries e he).submitted⟩

theorem makesCurrent_pins (h : makesCurrent action = true) :
    pinsSpec action = true := by
  simp only [makesCurrent, pinsSpec, Bool.or_eq_true] at h ⊢
  refine h.imp (fun hk => ?_) id
  obtain ⟨s,hs,hkind⟩ := kindIn_text (by decide) hk
  rw [hs]
  exact kindIn_mono (by decide) hkind

/-- Every spec of a plan is pinned by one of its actions, of the spec's service. -/
theorem AdmittedAfter.wanted (h : AdmittedAfter prim alerts now quarantine ops before trust input v)
    (he : e ∈ v.specs) :
    ∃ a ∈ v.plan["actions"]!.items, pinsSpec a = true ∧ e.2.1["service_id"]! = pinnedService a := by
  have hb := AdmittedAfter.bound prim alerts h
  obtain ⟨a,ha,hp,hbind⟩ := hb.wanted e he
  obtain ⟨_,value,text,hl,hs,_,_⟩ := bindAction_some hbind
  rw [lookup_of_mem hb.nodup he, Option.some.injEq] at hl
  refine ⟨a,ha,hp,?_⟩
  rw [hl]
  exact hs

/-- The spec an action pins is one the plan carries, of the action's service. -/
theorem AdmittedAfter.pinned (h : AdmittedAfter prim alerts now quarantine ops before trust input v)
    (ha : action ∈ v.plan["actions"]!.items) (hp : pinsSpec action = true) :
    ∃ e ∈ v.specs, (action["params"]!)["spec_digest_hex"]! = .string e.1 ∧
      e.2.1["service_id"]! = pinnedService action := by
  obtain ⟨digest,hb⟩ := (AdmittedAfter.bound prim alerts h).pinned action ha hp
  obtain ⟨hd,value,text,hl,hs,_,_⟩ := bindAction_some hb
  exact ⟨(digest, (value, text)),mem_of_lookup hl,hd,hs⟩

end Admitted

section
variable (v : VerifiedPlan) (time : Str) (specs : List SpecRow)

variable {specs}

theorem mem_insertSpecs
    (h : row ∈ insertSpecs v time specs) : row ∈ specs ∨ ∃ e ∈ v.specs, row = specRow v time e := by
  suffices hfold : ∀ (entries : Specs) (rows : List SpecRow),
      row ∈ entries.foldl (fun rows e => insertIgnore SpecRow.key (specRow v time e) rows) rows →
      row ∈ rows ∨ ∃ e ∈ entries, row = specRow v time e from hfold v.specs specs h
  intro entries
  induction entries with
  | nil => exact fun rows h => .inl h
  | cons e rest ih =>
    intro rows h
    rcases ih _ h with hm | ⟨e',he',hr⟩
    · rcases mem_insertIgnore _ _ hm with hm | hm
      · exact .inl hm
      · exact .inr ⟨e,by simp,hm⟩
    · exact .inr ⟨e',by simp [he'],hr⟩

theorem foldl_insertIgnore_mono {v : VerifiedPlan} {time : Str} {entries : Specs}
    (rows : List SpecRow) : rows ⊆
      entries.foldl (fun rows e => insertIgnore SpecRow.key (specRow v time e) rows) rows := by
  induction entries generalizing rows with
  | nil => exact List.Subset.refl rows
  | cons e rest ih => exact List.Subset.trans (subset_insertIgnore _ _) (ih _)

theorem subset_insertSpecs :
    specs ⊆ insertSpecs v time specs := foldl_insertIgnore_mono specs

/-- Every spec of the plan is stored under its digest afterwards. -/
theorem exists_key_insertSpecs (he : e ∈ v.specs) :
    ∃ row ∈ insertSpecs v time specs, row.specDigestHex = e.1 := by
  obtain ⟨l₁,l₂,hl⟩ := append_of_mem he
  rw [insertSpecs, hl, foldl_append, foldl_cons]
  obtain ⟨row,hr,hk⟩ := exists_key_insertIgnore SpecRow.key (specRow v time e)
  exact ⟨row,foldl_insertIgnore_mono _ hr,hk⟩

end

theorem mem_currentRows {time : Str} {actions : List Value}
    (rows : List ServiceSpecRow) {row : ServiceSpecRow}
    (h : row ∈ actions.foldl (currentRows p time) rows) :
    row ∈ rows ∨ ∃ a ∈ actions, makesCurrent a = true ∧ row = serviceSpecRow p time a := by
  induction actions generalizing rows with
  | nil => exact .inl h
  | cons a rest ih =>
    rcases ih _ h with hm | ⟨b,hb,hr⟩
    · simp only [currentRows] at hm
      split_ifs at hm with hc
      · rcases mem_upsert _ _ hm with hm | rfl
        · exact .inl hm
        · exact .inr ⟨a,by simp,hc,rfl⟩
      · exact .inl hm
    · exact .inr ⟨b,by simp [hb],hr⟩

def SpecFrom (now : ℤ) (quarantine : Option ℤ) (ops : List Op) (row : SpecRow) : Prop :=
  ∃ before trust input v e, AdmittedAfter prim alerts now quarantine ops before trust input v ∧
    e ∈ v.specs ∧ row = specRow v (formatTimestamp input.now) e

def CurrentFrom (now : ℤ) (quarantine : Option ℤ) (ops : List Op) (row : ServiceSpecRow) : Prop :=
  ∃ before trust input v action,
    AdmittedAfter prim alerts now quarantine ops before trust input v ∧
    action ∈ v.plan["actions"]!.items ∧ makesCurrent action = true ∧
    row = serviceSpecRow v.plan (formatTimestamp input.now) action

variable {quarantine : Option ℤ} {now : ℤ}

theorem SpecFrom.mono {ops : List Op}
    (h : SpecFrom prim alerts now quarantine ops row) {op : Op} :
    SpecFrom prim alerts now quarantine (ops ++ [op]) row := by
  obtain ⟨before,trust,input,v,e,ha,hrest⟩ := h
  exact ⟨before,trust,input,v,e,ha.mono,hrest⟩

theorem CurrentFrom.mono {ops : List Op} {row : ServiceSpecRow}
    (h : CurrentFrom prim alerts now quarantine ops row) {op : Op} :
    CurrentFrom prim alerts now quarantine (ops ++ [op]) row := by
  obtain ⟨before,trust,input,v,action,ha,hrest⟩ := h
  exact ⟨before,trust,input,v,action,ha.mono,hrest⟩

theorem specs_from (now : ℤ) (quarantine : Option ℤ) (ops : List Op) :
    (∀ row ∈ (storeAfter prim alerts now quarantine ops).specs,
      SpecFrom prim alerts now quarantine ops row) ∧
    ∀ row ∈ (storeAfter prim alerts now quarantine ops).serviceSpecs,
      CurrentFrom prim alerts now quarantine ops row := by
  refine storeAfter_induction (fun ops store =>
    (∀ row ∈ store.specs, SpecFrom prim alerts now quarantine ops row) ∧
      ∀ row ∈ store.serviceSpecs, CurrentFrom prim alerts now quarantine ops row) ?_ ?_ ?_
  · simp [createdStore]
  · intro ops trust input v h ha
    refine ⟨fun row hr => ?_,fun row hr => ?_⟩
    · rw [ha.admits.written.specs] at hr
      rcases mem_insertSpecs _ _ hr with hr | ⟨e,he,rfl⟩
      · exact (h.1 row hr).mono prim alerts
      · exact ⟨ops,trust,input,v,e,ha,he,rfl⟩
    · rw [ha.admits.written.serviceSpecs] at hr
      rcases mem_currentRows _ hr with hr | ⟨a,hm,hc,rfl⟩
      · exact (h.2 row hr).mono prim alerts
      · exact ⟨ops,trust,input,v,a,ha,hm,hc,rfl⟩
  · intro ops op store after h hk
    rw [hk.specs, hk.serviceSpecs]
    exact ⟨fun row hr => (h.1 row hr).mono prim alerts,
      fun row hr => (h.2 row hr).mono prim alerts⟩

/-- Without collisions a stored spec is the one every plan with its digest carries. -/
theorem stored_spec {ops before : List Op} {trust : TrustStore}
    {input : AdmitInput} {v : VerifiedPlan} (hfree : CollisionFree prim (submittedSpecs ops))
    (h : AdmittedAfter prim alerts now quarantine ops before trust input v) (he : e ∈ v.specs)
    (hrow : SpecFrom prim alerts now quarantine ops row) (hd : row.specDigestHex = e.1) :
    row.specJcs = e.2.2 ∧ row.serviceId = e.2.1["service_id"]!.text := by
  obtain ⟨before',trust',input',v',e',h',he',rfl⟩ := hrow
  have hp := ((AdmittedAfter.bound prim alerts h).entries e he).parsed
  have hp' := ((AdmittedAfter.bound prim alerts h').entries e' he').parsed
  have htext : e'.2.2 = e.2.2 := by
    apply hfree _ (AdmittedAfter.submitted prim alerts h' he') _
      (AdmittedAfter.submitted prim alerts h he)
    rw [← (parseSpec_some prim hp).2.2, ← (parseSpec_some prim hp').2.2]
    exact hd
  rw [htext, hp, Option.some.injEq, Prod.mk.injEq] at hp'
  refine ⟨htext,?_⟩
  simp only [specRow]
  rw [hp'.1]

def noAlerts : AlertSpecs := ⟨fun _ => true,fun _ => some []⟩

def hashText (digest : Digest) : Value := .string (hex digest.val)

def sampleSpec (service : Value) (image replicas : ℕ) (isPrivileged : Bool) : Value := .obj
  [("version", .number 1), ("service_id", service), ("image_repository", .txt "app"),
    ("image_digest_hex", hashText (digestOfNat image)), ("entrypoint", .null), ("command", .null),
    ("working_dir", .null), ("user", .null), ("env", .obj []), ("ports", .array []),
    ("mounts", .array []),
    ("resources", .obj [("cpu_millis", .null), ("memory_bytes", .null), ("pids_limit", .null)]),
    ("privileged", .bool isPrivileged), ("cap_add", .array []),
    ("network", .obj [("mode", .txt "project"), ("aliases", .array [])]), ("healthcheck", .null),
    ("replicas", .number replicas), ("placement", .obj [("server_ids", .array [ident 1])]),
    ("secrets_as_files_only", .bool false), ("service_kind", .txt "web"),
    ("otel_inject", .bool false)]

def webSpec : Value := sampleSpec (ident 10) 7 1 false

def webSpecHash : Digest :=
  digestOfNat 0x0f6d53bc5da78eaca0dc40562253d35ea5d6a994487be40ef67f98561416a156

def sampleDeploy (service : Value) (deployment : ℕ) (commit : Value) (spec : Digest) : Value :=
  sampleAction "deploy" [("service_id", service), ("commit_sha", commit),
    ("spec_digest_hex", hashText spec), ("deployment_id", ident deployment)]

def sampleRule (id : ℕ) : Value := .obj
  [("version", .number 1), ("id", ident id), ("label", .txt "Push"), ("trigger", .txt "git.push"),
    ("scope", .obj
      [("project_id", ident 3), ("environment", .txt "production"),
        ("service_ids", .array [ident 10]), ("server_ids", .array [ident 1]),
        ("repo", .txt "acme/app"), ("branch_patterns", .array [.txt "refs/heads/main"])]),
    ("allowed_kinds", .array [.txt "deploy", .txt "scale"]),
    ("limits", .obj [("max_replicas", .number 2), ("max_invocations_per_hour", .number 10)]),
    ("not_before", .txt "2026-01-01T00:00:00Z"), ("expires_at", .txt "2026-02-01T00:00:00Z")]

def firstRuleHash : Digest :=
  digestOfNat 0x04b6a5d5fe8c4442fc56182c8573676151792f5152cefa6c3bbcea8c791fa979

def clientInput (envelope : Str) (specs : List Str) (now : ℤ) : AdmitInput :=
  ⟨envelope,specs,[],.client,now,[],[]⟩

def headPreimage (head : Str) (plan : Digest) : Str :=
  str "permanu-state-v1\n" ++ head ++ [10] ++ hex plan.val

end Permanu.AdmissionSpecs
