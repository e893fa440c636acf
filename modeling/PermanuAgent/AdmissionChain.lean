import PermanuAgent.AdmissionRun
import PermanuAgent.PlanAuthority
import PermanuAgent.LinkedRows

/-!
# The chain of admissions

Along every run the admissions keep distinct plan ids and nonces, are numbered
from one without a gap, and the admissions of each scope form a hash chain from
the genesis head to the stored head. A plan that is not forced was signed over
the head it found.
-/

set_option autoImplicit false

namespace Permanu.AdmissionChain
open ByteText JsonValue PlanCrypto List
open PlanTrust PlanVerify PlanAuthority ResultSteps
open TableRows LinkedRows AdmissionStore
open AdmissionAdmit AdmissionWrite AdmissionRun

variable (prim : Primitives) (alerts : AlertSpecs)

def scopeRows (scope : Str × Str) (rows : List AdmissionRow) : List AdmissionRow :=
  rows.filter fun r => r.scope = scope

/-- The admissions of a store as a chain, with the heads at its ends. -/
structure Chained (rows : List AdmissionRow) (heads : List HeadRow) : Prop where
  ids : (rows.map AdmissionRow.planId).Nodup
  nonces : (rows.map AdmissionRow.nonce).Nodup
  seqs : rows.map AdmissionRow.admissionSeq = List.range' 1 rows.length
  linked : ∀ scope, Linked AdmissionRow.headBeforeHex AdmissionRow.headAfterHex genesisHead
    (scopeRows scope rows)
  hashed : ∀ r ∈ rows, r.headAfterHex = nextHead prim r.headBeforeHex r.planDigestHex
  head : ∀ scope, (rowOf HeadRow.key scope heads).map HeadRow.headDigestHex =
    (scopeRows scope rows).getLast?.map AdmissionRow.headAfterHex

theorem Chained.of_core {rows rows' : List AdmissionRow} {heads : List HeadRow}
    (hc : Chained prim rows heads) (h : rows'.map AdmissionRow.core = rows.map AdmissionRow.core) :
    Chained prim rows' heads := by
  have hlen : rows'.length = rows.length := by simpa using congrArg List.length h
  have hscope : ∀ scope, (scopeRows scope rows').map AdmissionRow.core =
      (scopeRows scope rows).map AdmissionRow.core :=
    fun scope => filter_of_core _ (fun _ => rfl) h
  refine ⟨?_,?_,?_,fun scope => ?_,fun r hr => ?_,fun scope => ?_⟩
  · rw [map_of_core AdmissionRow.core _ (fun _ => rfl) h]
    exact hc.ids
  · rw [map_of_core AdmissionRow.core _ (fun _ => rfl) h]
    exact hc.nonces
  · rw [map_of_core AdmissionRow.core _ (fun _ => rfl) h, hlen]
    exact hc.seqs
  · have hl := (linked_map AdmissionRow.headBeforeHex AdmissionRow.headAfterHex AdmissionRow.core
      genesisHead).mpr (hc.linked scope)
    rw [← hscope] at hl
    exact (linked_map _ _ AdmissionRow.core _).mp hl
  · obtain ⟨s,hs,he⟩ := mem_of_core h hr
    have hh := hc.hashed s hs
    change s.core.headAfterHex = nextHead prim s.core.headBeforeHex s.core.planDigestHex at hh
    rw [he] at hh
    exact hh
  · have hl : (scopeRows scope rows').map AdmissionRow.headAfterHex =
        (scopeRows scope rows).map AdmissionRow.headAfterHex :=
      map_of_core AdmissionRow.core _ (fun _ => rfl) (hscope scope)
    rw [hc.head, ← getLast?_map, ← getLast?_map, hl]

theorem foldr_max_range (n : ℕ) : (List.range' 1 n).foldr max 0 = n := by
  have hle : ∀ (l : List ℕ) (b : ℕ), l.foldr max b = max (l.foldr max 0) b := by
    intro l b
    induction l with
    | nil => simp
    | cons a l ih => rw [foldr_cons, foldr_cons, ih, max_assoc]
  induction n with
  | zero => rfl
  | succ n ih =>
    rw [range'_1_concat, foldr_append, hle, ih]
    simp only [foldr_cons, foldr_nil]
    omega

variable {after store : Store} {trust : TrustStore} {input : AdmitInput} {v : VerifiedPlan}

theorem nextSeq_of_seqs
    (h : store.admissions.map AdmissionRow.admissionSeq = List.range' 1 store.admissions.length) :
    nextSeq store = store.admissions.length + 1 := by
  rw [nextSeq, h, foldr_max_range]

theorem checkBase_unforced {ctx : PolicyContext} {p : Value} {signers : List Value}
    (h : checkBase p signers ctx = .ok ()) (hf : (p["base"]!)["force"]! ≠ .bool true) :
    ∃ head, ctx.head p["project_id"]!.text p["environment"]!.text = .ok head ∧
      (p["base"]!)["heads"]!.get ctx.trust.serverId = .string head := by
  simp only [checkBase, hf, if_false, bind_ok, ensure_ok, beq_iff_eq] at h
  exact h

/-- A plan that is not forced names the head it found as its base. -/
theorem admits_based (h : Admits prim alerts store trust input v after)
    (hf : (v.plan["base"]!)["force"]! ≠ .bool true) :
    (v.plan["base"]!)["heads"]!.get trust.serverId =
      .string (admissionRow prim store v input).headBeforeHex := by
  obtain ⟨signatures,digest,rule,f⟩ := verifySignedPlan_admit h.verified
  obtain ⟨head,hh,hb⟩ := checkBase_unforced f.base hf
  cases hh
  exact hb

theorem scopeRows_concat (scope : Str × Str) (rows : List AdmissionRow) (row : AdmissionRow) :
    scopeRows scope (rows ++ [row]) =
      if row.scope = scope then scopeRows scope rows ++ [row] else scopeRows scope rows := by
  by_cases h : row.scope = scope <;> simp [scopeRows, h]

theorem rowOf_setHead (row : AdmissionRow) (heads : List HeadRow) (scope : Str × Str) :
    (rowOf HeadRow.key scope (setHead row heads)).map HeadRow.headDigestHex =
      if row.scope = scope then some row.headAfterHex
      else (rowOf HeadRow.key scope heads).map HeadRow.headDigestHex := by
  rw [setHead, rowOf_upsert]
  exact apply_ite (Option.map HeadRow.headDigestHex) _ _ _

/-- The stored head of a scope is where its chain ends. -/
theorem Chained.headOf
    (hc : Chained prim store.admissions store.heads) (projectId environment : Str) :
    headOf store projectId environment = lastValue AdmissionRow.headAfterHex genesisHead
      (scopeRows (projectId, environment) store.admissions) := by
  rw [AdmissionAdmit.headOf, hc.head, lastValue]

theorem Chained.written (hc : Chained prim store.admissions store.heads)
    (h : Admits prim alerts store trust input v after) :
    Chained prim after.admissions after.heads := by
  have hw := h.written
  rw [hw.admissions, hw.heads]
  refine ⟨?_,?_,?_,fun scope => ?_,?_,fun scope => ?_⟩
  · rw [map_append, nodup_append]
    refine ⟨hc.ids,by simp,?_⟩
    rintro _ ha _ hb rfl
    obtain ⟨r,hr,hid⟩ := mem_map.mp ha
    refine (hw.fresh r hr).1 ?_
    simpa [admissionRow, hid] using hb
  · rw [map_append, nodup_append]
    refine ⟨hc.nonces,by simp,?_⟩
    rintro _ ha _ hb rfl
    obtain ⟨r,hr,hid⟩ := mem_map.mp ha
    refine (hw.fresh r hr).2 ?_
    simpa [admissionRow, hid] using hb
  · have hseq : (admissionRow prim store v input).admissionSeq = store.admissions.length + 1 :=
      nextSeq_of_seqs hc.seqs
    rw [map_append, hc.seqs, length_append, map_singleton, length_singleton,
      hseq, range'_1_concat, Nat.add_comm 1]
  · rw [scopeRows_concat]
    split_ifs with hs
    · refine (linked_concat _ _ _).mpr ⟨hc.linked scope,?_⟩
      rw [← hs]
      exact hc.headOf prim _ _
    · exact hc.linked scope
  · exact forall_mem_append.mpr ⟨hc.hashed,forall_mem_singleton.mpr rfl⟩
  · rw [rowOf_setHead, scopeRows_concat]
    split_ifs with hs
    · simp
    · exact hc.head scope

theorem chained_reachable {now : ℤ} {quarantine : Option ℤ} {ops : List Op} :
    Chained prim (storeAfter prim alerts now quarantine ops).admissions
      (storeAfter prim alerts now quarantine ops).heads := by
  refine storeAfter_induction
    (fun _ store => Chained prim store.admissions store.heads) ?_ ?_ ?_
  · exact ⟨nodup_nil,nodup_nil,rfl,fun _ => trivial,by simp [createdStore],fun _ => rfl⟩
  · intro ops trust input v hc ha
    exact hc.written prim alerts ha.admits
  · intro _ _ store after hc hk
    rw [hk.heads]
    exact hc.of_core prim hk.admissions

/-- Replay protection and the hash chain hold after every run: of admissions that
succeed or fail with any clock, forced or not, of results, expiries and deliveries.
Every admission is a plan that one operation of the run admitted and, unless it was
forced, its signed base is the head it found. -/
theorem admissions_chained (now : ℤ) (quarantine : Option ℤ) (ops : List Op) :
    Chained prim (storeAfter prim alerts now quarantine ops).admissions
        (storeAfter prim alerts now quarantine ops).heads ∧
      ∀ r ∈ (storeAfter prim alerts now quarantine ops).admissions, ∃ before trust input v,
        AdmittedAfter prim alerts now quarantine ops before trust input v ∧
        r.core = admissionRow prim (storeAfter prim alerts now quarantine before) v input ∧
        ((v.plan["base"]!)["force"]! ≠ .bool true →
          (v.plan["base"]!)["heads"]!.get trust.serverId = .string r.headBeforeHex) := by
  refine ⟨chained_reachable prim alerts,fun r hr => ?_⟩
  obtain ⟨before,trust,input,v,hb,hrow⟩ := admission_written r hr
  refine ⟨before,trust,input,v,hb,hrow,fun hf => ?_⟩
  have hhead : r.headBeforeHex = (admissionRow prim
      (storeAfter prim alerts now quarantine before) v input).headBeforeHex := by
    rw [← hrow]
    rfl
  rw [hhead]
  exact admits_based prim alerts hb.admits hf

end Permanu.AdmissionChain
