import PermanuAgent.PlanAuthority
import PermanuAgent.TableRows

/-!
# The specs a plan binds

What a successful binding says: every spec is a valid canonical text under its
own digest, every action that pins a spec pins one of them, of its own service,
and an elevated spec is pinned only in a plan that elevates its digest.
-/

set_option autoImplicit false

namespace Permanu.PlanBinding
open ByteText JsonValue PlanSpec PlanActions List
open PlanCrypto PlanJcs PlanVerify
open TableRows

variable (prim : Primitives)

variable {kinds : List String} {specs : Specs} {elevated texts : List Str} {digest : Str}
  {p : Value}

theorem kindIn_text {v : Value} (he : kindIn kinds [] = false)
    (h : kindIn kinds v.text = true) : ∃ s, v = .string s ∧ kindIn kinds s = true := by
  cases hv : v.asStr with
  | none => simp [Value.text, hv, he] at h
  | some s =>
    rw [Value.text, hv] at h
    exact ⟨s,Value.asStr_eq_some.mp hv,h⟩

theorem kindIn_mono {kinds' : List String} (hs : kinds ⊆ kinds') {s : Str}
    (h : kindIn kinds s = true) : kindIn kinds' s = true := by
  simp only [kindIn, any_eq_true] at h ⊢
  obtain ⟨k,hk,he⟩ := h
  exact ⟨k,hs hk,he⟩

structure SpecEntry (texts : List Str) (entry : Str × (Value × Str)) : Prop where
  submitted : entry.2.2 ∈ texts
  parsed : parseSpec prim entry.2.2 = some (entry.2.1, entry.1)

theorem collectSpecs_entries (acc : Specs) {all : List Str} (hs : texts ⊆ all)
    (ha : ∀ e ∈ acc, SpecEntry prim all e) (hn : (acc.map Prod.fst).Nodup)
    (h : collectSpecs prim acc texts = some specs) :
    (∀ e ∈ specs, SpecEntry prim all e) ∧ (specs.map Prod.fst).Nodup := by
  induction texts generalizing acc with
  | nil =>
    cases h
    exact ⟨ha,hn⟩
  | cons text rest ih =>
    simp only [collectSpecs] at h
    split at h
    · cases h
    · rename_i value digest hp
      split_ifs at h with hl
      refine ih (acc ++ [(digest, (value, text))]) (fun t ht => hs (by simp [ht])) ?_ ?_ h
      · exact forall_mem_append.mpr ⟨ha,forall_mem_singleton.mpr ⟨hs (by simp),hp⟩⟩
      · rw [map_append, nodup_append]
        refine ⟨hn,by simp,?_⟩
        rintro _ hm _ hd rfl
        obtain ⟨⟨k,b⟩,hk,rfl⟩ := mem_map.mp hm
        have hd : k = digest := by simpa using hd
        subst hd
        exact hl (by simp [lookup_of_mem hn hk])

theorem parseSpec_some {text : Str} {value : Value}
    (h : parseSpec prim text = some (value, digest)) :
    parseStrict text maxSpecBytes = some value ∧ specShape value = true ∧
      digest = digestHex prim specPrefix text := by
  simp only [parseSpec] at h
  split at h
  · cases h
  · rename_i v hv
    split_ifs at h with hc
    cases h
    rw [Bool.and_eq_true] at hc
    exact ⟨hv,hc.1,rfl⟩

theorem bindAction_some {action : Value} (h : bindAction specs elevated action = some digest) :
    (action["params"]!)["spec_digest_hex"]! = .string digest ∧ ∃ value text,
      specs.lookup digest = some (value, text) ∧ value["service_id"]! = pinnedService action ∧
      (action["kind"]!.is "scale" = true → value["replicas"]! = (action["params"]!)["replicas"]!) ∧
      (specElevated value = true → action["kind"]!.is "service.elevate" = true ∨
        digest ∈ elevated) := by
  simp only [bindAction] at h
  split at h
  · cases h
  · rename_i d hd
    split at h
    · cases h
    · rename_i value text hl
      split_ifs at h with hc
      cases h
      simp only [Bool.or_eq_true, Bool.and_eq_true, decide_eq_true_eq, bne_iff_ne,
        Bool.not_eq_true', not_or, not_and, not_not] at hc
      obtain ⟨⟨hservice,hscale⟩,helev⟩ := hc
      refine ⟨Value.asStr_eq_some.mp hd,value,text,hl,hservice,hscale,fun he => ?_⟩
      by_cases hk : action["kind"]!.is "service.elevate" = true
      · exact .inl hk
      · refine .inr ?_
        have := helev ⟨by simpa using hk,he⟩
        simpa using this

theorem bindActions_some {actions : List Value}
    (wanted : List Str) (h : bindActions specs elevated actions = some wanted) :
    (∀ a ∈ actions, pinsSpec a = true → ∃ digest, bindAction specs elevated a = some digest) ∧
      ∀ digest ∈ wanted, ∃ a ∈ actions, pinsSpec a = true ∧
        bindAction specs elevated a = some digest := by
  induction actions generalizing wanted with
  | nil =>
    cases h
    simp
  | cons action rest ih =>
    simp only [bindActions] at h
    split_ifs at h with hk hp
    · obtain ⟨hall,hw⟩ := ih wanted h
      refine ⟨fun a ha hpin => ?_,fun d hd => ?_⟩
      · rcases mem_cons.mp ha with rfl | ha
        · simp [hpin] at hp
        · exact hall a ha hpin
      · obtain ⟨a,ha,hb⟩ := hw d hd
        exact ⟨a,by simp [ha],hb⟩
    · simp only [Option.bind_eq_bind, Option.bind_eq_some_iff, Option.pure_def,
        Option.some.injEq] at h
      obtain ⟨digest,hd,tail,ht,rfl⟩ := h
      obtain ⟨hall,hw⟩ := ih tail ht
      refine ⟨fun a ha hpin => ?_,fun d hm => ?_⟩
      · rcases mem_cons.mp ha with rfl | ha
        · exact ⟨digest,hd⟩
        · exact hall a ha hpin
      · rcases mem_cons.mp hm with rfl | hm
        · exact ⟨action,by simp,by simpa using hp,hd⟩
        · obtain ⟨a,ha,hb⟩ := hw d hm
          exact ⟨a,by simp [ha],hb⟩

structure Bound (p : Value) (texts : List Str) (specs : Specs) : Prop where
  entries : ∀ e ∈ specs, SpecEntry prim texts e
  nodup : (specs.map Prod.fst).Nodup
  pinned : ∀ a ∈ p["actions"]!.items, pinsSpec a = true →
    ∃ digest, bindAction specs (elevations p) a = some digest
  wanted : ∀ e ∈ specs, ∃ a ∈ p["actions"]!.items, pinsSpec a = true ∧
    bindAction specs (elevations p) a = some e.1

theorem bindSpecs_bound
    (h : bindSpecs prim p texts = some specs) : Bound prim p texts specs := by
  simp only [bindSpecs] at h
  split_ifs at h
  simp only [Option.bind_eq_bind, Option.bind_eq_some_iff] at h
  obtain ⟨collected,hc,actions,ha,wanted,hw,h⟩ := h
  split_ifs at h with hsame
  simp only [Option.pure_def, Option.some.injEq] at h
  subst h
  obtain ⟨hentries,hnodup⟩ := collectSpecs_entries prim []
    (List.Subset.refl _) (by simp) nodup_nil hc
  obtain ⟨hpinned,hwanted⟩ := bindActions_some wanted hw
  have hitems : p["actions"]!.items = actions := by simp [Value.items, ha]
  simp only [sameSet, Bool.and_eq_true, all_eq_true] at hsame
  refine ⟨hentries,hnodup,by rwa [hitems],fun e he => ?_⟩
  rw [hitems]
  refine hwanted e.1 ?_
  simpa using hsame.1 e.1 (mem_map_of_mem he)

/-- A plan that carries an elevated spec has an action that elevates its digest. -/
theorem Bound.elevating
    (h : Bound prim p texts specs) {e : Str × (Value × Str)} (he : e ∈ specs)
    (helev : specElevated e.2.1 = true) :
    ∃ a ∈ p["actions"]!.items, a["kind"]! = .string (str "service.elevate") ∧
      (a["params"]!)["spec_digest_hex"]! = .string e.1 := by
  obtain ⟨a,ha,_,hb⟩ := h.wanted e he
  obtain ⟨hd,value,text,hl,_,_,hel⟩ := bindAction_some hb
  rw [lookup_of_mem h.nodup he, Option.some.injEq] at hl
  rw [hl] at helev
  rcases hel helev with hk | hm
  · exact ⟨a,ha,Value.is_iff.mp hk,hd⟩
  · simp only [elevations, mem_filterMap, mem_filter] at hm
    obtain ⟨b,⟨hb,hk⟩,hdb⟩ := hm
    exact ⟨b,hb,Value.is_iff.mp hk,Value.asStr_eq_some.mp hdb⟩

end Permanu.PlanBinding
