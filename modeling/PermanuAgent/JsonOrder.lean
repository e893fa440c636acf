import PermanuAgent.JsonValue

/-!
# Members in order

A value that was read has the members of every object in strictly increasing
order of their names. Putting members in order keeps each member, and a value
in order is determined by its members in any order.
-/

set_option autoImplicit false

namespace Permanu.JsonOrder
open ByteText JsonValue JsonValue.Value List

variable {d : ℕ} {a b : Str} {field : String} {w : Value}

mutual
def Ordered : Value → Prop
  | .array items => OrderedItems items
  | .object members => (members.map Prod.fst).Pairwise (· < ·) ∧ OrderedMembers members
  | _ => True
def OrderedItems : List Value → Prop
  | [] => True
  | v::vs => Ordered v ∧ OrderedItems vs
def OrderedMembers : List (Str × Value) → Prop
  | [] => True
  | (_,v)::rest => Ordered v ∧ OrderedMembers rest
end

mutual
def depth : Value → ℕ
  | .array items => depthItems items + 1
  | .object members => depthMembers members + 1
  | _ => 0
def depthItems : List Value → ℕ
  | [] => 0
  | v::vs => max (depth v) (depthItems vs)
def depthMembers : List (Str × Value) → ℕ
  | [] => 0
  | (_,v)::rest => max (depth v) (depthMembers rest)
end

theorem orderedItems_iff {items : List Value} : OrderedItems items ↔ ∀ v ∈ items, Ordered v := by
  induction items with
  | nil => simp [OrderedItems]
  | cons v vs ih => simp [OrderedItems, ih]

theorem orderedMembers_iff {members : List (Str × Value)} :
    OrderedMembers members ↔ ∀ m ∈ members, Ordered m.2 := by
  induction members with
  | nil => simp [OrderedMembers]
  | cons m rest ih =>
    simp only [OrderedMembers, ih, mem_cons, forall_eq_or_imp]

theorem depthMembers_le {members : List (Str × Value)} :
    depthMembers members ≤ d ↔ ∀ m ∈ members, depth m.2 ≤ d := by
  induction members with
  | nil => simp [depthMembers]
  | cons m rest ih =>
    simp only [depthMembers, max_le_iff, ih, mem_cons, forall_eq_or_imp]

theorem depthItems_le {items : List Value} :
    depthItems items ≤ d ↔ ∀ v ∈ items, depth v ≤ d := by
  induction items with
  | nil => simp [depthItems]
  | cons v vs ih => simp only [depthItems, max_le_iff, ih, mem_cons, forall_eq_or_imp]

section
variable (k : Str) (v : Value) (members : List (Str × Value))

theorem mem_insertMember {m : Str × Value}
    (h : m ∈ insertMember k v members) : m = (k,v) ∨ m ∈ members := by
  induction members with
  | nil => simpa [insertMember] using h
  | cons entry rest ih =>
    simp only [insertMember] at h
    split_ifs at h
    · rcases mem_cons.mp h with h | h
      · exact .inl h
      · exact .inr (by simp [h])
    · simpa using h
    · rcases mem_cons.mp h with h | h
      · exact .inr (by simp [h])
      · exact (ih h).imp_right (by simp +contextual)

theorem insertMember_perm
    (h : k ∉ members.map Prod.fst) : (insertMember k v members).Perm ((k,v)::members) := by
  induction members with
  | nil => exact List.Perm.refl _
  | cons entry rest ih =>
    obtain ⟨l,w⟩ := entry
    simp only [map_cons, mem_cons, not_or] at h
    simp only [insertMember, if_neg h.1]
    split_ifs
    · exact List.Perm.refl _
    · exact ((ih h.2).cons (l,w)).trans (List.Perm.swap _ _ _)

theorem lt_of_leText (hne : a ≠ b) (h : leText a b = true) : a < b := by
  have hle : a ≤ b := by simpa [leText] using h
  by_contra hlt
  exact hne (List.le_antisymm hle (List.not_lt.mp hlt))

theorem lt_of_not_leText (h : ¬ leText a b = true) : b < a := by
  by_contra hlt
  exact h (by simpa [leText] using List.not_lt.mp hlt)

theorem insertMember_pairwise (h : (members.map Prod.fst).Pairwise (· < ·)) :
    ((insertMember k v members).map Prod.fst).Pairwise (· < ·) := by
  induction members with
  | nil => simp [insertMember]
  | cons entry rest ih =>
    obtain ⟨l,w⟩ := entry
    rw [map_cons, pairwise_cons] at h
    simp only [insertMember]
    split_ifs with hk hle
    · rw [map_cons, pairwise_cons]
      exact ⟨hk ▸ h.1,h.2⟩
    · have hlt := lt_of_leText hk hle
      simp only [map_cons, pairwise_cons, mem_cons, forall_eq_or_imp]
      exact ⟨⟨hlt,fun a ha => List.lt_trans hlt (h.1 a ha)⟩,h⟩
    · rw [map_cons, pairwise_cons]
      refine ⟨fun a ha => ?_,ih h.2⟩
      obtain ⟨m,hm,rfl⟩ := mem_map.mp ha
      rcases mem_insertMember k v rest hm with rfl | hm
      · exact lt_of_not_leText hle
      · exact h.1 _ (mem_map_of_mem hm)

theorem lookup_insertMember_ne {k l : Str} {v : Value} {members : List (Str × Value)}
    (h : l ≠ k) : (insertMember k v members).lookup l = members.lookup l := by
  have hb : (l == k) = false := beq_false_of_ne h
  induction members with
  | nil => simp [insertMember, lookup_cons, hb]
  | cons entry rest ih =>
    obtain ⟨name,held⟩ := entry
    simp only [insertMember]
    split_ifs with hk
    · subst hk
      simp [lookup_cons, hb]
    · simp [lookup_cons, hb]
    · simp only [lookup_cons, ih]

theorem lookup_insertMember_self : (insertMember k v members).lookup k = some v := by
  induction members with
  | nil => simp [insertMember]
  | cons entry rest ih =>
    obtain ⟨name,held⟩ := entry
    simp only [insertMember]
    split_ifs with hk
    · simp
    · simp
    · simp only [lookup_cons, beq_false_of_ne hk, ih]

end

theorem get?_set_self {v : Value} (h : v.asObject.isSome = true) :
    (v.set field w).get? (str field) = some w := by
  cases v with
  | object members => exact lookup_insertMember_self _ _ _
  | _ => cases h

theorem get?_set_ne {v : Value} {k : Str} (h : k ≠ str field) :
    (v.set field w).get? k = v.get? k := by
  cases v with
  | object members => exact lookup_insertMember_ne h
  | _ => rfl

theorem normaliseMembers_pairwise (members acc : List (Str × Value))
    (h : (acc.map Prod.fst).Pairwise (· < ·)) :
    ((normaliseMembers members acc).map Prod.fst).Pairwise (· < ·) := by
  induction members generalizing acc with
  | nil => exact h
  | cons m rest ih => exact ih _ (insertMember_pairwise _ _ _ h)

mutual
theorem normalise_ordered : ∀ v : Value, Ordered (normalise v)
  | .null | .bool _ | .number _ | .float _ | .string _ => trivial
  | .array items => normaliseItems_ordered items
  | .object members =>
    ⟨normaliseMembers_pairwise members [] List.Pairwise.nil,
      normaliseMembers_ordered members [] trivial⟩
theorem normaliseItems_ordered : ∀ items : List Value, OrderedItems (normaliseItems items)
  | [] => trivial
  | v::vs => ⟨normalise_ordered v,normaliseItems_ordered vs⟩
theorem normaliseMembers_ordered : ∀ members acc : List (Str × Value), OrderedMembers acc →
    OrderedMembers (normaliseMembers members acc)
  | [], _, h => h
  | (k,v)::rest, acc, h => by
    refine normaliseMembers_ordered rest _ (orderedMembers_iff.mpr fun m hm => ?_)
    rcases mem_insertMember _ _ _ hm with rfl | hm
    · exact normalise_ordered v
    · exact orderedMembers_iff.mp h m hm
end

mutual
theorem normalise_depth : ∀ v : Value, depth (normalise v) ≤ depth v
  | .null | .bool _ | .number _ | .float _ | .string _ => Nat.le_refl _
  | .array items => Nat.succ_le_succ (normaliseItems_depth items)
  | .object members => Nat.succ_le_succ (normaliseMembers_depth members [] _ (Nat.zero_le _)
      (Nat.le_refl _))
theorem normaliseItems_depth :
    ∀ items : List Value, depthItems (normaliseItems items) ≤ depthItems items
  | [] => Nat.le_refl _
  | v::vs => max_le_max (normalise_depth v) (normaliseItems_depth vs)
theorem normaliseMembers_depth : ∀ (members acc : List (Str × Value)) (d : ℕ),
    depthMembers acc ≤ d → depthMembers members ≤ d →
      depthMembers (normaliseMembers members acc) ≤ d
  | [], _, _, h, _ => h
  | (k,v)::rest, acc, d, h, hd => by
    rw [depthMembers, max_le_iff] at hd
    refine normaliseMembers_depth rest _ d (depthMembers_le.mpr fun m hm => ?_) hd.2
    rcases mem_insertMember _ _ _ hm with rfl | hm
    · exact (normalise_depth v).trans hd.1
    · exact depthMembers_le.mp h m hm
end

/-- Putting distinct members in order keeps exactly these. -/
theorem normaliseMembers_perm {members : List (Str × Value)} (acc : List (Str × Value))
    (h : (members.map Prod.fst ++ acc.map Prod.fst).Nodup) :
    (normaliseMembers members acc).Perm (members.map (fun m => (m.1, normalise m.2)) ++ acc) := by
  induction members generalizing acc with
  | nil => exact List.Perm.refl _
  | cons m rest ih =>
    obtain ⟨k,v⟩ := m
    rw [map_cons, cons_append, nodup_cons] at h
    have hnew : k ∉ acc.map Prod.fst := fun hk => h.1 (mem_append_right _ hk)
    have hins := insertMember_perm k (normalise v) acc hnew
    have hnodup : (rest.map Prod.fst ++ (insertMember k (normalise v) acc).map Prod.fst).Nodup := by
      have hp := List.Perm.append_left (rest.map Prod.fst) (hins.map Prod.fst)
      rw [hp.nodup_iff, map_cons, perm_middle.nodup_iff]
      exact nodup_cons.mpr h
    refine (ih _ hnodup).trans ?_
    exact (List.Perm.append_left _ hins).trans perm_middle

/-- Members in order are determined by the members in any order. -/
theorem normaliseMembers_of_perm {sorted : List (Str × Value)} {members : List (Str × Value)}
    (hs : (sorted.map Prod.fst).Pairwise (· < ·))
    (h : (members.map fun m => (m.1, normalise m.2)).Perm sorted) :
    normaliseMembers members [] = sorted := by
  have hkeys : (members.map Prod.fst).Perm (sorted.map Prod.fst) := by
    have := h.map Prod.fst
    rwa [map_map] at this
  have hnodup : (members.map Prod.fst).Nodup := by
    refine hkeys.nodup_iff.mpr (List.Pairwise.imp ?_ hs)
    rintro a b hlt rfl
    exact List.lt_irrefl a hlt
  have hperm := (normaliseMembers_perm [] (by simpa using hnodup)).trans
    (by simpa using h)
  have hpair := normaliseMembers_pairwise members [] List.Pairwise.nil
  rw [pairwise_map] at hs hpair
  refine List.Perm.eq_of_pairwise (fun a b _ _ hab hba => ?_) hpair hs hperm
  exact absurd (List.lt_trans hab hba) (List.lt_irrefl _)

theorem mem_of_get? {v : Value} {k : Str} (h : v.get? k = some w) :
    ∃ members, v = .object members ∧ (k,w) ∈ members := by
  cases v with
  | object members =>
    refine ⟨members,rfl,?_⟩
    obtain ⟨l₁,l₂,rfl,_⟩ := lookup_eq_some_iff.mp h
    simp
  | _ => cases h

/-- A member, or null, is in order and nested less deep. -/
theorem Ordered.get {v : Value} (h : Ordered v) {k : String} :
    Ordered v[k]! ∧ depth v[k]! ≤ depth v := by
  rw [getElem_text, Value.get]
  cases hg : v.get? (str k) with
  | none => exact ⟨trivial,Nat.zero_le _⟩
  | some w =>
    obtain ⟨members,rfl,hm⟩ := mem_of_get? hg
    refine ⟨orderedMembers_iff.mp h.2 _ hm,?_⟩
    exact (depthMembers_le.mp (Nat.le_refl _) _ hm).trans (Nat.le_succ _)

theorem Ordered.items {v : Value} (h : Ordered v) (hw : w ∈ v.items) :
    Ordered w ∧ depth w ≤ depth v := by
  cases v with
  | array items =>
    refine ⟨orderedItems_iff.mp h w hw,?_⟩
    exact (depthItems_le.mp (Nat.le_refl _) w hw).trans (Nat.le_succ _)
  | _ => cases hw

end Permanu.JsonOrder
