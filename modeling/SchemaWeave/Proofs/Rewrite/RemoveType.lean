import SchemaWeave.Proofs.Rewrite.Breakage

/-!
# When a type can be removed

The removal of a type from a keyed schema without violations succeeds exactly when what is left
is intact: no type has become empty, every type has the fields of its interfaces, and no
directive needs the type.
-/

namespace SchemaWeave

namespace Schema

variable {s : Schema} {gone : Name}

/-! ## Violations that are there -/

theorem nothingInside_mem_checkType {d : TypeDefinition} (h : d.body.IsHollow) :
    .nothingInside d.kind d.name ∈ s.checkType d := by
  obtain ⟨name, description, directives, body⟩ := d
  have hparts (kind : TypeKind) {none : Bool} (hnone : none = true) :
      Violation.nothingInside kind name ∈ checkParts kind name none :=
    mem_checkParts.mpr ⟨hnone, rfl⟩
  have hempty {α : Type} {t : Table Name α} (ht : t.keys = []) : t.isEmpty = true :=
    List.isEmpty_iff.mpr (List.map_eq_nil_iff.mp ht)
  cases body with
  | object _ _ =>
    exact List.mem_append_left _ (List.mem_append_right _ (hparts .object (hempty h)))
  | interface _ _ =>
    exact List.mem_append_left _ (List.mem_append_right _ (hparts .interface (hempty h)))
  | inputObject _ => exact List.mem_append_right _ (hparts .inputObject (hempty h))
  | union members => exact List.mem_append_left _ (hparts .union (List.isEmpty_iff.mpr h))
  | scalar => exact h.elim
  | enum _ => exact h.elim

theorem fieldMissing_mem_checkInterface {type interface field : Name} {interfaces : Distinct Name}
    {fields : Table Name Field} {e : TypeDefinition} {inherited : Distinct Name}
    {wanted : Table Name Field} (he : s.types.get? interface = some e)
    (hbody : e.body = .interface inherited wanted) (hw : field ∈ wanted.keys)
    (hf : field ∉ fields.keys) :
    .fieldMissing type interface field ∈ s.checkInterface type interfaces fields interface := by
  unfold checkInterface type?
  rw [he, Option.map_some, hbody]
  refine List.mem_append_right _ (List.mem_flatMap.mpr ?_)
  obtain ⟨w, hw⟩ := Table.mem_keys.mp hw
  refine ⟨(field, w), hw, ?_⟩
  rw [Table.get?_eq_none_iff.mpr hf]
  exact List.mem_singleton_self _

theorem implements_of_withoutType {d : TypeDefinition} {interface : Name}
    (h : (d.withoutType gone).implements interface) : d.implements interface := by
  obtain ⟨name, description, directives, body⟩ := d
  cases body with
  | object interfaces fields =>
    exact decide_eq_true (Distinct.mem_erase.mp (of_decide_eq_true h)).1
  | interface interfaces fields =>
    exact decide_eq_true (Distinct.mem_erase.mp (of_decide_eq_true h)).1
  | scalar => cases h
  | union _ => cases h
  | enum _ => cases h
  | inputObject _ => cases h

/-- What spoils the schema after the removal of a type is among its violations. -/
theorem mem_violations_of_spoiled (hk : s.Keyed) (hs : s.violations = []) {v : Violation}
    (h : (s.withoutType gone).Spoiled gone v) : v ∈ (s.withoutType gone).violations := by
  rw [mem_violations]
  cases h with
  | hollow hd hempty => exact Or.inr (Or.inl ⟨_, hd, nothingInside_mem_checkType hempty⟩)
  | @unfulfilled type interface field d e hd hi he hf hnot =>
    refine Or.inr (Or.inl ⟨d, Table.mem_values_of_get? hd, ?_⟩)
    have hname : d.name = type := (withoutType_keyed hk gone).types.name_eq hd
    obtain ⟨interfaces, fields, hmem, hbody⟩ := exists_interfaces_of_implements hi
    refine checkInterface_subset_checkType hmem hbody ?_
    rw [hname]
    -- before the removal the interface was one, since nothing was wrong then, and so it is now
    obtain ⟨hne, e₀, he₀, rfl⟩ := get?_withoutType_eq_some.mp he
    obtain ⟨-, d₀, hd₀, rfl⟩ := get?_withoutType_eq_some.mp hd
    obtain ⟨e₁, inherited, wanted, he₁, hebody⟩ :=
      exists_interface_of_implements hs hd₀ (implements_of_withoutType hi)
    rw [he₀] at he₁
    cases he₁
    have hebody' : (e₀.withoutType gone).body
        = .interface (inherited.erase gone) (remainingFields wanted gone) := by
      rw [TypeDefinition.withoutType, hebody]
      rfl
    refine fieldMissing_mem_checkInterface he hebody' ?_ ?_
    · rw [TypeDefinition.hasField, hebody'] at hf
      exact Table.contains_iff.mp hf
    · intro hkey
      rw [TypeDefinition.hasField] at hnot
      rcases hbody with hbody | hbody <;> rw [hbody] at hnot
      · exact hnot (Table.contains_iff.mpr hkey)
      · exact hnot (Table.contains_iff.mpr hkey)
  | @dangling d a hscalar hd ha hnull hname =>
    refine Or.inl ⟨⟨.directiveArgument d.name a.name, a.type, .input⟩, ?_, ?_⟩
    · exact List.mem_append_right _ (List.mem_flatMap.mpr ⟨d, hd, List.mem_map_of_mem ha⟩)
    · unfold checkReference
      dsimp only
      rw [hname, kind?_withoutType_self, if_neg hscalar]
      exact List.mem_singleton_self _

/-- The removal of a type causes exactly the violations that spoil what is left. -/
theorem mem_violations_withoutType_iff (hk : s.Keyed) (hs : s.violations = []) {v : Violation} :
    v ∈ (s.withoutType gone).violations ↔ (s.withoutType gone).Spoiled gone v :=
  ⟨spoiled_of_mem_violations hk hs, mem_violations_of_spoiled hk hs⟩

/-! ## Intact schemas -/

/-- Whether a schema can do without a type: no object type, interface or input object type is
without fields and no union without members, every type has the fields of the interfaces that it
implements, and no directive has a non-null argument of the type, unless that is built in. -/
structure Intact (s : Schema) (gone : Name) : Prop where
  parts : ∀ d ∈ s.types.values, ¬ d.body.IsHollow
  contracts : ∀ type d, s.types.get? type = some d → ∀ interface e, d.implements interface →
    s.types.get? interface = some e → ∀ field, e.hasField field → d.hasField field
  directives : isBuiltInScalar gone.text ∨ ∀ d ∈ s.directiveDefinitions.values,
    ∀ a ∈ d.arguments.values, ¬ (a.type.isNonNull ∧ a.type.innerName = gone)

/-- A schema is intact when nothing spoils it. -/
theorem intact_iff {s : Schema} : s.Intact gone ↔ ∀ v, ¬ s.Spoiled gone v := by
  constructor
  · intro h v hv
    cases hv with
    | hollow hd hempty => exact h.parts _ hd hempty
    | unfulfilled hd hi he hf hnot => exact hnot (h.contracts _ _ hd _ _ hi he _ hf)
    | dangling hscalar hd ha hnull hname =>
      exact (h.directives.resolve_left hscalar) _ hd _ ha ⟨hnull, hname⟩
  · intro h
    refine ⟨fun d hd hempty => h _ (.hollow hd hempty), ?_, ?_⟩
    · intro type d hd interface e hi he field hf
      by_cases hdf : d.hasField field = true
      · exact hdf
      · exact absurd (.unfulfilled hd hi he hf hdf) (h _)
    · by_cases hscalar : isBuiltInScalar gone.text = true
      · exact Or.inl hscalar
      · exact Or.inr fun d hd a ha hna => h _ (.dangling hscalar hd ha hna.1 hna.2)

end Schema

/-! ## The rule -/

/-- In a keyed schema without violations, the removal of a type that is there succeeds exactly
when the schema without it is intact. A removal that fails says why, and names nothing but empty
types, missing fields of interfaces, and arguments of directives whose type is gone. -/
theorem Rule.removeType_apply {s : Schema} {type : Name} (hk : s.Keyed) (hs : s.violations = [])
    (ht : type ∈ s.types.keys) :
    ((∃ s', (Rule.removeType type).apply s = .ok s') ↔ (s.withoutType type).Intact type) ∧
    ∀ errors, (Rule.removeType type).apply s = .error errors →
      errors ≠ [] ∧ ∀ e ∈ errors, ∃ v, e = .failed s.name (.removeType type) (.breaks v) ∧
        ((∃ kind t, v = .nothingInside kind t) ∨
          (∃ t interface field, v = .fieldMissing t interface field) ∨
          ∃ directive argument, v = .unknownType (.directiveArgument directive argument) type) := by
  have htransform : (Rule.removeType type).transform s = .ok (s.withoutType type) :=
    Rule.transform_eq_ok_iff.mpr (.removeType ht)
  have hnew : Rule.newViolations s (s.withoutType type) = (s.withoutType type).violations :=
    Rule.newViolations_of_violations_eq_nil hs _
  constructor
  · simp only [Rule.apply_eq_ok_iff, Rule.outcome_eq_ok_iff, htransform, Except.ok.injEq,
      exists_eq_left', hnew]
    rw [Schema.intact_iff, List.eq_nil_iff_forall_not_mem]
    exact forall_congr' fun v => not_congr (Schema.mem_violations_withoutType_iff hk hs)
  · intro errors h
    refine ⟨fun hnil => Rule.apply_ne_error_nil _ s (hnil ▸ h), fun e he => ?_⟩
    obtain ⟨v, hv, rfl⟩ := Rule.exists_breaks_of_apply htransform h he
    rw [hnew, Schema.mem_violations_withoutType_iff hk hs] at hv
    refine ⟨v, rfl, ?_⟩
    cases hv with
    | hollow _ _ => exact Or.inl ⟨_, _, rfl⟩
    | unfulfilled _ _ _ _ _ => exact Or.inr (Or.inl ⟨_, _, _, rfl⟩)
    | dangling _ _ _ _ _ => exact Or.inr (Or.inr ⟨_, _, rfl⟩)

/-- A type with a field of another type and one of a built-in scalar. -/
def teamWithOwner : Schema :=
  let number : TypeRef := .named ⟨"Float", by decide⟩
  let team : Name := ⟨"Team", by decide⟩
  let user : Name := ⟨"User", by decide⟩
  let owner : Name := ⟨"owner", by decide⟩
  let size : Name := ⟨"size", by decide⟩
  let object (fields : List (Name × Field)) : TypeBody := .object .empty (.ofList fields)
  { Schema.empty "a" with
    types := .ofList [
      (team, ⟨team, none, [], object [(owner, .ofType owner (.named user)),
        (size, .ofType size number)]⟩),
      (user, ⟨user, none, [], object [(size, .ofType size number)]⟩)] }

theorem removeType_apply_teamWithOwner :
    let user : Name := ⟨"User", by decide⟩
    teamWithOwner.Keyed ∧ teamWithOwner.violations = [] ∧ user ∈ teamWithOwner.types.keys ∧
      (teamWithOwner.withoutType user).Intact user :=
  ⟨by decide, by decide, by decide,
    (Rule.removeType_apply (by decide) (by decide) (by decide)).1.mp ⟨_, rfl⟩⟩

end SchemaWeave
