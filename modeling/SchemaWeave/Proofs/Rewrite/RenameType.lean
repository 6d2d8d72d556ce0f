import SchemaWeave.Proofs.Rewrite.Rule
import SchemaWeave.Proofs.Rewrite.Equivariance

/-!
# Renaming a type of a valid schema

In a schema without violations every name that something refers to is that of a type. A name
that no type has is therefore avoided, and a renaming to it succeeds and breaks nothing. Since
what it gives is again a schema without violations, the same holds of the way back.
-/

namespace SchemaWeave

namespace Schema

variable {s : Schema} {old new : Name}

/-! ## Names without a type -/

/-- Where nothing is wrong with a type, its interfaces and members are there. -/
theorem kind?_ne_none_of_checkType {d : TypeDefinition} (h : s.checkType d = []) {n : Name}
    (hn : n ∈ d.body.interfaceNames ∨ n ∈ d.body.memberNames) : s.kind? n ≠ none := by
  have hinterface {interfaces : Distinct Name} {fields : Table Name Field} {kind : TypeKind}
      (h : s.checkFields kind d.name interfaces fields = []) (hn : n ∈ interfaces.toList) :
      s.kind? n ≠ none := by
    have hcheck := List.flatMap_eq_nil_iff.mp (List.append_eq_nil_iff.mp h).2 n hn
    obtain ⟨e, inherited, wanted, he, -⟩ := checkInterface_eq_nil_iff.mp hcheck
    intro hnone
    exact (kind?_eq_none_iff.mp hnone).1 (Table.mem_keys_of_get? he)
  obtain ⟨name, description, directives, body⟩ := d
  cases body with
  | object interfaces fields => exact hinterface h (hn.resolve_right List.not_mem_nil)
  | interface interfaces fields => exact hinterface h (hn.resolve_right List.not_mem_nil)
  | union members =>
    have hcheck := List.flatMap_eq_nil_iff.mp (List.append_eq_nil_iff.mp h).2 n
      (hn.resolve_left List.not_mem_nil)
    intro hnone
    rw [checkMember, hnone] at hcheck
    cases hcheck
  | scalar => exact absurd hn (by simp [TypeBody.interfaceNames, TypeBody.memberNames])
  | enum values => exact absurd hn (by simp [TypeBody.interfaceNames, TypeBody.memberNames])
  | inputObject fields => exact absurd hn (by simp [TypeBody.interfaceNames, TypeBody.memberNames])

/-- A schema without violations avoids every name without a type. -/
theorem avoids_of_violations_eq_nil (hs : s.violations = []) {n : Name} (hn : s.kind? n = none) :
    s.Avoids n := by
  obtain ⟨hreferences, htypes, hroots⟩ := violations_eq_nil_iff.mp hs
  have hknown (r : Reference) (hr : r ∈ s.references) : r.type.innerName ≠ n := by
    intro hrn
    have hcheck := hreferences r hr
    rw [checkReference, hrn, hn] at hcheck
    cases hcheck
  refine ⟨fun d hd => ?_, fun d hd a ha => ?_, fun op hop => ?_⟩
  · have hnone := mt (kind?_ne_none_of_checkType (htypes d hd)) (not_not_intro hn)
    refine TypeDefinition.avoids_iff.mpr ⟨fun r hr => ?_, not_or.mp hnone⟩
    exact hknown r (List.mem_append_left _ (List.mem_flatMap.mpr ⟨d, hd, hr⟩))
  · exact hknown _ (List.mem_append_right _ (List.mem_flatMap.mpr ⟨d, hd, List.mem_map_of_mem ha⟩))
  · have hcheck := hroots (op, n) (RootOperations.mem_toList.mpr hop)
    rw [checkRoot, hn] at hcheck
    cases hcheck

theorem renamable_of_violations_eq_nil (hk : s.TypesKeyed) (hs : s.violations = [])
    (hold : old ∈ s.types.keys) (hfree : new ∉ s.types.keys)
    (hscalar : isBuiltInScalar new.text = false) : s.Renamable old new :=
  ⟨hk, hold, hfree, avoids_of_violations_eq_nil hs (kind?_eq_none_iff.mpr ⟨hfree, hscalar⟩)⟩

/-- Where nothing is wrong before a renaming, nothing is wrong after it. -/
theorem Renamable.violations_eq_nil (h : s.Renamable old new) (hs : s.violations = []) :
    (s.renameType old new).violations = [] := by
  rw [violations_eq_append] at hs
  obtain ⟨helements, hroots⟩ := List.append_eq_nil_iff.mp hs
  rw [violations_renameType h, renamedViolations, helements, hroots]
  rfl

/-! ## Places -/

/-- Whether two schemas have the same types in the same places, up to a change of names: each
of the same kind, with the same fields, interfaces and members in the same places. -/
structure SamePlaces (f : Name → Name) (s s' : Schema) : Prop where
  types : s'.types.keys = s.types.keys.map f
  parts : ∀ n d, s.types.get? n = some d → ∃ d', s'.types.get? (f n) = some d' ∧
    d'.kind = d.kind ∧ d'.fieldNames = d.fieldNames ∧
    d'.body.interfaceNames = d.body.interfaceNames.map f ∧
    d'.body.memberNames = d.body.memberNames.map f

/-- Everything keeps its place when a type is renamed. -/
theorem Renamable.samePlaces (h : s.Renamable old new) :
    s.SamePlaces (renamed old new) (s.renameType old new) where
  types := keys_renameType h.keyed fun hn => absurd hn h.free
  parts n d hd := by
    have hne : n ≠ new := fun hn => h.free (hn ▸ Table.mem_keys_of_get? hd)
    have havoids := h.avoids.bodies d (Table.mem_values_of_get? hd)
    refine ⟨d.renameType old new, ?_, TypeBody.renameType_kind d.body old new,
      TypeBody.renameType_fieldNames d.body old new, TypeBody.renameType_interfaceNames havoids,
      TypeBody.renameType_memberNames havoids⟩
    rw [get?_renameType h.keyed h.free hne, hd]
    rfl

end Schema

/-! ## The rule -/

namespace Rule

variable {s s' : Schema} {old new : Name}

/-- What a renaming gives in a schema without violations. -/
theorem renameType_apply_eq_ok_iff (hk : s.TypesKeyed) (hs : s.violations = [])
    (hold : old ∈ s.types.keys) :
    (Rule.renameType old new).apply s = .ok s' ↔
      new ∉ s.types.keys ∧ isBuiltInScalar new.text = false ∧ s' = s.renameType old new := by
  rw [apply_eq_ok_iff_changes hs]
  constructor
  · rintro ⟨h, -⟩
    cases h with
    | renameType _ hfree hscalar => exact ⟨hfree, hscalar, rfl⟩
  · rintro ⟨hfree, hscalar, rfl⟩
    have hr := Schema.renamable_of_violations_eq_nil hk hs hold hfree hscalar
    exact ⟨.renameType hold hfree hscalar, hr.violations_eq_nil hs⟩

/-- Renamings are isomorphisms of valid schemas. A type gets a new name exactly when the name is
free, and then nothing is wrong, everything keeps its place, nothing refers to the old name, the
way back is open unless the old name is that of a built-in scalar, and two renamings in a row are
one. -/
theorem renameType_apply (hk : s.TypesKeyed) (hs : s.violations = []) (hold : old ∈ s.types.keys) :
    ((∃ s', (Rule.renameType old new).apply s = .ok s') ↔
      new ∉ s.types.keys ∧ isBuiltInScalar new.text = false) ∧
    ∀ s', (Rule.renameType old new).apply s = .ok s' →
      s'.violations = [] ∧ s.SamePlaces (renamed old new) s' ∧ s'.Avoids old ∧
      (isBuiltInScalar old.text = false → (Rule.renameType new old).apply s' = .ok s) ∧
      ∀ c, c ≠ new → c ∉ s.types.keys → isBuiltInScalar c.text = false →
        ∃ s'', (Rule.renameType new c).apply s' = .ok s'' ∧
          (Rule.renameType old c).apply s = .ok s'' := by
  constructor
  · simp only [renameType_apply_eq_ok_iff hk hs hold, exists_and_left, exists_eq, and_true]
  · intro s' h
    obtain ⟨hfree, hscalar, rfl⟩ := (renameType_apply_eq_ok_iff hk hs hold).mp h
    have hr := Schema.renamable_of_violations_eq_nil hk hs hold hfree hscalar
    have hs' := hr.violations_eq_nil hs
    refine ⟨hs', hr.samePlaces, hr.symm.avoids, fun hback => ?_, fun c hc hcs hcb => ?_⟩
    -- in either case the rule applies to the renamed schema, now with the new name
    · rw [renameType_apply_eq_ok_iff hr.symm.keyed hs' hr.symm.there]
      exact ⟨hr.symm.free, hback, hr.renameType_back.symm⟩
    · have hgone : c ∉ (s.renameType old new).types.keys := by
        rw [Schema.keys_renameType hk fun hn => absurd hn hfree]
        intro hm
        obtain ⟨n, hn, rfl⟩ := List.mem_map.mp hm
        by_cases hno : n = old
        · exact hc (by rw [hno, renamed_old])
        · exact hcs (by rwa [renamed_of_ne hno])
      refine ⟨s.renameType old c, ?_,
        (renameType_apply_eq_ok_iff hk hs hold).mpr ⟨hcs, hcb, rfl⟩⟩
      refine (renameType_apply_eq_ok_iff hr.symm.keyed hs' hr.symm.there).mpr ⟨hgone, hcb, ?_⟩
      rw [Schema.renameType_renameType hk hfree hr.avoids fun hm => absurd hm hcs]

end Rule

/-- An entry point to a union, whose one member implements an interface with a field of its own
type. -/
def dogShelter : Schema :=
  let query := RootOperation.query.canonicalName
  let animal : Name := ⟨"Animal", by decide⟩
  let dog : Name := ⟨"Dog", by decide⟩
  let pet : Name := ⟨"Pet", by decide⟩
  let friend : Name := ⟨"friend", by decide⟩
  let pups : Name := ⟨"pups", by decide⟩
  { Schema.empty "shelter" with
    roots := ⟨some query, none, none⟩
    types := .ofList [
      (query, ⟨query, none, [], .object .empty (.ofList [(friend, .ofType friend (.named pet))])⟩),
      (pet, ⟨pet, none, [], .union (.ofList [dog])⟩),
      (dog, ⟨dog, none, [],
        .object (.ofList [animal]) (.ofList [(friend, .ofType friend (.named dog)),
          (pups, .ofType pups (.list (.nonNullNamed dog)))])⟩),
      (animal, ⟨animal, none, [],
        .interface .empty (.ofList [(friend, .ofType friend (.named animal))])⟩)] }

theorem renameType_apply_dogShelter :
    let dog : Name := ⟨"Dog", by decide⟩
    let hound : Name := ⟨"Hound", by decide⟩
    dogShelter.TypesKeyed ∧ dogShelter.violations = [] ∧ dog ∈ dogShelter.types.keys ∧
      ∃ s', (Rule.renameType dog hound).apply dogShelter = .ok s' ∧
        (Rule.renameType hound dog).apply s' = .ok dogShelter := by
  intro dog hound
  have hk : dogShelter.TypesKeyed := by decide
  have hs : dogShelter.violations = [] := by decide
  have hold : dog ∈ dogShelter.types.keys := by decide
  obtain ⟨hiff, hgives⟩ := @Rule.renameType_apply dogShelter dog hound hk hs hold
  obtain ⟨s', hs'⟩ := hiff.mpr ⟨by decide, by decide⟩
  exact ⟨hk, hs, hold, s', hs', (hgives s' hs').2.2.2.1 (by decide)⟩

end SchemaWeave
