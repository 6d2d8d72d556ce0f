import SchemaWeave.Proofs.Rewrite.RenameType

/-!
# What a renaming is held to have broken

A renaming breaks nothing: the violations after it are those before it. But they tell the types
by their names, and a rule is held to have broken what was not there before it to the letter. So
a violation that names the type counts against the renaming, and no other does.

The place of an entry point starts with the word `schema`, which can also be the name of a type.
Where neither name is that word, a renaming succeeds exactly when no violation names the type.
-/

namespace SchemaWeave

variable {old new : Name}

/-! ## Names in violations -/

/-- The types that a place is told by. -/
def Coordinate.typeNames : Coordinate → List Name
  | type n => [n]
  | member o _ => [o]
  | argument o _ _ => [o]
  | directiveArgument _ _ => []

namespace Violation

/-- The types that a violation names. -/
def typeNames : Violation → List Name
  | unknownType place t => t :: place.typeNames
  | wrongPosition place t _ _ => t :: place.typeNames
  | notAnInterface t i => [t, i]
  | wrongMember u m => [u, m]
  | wrongRoot _ t => [t]
  | fieldMissing t i _ => [t, i]
  | fieldDiffers t i _ expected found => [t, i, expected.innerName, found.innerName]
  | argumentMissing t i _ _ expected => [t, i, expected.innerName]
  | argumentRequired t i _ _ => [t, i]
  | interfaceMissing t i inherited => [t, i, inherited]
  | fieldRepeated t _ => [t]
  | nothingInside _ t => [t]

end Violation

theorem Coordinate.typeNames_renameType (c : Coordinate) (old new : Name) :
    (c.renameType old new).typeNames = c.typeNames.map (renamed old new) := by
  cases c <;> rfl

theorem Coordinate.renameType_of_not_mem {c : Coordinate} (h : old ∉ c.typeNames) :
    c.renameType old new = c := by
  cases c <;> simp_all [typeNames, renameType, renamed_of_ne, Ne.symm]

namespace Violation

theorem typeNames_renameType (v : Violation) (old new : Name) :
    (v.renameType old new).typeNames = v.typeNames.map (renamed old new) := by
  cases v <;>
    simp [renameType, typeNames, Coordinate.typeNames_renameType, TypeRef.innerName_rename]

/-- A violation that does not name a type is the same when the type is renamed. -/
theorem renameType_of_not_mem {v : Violation} (h : old ∉ v.typeNames) :
    v.renameType old new = v := by
  cases v <;> simp_all [typeNames, renameType, renamed_of_ne, Coordinate.renameType_of_not_mem,
    TypeRef.rename_of_ne, Ne.symm]

theorem old_not_mem_typeNames (h : old ≠ new) (v : Violation) :
    old ∉ (v.renameType old new).typeNames := by
  rw [typeNames_renameType, List.mem_map]
  rintro ⟨n, -, hn⟩
  exact renamed_ne_old h n hn

end Violation

/-! ## Violations that stay -/

namespace Schema

variable {s : Schema}

/-- What can be wrong with an entry point. -/
theorem root_of_mem_rootViolations {v : Violation} (h : v ∈ s.rootViolations) :
    ∃ op n, s.roots.get op = some n ∧ (v = .unknownType op.coordinate n ∨ v = .wrongRoot op n) := by
  obtain ⟨⟨op, n⟩, hr, hv⟩ := List.mem_flatMap.mp h
  refine ⟨op, n, RootOperations.mem_toList.mp hr, ?_⟩
  unfold checkRoot at hv
  split at hv
  · exact Or.inl (List.mem_singleton.mp hv)
  · cases hv
  · exact Or.inr (List.mem_singleton.mp hv)

/-- No type but one named `schema` is the place of an entry point. -/
theorem not_mem_typeNames_coordinate {n : Name} (h : n.text ≠ "schema") (op : RootOperation) :
    n ∉ op.coordinate.typeNames := by
  rw [RootOperation.coordinate, Coordinate.typeNames, List.mem_singleton]
  exact fun hn => h (congrArg Name.text hn)

theorem renamedViolations_eq_map (hold : old.text ≠ "schema") :
    s.renamedViolations old new = s.violations.map (Violation.renameType old new) := by
  rw [violations_eq_append, renamedViolations, List.map_append]
  refine congrArg _ (List.map_congr_left fun v hv => ?_)
  obtain ⟨op, n, -, rfl | rfl⟩ := root_of_mem_rootViolations hv
  · rw [Violation.renameType,
      Coordinate.renameType_of_not_mem (not_mem_typeNames_coordinate hold op)]
    rfl
  · rfl

/-- No violation names a type that could be there and is not: each is what a renaming to another
name has left. -/
theorem new_not_mem_typeNames (h : s.Renamable old new) (hnew : new.text ≠ "schema")
    {v : Violation} (hv : v ∈ s.violations) : new ∉ v.typeNames := by
  rw [violations_eq_append] at hv
  rcases List.mem_append.mp hv with hv | hv
  · rw [← h.renameType_back, elementViolations_renameType h.symm] at hv
    obtain ⟨w, -, rfl⟩ := List.mem_map.mp hv
    exact w.old_not_mem_typeNames (ne_of_mem_of_not_mem h.there h.free).symm
  · obtain ⟨op, n, hn, rfl | rfl⟩ := root_of_mem_rootViolations hv
    all_goals have hne : new ≠ n := fun heq => h.avoids.roots op (heq ▸ hn)
    · exact List.not_mem_cons_of_ne_of_not_mem hne (not_mem_typeNames_coordinate hnew op)
    · exact List.not_mem_cons_of_ne_of_not_mem hne List.not_mem_nil

/-- A renaming leaves the violations as they are when none names the type, and else puts one in
their place that was not there. -/
theorem renamedViolations_subset_iff (h : s.Renamable old new) (hold : old.text ≠ "schema")
    (hnew : new.text ≠ "schema") :
    (∀ v ∈ s.renamedViolations old new, v ∈ s.violations) ↔
      ∀ v ∈ s.violations, old ∉ v.typeNames := by
  rw [renamedViolations_eq_map hold, List.forall_mem_map]
  constructor
  · intro hkept v hv hmem
    refine new_not_mem_typeNames h hnew (hkept v hv) ?_
    rw [Violation.typeNames_renameType]
    exact List.mem_map.mpr ⟨old, hmem, renamed_old old new⟩
  · intro hnone v hv
    rw [Violation.renameType_of_not_mem (hnone v hv)]
    exact hv

end Schema

/-! ## The rule -/

namespace Rule

variable {s s' : Schema}

theorem transform_renameType (h : s.Renamable old new)
    (hscalar : isBuiltInScalar new.text = false) :
    (Rule.renameType old new).transform s = .ok (s.renameType old new) :=
  transform_eq_ok_iff.mpr (.renameType h.there h.free hscalar)

/-- Of a name that is free, the violations alone decide whether a type gets it. -/
theorem renameType_apply_iff_subset (h : s.Renamable old new)
    (hscalar : isBuiltInScalar new.text = false) :
    (∃ s', (Rule.renameType old new).apply s = .ok s') ↔
      ∀ v ∈ s.renamedViolations old new, v ∈ s.violations := by
  simp only [apply_eq_ok_iff, outcome_eq_ok_iff, transform_renameType h hscalar,
    Except.ok.injEq, exists_eq_left', newViolations, Schema.violations_renameType h,
    List.filter_eq_nil_iff, Bool.not_eq_true', List.contains_eq_mem, decide_eq_false_iff_not,
    not_not]

/-- A renaming to a free name succeeds exactly when each violation is there under the new name
too, that is, when no violation names the type. One that fails reports violations that were
there before it, under the new name, and nothing else. -/
theorem renameType_apply_of_free (h : s.Renamable old new)
    (hscalar : isBuiltInScalar new.text = false) :
    ((∃ s', (Rule.renameType old new).apply s = .ok s') ↔
      ∀ v ∈ s.renamedViolations old new, v ∈ s.violations) ∧
    (old.text ≠ "schema" → new.text ≠ "schema" →
      ((∃ s', (Rule.renameType old new).apply s = .ok s') ↔
        ∀ v ∈ s.violations, old ∉ v.typeNames)) ∧
    ∀ errors, (Rule.renameType old new).apply s = .error errors →
      ∀ e ∈ errors, ∃ v ∈ s.renamedViolations old new,
        e = .failed s.name (.renameType old new) (.breaks v) := by
  have hiff := renameType_apply_iff_subset h hscalar
  refine ⟨hiff, fun hold hnew => ?_, fun errors herrors e he => ?_⟩
  · rw [hiff, Schema.renamedViolations_subset_iff h hold hnew]
  · obtain ⟨v, hv, rfl⟩ := exists_breaks_of_apply (transform_renameType h hscalar) herrors he
    rw [newViolations, Schema.violations_renameType h] at hv
    exact ⟨v, (List.mem_filter.mp hv).1, rfl⟩

end Rule

/-- An entry point whose type has a field of a type that is not there, beside another type. -/
def rootWithStranger : Schema :=
  let root : Name := ⟨"Root", by decide⟩
  let other : Name := ⟨"other", by decide⟩
  let box : Name := ⟨"Box", by decide⟩
  let label : Name := ⟨"label", by decide⟩
  let object (field : Name) (type : TypeRef) : TypeBody :=
    .object .empty (.ofList [(field, .ofType field type)])
  { Schema.empty "A" with
    roots := ⟨some root, none, none⟩
    types := .ofList [
      (root, ⟨root, none, [], object other (.named ⟨"Missing", by decide⟩)⟩),
      (box, ⟨box, none, [], object label (.named ⟨"String", by decide⟩)⟩)] }

theorem renameType_apply_of_free_rootWithStranger :
    let box : Name := ⟨"Box", by decide⟩
    let crate : Name := ⟨"Crate", by decide⟩
    rootWithStranger.Renamable box crate ∧ isBuiltInScalar crate.text = false ∧
      rootWithStranger.violations ≠ [] ∧
      ∃ s', (Rule.renameType box crate).apply rootWithStranger = .ok s' := by
  intro box crate
  have h : rootWithStranger.Renamable box crate := ⟨by decide, by decide, by decide, by decide⟩
  have hscalar : isBuiltInScalar crate.text = false := by decide
  exact ⟨h, hscalar, by decide, (Rule.renameType_apply_of_free h hscalar).1.mpr (by decide)⟩

/-- The unknown type of a field of the root type is held to be what the renaming of the root type
has broken, so that the entry points get no canonical names. -/
theorem not_renameType_apply_rootWithStranger :
    let root : Name := ⟨"Root", by decide⟩
    let query := RootOperation.query.canonicalName
    rootWithStranger.Renamable root query ∧ isBuiltInScalar query.text = false ∧
      (¬ ∃ s', (Rule.renameType root query).apply rootWithStranger = .ok s') ∧
      ¬ ∃ s', rootWithStranger.normalizeRoots = .ok s' := by
  intro root query
  have hrename : ((Rule.renameType root query).apply rootWithStranger).toOption = none := by decide
  have hroots : rootWithStranger.normalizeRoots.toOption = none := by decide
  refine ⟨⟨by decide, by decide, by decide, by decide⟩, by decide, ?_, ?_⟩
  · rintro ⟨s', h⟩
    rw [h] at hrename
    cases hrename
  · rintro ⟨s', h⟩
    rw [h] at hroots
    cases hroots

end SchemaWeave
