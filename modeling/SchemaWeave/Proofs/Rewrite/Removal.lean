import SchemaWeave.Proofs.Keyed.Rewrite
import SchemaWeave.Proofs.Violation

/-!
# What stays when a type goes

A type that stays keeps its kind, its name and every reference that is not to the type that
goes. Whatever the check asks about two types that stay has the same answer before and after.
-/

namespace SchemaWeave

variable {gone : Name}

/-! ## Parts of types -/

theorem Distinct.mem_erase {α : Type} [DecidableEq α] {s : Distinct α} {a b : α} :
    b ∈ (s.erase a).toList ↔ b ∈ s.toList ∧ b ≠ a := by
  show b ∈ s.toList.filter _ ↔ _
  simp

theorem Distinct.contains_erase {α : Type} [DecidableEq α] {s : Distinct α} {a b : α} (h : b ≠ a) :
    (s.erase a).contains b = s.contains b := by
  unfold Distinct.contains
  simp only [Distinct.mem_erase, h, ne_eq, not_false_eq_true, and_true]

theorem Field.survives_iff {f : Field} :
    f.survives gone = true ↔
      f.type.innerName ≠ gone ∧
        ∀ a ∈ f.arguments.values, a.type.isNonNull = true → a.type.innerName ≠ gone := by
  simp [survives, TypeRef.refersTo]

theorem Field.get?_dropArguments {f : Field} {n : Name} {a : InputValue} :
    (f.dropArguments gone).arguments.get? n = some a ↔
      f.arguments.get? n = some a ∧ a.type.innerName ≠ gone := by
  show (f.arguments.filter _).get? n = some a ↔ _
  rw [Table.get?_filter, Option.filter_eq_some_iff]
  simp [TypeRef.refersTo]

theorem Field.mem_dropArguments {f : Field} {a : InputValue} :
    a ∈ (f.dropArguments gone).arguments.values ↔
      a ∈ f.arguments.values ∧ a.type.innerName ≠ gone := by
  simp only [Table.mem_values_iff, Field.get?_dropArguments]
  constructor
  · rintro ⟨n, h, hne⟩
    exact ⟨⟨n, h⟩, hne⟩
  · rintro ⟨⟨n, h⟩, hne⟩
    exact ⟨n, h, hne⟩

theorem get?_remainingFields {fields : Table Name Field} {n : Name} {f : Field} :
    (remainingFields fields gone).get? n = some f ↔
      ∃ g, fields.get? n = some g ∧ g.survives gone = true ∧ f = g.dropArguments gone := by
  unfold remainingFields
  rw [Table.get?_map, Table.get?_filter, Option.map_eq_some_iff]
  simp only [Option.filter_eq_some_iff]
  constructor
  · rintro ⟨g, ⟨hg, hs⟩, rfl⟩
    exact ⟨g, hg, hs, rfl⟩
  · rintro ⟨g, hg, hs, rfl⟩
    exact ⟨g, ⟨hg, hs⟩, rfl⟩

theorem mem_remainingFields {fields : Table Name Field} {f : Field} :
    f ∈ (remainingFields fields gone).values ↔
      ∃ g ∈ fields.values, g.survives gone = true ∧ f = g.dropArguments gone := by
  simp only [Table.mem_values_iff, get?_remainingFields]
  constructor
  · rintro ⟨n, g, hg, h⟩
    exact ⟨g, ⟨n, hg⟩, h⟩
  · rintro ⟨g, ⟨n, hg⟩, h⟩
    exact ⟨n, g, hg, h⟩

theorem TypeBody.withoutType_kind (b : TypeBody) (gone : Name) :
    (b.withoutType gone).kind = b.kind := by
  cases b <;> rfl

/-! ## References -/

/-- A definition without everything that refers to a type. -/
def TypeDefinition.withoutType (d : TypeDefinition) (gone : Name) : TypeDefinition :=
  { d with body := d.body.withoutType gone }

/-- The references of the fields of an object type or an interface. -/
def fieldReferences (owner : Name) (fields : Table Name Field) : List Reference :=
  fields.values.flatMap fun f =>
    ⟨.member owner f.name, f.type, .output⟩
      :: f.arguments.values.map fun a => ⟨.argument owner f.name a.name, a.type, .input⟩

theorem mem_fieldReferences_remainingFields {owner : Name} {fields : Table Name Field}
    {r : Reference} (h : r ∈ fieldReferences owner (remainingFields fields gone)) :
    r ∈ fieldReferences owner fields ∧ r.type.innerName ≠ gone := by
  obtain ⟨f, hf, hr⟩ := List.mem_flatMap.mp h
  obtain ⟨g, hg, hs, rfl⟩ := mem_remainingFields.mp hf
  rcases List.mem_cons.mp hr with rfl | hr
  · exact ⟨List.mem_flatMap.mpr ⟨g, hg, List.mem_cons_self⟩, (Field.survives_iff.mp hs).1⟩
  · obtain ⟨a, ha, rfl⟩ := List.mem_map.mp hr
    obtain ⟨ha, hne⟩ := Field.mem_dropArguments.mp ha
    exact ⟨List.mem_flatMap.mpr ⟨g, hg, List.mem_cons_of_mem _ (List.mem_map_of_mem ha)⟩, hne⟩

/-- A type that stays makes references that it made before, and none to what is gone. -/
theorem TypeDefinition.mem_references_withoutType {d : TypeDefinition} {r : Reference}
    (h : r ∈ (d.withoutType gone).references) : r ∈ d.references ∧ r.type.innerName ≠ gone := by
  obtain ⟨name, description, directives, body⟩ := d
  cases body with
  | object is fields => exact mem_fieldReferences_remainingFields h
  | interface is fields => exact mem_fieldReferences_remainingFields h
  | inputObject fields =>
    obtain ⟨f, hf, rfl⟩ := List.mem_map.mp h
    obtain ⟨n, hn⟩ := Table.mem_values_iff.mp hf
    rw [Table.get?_filter, Option.filter_eq_some_iff] at hn
    refine ⟨List.mem_map_of_mem (Table.mem_values_of_get? hn.1), ?_⟩
    simpa [TypeRef.refersTo] using hn.2
  | scalar => cases h
  | union members => cases h
  | enum values => cases h

/-- A directive keeps the references to types that stay and its non-null arguments. -/
theorem DirectiveDefinition.mem_withoutType_arguments {d : DirectiveDefinition} {a : InputValue} :
    a ∈ (d.withoutType gone).arguments.values ↔
      a ∈ d.arguments.values ∧ (a.type.isNonNull = true ∨ a.type.innerName ≠ gone) := by
  simp only [Table.mem_values_iff, DirectiveDefinition.withoutType, Table.get?_filter,
    Option.filter_eq_some_iff]
  constructor
  · rintro ⟨n, h, hp⟩
    exact ⟨⟨n, h⟩, by simpa [TypeRef.refersTo] using hp⟩
  · rintro ⟨⟨n, h⟩, hp⟩
    exact ⟨n, h, by simpa [TypeRef.refersTo] using hp⟩

/-! ## Types of the schema -/

namespace Schema

variable {s : Schema}

theorem get?_withoutType (s : Schema) (gone n : Name) :
    (s.withoutType gone).types.get? n
      = if n = gone then none else (s.types.get? n).map (·.withoutType gone) := by
  show ((s.types.erase gone).map fun _ d => d.withoutType gone).get? n = _
  rw [Table.get?_map, Table.get?_erase]
  split <;> rfl

theorem get?_withoutType_eq_some {n : Name} {d' : TypeDefinition} :
    (s.withoutType gone).types.get? n = some d' ↔
      n ≠ gone ∧ ∃ d, s.types.get? n = some d ∧ d' = d.withoutType gone := by
  rw [get?_withoutType]
  by_cases h : n = gone
  · simp [h]
  · rw [if_neg h, Option.map_eq_some_iff]
    simp only [h, ne_eq, not_false_eq_true, true_and]
    exact exists_congr fun d => and_congr_right fun _ => eq_comm

theorem kind?_withoutType {n : Name} (h : n ≠ gone) : (s.withoutType gone).kind? n = s.kind? n := by
  unfold kind? type?
  rw [get?_withoutType, if_neg h]
  cases s.types.get? n with
  | none => rfl
  | some d => exact congrArg some (TypeBody.withoutType_kind d.body gone)

/-- The type that is gone has a kind only if it is built in. -/
theorem kind?_withoutType_self (s : Schema) (gone : Name) :
    (s.withoutType gone).kind? gone
      = if isBuiltInScalar gone.text then some .scalar else none := by
  unfold kind? type?
  rw [get?_withoutType, if_pos rfl]

theorem checkReference_withoutType {r : Reference} (h : r.type.innerName ≠ gone) :
    (s.withoutType gone).checkReference r = s.checkReference r := by
  unfold checkReference
  rw [kind?_withoutType h]

/-! ## Subtypes -/

theorem isNamedSubtype_withoutType {sub sup : Name} (hsub : sub ≠ gone) (hsup : sup ≠ gone) :
    (s.withoutType gone).isNamedSubtype sub sup = s.isNamedSubtype sub sup := by
  have himplements (d : TypeDefinition) :
      (d.withoutType gone).implements sup = d.implements sup := by
    obtain ⟨name, description, directives, body⟩ := d
    cases body with
    | object is fields => exact Distinct.contains_erase hsup
    | interface is fields => exact Distinct.contains_erase hsup
    | _ => rfl
  have hsome : ((s.withoutType gone).type? sub).any (·.implements sup)
      = (s.type? sub).any (·.implements sup) := by
    rw [type?, get?_withoutType, if_neg hsub]
    unfold type?
    cases s.types.get? sub with
    | none => rfl
    | some d => exact himplements d
  unfold isNamedSubtype
  rw [hsome]
  congr 1
  unfold type?
  rw [get?_withoutType, if_neg hsup]
  cases s.types.get? sup with
  | none => rfl
  | some d =>
    obtain ⟨name, description, directives, body⟩ := d
    cases body with
    | union members => exact Distinct.contains_erase hsub
    | _ => rfl

theorem isSubtype_withoutType {sub sup : TypeRef} (hsub : sub.innerName ≠ gone)
    (hsup : sup.innerName ≠ gone) :
    (s.withoutType gone).isSubtype sub sup = s.isSubtype sub sup := by
  fun_induction isSubtype s sub sup with
  | case1 m n => exact isNamedSubtype_withoutType hsub hsup
  | case2 m n => exact isNamedSubtype_withoutType hsub hsup
  | case3 m n => exact isNamedSubtype_withoutType hsub hsup
  | case4 t u ih => exact ih hsub hsup
  | case5 t u ih => exact ih hsub hsup
  | case6 t u ih => exact ih hsub hsup
  | case7 t u h1 h2 h3 h4 h5 h6 => rw [isSubtype] <;> assumption

end Schema

end SchemaWeave
