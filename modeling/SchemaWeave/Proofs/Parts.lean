import SchemaWeave.Proofs.Keyed.Basic
import SchemaWeave.Schema.Violation

/-!
# Parts of a type

What a type is made of, read in the same way from every kind: a kind that has no parts of a sort
has none to be found. What is said of the parts of a type is then said of all kinds at once.
-/

namespace SchemaWeave

namespace TypeBody

variable {b : TypeBody} {n : Name}

/-! ## Readings -/

/-- The output field of a name. -/
@[simp] def field? : TypeBody → Name → Option Field
  | .object _ fields, n => fields.get? n
  | .interface _ fields, n => fields.get? n
  | _, _ => none

/-- The input field of a name. -/
@[simp] def inputField? : TypeBody → Name → Option InputValue
  | .inputObject fields, n => fields.get? n
  | _, _ => none

/-- The enum value of a name. -/
@[simp] def enumValue? : TypeBody → Name → Option EnumValue
  | .enum values, n => values.get? n
  | _, _ => none

/-- The interfaces that a type implements, in their order. -/
def interfaceNames : TypeBody → List Name
  | .object interfaces _ => interfaces.toList
  | .interface interfaces _ => interfaces.toList
  | _ => []

/-- The members of a union, in their order. -/
def memberNames : TypeBody → List Name
  | .union members => members.toList
  | _ => []

/-- The names of the fields, enum values or members of a type, in their order. -/
def partNames : TypeBody → List Name
  | .scalar => []
  | .object _ fields => fields.keys
  | .interface _ fields => fields.keys
  | .union members => members.toList
  | .enum values => values.keys
  | .inputObject fields => fields.keys

theorem mem_partNames_iff :
    n ∈ b.partNames ↔ (b.field? n).isSome ∨ (b.inputField? n).isSome ∨ (b.enumValue? n).isSome ∨
      n ∈ b.memberNames := by
  have hkeys {α : Type} {t : Table Name α} : n ∈ t.keys ↔ (t.get? n).isSome := by
    rw [← Table.contains_iff, Table.contains]
  cases b <;> simp [partNames, memberNames, hkeys]

/-- The parts of a keyed type are found under their names. -/
theorem keyed_iff :
    b.Keyed ↔ (∀ n f, b.field? n = some f → f.name = n ∧ f.Keyed) ∧
      (∀ n v, b.inputField? n = some v → v.name = n) ∧
      ∀ n v, b.enumValue? n = some v → v.name = n := by
  have htable {α : Type} {name : α → Name} {t : Table Name α} :
      t.Keyed name ↔ ∀ n a, t.get? n = some a → name a = n :=
    ⟨fun h n a ha => h.of_get? ha, fun h e he => h e.1 e.2 (Table.get?_eq_some_iff.mpr he)⟩
  have hfields {t : Table Name Field} : (t.Keyed Field.name ∧ ∀ f ∈ t.values, f.Keyed) ↔
      ∀ n f, t.get? n = some f → f.name = n ∧ f.Keyed := by
    rw [htable]
    constructor
    · exact fun h n f hf => ⟨h.1 n f hf, h.2 f (Table.mem_values_of_get? hf)⟩
    · intro h
      refine ⟨fun n f hf => (h n f hf).1, fun f hf => ?_⟩
      obtain ⟨n, hn⟩ := Table.mem_values_iff.mp hf
      exact (h n f hn).2
  cases b with
  | object interfaces fields =>
    refine hfields.trans ?_
    simp
  | interface interfaces fields =>
    refine hfields.trans ?_
    simp
  | inputObject fields =>
    refine htable.trans ?_
    simp
  | enum values =>
    refine htable.trans ?_
    simp
  | scalar => simp [Keyed]
  | union members => simp [Keyed]

end TypeBody

/-! ## References -/

/-- The references that a field makes: its own, then those of its arguments. -/
def Field.references (f : Field) (owner : Name) : List Reference :=
  ⟨.member owner f.name, f.type, .output⟩
    :: f.arguments.values.map fun a => ⟨.argument owner f.name a.name, a.type, .input⟩

/-- What holds of the types that fields refer to holds of their own and of those of their
arguments. -/
theorem forall_fieldReferences {p : TypeRef → Prop} {owner : Name} {fields : Table Name Field} :
    (∀ r ∈ fields.values.flatMap fun f => f.references owner, p r.type) ↔
      ∀ f ∈ fields.values, p f.type ∧ ∀ a ∈ f.arguments.values, p a.type := by
  simp only [Field.references, List.forall_mem_flatMap, List.forall_mem_cons, List.forall_mem_map]

/-- A type refers to what its fields refer to. -/
theorem TypeDefinition.mem_references_iff {d : TypeDefinition} {r : Reference} :
    r ∈ d.references ↔
      (∃ n f, d.body.field? n = some f ∧ r ∈ f.references d.name) ∨
      ∃ n v, d.body.inputField? n = some v ∧ r = ⟨.member d.name v.name, v.type, .input⟩ := by
  have hfields (fields : Table Name Field) :
      r ∈ (fields.values.flatMap fun f => f.references d.name) ↔
        ∃ n f, fields.get? n = some f ∧ r ∈ f.references d.name := by
    simp only [List.mem_flatMap, Table.mem_values_iff]
    constructor
    · rintro ⟨f, ⟨n, hn⟩, hr⟩
      exact ⟨n, f, hn, hr⟩
    · rintro ⟨n, f, hn, hr⟩
      exact ⟨f, ⟨n, hn⟩, hr⟩
  obtain ⟨name, description, directives, body⟩ := d
  cases body with
  | object interfaces fields =>
    refine (hfields fields).trans ?_
    simp
  | interface interfaces fields =>
    refine (hfields fields).trans ?_
    simp
  | inputObject fields =>
    simp only [references, List.mem_map, Table.mem_values_iff]
    constructor
    · rintro ⟨v, ⟨n, hn⟩, rfl⟩
      exact Or.inr ⟨n, v, hn, rfl⟩
    · rintro (⟨n, v, hn, -⟩ | ⟨n, v, hn, rfl⟩)
      · cases hn
      · exact ⟨v, ⟨n, hn⟩, rfl⟩
  | scalar => simp [references]
  | union members => simp [references]
  | enum values => simp [references]

end SchemaWeave
