import SchemaWeave.Proofs.Document.Faults

/-!
# A schema as its document shows it

A document has no keys. What is read from it is the schema with every element stored again, under
the name that it carries. As long as no two elements that stand side by side have one name, both
schemas have the same document, and the one under names comes back from it.
-/

namespace SchemaWeave

open Sdl

/-! ## Tables -/

namespace Table

variable {κ α β : Type} [DecidableEq κ] {name : α → κ} {f : α → β} {t : Table κ α}

/-- The entries changed and stored again, each under its own name. -/
def underNames (name : α → κ) (f : α → β) (t : Table κ α) : Table κ β :=
  .ofList (t.values.map fun a => (name a, f a))

theorem underNames_keyed {name' : β → κ} (hf : ∀ a, name' (f a) = name a) :
    (t.underNames name f).Keyed name' := by
  refine Keyed.ofList fun e he => ?_
  obtain ⟨a, -, rfl⟩ := List.mem_map.mp he
  exact hf a

theorem forall_values_underNames {P : β → Prop} (hf : ∀ a, P (f a)) :
    ∀ b ∈ (t.underNames name f).values, P b := by
  refine forall_values_ofList fun e he => ?_
  obtain ⟨a, -, rfl⟩ := List.mem_map.mp he
  exact hf a

theorem entries_underNames (h : t.NamesDistinct name) :
    (t.underNames name f).entries = t.values.map fun a => (name a, f a) := by
  refine entries_ofList_of_nodup ?_
  rw [List.map_map]
  exact h

theorem values_underNames (h : t.NamesDistinct name) :
    (t.underNames name f).values = t.values.map f := by
  rw [values, entries_underNames h, List.map_map]
  rfl

theorem isEmpty_underNames (h : t.NamesDistinct name) :
    (t.underNames name f).isEmpty = t.isEmpty := by
  rw [isEmpty, entries_underNames h, values, List.map_map, List.isEmpty_map]
  rfl

theorem get?_underNames_eq_some_iff (h : t.NamesDistinct name) {n : κ} {b : β} :
    (t.underNames name f).get? n = some b ↔ ∃ a ∈ t.values, name a = n ∧ f a = b := by
  rw [get?_eq_some_iff, entries_underNames h, List.mem_map]
  simp only [Prod.mk.injEq]

theorem Keyed.get?_underNames (h : t.Keyed name) (n : κ) :
    (t.underNames name f).get? n = (t.get? n).map f := by
  ext b
  rw [get?_underNames_eq_some_iff h.namesDistinct, Option.map_eq_some_iff]
  constructor
  · rintro ⟨a, ha, rfl, hb⟩
    exact ⟨a, h.get?_name ha, hb⟩
  · rintro ⟨a, ha, hb⟩
    exact ⟨a, mem_values_of_get? ha, h.of_get? ha, hb⟩

end Table

/-! ## Definitions -/

/-- The field with its arguments under their names. -/
def Field.underNames (f : Field) : Field :=
  { f with arguments := f.arguments.underNames InputValue.name id }

/-- The body with its parts under their names. -/
def TypeBody.underNames : TypeBody → TypeBody
  | .scalar => .scalar
  | .object interfaces fields =>
    .object interfaces (fields.underNames Field.name Field.underNames)
  | .interface interfaces fields =>
    .interface interfaces (fields.underNames Field.name Field.underNames)
  | .union members => .union members
  | .enum values => .enum (values.underNames EnumValue.name id)
  | .inputObject fields => .inputObject (fields.underNames InputValue.name id)

def TypeDefinition.underNames (d : TypeDefinition) : TypeDefinition :=
  { d with body := d.body.underNames }

def DirectiveDefinition.underNames (d : DirectiveDefinition) : DirectiveDefinition :=
  { d with arguments := d.arguments.underNames InputValue.name id }

theorem Field.underNames_keyed (f : Field) : f.underNames.Keyed :=
  Table.underNames_keyed fun _ => rfl

theorem fields_underNames_keyed (fields : Table Name Field) :
    (fields.underNames Field.name Field.underNames).Keyed Field.name ∧
      ∀ f ∈ (fields.underNames Field.name Field.underNames).values, f.Keyed :=
  ⟨Table.underNames_keyed fun _ => rfl,
    Table.forall_values_underNames Field.underNames_keyed⟩

theorem TypeBody.underNames_keyed (b : TypeBody) : b.underNames.Keyed := by
  cases b with
  | scalar => trivial
  | object interfaces fields => exact fields_underNames_keyed fields
  | interface interfaces fields => exact fields_underNames_keyed fields
  | union members => trivial
  | enum values => exact Table.underNames_keyed fun _ => rfl
  | inputObject fields => exact Table.underNames_keyed fun _ => rfl

@[simp] theorem TypeDefinition.kind_underNames (d : TypeDefinition) :
    d.underNames.kind = d.kind := by
  obtain ⟨name, description, directives, body⟩ := d
  cases body <;> rfl

/-! ### As nodes -/

theorem Field.toNode_underNames {f : Field} (h : f.NamesDistinct) :
    f.underNames.toNode = f.toNode := by
  rw [toNode, toNode, underNames, Table.values_underNames h, List.map_id]

theorem fields_toNode_underNames {fields : Table Name Field}
    (h : fields.NamesDistinct Field.name) (h' : ∀ f ∈ fields.values, f.NamesDistinct) :
    (fields.underNames Field.name Field.underNames).values.map Field.toNode
      = fields.values.map Field.toNode := by
  rw [Table.values_underNames h, List.map_map]
  exact List.map_congr_left fun f hf => Field.toNode_underNames (h' f hf)

theorem TypeBody.toBody_underNames {b : TypeBody} (h : b.NamesDistinct) :
    b.underNames.toBody = b.toBody := by
  cases b with
  | scalar => rfl
  | object interfaces fields =>
    simp only [underNames, toBody, fields_toNode_underNames h.2.1 h.2.2]
  | interface interfaces fields =>
    simp only [underNames, toBody, fields_toNode_underNames h.2.1 h.2.2]
  | union members => rfl
  | enum values => simp only [underNames, toBody, Table.values_underNames h, List.map_id]
  | inputObject fields => simp only [underNames, toBody, Table.values_underNames h, List.map_id]

theorem TypeDefinition.toNode_underNames {d : TypeDefinition} (h : d.body.NamesDistinct) :
    d.underNames.toNode = d.toNode := by
  simp only [toNode, underNames, TypeBody.toBody_underNames h]

theorem DirectiveDefinition.toNode_underNames {d : DirectiveDefinition} (h : d.NamesDistinct) :
    d.underNames.toNode = d.toNode := by
  simp only [toNode, underNames, Table.values_underNames h, List.map_id]

/-! ## Schemas -/

namespace Schema

/-- The schema with every element under its own name. -/
def underNames (s : Schema) : Schema :=
  { s with
    types := s.types.underNames TypeDefinition.name TypeDefinition.underNames
    directiveDefinitions :=
      s.directiveDefinitions.underNames DirectiveDefinition.name DirectiveDefinition.underNames }

theorem underNames_keyed (s : Schema) : s.underNames.Keyed where
  types := Table.underNames_keyed fun _ => rfl
  bodies := Table.forall_values_underNames fun d => d.body.underNames_keyed
  directives := Table.underNames_keyed fun _ => rfl
  arguments := Table.forall_values_underNames fun _ => Table.underNames_keyed fun _ => rfl

theorem types_values_underNames {s : Schema} (h : s.NamesDistinct) :
    s.underNames.types.values = s.types.values.map TypeDefinition.underNames :=
  Table.values_underNames h.types

theorem directives_values_underNames {s : Schema} (h : s.NamesDistinct) :
    s.underNames.directiveDefinitions.values
      = s.directiveDefinitions.values.map DirectiveDefinition.underNames :=
  Table.values_underNames h.directives

theorem underNames_needsNode (s : Schema) : s.underNames.needsNode = s.needsNode := rfl

theorem toDocument_eq (s : Schema) :
    s.toDocument = ⟨(if s.needsNode then
        [.schema ⟨s.description, s.directives, s.roots.toList⟩] else [])
      ++ (s.directiveDefinitions.values.map DirectiveDefinition.toNode).map .directive
      ++ (s.types.values.map TypeDefinition.toNode).map .type⟩ := by
  rw [toDocument, List.map_map, List.map_map]
  rfl

/-- A schema and the one under names have the same document. -/
theorem toDocument_underNames {s : Schema} (h : s.NamesDistinct) :
    s.underNames.toDocument = s.toDocument := by
  have hdirectives : s.underNames.directiveDefinitions.values.map DirectiveDefinition.toNode
      = s.directiveDefinitions.values.map DirectiveDefinition.toNode := by
    rw [directives_values_underNames h, List.map_map]
    exact List.map_congr_left fun d hd =>
      DirectiveDefinition.toNode_underNames (h.arguments d hd)
  have htypes : s.underNames.types.values.map TypeDefinition.toNode
      = s.types.values.map TypeDefinition.toNode := by
    rw [types_values_underNames h, List.map_map]
    exact List.map_congr_left fun d hd => TypeDefinition.toNode_underNames (h.bodies d hd)
  rw [toDocument_eq, toDocument_eq, underNames_needsNode, hdirectives, htypes]
  rfl

/-- The document of a schema is accepted exactly when no two elements that stand side by side have
one name. It gives the schema under names, with the entry points that are written or inferred. -/
theorem ofDocument_toDocument_eq_ok_iff {s s' : Schema} :
    ofDocument s.name s.toDocument = .ok s' ↔ s.NamesDistinct ∧
      s' = if s.needsNode then s.underNames
        else { s.underNames with roots := .none }.inferRoots := by
  have hread (h : s.NamesDistinct) : ofDocument s.name s.toDocument = .ok
      (if s.needsNode then s.underNames
        else { s.underNames with roots := .none }.inferRoots) := by
    have hunder := ofDocument_toDocument_eq s.underNames_keyed
    rw [toDocument_underNames h, underNames_needsNode] at hunder
    exact hunder
  constructor
  · intro h
    have hdistinct := namesDistinct_of_ofDocument h
    rw [hread hdistinct] at h
    exact ⟨hdistinct, (Except.ok.inj h).symm⟩
  · rintro ⟨hdistinct, rfl⟩
    exact hread hdistinct

end Schema

end SchemaWeave
