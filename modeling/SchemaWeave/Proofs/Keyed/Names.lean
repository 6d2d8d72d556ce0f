import SchemaWeave.Proofs.Keyed.Basic
import SchemaWeave.Proofs.Parts

/-!
# Names that stand side by side

The document of a schema writes elements under their names and leaves keys out, so it says each
thing once only where no two elements of one place have the same name. Keys never repeat; names
that are not the keys may. In a keyed schema the names are the keys, and no name is there twice.
-/

namespace SchemaWeave

/-! ## Tables -/

namespace Table

variable {κ α : Type}

/-- Whether no two entries have the same name. -/
def NamesDistinct (name : α → κ) (t : Table κ α) : Prop := (t.values.map name).Nodup

instance [DecidableEq κ] (name : α → κ) (t : Table κ α) : Decidable (t.NamesDistinct name) :=
  inferInstanceAs (Decidable (t.values.map name).Nodup)

theorem Keyed.namesDistinct {name : α → κ} {t : Table κ α} (h : t.Keyed name) :
    t.NamesDistinct name := by
  rw [NamesDistinct, h.map_name_values]
  exact t.keys_nodup

end Table

/-! ## Definitions -/

/-- Whether no two arguments of a field have the same name. -/
def Field.NamesDistinct (f : Field) : Prop := f.arguments.NamesDistinct InputValue.name

/-- Whether no two parts of a type that stand side by side have the same name, interfaces and
members included. -/
def TypeBody.NamesDistinct : TypeBody → Prop
  | .scalar => True
  | .object interfaces fields =>
    interfaces.toList.Nodup ∧ fields.NamesDistinct Field.name ∧ ∀ f ∈ fields.values, f.NamesDistinct
  | .interface interfaces fields =>
    interfaces.toList.Nodup ∧ fields.NamesDistinct Field.name ∧ ∀ f ∈ fields.values, f.NamesDistinct
  | .union members => members.toList.Nodup
  | .enum values => values.NamesDistinct EnumValue.name
  | .inputObject fields => fields.NamesDistinct InputValue.name

/-- Whether no two arguments of a directive have the same name. -/
def DirectiveDefinition.NamesDistinct (d : DirectiveDefinition) : Prop :=
  d.arguments.NamesDistinct InputValue.name

instance (f : Field) : Decidable f.NamesDistinct :=
  inferInstanceAs (Decidable (f.arguments.NamesDistinct InputValue.name))

instance : (b : TypeBody) → Decidable b.NamesDistinct
  | .scalar => inferInstanceAs (Decidable True)
  | .object interfaces fields => inferInstanceAs (Decidable (interfaces.toList.Nodup ∧
      fields.NamesDistinct Field.name ∧ ∀ f ∈ fields.values, f.NamesDistinct))
  | .interface interfaces fields => inferInstanceAs (Decidable (interfaces.toList.Nodup ∧
      fields.NamesDistinct Field.name ∧ ∀ f ∈ fields.values, f.NamesDistinct))
  | .union members => inferInstanceAs (Decidable members.toList.Nodup)
  | .enum values => inferInstanceAs (Decidable (values.NamesDistinct EnumValue.name))
  | .inputObject fields => inferInstanceAs (Decidable (fields.NamesDistinct InputValue.name))

instance (d : DirectiveDefinition) : Decidable d.NamesDistinct :=
  inferInstanceAs (Decidable (d.arguments.NamesDistinct InputValue.name))

theorem fields_namesDistinct {fields : Table Name Field} (h : fields.Keyed Field.name)
    (h' : ∀ f ∈ fields.values, f.Keyed) :
    fields.NamesDistinct Field.name ∧ ∀ f ∈ fields.values, f.NamesDistinct :=
  ⟨h.namesDistinct, fun f hf => Table.Keyed.namesDistinct (h' f hf)⟩

theorem TypeBody.Keyed.namesDistinct {b : TypeBody} (h : b.Keyed) : b.NamesDistinct := by
  cases b with
  | scalar => trivial
  | object interfaces fields => exact ⟨interfaces.nodup, fields_namesDistinct h.1 h.2⟩
  | interface interfaces fields => exact ⟨interfaces.nodup, fields_namesDistinct h.1 h.2⟩
  | union members => exact members.nodup
  | enum values => exact Table.Keyed.namesDistinct h
  | inputObject fields => exact Table.Keyed.namesDistinct h

/-! ## Schemas -/

namespace Schema

/-- Whether no two elements of a schema that stand side by side have the same name. -/
structure NamesDistinct (s : Schema) : Prop where
  types : s.types.NamesDistinct TypeDefinition.name
  bodies : ∀ d ∈ s.types.values, d.body.NamesDistinct
  directives : s.directiveDefinitions.NamesDistinct DirectiveDefinition.name
  arguments : ∀ d ∈ s.directiveDefinitions.values, d.NamesDistinct

instance (s : Schema) : Decidable s.NamesDistinct :=
  decidable_of_iff (s.types.NamesDistinct TypeDefinition.name
      ∧ (∀ d ∈ s.types.values, d.body.NamesDistinct)
      ∧ s.directiveDefinitions.NamesDistinct DirectiveDefinition.name
      ∧ ∀ d ∈ s.directiveDefinitions.values, d.NamesDistinct)
    ⟨fun h => ⟨h.1, h.2.1, h.2.2.1, h.2.2.2⟩,
      fun h => ⟨h.types, h.bodies, h.directives, h.arguments⟩⟩

/-- In a keyed schema the names are the keys, and keys never repeat. -/
theorem Keyed.namesDistinct {s : Schema} (h : s.Keyed) : s.NamesDistinct where
  types := Table.Keyed.namesDistinct h.types
  bodies := fun d hd => (h.bodies d hd).namesDistinct
  directives := h.directives.namesDistinct
  arguments := fun d hd => Table.Keyed.namesDistinct (h.arguments d hd)

end Schema

end SchemaWeave
