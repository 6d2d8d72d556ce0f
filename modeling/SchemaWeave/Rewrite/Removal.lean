import SchemaWeave.Schema.Basic

/-!
# Removing types and fields

What refers to a removed type cannot stay. Removing a type takes with it

* the fields that return it, and the fields with a non-null argument of it,
* the other arguments of it, and the input fields of it,
* the arguments of directives that have it and allow null,
* its mention in `implements` clauses and unions,
* the entry points behind which it stands.

A non-null argument of a directive stays and is left without its type: no part of a directive
can go instead of it, so it is for the check to report.
-/

namespace SchemaWeave

namespace TypeRef

/-- Whether a reference is to a given type, under any layers. -/
def refersTo (t : TypeRef) (n : Name) : Bool := t.innerName = n

end TypeRef

namespace Field

/-- Whether a field can stay when a type goes. -/
def survives (f : Field) (gone : Name) : Bool :=
  !f.type.refersTo gone
    && !f.arguments.values.any (fun a => a.type.isNonNull && a.type.refersTo gone)

/-- The field without its arguments of a type. -/
def dropArguments (f : Field) (gone : Name) : Field :=
  { f with arguments := f.arguments.filter fun _ a => !a.type.refersTo gone }

end Field

/-- The fields that stay when a type goes, without their arguments of it. -/
def remainingFields (fields : Table Name Field) (gone : Name) : Table Name Field :=
  (fields.filter fun _ f => f.survives gone).map fun _ f => f.dropArguments gone

namespace TypeBody

/-- What stays of a body when a type goes. -/
def withoutType (b : TypeBody) (gone : Name) : TypeBody :=
  match b with
  | object interfaces fields => object (interfaces.erase gone) (remainingFields fields gone)
  | interface interfaces fields => interface (interfaces.erase gone) (remainingFields fields gone)
  | union members => union (members.erase gone)
  | inputObject fields => inputObject (fields.filter fun _ f => !f.type.refersTo gone)
  | scalar => scalar
  | enum values => enum values

/-- The body without a field. -/
def withoutField (b : TypeBody) (field : Name) : TypeBody :=
  b.mapFields (·.erase field) (·.erase field)

end TypeBody

namespace DirectiveDefinition

/-- What stays of a directive when a type goes. -/
def withoutType (d : DirectiveDefinition) (gone : Name) : DirectiveDefinition :=
  { d with arguments := d.arguments.filter fun _ a => a.type.isNonNull || !a.type.refersTo gone }

end DirectiveDefinition

namespace Schema

/-- The schema without everything that cannot exist without a type. -/
def withoutDependents (s : Schema) (gone : Name) : Schema :=
  { s with
    types := s.types.map fun _ d => { d with body := d.body.withoutType gone }
    directiveDefinitions := s.directiveDefinitions.map fun _ d => d.withoutType gone
    roots := s.roots.filter (fun n => n ≠ gone) }

/-- The schema without a type and everything that cannot exist without it. -/
def withoutType (s : Schema) (gone : Name) : Schema :=
  { s with types := s.types.erase gone }.withoutDependents gone

/-- The schema without the types behind its entry points, each counted once. -/
def withoutRootTypes (s : Schema) : Schema :=
  (Distinct.ofList (s.roots.toList.map Prod.snd)).toList.foldl withoutType s

/-- The schema without one field of a type. -/
def withoutField (s : Schema) (type field : Name) : Schema :=
  { s with types := s.types.modify type fun d => { d with body := d.body.withoutField field } }

end Schema

end SchemaWeave
