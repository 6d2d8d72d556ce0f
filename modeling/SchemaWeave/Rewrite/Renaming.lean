import SchemaWeave.Schema.Basic

/-!
# Renaming types and fields

Renaming a type changes its key, its name and every reference to it, and moves nothing: the
type keeps its place among the types, and so do the fields, interfaces and members that refer
to it. Applied directives and default values mention no types and stay as they are.
-/

namespace SchemaWeave

/-- A name with one name replaced by another. -/
def renamed (old new n : Name) : Name := if n = old then new else n

namespace InputValue

def renameType (v : InputValue) (old new : Name) : InputValue :=
  { v with type := v.type.rename old new }

end InputValue

/-- Arguments or input fields with their references renamed. -/
def renameInputs (t : Table Name InputValue) (old new : Name) : Table Name InputValue :=
  t.map fun _ v => v.renameType old new

namespace Field

def renameType (f : Field) (old new : Name) : Field :=
  { f with type := f.type.rename old new, arguments := renameInputs f.arguments old new }

end Field

namespace TypeBody

/-- A body with its references renamed. -/
def renameType (b : TypeBody) (old new : Name) : TypeBody :=
  let rename := renamed old new
  match b with
  | object interfaces fields =>
    object (interfaces.map rename) (fields.map fun _ f => f.renameType old new)
  | interface interfaces fields =>
    interface (interfaces.map rename) (fields.map fun _ f => f.renameType old new)
  | union members => union (members.map rename)
  | inputObject fields => inputObject (renameInputs fields old new)
  | scalar => scalar
  | enum values => enum values

/-- A body with one of its fields renamed in place. -/
def renameField (b : TypeBody) (old new : Name) : TypeBody :=
  b.mapFields (·.rekey old new fun f => { f with name := new })
    (·.rekey old new fun f => { f with name := new })

end TypeBody

namespace DirectiveDefinition

def renameType (d : DirectiveDefinition) (old new : Name) : DirectiveDefinition :=
  { d with arguments := renameInputs d.arguments old new }

end DirectiveDefinition

namespace Schema

/-- The schema with every reference to a type renamed, and not the type itself. -/
def renameReferences (s : Schema) (old new : Name) : Schema :=
  { s with
    types := s.types.map fun _ d => { d with body := d.body.renameType old new }
    directiveDefinitions := s.directiveDefinitions.map fun _ d => d.renameType old new
    roots := s.roots.map (renamed old new) }

/-- The schema with a type renamed, and every reference to it. -/
def renameType (s : Schema) (old new : Name) : Schema :=
  { s with types := s.types.rekey old new fun d => { d with name := new } }.renameReferences old new

/-- The schema with one field of a type renamed. -/
def renameField (s : Schema) (type old new : Name) : Schema :=
  { s with types := s.types.modify type fun d => { d with body := d.body.renameField old new } }

end Schema

end SchemaWeave
