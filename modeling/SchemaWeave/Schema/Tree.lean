import SchemaWeave.Schema.Basic
import SchemaWeave.Sdl.Printer

/-!
# A schema as a document

Every schema has a document that defines it: the `schema` definition where it says something
that the types alone do not, then the directive definitions, then the types, each in the order
of the index. Keys are not written; each element stands under its own name.
-/

namespace SchemaWeave

open Sdl

namespace Field

def toNode (f : Field) : FieldNode :=
  ⟨f.name, f.description, f.arguments.values, f.type, f.directives⟩

end Field

namespace TypeBody

def toBody : TypeBody → Body
  | scalar => .scalar
  | object interfaces fields => .object interfaces.toList (fields.values.map Field.toNode)
  | interface interfaces fields => .interface interfaces.toList (fields.values.map Field.toNode)
  | union members => .union members.toList
  | enum values => .enum values.values
  | inputObject fields => .inputObject fields.values

end TypeBody

namespace TypeDefinition

def toNode (d : TypeDefinition) : TypeNode :=
  ⟨d.name, d.description, d.directives, d.body.toBody⟩

end TypeDefinition

namespace DirectiveDefinition

def toNode (d : DirectiveDefinition) : DirectiveNode :=
  ⟨d.name, d.description, d.arguments.values, d.repeatable, d.locations⟩

end DirectiveDefinition

namespace Schema

/-- Whether the `schema` definition has to be written: for a description, for directives, or
for an entry point that is not the type with the canonical name. -/
def needsNode (s : Schema) : Bool :=
  s.description.isSome || !s.directives.isEmpty || !s.roots.isCanonical

/-- The document that defines a schema. -/
def toDocument (s : Schema) : Document :=
  let schemaNode : List Definition :=
    if s.needsNode then [.schema ⟨s.description, s.directives, s.roots.toList⟩] else []
  ⟨schemaNode ++ s.directiveDefinitions.values.map (fun d => .directive d.toNode)
    ++ s.types.values.map (fun d => .type d.toNode)⟩

/-- The text that defines a schema. -/
def text (s : Schema) : String := s.toDocument.text

end Schema

end SchemaWeave
