import SchemaWeave.Element.Basic

/-!
# Written documents

A document in the schema definition language is a list of definitions, in the order in which
they stand. Nothing is looked up or folded together here: a field may be written twice and a
type may be extended before it is defined.

Executable definitions (operations and fragments) are recognised and not kept, since a type
system has no use for what they hold.
-/

namespace SchemaWeave.Sdl

/-- The word that begins the definition of a type of a given kind. -/
def keywordOf : TypeKind → String
  | .scalar => "scalar"
  | .object => "type"
  | .interface => "interface"
  | .union => "union"
  | .enum => "enum"
  | .inputObject => "input"

structure FieldNode where
  name : Name
  description : Option String
  arguments : List InputValue
  type : TypeRef
  directives : List Directive
deriving DecidableEq

/-- The part of a type that its keyword decides. -/
inductive Body where
  | scalar
  | object (interfaces : List Name) (fields : List FieldNode)
  | interface (interfaces : List Name) (fields : List FieldNode)
  | union (members : List Name)
  | enum (values : List EnumValue)
  | inputObject (fields : List InputValue)
deriving DecidableEq

namespace Body

def kind : Body → TypeKind
  | scalar => .scalar
  | object _ _ => .object
  | interface _ _ => .interface
  | union _ => .union
  | enum _ => .enum
  | inputObject _ => .inputObject

/-- Whether nothing is written between the keyword's name and the end but directives. -/
def isEmpty : Body → Bool
  | scalar => true
  | object interfaces fields => interfaces.isEmpty && fields.isEmpty
  | interface interfaces fields => interfaces.isEmpty && fields.isEmpty
  | union members => members.isEmpty
  | enum values => values.isEmpty
  | inputObject fields => fields.isEmpty

end Body

/-- A type definition. -/
structure TypeNode where
  name : Name
  description : Option String
  directives : List Directive
  body : Body
deriving DecidableEq

/-- What an `extend` form adds to the type it names. -/
structure TypeExtension where
  name : Name
  directives : List Directive
  body : Body
deriving DecidableEq

/-- A `schema` definition. -/
structure SchemaNode where
  description : Option String
  directives : List Directive
  roots : List (RootOperation × Name)
deriving DecidableEq

/-- What an `extend schema` form adds. -/
structure SchemaExtension where
  directives : List Directive
  roots : List (RootOperation × Name)
deriving DecidableEq

/-- A directive definition. -/
structure DirectiveNode where
  name : Name
  description : Option String
  arguments : List InputValue
  repeatable : Bool
  locations : List DirectiveLocation
deriving DecidableEq

inductive Definition where
  | executable
  | schema (node : SchemaNode)
  | directive (node : DirectiveNode)
  | type (node : TypeNode)
  | extendSchema (extension : SchemaExtension)
  | extendType (extension : TypeExtension)
deriving DecidableEq

structure Document where
  definitions : List Definition
deriving DecidableEq

end SchemaWeave.Sdl
