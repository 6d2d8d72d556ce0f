import SchemaWeave.Table
import SchemaWeave.Distinct
import SchemaWeave.Element.Basic

/-!
# Schemas

A schema is an index from names to type definitions. References between types are plain names
that are looked up in the index when they are needed, so types may refer to each other freely
and to types that are not there.

## Keys and names

Types, fields, arguments, enum values and directives are stored under a key and also carry a
name. The two agree in everything that is read from a text, and a merge handler may return a
field for which they do not.
-/

namespace SchemaWeave

/-! ## Definitions -/

/-- An output field. -/
structure Field where
  name : Name
  description : Option String
  arguments : Table Name InputValue
  type : TypeRef
  directives : List Directive
deriving DecidableEq

/-- The part of a type that depends on its kind. -/
inductive TypeBody where
  | scalar
  | object (interfaces : Distinct Name) (fields : Table Name Field)
  | interface (interfaces : Distinct Name) (fields : Table Name Field)
  | union (members : Distinct Name)
  | enum (values : Table Name EnumValue)
  | inputObject (fields : Table Name InputValue)
deriving DecidableEq

structure TypeDefinition where
  name : Name
  description : Option String
  directives : List Directive
  body : TypeBody
deriving DecidableEq

structure DirectiveDefinition where
  name : Name
  description : Option String
  arguments : Table Name InputValue
  repeatable : Bool
  locations : List DirectiveLocation
deriving DecidableEq

/-- A named type system. -/
structure Schema where
  name : String
  description : Option String
  directives : List Directive
  roots : RootOperations
  types : Table Name TypeDefinition
  directiveDefinitions : Table Name DirectiveDefinition
deriving DecidableEq

/-! ## Fields -/

namespace Field

/-- A field with a name and a type and nothing else. -/
def ofType (name : Name) (type : TypeRef) : Field := ⟨name, none, .empty, type, []⟩

/-- Whether two fields have the same name and type and take arguments of the same names and
types, in any order. Descriptions, directives and default values do not count. -/
def sameSignature (f g : Field) : Bool :=
  f.name = g.name && f.type = g.type && f.arguments.size = g.arguments.size
    && f.arguments.entries.all fun e =>
      (g.arguments.get? e.1).any fun a => a.type = e.2.type

/-- The field as it is written, without description and directives. -/
def signature (f : Field) : String :=
  let args :=
    if f.arguments.isEmpty then ""
    else "(" ++ ", ".intercalate (f.arguments.values.map InputValue.signature) ++ ")"
  f.name.text ++ args ++ ": " ++ f.type.text

end Field

/-! ## Types -/

namespace TypeBody

def kind : TypeBody → TypeKind
  | scalar => .scalar
  | object _ _ => .object
  | interface _ _ => .interface
  | union _ => .union
  | enum _ => .enum
  | inputObject _ => .inputObject

/-- The body of a kind with nothing in it. -/
def empty : TypeKind → TypeBody
  | .scalar => scalar
  | .object => object .empty .empty
  | .interface => interface .empty .empty
  | .union => union .empty
  | .enum => enum .empty
  | .inputObject => inputObject .empty

/-- The fields of an object type or an interface. -/
def fields? : TypeBody → Option (Table Name Field)
  | object _ fields => some fields
  | interface _ fields => some fields
  | _ => none

/-- The fields of an input object type. -/
def inputFields? : TypeBody → Option (Table Name InputValue)
  | inputObject fields => some fields
  | _ => none

/-- The interfaces that an object type or an interface implements. -/
def interfaces? : TypeBody → Option (Distinct Name)
  | object interfaces _ => some interfaces
  | interface interfaces _ => some interfaces
  | _ => none

/-- The keys of the fields of any kind that has fields, and none for the others. -/
def fieldNames : TypeBody → List Name
  | object _ fields => fields.keys
  | interface _ fields => fields.keys
  | inputObject fields => fields.keys
  | _ => []

def hasField (b : TypeBody) (n : Name) : Bool :=
  match b with
  | object _ fields => fields.contains n
  | interface _ fields => fields.contains n
  | inputObject fields => fields.contains n
  | _ => false

def implements (b : TypeBody) (n : Name) : Bool := b.interfaces?.any (·.contains n)

/-- Changes the table of fields, in the kinds that have one. -/
def mapFields (b : TypeBody) (f : Table Name Field → Table Name Field)
    (g : Table Name InputValue → Table Name InputValue) : TypeBody :=
  match b with
  | object interfaces fields => object interfaces (f fields)
  | interface interfaces fields => interface interfaces (f fields)
  | inputObject fields => inputObject (g fields)
  | b => b

end TypeBody

namespace TypeDefinition

/-- A type of a kind with no description, no directives and nothing in it. -/
def empty (name : Name) (kind : TypeKind) : TypeDefinition := ⟨name, none, [], .empty kind⟩

def kind (d : TypeDefinition) : TypeKind := d.body.kind

def fieldNames (d : TypeDefinition) : List Name := d.body.fieldNames

def hasField (d : TypeDefinition) (n : Name) : Bool := d.body.hasField n

def implements (d : TypeDefinition) (n : Name) : Bool := d.body.implements n

end TypeDefinition

/-! ## Directive definitions -/

namespace DirectiveDefinition

/-- Whether two definitions agree in everything but descriptions and the order of arguments and
locations. Applied directives of arguments do not count. -/
def sameShape (d e : DirectiveDefinition) : Bool :=
  d.name = e.name && d.repeatable = e.repeatable
    && d.locations.length = e.locations.length
    && d.locations.all (fun l => e.locations.contains l)
    && d.arguments.size = e.arguments.size
    && d.arguments.entries.all fun x =>
      (e.arguments.get? x.1).any fun a => a.type = x.2.type && a.default = x.2.default

end DirectiveDefinition

/-! ## Schemas -/

namespace Schema

/-- A schema in which nothing is defined. -/
def empty (name : String) : Schema := ⟨name, none, [], .none, .empty, .empty⟩

def type? (s : Schema) (n : Name) : Option TypeDefinition := s.types.get? n

/-- The kind of a type. The built-in scalars have their kind without being defined. -/
def kind? (s : Schema) (n : Name) : Option TypeKind :=
  match s.type? n with
  | some d => some d.kind
  | none => if isBuiltInScalar n.text then some .scalar else none

def isRootType (s : Schema) (n : Name) : Bool := (s.roots.operationOf n).isSome

/-- The entry points, where each one that is not set is the object type with the canonical
name, if there is one. -/
def inferRoots (s : Schema) : Schema :=
  let infer (roots : RootOperations) (op : RootOperation) : RootOperations :=
    if (roots.get op).isNone && (s.type? op.canonicalName).any (fun d => d.kind = .object) then
      roots.set op (some op.canonicalName)
    else roots
  { s with roots := RootOperation.all.foldl infer s.roots }

end Schema

/-! ## Equality without order

Two definitions have the same content when they differ at most in the order in which their
tables list entries. Lists of applied directives are compared in order. -/

namespace Table

variable {κ α : Type} [DecidableEq κ]

/-- Whether two tables have the same keys and entries that agree under each key. -/
def agree (same : α → α → Bool) (s t : Table κ α) : Bool :=
  s.size = t.size && s.entries.all fun e => (t.get? e.1).any (same e.2)

end Table

namespace Distinct

variable {α : Type} [DecidableEq α]

/-- Whether two lists without repetition have the same elements. -/
def agree (s t : Distinct α) : Bool := s.size = t.size && s.toList.all t.contains

end Distinct

namespace Field

def sameContent (f g : Field) : Bool :=
  f.name = g.name && f.description = g.description && f.type = g.type
    && f.directives = g.directives
    && Table.agree (fun a b => decide (a = b)) f.arguments g.arguments

end Field

namespace TypeBody

def sameContent : TypeBody → TypeBody → Bool
  | scalar, scalar => true
  | object i f, object j g => i.agree j && Table.agree Field.sameContent f g
  | interface i f, interface j g => i.agree j && Table.agree Field.sameContent f g
  | union m, union n => m.agree n
  | enum v, enum w => Table.agree (fun a b => decide (a = b)) v w
  | inputObject f, inputObject g => Table.agree (fun a b => decide (a = b)) f g
  | _, _ => false

end TypeBody

namespace TypeDefinition

def sameContent (d e : TypeDefinition) : Bool :=
  d.name = e.name && d.description = e.description && d.directives = e.directives
    && d.body.sameContent e.body

end TypeDefinition

end SchemaWeave
