import SchemaWeave.Schema.Basic

/-!
# Violations

A schema is well formed when every reference resolves to a type of a kind that fits its place,
every type has something in it, and every implementing type keeps the contracts of its
interfaces. `Schema.violations` lists what is wrong, always in the same order: references
first, then types, then entry points. Applied directives and default values are not checked.

## Covariance

A field may return a more specific type than its interface asks for: the same type, an object
type or interface that implements it, or a member of it, and non-null where the interface
allows null. Lists are compared layer by layer.
-/

namespace SchemaWeave

/-! ## Coordinates -/

/-- The place of an element. An entry point is a member of `schema`. -/
inductive Coordinate where
  | type (name : Name)
  | member (owner name : Name)
  | argument (owner field name : Name)
  | directiveArgument (directive name : Name)
deriving DecidableEq

namespace Coordinate

def text : Coordinate → String
  | type n => n.text
  | member o n => o.text ++ "." ++ n.text
  | argument o f n => o.text ++ "." ++ f.text ++ "(" ++ n.text ++ ":)"
  | directiveArgument d n => "@" ++ d.text ++ "(" ++ n.text ++ ":)"

end Coordinate

namespace RootOperation

/-- The operation's own word, as a name. -/
def name : RootOperation → Name
  | query => ⟨"query", by decide⟩
  | mutation => ⟨"mutation", by decide⟩
  | subscription => ⟨"subscription", by decide⟩

/-- The place of an entry point. -/
def coordinate (op : RootOperation) : Coordinate := .member ⟨"schema", by decide⟩ op.name

end RootOperation

/-! ## References -/

/-- Whether a place gives values out or takes them in. -/
inductive Position where
  | output
  | input
deriving DecidableEq

namespace Position

def text : Position → String
  | output => "output"
  | input => "input"

/-- Whether a type of a kind may stand in a position. -/
def allows : Position → TypeKind → Bool
  | output, k => k.isOutput
  | input, k => k.isInput

end Position

/-- A use of a type by a field, an argument or an input field. -/
structure Reference where
  coordinate : Coordinate
  type : TypeRef
  position : Position
deriving DecidableEq

namespace TypeDefinition

/-- The references that a type makes, field by field, each field before its arguments. -/
def references (d : TypeDefinition) : List Reference :=
  match d.body with
  | .object _ fields | .interface _ fields =>
    fields.values.flatMap fun f =>
      ⟨.member d.name f.name, f.type, .output⟩
        :: f.arguments.values.map fun a => ⟨.argument d.name f.name a.name, a.type, .input⟩
  | .inputObject fields => fields.values.map fun f => ⟨.member d.name f.name, f.type, .input⟩
  | .scalar | .union _ | .enum _ => []

end TypeDefinition

namespace DirectiveDefinition

def references (d : DirectiveDefinition) : List Reference :=
  d.arguments.values.map fun a => ⟨.directiveArgument d.name a.name, a.type, .input⟩

end DirectiveDefinition

namespace Schema

/-- Every reference in a schema: those of the types, then those of the directives. -/
def references (s : Schema) : List Reference :=
  s.types.values.flatMap TypeDefinition.references
    ++ s.directiveDefinitions.values.flatMap DirectiveDefinition.references

end Schema

/-! ## Violations -/

inductive Violation where
  | unknownType (place : Coordinate) (type : Name)
  | wrongPosition (place : Coordinate) (type : Name) (expected : Position) (found : TypeKind)
  | notAnInterface (type interface : Name)
  | wrongMember (union member : Name)
  | wrongRoot (operation : RootOperation) (type : Name)
  | fieldMissing (type interface field : Name)
  | fieldDiffers (type interface field : Name) (expected found : TypeRef)
  | argumentMissing (type interface field argument : Name) (expected : TypeRef)
  | argumentRequired (type interface field argument : Name)
  | interfaceMissing (type interface inherited : Name)
  | fieldRepeated (type field : Name)
  | nothingInside (kind : TypeKind) (type : Name)
deriving DecidableEq

namespace Violation

/-- What a type of a kind is made of. -/
def partsOf : TypeKind → String
  | .union => "members"
  | .enum => "values"
  | _ => "fields"

def message : Violation → String
  | unknownType place t => "`" ++ place.text ++ "` references unknown type `" ++ t.text ++ "`"
  | wrongPosition place t expected found =>
    "`" ++ place.text ++ "` must have an " ++ expected.text ++ " type, found " ++ found.text
      ++ " `" ++ t.text ++ "`"
  | notAnInterface t i =>
    "`" ++ t.text ++ "` implements `" ++ i.text ++ "`, which is not an interface"
  | wrongMember u m =>
    "union `" ++ u.text ++ "` includes `" ++ m.text ++ "`, which is not an object type"
  | wrongRoot op t => "the " ++ op.text ++ " root type `" ++ t.text ++ "` is not an object type"
  | fieldMissing t i f =>
    "`" ++ t.text ++ "` implements `" ++ i.text ++ "` but does not provide field `" ++ f.text ++ "`"
  | fieldDiffers t i f expected found =>
    "`" ++ t.text ++ "." ++ f.text ++ "` has type `" ++ found.text
      ++ "`, which does not satisfy `" ++ i.text ++ "." ++ f.text ++ ": " ++ expected.text ++ "`"
  | argumentMissing t i f a expected =>
    "`" ++ t.text ++ "." ++ f.text ++ "` must accept argument `" ++ a.text ++ ": " ++ expected.text
      ++ "` declared by `" ++ i.text ++ "." ++ f.text ++ "`"
  | argumentRequired t i f a =>
    "`" ++ t.text ++ "." ++ f.text ++ "` adds required argument `" ++ a.text ++ "`, which `"
      ++ i.text ++ "." ++ f.text ++ "` does not declare"
  | interfaceMissing t i inherited =>
    "`" ++ t.text ++ "` implements `" ++ i.text ++ "` but not `" ++ inherited.text
      ++ "`, which `" ++ i.text ++ "` implements"
  | fieldRepeated t f =>
    "type `" ++ t.text ++ "` defines field `" ++ f.text ++ "` more than once"
  | nothingInside kind t => kind.text ++ " `" ++ t.text ++ "` has no " ++ partsOf kind

end Violation

/-! ## Covariance -/

namespace Schema

/-- Whether a value of the type `sub` is also one of the type `sup`. -/
def isNamedSubtype (s : Schema) (sub sup : Name) : Bool :=
  sub = sup ||
    match (s.type? sup).map TypeDefinition.body with
    | some (.interface _ _) => (s.type? sub).any (·.implements sup)
    | some (.union members) => members.contains sub
    | _ => false

/-- Whether a field of type `sub` may implement an interface field of type `sup`. -/
def isSubtype (s : Schema) : (sub sup : TypeRef) → Bool
  | .nonNullNamed m, .nonNullNamed n => s.isNamedSubtype m n
  | .nonNullNamed m, .named n => s.isNamedSubtype m n
  | .named m, .named n => s.isNamedSubtype m n
  | .nonNullList t, .nonNullList u => s.isSubtype t u
  | .nonNullList t, .list u => s.isSubtype t u
  | .list t, .list u => s.isSubtype t u
  | _, _ => false

/-! ## The check -/

def checkReference (s : Schema) (r : Reference) : List Violation :=
  match s.kind? r.type.innerName with
  | none => [.unknownType r.coordinate r.type.innerName]
  | some kind =>
    if r.position.allows kind then []
    else [.wrongPosition r.coordinate r.type.innerName r.position kind]

/-- One violation for every name that occurs before in the list. -/
def repeatedFields (type : Name) (names : List Name) : List Violation :=
  let rec go (seen : List Name) : List Name → List Violation
    | [] => []
    | n :: ns => if n ∈ seen then .fieldRepeated type n :: go seen ns else go (n :: seen) ns
  go [] names

/-- What keeps a field from implementing an interface field of the same name. -/
def checkField (s : Schema) (type interface name : Name) (f wanted : Field) : List Violation :=
  (if s.isSubtype f.type wanted.type then []
    else [.fieldDiffers type interface name wanted.type f.type])
  ++ wanted.arguments.entries.flatMap (fun e =>
    if (f.arguments.get? e.1).any (fun a => a.type = e.2.type) then []
    else [.argumentMissing type interface name e.1 e.2.type])
  ++ (f.arguments.values.filter fun a =>
      a.type.isNonNull && a.default.isNone && !wanted.arguments.contains a.name).map
    fun a => .argumentRequired type interface name a.name

/-- What keeps fields from implementing all fields of an interface. -/
def checkContract (s : Schema) (type interface : Name) (fields wanted : Table Name Field) :
    List Violation :=
  wanted.entries.flatMap fun e =>
    match fields.get? e.1 with
    | none => [.fieldMissing type interface e.1]
    | some f => s.checkField type interface e.1 f e.2

/-- What is wrong with one interface of an implementing type. -/
def checkInterface (s : Schema) (type : Name) (interfaces : Distinct Name)
    (fields : Table Name Field) (interface : Name) : List Violation :=
  match (s.type? interface).map TypeDefinition.body with
  | none => [.unknownType (.type type) interface]
  | some (.interface inherited wanted) =>
    (inherited.toList.filter fun n => !interfaces.contains n).map
        (.interfaceMissing type interface)
      ++ s.checkContract type interface fields wanted
  | some _ => [.notAnInterface type interface]

def checkMember (s : Schema) (union member : Name) : List Violation :=
  match s.kind? member with
  | none => [.unknownType (.type union) member]
  | some .object => []
  | some _ => [.wrongMember union member]

/-- The violation of a type without parts. -/
def checkParts (kind : TypeKind) (type : Name) (none : Bool) : List Violation :=
  if none then [.nothingInside kind type] else []

/-- What is wrong with an object type or an interface. -/
def checkFields (s : Schema) (kind : TypeKind) (type : Name) (interfaces : Distinct Name)
    (fields : Table Name Field) : List Violation :=
  repeatedFields type (fields.values.map Field.name)
    ++ checkParts kind type fields.isEmpty
    ++ interfaces.toList.flatMap (s.checkInterface type interfaces fields)

def checkType (s : Schema) (d : TypeDefinition) : List Violation :=
  match d.body with
  | .scalar => []
  | .object interfaces fields => s.checkFields .object d.name interfaces fields
  | .interface interfaces fields => s.checkFields .interface d.name interfaces fields
  | .union members =>
    checkParts .union d.name members.isEmpty ++ members.toList.flatMap (s.checkMember d.name)
  | .enum values => checkParts .enum d.name values.isEmpty
  | .inputObject fields =>
    repeatedFields d.name (fields.values.map InputValue.name)
      ++ checkParts .inputObject d.name fields.isEmpty

def checkRoot (s : Schema) (r : RootOperation × Name) : List Violation :=
  match s.kind? r.2 with
  | none => [.unknownType r.1.coordinate r.2]
  | some .object => []
  | some _ => [.wrongRoot r.1 r.2]

/-- Everything that is wrong with a schema. -/
def violations (s : Schema) : List Violation :=
  s.references.flatMap s.checkReference
    ++ s.types.values.flatMap s.checkType
    ++ s.roots.toList.flatMap s.checkRoot

/-- A schema that has no violation passes; the others are refused with all of theirs. -/
def validate (s : Schema) : Except (List Violation) Unit :=
  if s.violations.isEmpty then .ok () else .error s.violations

end Schema

end SchemaWeave
