import SchemaWeave.Introspection.Response
import SchemaWeave.Schema.Basic
import SchemaWeave.Sdl.Parser

/-!
# Schemas from introspection

A listing becomes a schema with the same types, fields, arguments, values and directives in the
same order. Built-in scalars, built-in directives and the types of introspection itself are
left out.

## Faults

The first fault ends the conversion: a name that is none, an element that is listed twice, a
reference that does not end in a name, a default value that is no value. Types come before
directives, and a field's name before its arguments, and those before its type.

## Default values

A default value is given as text. It is read as the default of the first field of an input
object type that is written around it.
-/

namespace SchemaWeave.Introspection

/-! ## Faults -/

inductive Malformation where
  /-- The text is no response. -/
  | notAResponse
  | errors (messages : List String)
  | noSchema
  | badName (text : String)
  | typeRepeated (type : Name)
  | fieldRepeated (type field : String)
  | enumValueRepeated (type value : String)
  | inputValueRepeated (owner value : String)
  | layerListed (type : String)
  | badDefault (owner value text : String)
  | namelessReference
  | emptyNonNull
  | emptyList
  | doubleNonNull
  | badLocation (text : String)
deriving DecidableEq

namespace Malformation

/-- The fault in words. A text that is no response has none of its own. -/
def message : Malformation → Option String
  | notAResponse => none
  | errors messages => some ("the response contains errors: " ++ "; ".intercalate messages)
  | noSchema => some "the response contains no `__schema`"
  | badName s => some ("`" ++ s ++ "` is not a valid GraphQL name")
  | typeRepeated t => some ("type `" ++ t.text ++ "` is listed more than once")
  | fieldRepeated t f => some ("field `" ++ t ++ "." ++ f ++ "` is listed more than once")
  | enumValueRepeated t v => some ("enum value `" ++ t ++ "." ++ v ++ "` is listed more than once")
  | inputValueRepeated o v =>
    some ("input value `" ++ o ++ "(" ++ v ++ ":)` is listed more than once")
  | layerListed t => some ("`" ++ t ++ "` is listed as a wrapping type")
  | badDefault o v s =>
    some ("`" ++ o ++ "(" ++ v ++ ":)` has an invalid default value `" ++ s ++ "`")
  | namelessReference => some "a named type reference has no name"
  | emptyNonNull => some "a NON_NULL type reference has no `ofType`"
  | emptyList => some "a LIST type reference has no `ofType`"
  | doubleNonNull => some "a NON_NULL type reference wraps another NON_NULL"
  | badLocation s => some ("unknown directive location `" ++ s ++ "`")

end Malformation

/-- A conversion gives a result or the first fault. -/
abbrev Conversion (α : Type) := Except Malformation α

/-! ## Small parts -/

def convertName (s : String) : Conversion Name :=
  match Name.ofText? s with
  | some n => .ok n
  | none => .error (.badName s)

/-- An empty description is none. -/
def convertDescription (d : Option String) : Option String := d.filter (fun s => s ≠ "")

/-- A directive with one string argument. -/
def stringDirective (directive argument : Name) (value : String) : Directive :=
  ⟨directive, [(argument, .string value)]⟩

/-- The directive that marks an element as deprecated. -/
def deprecation (isDeprecated : Bool) (reason : Option String) : List Directive :=
  let deprecated : Name := ⟨"deprecated", by decide⟩
  if isDeprecated then
    match reason with
    | some r => [stringDirective deprecated ⟨"reason", by decide⟩ r]
    | none => [⟨deprecated, []⟩]
  else []

/-- The directive that says where a scalar is specified. -/
def specification (url : Option String) : List Directive :=
  match url with
  | some u => [stringDirective ⟨"specifiedBy", by decide⟩ ⟨"url", by decide⟩ u]
  | none => []

def convertLocation (s : String) : Conversion DirectiveLocation :=
  match DirectiveLocation.ofText? s with
  | some l => .ok l
  | none => .error (.badLocation s)

/-! ## References -/

/-- A reference that has to be a plain name, whatever its kind. -/
def convertNamed : ListedReference → Conversion Name
  | .layer _ none _ => .error .namelessReference
  | .layer _ (some n) _ => convertName n

/-- A set of names. A name that is listed twice is taken once. -/
def convertNames (rs : List ListedReference) : Conversion (Distinct Name) := do
  return .ofList (← rs.mapM convertNamed)

/-- The reference with its outermost layer made non-null. -/
def makeNonNull : TypeRef → Conversion TypeRef
  | .named n => .ok (.nonNullNamed n)
  | .list t => .ok (.nonNullList t)
  | _ => .error .doubleNonNull

def convertReference : ListedReference → Conversion TypeRef
  | .layer .nonNull _ none => .error .emptyNonNull
  | .layer .nonNull _ (some inner) => do makeNonNull (← convertReference inner)
  | .layer .list _ none => .error .emptyList
  | .layer .list _ (some inner) => do return .list (← convertReference inner)
  | .layer _ none _ => .error .namelessReference
  | .layer _ (some n) _ => do return .named (← convertName n)

/-! ## Default values -/

/-- The document that is written around a default value. -/
def defaultDocument (raw : String) : String :=
  "input Default \x7b value: Int = " ++ raw ++ " \x7d"

/-- The default of the first field of a definition, when it is an input object type. -/
def firstDefault : Sdl.Definition → Option Value
  | .type ⟨_, _, _, .inputObject (field :: _)⟩ => field.default
  | _ => none

/-- The value that a text stands for as a default value. -/
def parseDefault (raw : String) : Option Value :=
  (Sdl.Document.ofText? (defaultDocument raw)).bind fun d => d.definitions.findSome? firstDefault

/-! ## Tables -/

/-- The table of the entries that a list converts to, each under its name. `repeated` is the
fault of an element whose name is there already. -/
def convertTable {α β : Type} (name : β → Name) (repeated : α → Malformation)
    (convert : α → Conversion β) : Table Name β → List α → Conversion (Table Name β)
  | t, [] => .ok t
  | t, a :: as => do
    let entry ← convert a
    if t.contains (name entry) then .error (repeated a)
    else convertTable name repeated convert (t.insert (name entry) entry) as

def convertDefault (owner : String) (v : ListedInputValue) : Conversion (Option Value) :=
  match v.default with
  | none => .ok none
  | some raw =>
    match parseDefault raw with
    | some value => .ok (some value)
    | none => .error (.badDefault owner v.name raw)

def convertInputValue (owner : String) (v : ListedInputValue) : Conversion InputValue := do
  let type ← convertReference v.type
  let default ← convertDefault owner v
  let name ← convertName v.name
  return ⟨name, convertDescription v.description, type, default, []⟩

def convertInputValues (owner : String) (vs : List ListedInputValue) :
    Conversion (Table Name InputValue) :=
  convertTable InputValue.name (fun v => .inputValueRepeated owner v.name)
    (convertInputValue owner) .empty vs

def convertField (type : String) (f : ListedField) : Conversion Field := do
  let name ← convertName f.name
  let arguments ← convertInputValues (type ++ "." ++ f.name) f.arguments
  let reference ← convertReference f.type
  return ⟨name, convertDescription f.description, arguments, reference,
    deprecation f.isDeprecated f.deprecationReason⟩

def convertFields (type : String) (fs : List ListedField) : Conversion (Table Name Field) :=
  convertTable Field.name (fun f => .fieldRepeated type f.name) (convertField type) .empty fs

def convertEnumValue (v : ListedEnumValue) : Conversion EnumValue := do
  let name ← convertName v.name
  return ⟨name, convertDescription v.description, deprecation v.isDeprecated v.deprecationReason⟩

def convertEnumValues (type : String) (vs : List ListedEnumValue) :
    Conversion (Table Name EnumValue) :=
  convertTable EnumValue.name (fun v => .enumValueRepeated type v.name) convertEnumValue .empty vs

/-! ## Types and directives -/

def convertBody (t : ListedType) : Conversion TypeBody :=
  match t.kind with
  | .scalar => .ok .scalar
  | .object => do
    let interfaces ← convertNames (t.interfaces.getD [])
    return .object interfaces (← convertFields t.name (t.fields.getD []))
  | .interface => do
    let interfaces ← convertNames (t.interfaces.getD [])
    return .interface interfaces (← convertFields t.name (t.fields.getD []))
  | .union => do return .union (← convertNames (t.possibleTypes.getD []))
  | .enum => do return .enum (← convertEnumValues t.name (t.enumValues.getD []))
  | .inputObject => do
    return .inputObject (← convertInputValues t.name (t.inputFields.getD []))
  | .list => .error (.layerListed t.name)
  | .nonNull => .error (.layerListed t.name)

def convertType (t : ListedType) : Conversion TypeDefinition := do
  let name ← convertName t.name
  let body ← convertBody t
  let directives := if t.kind = .scalar then specification t.specifiedBy else []
  return ⟨name, convertDescription t.description, directives, body⟩

def convertDirective (d : ListedDirective) : Conversion DirectiveDefinition := do
  let name ← convertName d.name
  let arguments ← convertInputValues d.name d.arguments
  let locations ← d.locations.mapM convertLocation
  return ⟨name, convertDescription d.description, arguments, d.isRepeatable, locations⟩

/-- Whether a listed type belongs to the language and not to the schema. -/
def isPredefined (t : ListedType) : Bool :=
  "__".toList.isPrefixOf t.name.toList || isBuiltInScalar t.name

/-- The directive definitions of a listing. Of two with one name the later counts, in the place
of the earlier. -/
def convertDirectives (ds : List ListedDirective) :
    Conversion (Table Name DirectiveDefinition) := do
  let definitions ← (ds.filter fun d => !isBuiltInDirective d.name).mapM convertDirective
  return .ofList (definitions.map fun d => (d.name, d))

/-- The schema that a listing lists. -/
def convert (name : String) (l : Listing) : Conversion Schema := do
  let query ← l.query.mapM convertName
  let mutation ← l.mutation.mapM convertName
  let subscription ← l.subscription.mapM convertName
  let repeated (t : ListedType) : Malformation :=
    match Name.ofText? t.name with
    | some n => .typeRepeated n
    | none => .badName t.name
  let types ← convertTable TypeDefinition.name repeated convertType .empty
    (l.types.filter fun t => !isPredefined t)
  let directives ← convertDirectives l.directives
  return { Schema.empty name with
    roots := ⟨query, mutation, subscription⟩, types := types, directiveDefinitions := directives }

/-- The schema in a response. Errors in it come before anything else. -/
def ofResponse (name : String) (r : Response) : Conversion Schema :=
  if r.errors.isEmpty then
    match r.data <|> r.schema with
    | some listing => convert name listing
    | none => .error .noSchema
  else .error (.errors r.errors)

/-- The schema in the text of a response. -/
def ofText (name : String) (text : String) : Conversion Schema :=
  match Response.ofText? text with
  | some r => ofResponse name r
  | none => .error .notAResponse

end SchemaWeave.Introspection
