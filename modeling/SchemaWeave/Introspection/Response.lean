import SchemaWeave.Json.Reader

/-!
# Introspection responses

A response lists the types and directives of a remote schema, or errors. This module says what
a response is and which JSON texts are one; what the lists mean is for the conversion.

## Records

A record is an object with the record's keys, each at most once, among any other keys; or an
array of the values in the order of the keys. In an object a key may be left out when its value
is optional or has a default. In an array only values with a default may be left out, at the
end.

## Depth

Only what is kept counts: lists and records may be nested in each other up to `depthLimit`
levels, and values under keys that mean nothing may be nested at will.
-/

namespace SchemaWeave.Introspection

/-! ## Listings -/

/-- The kinds that introspection tells apart: those of types, and the two layers of a
reference. -/
inductive Kind where
  | scalar
  | object
  | interface
  | union
  | enum
  | inputObject
  | list
  | nonNull
deriving DecidableEq

namespace Kind

def all : List Kind := [scalar, object, interface, union, enum, inputObject, list, nonNull]

def text : Kind → String
  | scalar => "SCALAR"
  | object => "OBJECT"
  | interface => "INTERFACE"
  | union => "UNION"
  | enum => "ENUM"
  | inputObject => "INPUT_OBJECT"
  | list => "LIST"
  | nonNull => "NON_NULL"

end Kind

/-- A reference, layer by layer. -/
inductive ListedReference where
  | layer (kind : Kind) (name : Option String) (inner : Option ListedReference)

structure ListedInputValue where
  name : String
  description : Option String
  type : ListedReference
  default : Option String

structure ListedField where
  name : String
  description : Option String
  arguments : List ListedInputValue
  type : ListedReference
  isDeprecated : Bool
  deprecationReason : Option String

structure ListedEnumValue where
  name : String
  description : Option String
  isDeprecated : Bool
  deprecationReason : Option String

structure ListedType where
  kind : Kind
  name : String
  description : Option String
  specifiedBy : Option String
  fields : Option (List ListedField)
  inputFields : Option (List ListedInputValue)
  interfaces : Option (List ListedReference)
  enumValues : Option (List ListedEnumValue)
  possibleTypes : Option (List ListedReference)

structure ListedDirective where
  name : String
  description : Option String
  locations : List String
  arguments : List ListedInputValue
  isRepeatable : Bool

/-- A whole schema as introspection lists it. -/
structure Listing where
  query : Option String
  mutation : Option String
  subscription : Option String
  types : List ListedType
  directives : List ListedDirective

structure Response where
  data : Option Listing
  schema : Option Listing
  errors : List String

/-! ## Records -/

/-- The deepest nesting of lists and records. -/
def depthLimit : Nat := 127

/-- Reads a value inside which lists and records may be nested up to a number of levels. -/
abbrev Decoder (α : Type) := Nat → Json → Option α

/-- What a record has under a key. -/
inductive Slot where
  | given (value : Json)
  /-- An object without the key. -/
  | absent
  /-- An array that ends before the key's turn. -/
  | beyond

/-- The value under a key of an object. The key may not be repeated. -/
def slotOf (entries : List (Option String × Json)) (key : String) : Option (String × Slot) :=
  match entries.filter (fun e => e.1 = some key) with
  | [] => some (key, .absent)
  | [e] => some (key, .given e.2)
  | _ => none

/-- The slots of an array, in the order of the keys. -/
def slotsInOrder : List String → List Json → Option (List (String × Slot))
  | [], [] => some []
  | [], _ :: _ => none
  | key :: keys, [] => (slotsInOrder keys []).map ((key, .beyond) :: ·)
  | key :: keys, v :: vs => (slotsInOrder keys vs).map ((key, .given v) :: ·)

/-- What a record has under each of its keys. -/
def slots (keys : List String) : Json → Option (List (String × Slot))
  | .object entries =>
    if entries.any (fun e => e.1.isNone) then none else keys.mapM (slotOf entries)
  | .array items => slotsInOrder keys items
  | _ => none

/-- A record's slots together with the depth that is left inside it. -/
structure Record where
  depth : Nat
  slots : List (String × Slot)

namespace Record

variable {α : Type}

def slot (r : Record) (key : String) : Slot := (r.slots.lookup key).getD .absent

def required (r : Record) (key : String) (d : Decoder α) : Option α :=
  match r.slot key with
  | .given v => d r.depth v
  | _ => none

/-- A value that may be null or left out of an object. -/
def optional (r : Record) (key : String) (d : Decoder α) : Option (Option α) :=
  match r.slot key with
  | .given .null => some none
  | .given v => (d r.depth v).map some
  | .absent => some none
  | .beyond => none

/-- A value that may be left out, but may not be null. -/
def defaulted (r : Record) (key : String) (d : Decoder α) (default : α) : Option α :=
  match r.slot key with
  | .given v => d r.depth v
  | _ => some default

end Record

namespace Decoder

variable {α : Type}

/-- A record with the given keys. -/
def record (keys : List String) (k : Record → Option α) : Decoder α
  | 0, _ => none
  | depth + 1, j => (slots keys j).bind fun s => k ⟨depth, s⟩

def list (d : Decoder α) : Decoder (List α)
  | depth + 1, .array items => items.mapM (d depth)
  | _, _ => none

def string : Decoder String
  | _, .string text => text
  | _, _ => none

def boolean : Decoder Bool
  | _, .boolean b => some b
  | _, _ => none

/-- A kind is its word, or an object with the word as its only key and nothing under it. -/
def kind : Decoder Kind
  | _, .string (some s) => Kind.all.find? (fun k => k.text = s)
  | _ + 1, .object [(some s, .null)] => Kind.all.find? (fun k => k.text = s)
  | _, _ => none

/-! ## The parts of a response -/

def reference : Decoder ListedReference
  | 0, _ => none
  | depth + 1, j => do
    let r : Record := ⟨depth, ← slots ["kind", "name", "ofType"] j⟩
    let kind ← r.required "kind" kind
    let name ← r.optional "name" string
    let inner ← match r.slot "ofType" with
      | .given .null => some none
      | .given v => (reference depth v).map some
      | .absent => some none
      | .beyond => none
    return .layer kind name inner

def inputValue : Decoder ListedInputValue :=
  record ["name", "description", "type", "defaultValue"] fun r => do
    return {
      name := ← r.required "name" string
      description := ← r.optional "description" string
      type := ← r.required "type" reference
      default := ← r.optional "defaultValue" string }

def field : Decoder ListedField :=
  record ["name", "description", "args", "type", "isDeprecated", "deprecationReason"] fun r => do
    return {
      name := ← r.required "name" string
      description := ← r.optional "description" string
      arguments := ← r.defaulted "args" (list inputValue) []
      type := ← r.required "type" reference
      isDeprecated := ← r.defaulted "isDeprecated" boolean false
      deprecationReason := ← r.optional "deprecationReason" string }

def enumValue : Decoder ListedEnumValue :=
  record ["name", "description", "isDeprecated", "deprecationReason"] fun r => do
    return {
      name := ← r.required "name" string
      description := ← r.optional "description" string
      isDeprecated := ← r.defaulted "isDeprecated" boolean false
      deprecationReason := ← r.optional "deprecationReason" string }

def type : Decoder ListedType :=
  record ["kind", "name", "description", "specifiedByURL", "fields", "inputFields", "interfaces",
      "enumValues", "possibleTypes"] fun r => do
    return {
      kind := ← r.required "kind" kind
      name := ← r.required "name" string
      description := ← r.optional "description" string
      specifiedBy := ← r.optional "specifiedByURL" string
      fields := ← r.optional "fields" (list field)
      inputFields := ← r.optional "inputFields" (list inputValue)
      interfaces := ← r.optional "interfaces" (list reference)
      enumValues := ← r.optional "enumValues" (list enumValue)
      possibleTypes := ← r.optional "possibleTypes" (list reference) }

def directive : Decoder ListedDirective :=
  record ["name", "description", "locations", "args", "isRepeatable"] fun r => do
    return {
      name := ← r.required "name" string
      description := ← r.optional "description" string
      locations := ← r.required "locations" (list string)
      arguments := ← r.defaulted "args" (list inputValue) []
      isRepeatable := ← r.defaulted "isRepeatable" boolean false }

/-- The name of an entry point's type. -/
def rootName : Decoder String := record ["name"] fun r => r.required "name" string

def listing : Decoder Listing :=
  record ["queryType", "mutationType", "subscriptionType", "types", "directives"] fun r => do
    return {
      query := ← r.optional "queryType" rootName
      mutation := ← r.optional "mutationType" rootName
      subscription := ← r.optional "subscriptionType" rootName
      types := ← r.required "types" (list type)
      directives := ← r.defaulted "directives" (list directive) [] }

def data : Decoder Listing := record ["__schema"] fun r => r.required "__schema" listing

def error : Decoder String := record ["message"] fun r => r.required "message" string

def response : Decoder Response :=
  record ["data", "__schema", "errors"] fun r => do
    return {
      data := ← r.optional "data" data
      schema := ← r.optional "__schema" listing
      errors := ← r.defaulted "errors" (list error) [] }

end Decoder

namespace Response

/-- The response that a text is. -/
def ofText? (s : String) : Option Response := (Json.ofText? s).bind (Decoder.response depthLimit)

end Response

end SchemaWeave.Introspection
