import SchemaWeave.Introspection.Conversion
import SchemaWeave.Introspection.Query
import SchemaWeave.Sdl.Printer

/-!
# What a schema tells of itself

The listing of a schema, and the answer to the introspection query in which it is sent. An answer
may list what belongs to the language beside what belongs to the schema: built-in scalars, the
types of introspection and built-in directives.

Introspection tells no applied directives. A deprecation and the place where a scalar is specified
are told in their own words, so they are all that can be told of the directives of a schema.

## References

The query follows a reference through `referenceDepth` layers. In the last of them it does not ask
what is inside, so the answer does not say.
-/

namespace SchemaWeave

open Introspection

/-! ## Directives in other words -/

namespace Directive

def deprecated : Name := (Name.ofText? "deprecated").get (by decide)

def reason : Name := (Name.ofText? "reason").get (by decide)

def specifiedBy : Name := (Name.ofText? "specifiedBy").get (by decide)

def url : Name := (Name.ofText? "url").get (by decide)

/-- The text of an argument, if the argument is a string. -/
def stringArgument? (d : Directive) (argument : Name) : Option String :=
  match d.arguments.lookup argument with
  | some (.string text) => some text
  | _ => none

/-- Whether an element with the directives is deprecated. -/
def isDeprecated (ds : List Directive) : Bool := ds.any fun d => d.name = deprecated

/-- Why an element with the directives is deprecated, if they say so. -/
def deprecationReason (ds : List Directive) : Option String :=
  (ds.find? fun d => d.name = deprecated).bind fun d => d.stringArgument? reason

/-- Where a scalar with the directives is specified. -/
def specification (ds : List Directive) : Option String :=
  (ds.find? fun d => d.name = specifiedBy).bind fun d => d.stringArgument? url

end Directive

/-! ## Listings -/

namespace Introspection.Kind

/-- The kind of the types of a kind. -/
def ofTypeKind : TypeKind → Kind
  | .scalar => scalar
  | .object => object
  | .interface => interface
  | .union => union
  | .enum => enum
  | .inputObject => inputObject

end Introspection.Kind

/-- How a schema lists a type that is named. A name that no type has is listed as a scalar. -/
def Schema.listedName (s : Schema) (n : Name) : ListedReference :=
  .layer ((s.kind? n).elim .scalar .ofTypeKind) (some n.text) none

/-- The layers of a reference around its name: one for each list and one for each non-null. -/
def TypeRef.layers : TypeRef → Nat
  | named _ => 0
  | nonNullNamed _ => 1
  | list t => t.layers + 1
  | nonNullList t => t.layers + 2

/-- How a schema lists a reference, layer by layer. -/
def TypeRef.listed (s : Schema) : TypeRef → ListedReference
  | named n => s.listedName n
  | nonNullNamed n => .layer .nonNull none (some (s.listedName n))
  | list t => .layer .list none (some (t.listed s))
  | nonNullList t => .layer .nonNull none (some (.layer .list none (some (t.listed s))))

def InputValue.listed (s : Schema) (v : InputValue) : ListedInputValue where
  name := v.name.text
  description := v.description
  type := v.type.listed s
  default := v.default.map (Sdl.valueText .oneLine)

def Field.listed (s : Schema) (f : Field) : ListedField where
  name := f.name.text
  description := f.description
  arguments := f.arguments.values.map (InputValue.listed s)
  type := f.type.listed s
  isDeprecated := Directive.isDeprecated f.directives
  deprecationReason := Directive.deprecationReason f.directives

def EnumValue.listed (v : EnumValue) : ListedEnumValue where
  name := v.name.text
  description := v.description
  isDeprecated := Directive.isDeprecated v.directives
  deprecationReason := Directive.deprecationReason v.directives

namespace TypeBody

/-- The values of an enum. -/
def enumValues? : TypeBody → Option (Table Name EnumValue)
  | enum values => some values
  | _ => none

/-- The object types that a value of the type can be of, where the type is abstract. -/
def possibleTypes? (s : Schema) (type : Name) : TypeBody → Option (List Name)
  | interface _ _ =>
    some ((s.types.values.filter fun d => d.kind = .object && d.implements type).map (·.name))
  | union members => some members.toList
  | _ => none

end TypeBody

def TypeDefinition.listed (s : Schema) (d : TypeDefinition) : ListedType where
  kind := .ofTypeKind d.kind
  name := d.name.text
  description := d.description
  specifiedBy := Directive.specification d.directives
  fields := d.body.fields?.map fun fields => fields.values.map (Field.listed s)
  inputFields := d.body.inputFields?.map fun fields => fields.values.map (InputValue.listed s)
  interfaces := d.body.interfaces?.map fun interfaces => interfaces.toList.map s.listedName
  enumValues := d.body.enumValues?.map fun values => values.values.map EnumValue.listed
  possibleTypes := (d.body.possibleTypes? s d.name).map fun types => types.map s.listedName

def DirectiveDefinition.listed (s : Schema) (d : DirectiveDefinition) : ListedDirective where
  name := d.name.text
  description := d.description
  locations := d.locations.map DirectiveLocation.text
  arguments := d.arguments.values.map (InputValue.listed s)
  isRepeatable := d.repeatable

/-- The listing of a schema, in which nothing belongs to the language. -/
def Schema.listing (s : Schema) : Listing where
  query := s.roots.query.map Name.text
  mutation := s.roots.mutation.map Name.text
  subscription := s.roots.subscription.map Name.text
  types := s.types.values.map (TypeDefinition.listed s)
  directives := s.directiveDefinitions.values.map (DirectiveDefinition.listed s)

namespace Introspection

/-- Whether a list has the elements of another in their order, and besides only elements with a
property. -/
inductive Extends {α : Type} (extra : α → Bool) : List α → List α → Prop where
  | nil : Extends extra [] []
  | keep (a : α) {l m : List α} (h : Extends extra l m) : Extends extra (a :: l) (a :: m)
  | add {a : α} (ha : extra a = true) {l m : List α} (h : Extends extra l m) :
      Extends extra l (a :: m)

/-- Whether a listing tells what a schema is, and besides only what belongs to the language. -/
structure Listing.Lists (l : Listing) (s : Schema) : Prop where
  query : l.query = s.listing.query
  mutation : l.mutation = s.listing.mutation
  subscription : l.subscription = s.listing.subscription
  types : Extends isPredefined s.listing.types l.types
  directives : Extends (fun d => isBuiltInDirective d.name) s.listing.directives l.directives

/-! ## Answers -/

/-- A value that may be missing. -/
def optionalJson {α : Type} (json : α → Json) : Option α → Json
  | none => .null
  | some a => json a

def listJson {α : Type} (json : α → Json) (as : List α) : Json := .array (as.map json)

def Kind.json (k : Kind) : Json := .text k.text

/-- A reference that is followed through a number of layers. -/
def ListedReference.json : Nat → ListedReference → Json
  | 0, .layer kind name _ =>
    .record [("kind", kind.json), ("name", optionalJson .text name)]
  | n + 1, .layer kind name inner =>
    .record [("kind", kind.json), ("name", optionalJson .text name),
      ("ofType", optionalJson (json n) inner)]

def ListedInputValue.json (v : ListedInputValue) : Json :=
  .record [("name", .text v.name), ("description", optionalJson .text v.description),
    ("type", v.type.json referenceDepth), ("defaultValue", optionalJson .text v.default)]

def ListedField.json (f : ListedField) : Json :=
  .record [("name", .text f.name), ("description", optionalJson .text f.description),
    ("args", listJson ListedInputValue.json f.arguments), ("type", f.type.json referenceDepth),
    ("isDeprecated", .boolean f.isDeprecated),
    ("deprecationReason", optionalJson .text f.deprecationReason)]

def ListedEnumValue.json (v : ListedEnumValue) : Json :=
  .record [("name", .text v.name), ("description", optionalJson .text v.description),
    ("isDeprecated", .boolean v.isDeprecated),
    ("deprecationReason", optionalJson .text v.deprecationReason)]

def ListedType.json (t : ListedType) : Json :=
  .record [("kind", t.kind.json), ("name", .text t.name),
    ("description", optionalJson .text t.description),
    ("specifiedByURL", optionalJson .text t.specifiedBy),
    ("fields", optionalJson (listJson ListedField.json) t.fields),
    ("inputFields", optionalJson (listJson ListedInputValue.json) t.inputFields),
    ("interfaces", optionalJson (listJson (ListedReference.json referenceDepth)) t.interfaces),
    ("enumValues", optionalJson (listJson ListedEnumValue.json) t.enumValues),
    ("possibleTypes",
      optionalJson (listJson (ListedReference.json referenceDepth)) t.possibleTypes)]

def ListedDirective.json (d : ListedDirective) : Json :=
  .record [("name", .text d.name), ("description", optionalJson .text d.description),
    ("locations", listJson .text d.locations), ("args", listJson ListedInputValue.json d.arguments),
    ("isRepeatable", .boolean d.isRepeatable)]

/-- The type of an entry point, of which only the name is asked. -/
def rootJson (name : String) : Json := .record [("name", .text name)]

def Listing.json (l : Listing) : Json :=
  .record [("queryType", optionalJson rootJson l.query),
    ("mutationType", optionalJson rootJson l.mutation),
    ("subscriptionType", optionalJson rootJson l.subscription),
    ("types", listJson ListedType.json l.types),
    ("directives", listJson ListedDirective.json l.directives)]

def Listing.dataJson (l : Listing) : Json := .record [("__schema", l.json)]

/-- The answer to the introspection query. -/
def Listing.answer (l : Listing) : Json := .record [("data", l.dataJson)]

end Introspection

/-! ## What can be told -/

/-- Whether directives say at most that an element is deprecated, once, and perhaps why. -/
def Directive.IsDeprecation (ds : List Directive) : Prop :=
  ds = [] ∨ ds = [⟨deprecated, []⟩] ∨
    ∃ text, ds = [⟨deprecated, [(reason, .string text)]⟩]

/-- Whether introspection tells everything about an argument or an input field. -/
structure InputValue.Introspectable (v : InputValue) : Prop where
  description : v.description ≠ some ""
  directives : v.directives = []
  default : ∀ d ∈ v.default, parseDefault (Sdl.valueText .oneLine d) = some d

structure Field.Introspectable (f : Field) : Prop where
  description : f.description ≠ some ""
  directives : Directive.IsDeprecation f.directives
  arguments : ∀ a ∈ f.arguments.values, a.Introspectable

structure EnumValue.Introspectable (v : EnumValue) : Prop where
  description : v.description ≠ some ""
  directives : Directive.IsDeprecation v.directives

/-- Whether introspection tells everything about the body of a type. -/
def TypeBody.Introspectable : TypeBody → Prop
  | scalar | union _ => True
  | object _ fields | interface _ fields => ∀ f ∈ fields.values, f.Introspectable
  | enum values => ∀ v ∈ values.values, v.Introspectable
  | inputObject fields => ∀ f ∈ fields.values, f.Introspectable

structure TypeDefinition.Introspectable (d : TypeDefinition) : Prop where
  notReserved : ¬ "__".toList <+: d.name.text.toList
  notBuiltIn : isBuiltInScalar d.name.text = false
  description : d.description ≠ some ""
  /-- Only scalars may have a directive, which says where they are specified. -/
  directives : d.directives = [] ∨
    d.kind = .scalar ∧
      ∃ text, d.directives = [⟨Directive.specifiedBy, [(Directive.url, .string text)]⟩]
  body : d.body.Introspectable

structure DirectiveDefinition.Introspectable (d : DirectiveDefinition) : Prop where
  notBuiltIn : isBuiltInDirective d.name.text = false
  description : d.description ≠ some ""
  arguments : ∀ a ∈ d.arguments.values, a.Introspectable

/-- Whether introspection tells everything about a schema, but for references of many layers. -/
structure Schema.Introspectable (s : Schema) : Prop where
  description : s.description = none
  directives : s.directives = []
  types : ∀ d ∈ s.types.values, d.Introspectable
  directiveDefinitions : ∀ d ∈ s.directiveDefinitions.values, d.Introspectable

end SchemaWeave
