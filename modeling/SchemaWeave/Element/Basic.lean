import SchemaWeave.Element.TypeRef
import SchemaWeave.Element.Value

/-!
# Elements of a type system

The parts that a written document and a schema share: the kinds of types, the three entry
points, the places where a directive may stand, and the definitions that hold no table of
their own (input values and enum values).
-/

namespace SchemaWeave

/-! ## Kinds of types -/

inductive TypeKind where
  | scalar
  | object
  | interface
  | union
  | enum
  | inputObject
deriving DecidableEq, Repr

namespace TypeKind

def all : List TypeKind := [scalar, object, interface, union, enum, inputObject]

/-- Whether a field may return a type of this kind. -/
def isOutput : TypeKind → Bool
  | inputObject => false
  | _ => true

/-- Whether an argument or an input field may have a type of this kind. -/
def isInput : TypeKind → Bool
  | scalar | enum | inputObject => true
  | object | interface | union => false

/-- The kind in words, as messages name it. -/
def text : TypeKind → String
  | scalar => "scalar"
  | object => "object type"
  | interface => "interface"
  | union => "union"
  | enum => "enum"
  | inputObject => "input object type"

end TypeKind

/-! ## Entry points -/

inductive RootOperation where
  | query
  | mutation
  | subscription
deriving DecidableEq, Repr

namespace RootOperation

/-- The three operations, in the order in which they are always listed. -/
def all : List RootOperation := [query, mutation, subscription]

def text : RootOperation → String
  | query => "query"
  | mutation => "mutation"
  | subscription => "subscription"

/-- The type that serves an operation when a schema does not say otherwise. -/
def canonicalName : RootOperation → Name
  | query => ⟨"Query", by decide⟩
  | mutation => ⟨"Mutation", by decide⟩
  | subscription => ⟨"Subscription", by decide⟩

end RootOperation

/-- The type behind each entry point, where there is one. -/
structure RootOperations where
  query : Option Name
  mutation : Option Name
  subscription : Option Name
deriving DecidableEq

namespace RootOperations

def none : RootOperations := ⟨Option.none, Option.none, Option.none⟩

instance : Inhabited RootOperations := ⟨none⟩

def get (r : RootOperations) : RootOperation → Option Name
  | .query => r.query
  | .mutation => r.mutation
  | .subscription => r.subscription

def set (r : RootOperations) (op : RootOperation) (n : Option Name) : RootOperations :=
  match op with
  | .query => { r with query := n }
  | .mutation => { r with mutation := n }
  | .subscription => { r with subscription := n }

@[simp] theorem get_set_self (r : RootOperations) (op : RootOperation) (n : Option Name) :
    (r.set op n).get op = n := by
  cases op <;> rfl

theorem get_set_of_ne (r : RootOperations) {op op' : RootOperation} (n : Option Name)
    (h : op' ≠ op) : (r.set op n).get op' = r.get op' := by
  cases op <;> cases op' <;> simp_all [get, set]

/-- The entry points that are set, in their fixed order. -/
def toList (r : RootOperations) : List (RootOperation × Name) :=
  RootOperation.all.filterMap (fun op => (r.get op).map (op, ·))

/-- The first operation whose entry point is the named type. -/
def operationOf (r : RootOperations) (n : Name) : Option RootOperation :=
  (r.toList.find? (fun e => e.2 = n)).map Prod.fst

def isEmpty (r : RootOperations) : Bool := r.toList.isEmpty

/-- Whether every entry point that is set has its canonical name. -/
def isCanonical (r : RootOperations) : Bool :=
  r.toList.all (fun e => e.2 = e.1.canonicalName)

/-- Changes the name behind every entry point that is set. -/
def map (r : RootOperations) (f : Name → Name) : RootOperations :=
  ⟨r.query.map f, r.mutation.map f, r.subscription.map f⟩

/-- Keeps the entry points whose type passes the test. -/
def filter (r : RootOperations) (p : Name → Bool) : RootOperations :=
  ⟨r.query.filter p, r.mutation.filter p, r.subscription.filter p⟩

end RootOperations

/-! ## Directive locations -/

inductive DirectiveLocation where
  | query
  | mutation
  | subscription
  | field
  | fragmentDefinition
  | fragmentSpread
  | inlineFragment
  | variableDefinition
  | schema
  | scalar
  | object
  | fieldDefinition
  | argumentDefinition
  | interface
  | union
  | enum
  | enumValue
  | inputObject
  | inputFieldDefinition
deriving DecidableEq, Repr

namespace DirectiveLocation

def all : List DirectiveLocation :=
  [query, mutation, subscription, field, fragmentDefinition, fragmentSpread, inlineFragment,
    variableDefinition, schema, scalar, object, fieldDefinition, argumentDefinition, interface,
    union, enum, enumValue, inputObject, inputFieldDefinition]

def text : DirectiveLocation → String
  | query => "QUERY"
  | mutation => "MUTATION"
  | subscription => "SUBSCRIPTION"
  | field => "FIELD"
  | fragmentDefinition => "FRAGMENT_DEFINITION"
  | fragmentSpread => "FRAGMENT_SPREAD"
  | inlineFragment => "INLINE_FRAGMENT"
  | variableDefinition => "VARIABLE_DEFINITION"
  | schema => "SCHEMA"
  | scalar => "SCALAR"
  | object => "OBJECT"
  | fieldDefinition => "FIELD_DEFINITION"
  | argumentDefinition => "ARGUMENT_DEFINITION"
  | interface => "INTERFACE"
  | union => "UNION"
  | enum => "ENUM"
  | enumValue => "ENUM_VALUE"
  | inputObject => "INPUT_OBJECT"
  | inputFieldDefinition => "INPUT_FIELD_DEFINITION"

/-- The location with the given text. -/
def ofText? (s : String) : Option DirectiveLocation := all.find? (fun l => l.text = s)

theorem ofText?_text (l : DirectiveLocation) : ofText? l.text = some l := by
  cases l <;> decide

end DirectiveLocation

/-! ## Input values and enum values -/

/-- An argument, an input field or the argument of a directive. -/
structure InputValue where
  name : Name
  description : Option String
  type : TypeRef
  default : Option Value
  directives : List Directive
deriving DecidableEq

namespace InputValue

/-- An input value with a name and a type and nothing else. -/
def ofType (name : Name) (type : TypeRef) : InputValue := ⟨name, none, type, none, []⟩

/-- Name and type, as they are written. -/
def signature (v : InputValue) : String := v.name.text ++ ": " ++ v.type.text

end InputValue

structure EnumValue where
  name : Name
  description : Option String
  directives : List Directive
deriving DecidableEq

/-! ## What every schema has without defining it -/

def builtInScalars : List String := ["Int", "Float", "String", "Boolean", "ID"]

def isBuiltInScalar (name : String) : Bool := builtInScalars.contains name

def builtInDirectives : List String :=
  ["skip", "include", "deprecated", "specifiedBy", "oneOf", "defer", "stream"]

def isBuiltInDirective (name : String) : Bool := builtInDirectives.contains name

end SchemaWeave
