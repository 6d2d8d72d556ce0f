import SchemaWeave.Collect
import SchemaWeave.Schema.Basic
import SchemaWeave.Sdl.Parser

/-!
# Extending a schema by documents

A document adds definitions to a schema and extends what is there. Nothing is overwritten but the
description of the schema: a second definition of anything else is a fault. All faults of a document
are collected, and a schema results only when there is none.

## Two passes

The definitions of a document are added first and its `extend` forms are applied after them, so
an `extend` form may stand before the definition that it extends. `Schema.ofDocument` extends
the empty schema, which makes reading a schema a case of extending one.

## Faults in order

Within one definition the faults of its parts come first, then the fault of the definition
itself; across definitions they come in the order in which the two passes meet them.
-/

namespace SchemaWeave

open Sdl

/-! ## Faults -/

/-- Where arguments are defined: at a field of a type, or at a directive. -/
inductive ArgumentOwner where
  | field (type field : Name)
  | directive (directive : Name)
deriving DecidableEq

namespace ArgumentOwner

def text : ArgumentOwner → String
  | field t f => t.text ++ "." ++ f.text
  | directive d => "@" ++ d.text

end ArgumentOwner

/-- What is wrong with a document, apart from the schema it was meant for. -/
inductive DocumentFault where
  | notReadable
  | typeDefined (type : Name)
  | directiveDefined (directive : Name)
  | fieldDefined (type field : Name)
  | enumValueDefined (type value : Name)
  | memberDefined (type member : Name)
  | interfaceImplemented (type interface : Name)
  | rootDefined (operation : RootOperation) (type : Name)
  | typeMissing (type : Name)
  | kindDiffers (type : Name) (expected found : TypeKind)
  | executable
  | argumentDefined (owner : ArgumentOwner) (argument : Name)
deriving DecidableEq

/-- A fault together with the schema whose document has it. -/
structure ExtensionError where
  schema : String
  fault : DocumentFault
deriving DecidableEq

namespace ExtensionError

/-- The fault in words. A text that cannot be read has none of its own: what is wrong with it
is for the reader of the text to say. -/
def message (e : ExtensionError) : Option String :=
  let after (s : String) : Option String := some ("schema \"" ++ e.schema ++ "\": " ++ s)
  match e.fault with
  | .notReadable => none
  | .typeDefined t => after ("type `" ++ t.text ++ "` is already defined")
  | .directiveDefined d => after ("directive `@" ++ d.text ++ "` is already defined")
  | .fieldDefined t f => after ("field `" ++ t.text ++ "." ++ f.text ++ "` is already defined")
  | .enumValueDefined t v =>
    after ("enum value `" ++ t.text ++ "." ++ v.text ++ "` is already defined")
  | .memberDefined t m =>
    after ("union `" ++ t.text ++ "` already includes `" ++ m.text ++ "`")
  | .interfaceImplemented t i =>
    after ("`" ++ t.text ++ "` already implements `" ++ i.text ++ "`")
  | .rootDefined op t =>
    after ("the " ++ op.text ++ " root type is already defined as `" ++ t.text ++ "`")
  | .typeMissing t => after ("cannot extend `" ++ t.text ++ "` because it does not exist")
  | .kindDiffers t expected found =>
    after ("cannot extend " ++ found.text ++ " `" ++ t.text ++ "` as " ++ expected.text)
  | .executable =>
    after "executable definitions are not allowed in a type system document"
  | .argumentDefined owner a =>
    after ("argument `" ++ owner.text ++ "(" ++ a.text ++ ":)` is defined more than once")

end ExtensionError

/-! ## Tables from lists

Each list of a document becomes a table under the names of its elements. An element whose name
is there already is left out and reported. -/

/-- A result with the faults that were met on the way to it. -/
abbrev Faulty (α : Type) := α × List DocumentFault

/-- Adds the elements of a list to a table, one after another, each under its key. `fault` is
what is reported of an element whose key is there already, and `convert` gives the entry and
the faults inside it for the others. -/
def addEntries {α β : Type} (key : α → Name) (fault : α → DocumentFault)
    (convert : α → Faulty β) : Table Name β → List α → Faulty (Table Name β)
  | t, [] => (t, [])
  | t, a :: as =>
    if t.contains (key a) then
      let (t', faults) := addEntries key fault convert t as
      (t', fault a :: faults)
    else
      let (entry, inner) := convert a
      let (t', faults) := addEntries key fault convert (t.insert (key a) entry) as
      (t', inner ++ faults)

/-- Adds the elements of a list to a set, reporting those that are there already. -/
def addElements (fault : Name → DocumentFault) : Distinct Name → List Name → Faulty (Distinct Name)
  | s, [] => (s, [])
  | s, n :: ns =>
    let (s', faults) := addElements fault (s.insert n) ns
    (s', if s.contains n then fault n :: faults else faults)

/-- The table of the arguments that a field or a directive defines. -/
def argumentTable (owner : ArgumentOwner) (args : List InputValue) :
    Faulty (Table Name InputValue) :=
  addEntries InputValue.name (fun a => .argumentDefined owner a.name) (·, []) .empty args

/-- The field that a node of the document defines. -/
def fieldOfNode (type : Name) (node : FieldNode) : Faulty Field :=
  let (args, faults) := argumentTable (.field type node.name) node.arguments
  (⟨node.name, node.description, args, node.type, node.directives⟩, faults)

def fieldTable (type : Name) (nodes : List FieldNode) : Faulty (Table Name Field) :=
  addEntries FieldNode.name (fun f => .fieldDefined type f.name) (fieldOfNode type) .empty nodes

def inputFieldTable (type : Name) (fields : List InputValue) : Faulty (Table Name InputValue) :=
  addEntries InputValue.name (fun f => .fieldDefined type f.name) (·, []) .empty fields

def enumValueTable (type : Name) (values : List EnumValue) : Faulty (Table Name EnumValue) :=
  addEntries EnumValue.name (fun v => .enumValueDefined type v.name) (·, []) .empty values

def memberSet (type : Name) (members : List Name) : Faulty (Distinct Name) :=
  addElements (.memberDefined type) .empty members

/-! ## Definitions -/

/-- The body that a definition gives. A repeated interface is taken once. -/
def bodyOfNode (type : Name) : Body → Faulty TypeBody
  | .scalar => (.scalar, [])
  | .object interfaces nodes =>
    let (fields, faults) := fieldTable type nodes
    (.object (.ofList interfaces) fields, faults)
  | .interface interfaces nodes =>
    let (fields, faults) := fieldTable type nodes
    (.interface (.ofList interfaces) fields, faults)
  | .union members =>
    let (members, faults) := memberSet type members
    (.union members, faults)
  | .enum values =>
    let (values, faults) := enumValueTable type values
    (.enum values, faults)
  | .inputObject fields =>
    let (fields, faults) := inputFieldTable type fields
    (.inputObject fields, faults)

def typeOfNode (node : TypeNode) : Faulty TypeDefinition :=
  let (body, faults) := bodyOfNode node.name node.body
  (⟨node.name, node.description, node.directives, body⟩, faults)

def directiveOfNode (node : DirectiveNode) : Faulty DirectiveDefinition :=
  let (args, faults) := argumentTable (.directive node.name) node.arguments
  (⟨node.name, node.description, args, node.repeatable, node.locations⟩, faults)

/-- Sets entry points that are not set yet and reports those that are. -/
def addRoots : RootOperations → List (RootOperation × Name) → Faulty RootOperations
  | r, [] => (r, [])
  | r, (op, n) :: more =>
    match r.get op with
    | some existing =>
      let (r', faults) := addRoots r more
      (r', .rootDefined op existing :: faults)
    | none => addRoots (r.set op (some n)) more

namespace Schema

/-- Adds what a definition defines. `extend` forms add nothing here. -/
def define (s : Schema) : Definition → Faulty Schema
  | .executable => (s, [.executable])
  | .directive node =>
    let (d, faults) := directiveOfNode node
    if s.directiveDefinitions.contains d.name then (s, faults ++ [.directiveDefined d.name])
    else ({ s with directiveDefinitions := s.directiveDefinitions.insert d.name d }, faults)
  | .schema node =>
    let (roots, faults) := addRoots s.roots node.roots
    ({ s with
        description := if node.description.isSome then node.description else s.description
        directives := s.directives ++ node.directives
        roots := roots }, faults)
  | .type node =>
    let (d, faults) := typeOfNode node
    if s.types.contains d.name then (s, faults ++ [.typeDefined d.name])
    else ({ s with types := s.types.insert d.name d }, faults)
  | .extendSchema _ => (s, [])
  | .extendType _ => (s, [])

end Schema

/-! ## Extensions -/

/-- Adds the entries of one table to another, reporting the keys that are there already. -/
def addTable {α : Type} (fault : Name → DocumentFault) (t added : Table Name α) :
    Faulty (Table Name α) :=
  addEntries Prod.fst (fun e => fault e.1) (fun e => (e.2, [])) t added.entries

/-- The body that an `extend` form adds. It is the body of a definition but for the interfaces,
which are kept as they are written. -/
inductive Addition where
  | scalar
  | object (interfaces : List Name) (fields : Table Name Field)
  | interface (interfaces : List Name) (fields : Table Name Field)
  | union (members : Distinct Name)
  | enum (values : Table Name EnumValue)
  | inputObject (fields : Table Name InputValue)

namespace Addition

/-- What the body of an `extend` form adds, with the repetitions inside the form reported. -/
def ofBody (type : Name) : Body → Faulty Addition
  | .scalar => (.scalar, [])
  | .object interfaces nodes =>
    let (fields, faults) := fieldTable type nodes
    (.object interfaces fields, faults)
  | .interface interfaces nodes =>
    let (fields, faults) := fieldTable type nodes
    (.interface interfaces fields, faults)
  | .union members =>
    let (members, faults) := memberSet type members
    (.union members, faults)
  | .enum values =>
    let (values, faults) := enumValueTable type values
    (.enum values, faults)
  | .inputObject fields =>
    let (fields, faults) := inputFieldTable type fields
    (.inputObject fields, faults)

end Addition

namespace TypeBody

/-- The body with an addition of the same kind. An addition of another kind changes nothing;
`Schema.extendType` has refused it. -/
def add (type : Name) : TypeBody → Addition → Faulty TypeBody
  | object is fs, .object js gs =>
    let (interfaces, faults) := addElements (.interfaceImplemented type) is js
    let (fields, faults') := addTable (.fieldDefined type) fs gs
    (.object interfaces fields, faults ++ faults')
  | interface is fs, .interface js gs =>
    let (interfaces, faults) := addElements (.interfaceImplemented type) is js
    let (fields, faults') := addTable (.fieldDefined type) fs gs
    (.interface interfaces fields, faults ++ faults')
  | union ms, .union ns =>
    let (members, faults) := addElements (.memberDefined type) ms ns.toList
    (.union members, faults)
  | enum vs, .enum ws =>
    let (values, faults) := addTable (.enumValueDefined type) vs ws
    (.enum values, faults)
  | inputObject fs, .inputObject gs =>
    let (fields, faults) := addTable (.fieldDefined type) fs gs
    (.inputObject fields, faults)
  | b, _ => (b, [])

end TypeBody

/-- The name of a type in the faults of an `extend` form that was looked up under `key`. Objects
and interfaces are reported by their own name, all others by the one that the form gives. -/
def TypeDefinition.nameInFaults (d : TypeDefinition) (key : Name) : Name :=
  match d.body with
  | .object .. => d.name
  | .interface .. => d.name
  | _ => key

namespace Schema

/-- Applies an `extend` form for a type. -/
def extendType (s : Schema) (e : TypeExtension) : Faulty Schema :=
  let (addition, faults) := Addition.ofBody e.name e.body
  match s.types.get? e.name with
  | none => (s, faults ++ [.typeMissing e.name])
  | some d =>
    if d.kind = e.body.kind then
      let (body, faults') := d.body.add (d.nameInFaults e.name) addition
      let extended := { d with directives := d.directives ++ e.directives, body := body }
      ({ s with types := s.types.insert e.name extended }, faults ++ faults')
    else (s, faults ++ [.kindDiffers e.name e.body.kind d.kind])

/-- Applies an `extend` form. Definitions change nothing here. -/
def extend (s : Schema) : Definition → Faulty Schema
  | .extendSchema e =>
    let (roots, faults) := addRoots s.roots e.roots
    ({ s with directives := s.directives ++ e.directives, roots := roots }, faults)
  | .extendType e => s.extendType e
  | _ => (s, [])

/-- One step after another, with the faults of all of them. -/
def collect {α : Type} (step : Schema → α → Faulty Schema) : Schema → List α → Faulty Schema
  | s, [] => (s, [])
  | s, a :: as =>
    let (s', faults) := step s a
    let (s'', faults') := collect step s' as
    (s'', faults ++ faults')

/-- Adds a whole document: its definitions, then its `extend` forms. -/
def addDocument (s : Schema) (d : Document) : Faulty Schema :=
  let (defined, faults) := collect define s d.definitions
  let (extended, faults') := collect extend defined d.definitions
  (extended, faults ++ faults')

/-- The schema with all documents added, or every fault in them. -/
def extendBy (s : Schema) (ds : List Document) : Except (List ExtensionError) Schema :=
  let (extended, faults) := collect addDocument s ds
  if faults.isEmpty then .ok extended else .error (faults.map (⟨s.name, ·⟩))

/-! ## Schemas from documents -/

/-- The schema that a document defines, or every fault in it. Where the document has no
`schema` definition, entry points that it does not set are found by their canonical names. -/
def ofDocument (name : String) (d : Document) : Except (List ExtensionError) Schema := do
  let s ← (empty name).extendBy [d]
  let explicit := d.definitions.any fun x => match x with
    | .schema _ => true
    | _ => false
  return if explicit then s else s.inferRoots

end Schema

/-! ## Texts -/

/-- The document of an extension text that is meant for a schema. -/
def readExtension (schema : String) (text : String) : Except ExtensionError Document :=
  match Document.ofText? text with
  | some d => .ok d
  | none => .error ⟨schema, .notReadable⟩

/-- The documents of several extension texts, or one error for each that cannot be read. -/
def readExtensions (schema : String) (texts : List String) :
    Except (List ExtensionError) (List Document) :=
  collectResults (texts.map (readExtension schema))

end SchemaWeave
