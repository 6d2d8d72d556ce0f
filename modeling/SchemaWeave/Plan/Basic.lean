import SchemaWeave.Merge.Union
import SchemaWeave.Rewrite.Rule
import SchemaWeave.Source.Acquisition
import SchemaWeave.Text.Blank

/-!
# Plans

A plan holds what is to be composed: schemas, extensions, rules and merge handlers, each in the
order of registration. A registration that cannot be accepted is noted as an error and changes
nothing else, so a plan can always be built to its end and all errors be reported together.

## What is accepted

Schemas have distinct names that are not empty; texts are not blank and paths not empty; rules
name types and fields by valid names, and the schema of a scope is not the empty name. Whether
a scope names a schema of the plan is looked at only when the plan is complete.
-/

namespace SchemaWeave

/-! ## Errors -/

/-- An argument that was empty. -/
inductive Argument where
  | schemaText (schema : String)
  | schemaPath (schema : String)
  | extensionText
  | extensionPath
  | name
deriving DecidableEq

namespace Argument

def text : Argument → String
  | schemaText s => "the SDL of schema \"" ++ s ++ "\""
  | schemaPath s => "the file path of schema \"" ++ s ++ "\""
  | extensionText => "extension SDL"
  | extensionPath => "extension file path"
  | name => "type and field names"

end Argument

/-- Something that is registered for one schema. -/
inductive Scoped where
  | rule (rule : Rule)
  | extension
deriving DecidableEq

namespace Scoped

def text : Scoped → String
  | rule r => r.text
  | extension => "an extension"

end Scoped

/-- Something that needs a text or a file. -/
inductive SourceOwner where
  | schema (name : String)
  | extension (schema : Option String)
deriving DecidableEq

namespace SourceOwner

def text : SourceOwner → String
  | schema n => "schema \"" ++ n ++ "\""
  | extension (some s) => "an extension of schema \"" ++ s ++ "\""
  | extension none => "a global extension"

end SourceOwner

inductive ConfigurationError where
  | emptySchemaName
  | duplicateSchema (name : String)
  | emptyArgument (argument : Argument)
  | invalidName (text : String)
  | unknownSchema (schema : String) (target : Scoped)
  | invalidSource (owner : SourceOwner)
  | noSchemas
  | notReadable
deriving DecidableEq

namespace ConfigurationError

/-- The error in words. A text that is no configuration has none of its own. -/
def message : ConfigurationError → Option String
  | emptySchemaName => some "schema names must not be empty"
  | duplicateSchema n => some ("schema \"" ++ n ++ "\" is registered more than once")
  | emptyArgument a => some (a.text ++ " must not be empty")
  | invalidName s => some ("`" ++ s ++ "` is not a valid GraphQL name")
  | unknownSchema s target =>
    some (target.text ++ " targets schema \"" ++ s ++ "\", which is not registered")
  | invalidSource owner => some (owner.text ++ " must have exactly one of `sdl` or `file`")
  | noSchemas => some "no schemas were registered"
  | notReadable => none

end ConfigurationError

/-! ## Plans -/

structure Plan where
  schemas : List (String × SchemaSource)
  extensions : List (Option String × ExtensionSource)
  rewriters : List Rewriter
  registry : Registry
  errors : List ConfigurationError

namespace Plan

/-- The plan in which nothing is registered but the built-in handlers. -/
def empty : Plan := ⟨[], [], [], .builtIn, []⟩

def reject (p : Plan) (e : ConfigurationError) : Plan := { p with errors := p.errors ++ [e] }

def hasSchema (p : Plan) (name : String) : Bool := p.schemas.any fun s => s.1 = name

/-! ## Schemas -/

def addSchema (p : Plan) (name : String) (source : SchemaSource) : Plan :=
  if name.isEmpty then p.reject .emptySchemaName
  else if p.hasSchema name then p.reject (.duplicateSchema name)
  else { p with schemas := p.schemas ++ [(name, source)] }

def addSchemaText (p : Plan) (name sdl : String) : Plan :=
  if Text.isBlankText sdl then p.reject (.emptyArgument (.schemaText name))
  else p.addSchema name (.text sdl)

def addSchemaFile (p : Plan) (name path : String) : Plan :=
  if path.isEmpty then p.reject (.emptyArgument (.schemaPath name))
  else p.addSchema name (.file path)

def addRemoteSchema (p : Plan) (name : String) (transport : Transport) : Plan :=
  p.addSchema name (.introspection transport)

/-! ## Extensions -/

/-- Registers an extension for one schema or, without a schema, for the merged one. -/
def addExtension (p : Plan) (schema : Option String) (source : ExtensionSource) : Plan :=
  let unusable : Option Argument := match source with
    | .text sdl => if Text.isBlankText sdl then some .extensionText else none
    | .file path => if path.isEmpty then some .extensionPath else none
  match unusable with
  | some argument => p.reject (.emptyArgument argument)
  | none =>
    if schema = some "" then p.reject .emptySchemaName
    else { p with extensions := p.extensions ++ [(schema, source)] }

/-! ## Names -/

/-- A name for a rule, or a note that it is none. -/
def checkName (p : Plan) (text : String) : Plan × Option Name :=
  if text.isEmpty then (p.reject (.emptyArgument .name), none)
  else
    match Name.ofText? text with
    | some n => (p, some n)
    | none => (p.reject (.invalidName text), none)

/-- Two names for a rule. Both are checked, whatever comes of the first. -/
def checkNames (p : Plan) (first second : String) : Plan × Option (Name × Name) :=
  let (p, m) := p.checkName first
  let (p, n) := p.checkName second
  (p, m.bind fun m => n.map (m, ·))

/-! ## Rules -/

/-- Registers a rule for one schema or, without a schema, for every schema. -/
def addRule (p : Plan) (schema : Option String) (rule : Rule) : Plan :=
  match schema with
  | none => { p with rewriters := p.rewriters ++ [⟨.everywhere, rule⟩] }
  | some s =>
    if s.isEmpty then p.reject .emptySchemaName
    else { p with rewriters := p.rewriters ++ [⟨.only s, rule⟩] }

def removeRootTypes (p : Plan) (schema : Option String) : Plan :=
  p.addRule schema .removeRootTypes

def removeType (p : Plan) (schema : Option String) (type : String) : Plan :=
  match p.checkName type with
  | (p, some n) => p.addRule schema (.removeType n)
  | (p, none) => p

def renameType (p : Plan) (schema : Option String) (old new : String) : Plan :=
  match p.checkNames old new with
  | (p, some (m, n)) => p.addRule schema (.renameType m n)
  | (p, none) => p

def removeField (p : Plan) (schema : String) (field : FieldReference) : Plan :=
  p.addRule (some schema) (.removeField field)

def renameField (p : Plan) (schema : Option String) (field : FieldReference) (new : String) :
    Plan :=
  match p.checkName new with
  | (p, some n) => p.addRule schema (.renameField field n)
  | (p, none) => p

/-! ## Merge handlers -/

def addHandler (p : Plan) (kind : TypeKind) (priority : Int32) (handler : Handler) : Plan :=
  { p with registry := p.registry.register kind priority handler }

/-! ## Complete plans -/

/-- The rules whose schema is not in the plan. -/
def unknownRuleScopes (p : Plan) : List ConfigurationError :=
  p.rewriters.filterMap fun r =>
    match r.scope with
    | .everywhere => none
    | .only s => if p.hasSchema s then none else some (.unknownSchema s (.rule r.rule))

/-- The extensions whose schema is not in the plan. -/
def unknownExtensionScopes (p : Plan) : List ConfigurationError :=
  p.extensions.filterMap fun e =>
    match e.1 with
    | none => none
    | some s => if p.hasSchema s then none else some (.unknownSchema s .extension)

/-- Everything that keeps a plan from being carried out: what was rejected, then the scopes
that name no schema of the plan, then the lack of any schema. -/
def allErrors (p : Plan) : List ConfigurationError :=
  p.errors ++ p.unknownRuleScopes ++ p.unknownExtensionScopes
    ++ if p.schemas.isEmpty then [.noSchemas] else []

end Plan

end SchemaWeave
