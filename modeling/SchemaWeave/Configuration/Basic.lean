import SchemaWeave.Json.Value

/-!
# Configurations

A configuration says in one value what a plan is made of: schemas and extensions with their
texts or files, and rules with the schemas that they are for.

## What is not checked

A configuration may hold what no plan accepts: an entry with both a text and a file or with
neither, a name that is none, a schema twice. That is for the plan to report.
-/

namespace SchemaWeave

/-! ## Entries -/

structure SchemaEntry where
  name : String
  sdl : Option String
  file : Option String
deriving DecidableEq

/-- An extension of one schema or, without a schema, of the merged one. -/
structure ExtensionEntry where
  schema : Option String
  sdl : Option String
  file : Option String
deriving DecidableEq

/-- A rule for one schema or, without a schema, for every schema. -/
inductive RewriteEntry where
  | removeType (schema : Option String) (type : String)
  | removeField (schema : Option String) (type field : String)
  | removeRootTypes (schema : Option String)
  | renameType (schema : Option String) (old new : String)
  | renameField (schema : Option String) (type field new : String)
deriving DecidableEq

structure Configuration where
  schemas : List SchemaEntry
  extensions : List ExtensionEntry
  rewrites : List RewriteEntry
deriving DecidableEq

/-! ## As JSON -/

/-- The entry of an object for a value that may be absent; then it is left out. -/
def optionalEntry (key : String) : Option String → List (String × Json)
  | some s => [(key, .text s)]
  | none => []

namespace SchemaEntry

def json (e : SchemaEntry) : Json :=
  .record ([("name", .text e.name)] ++ optionalEntry "sdl" e.sdl ++ optionalEntry "file" e.file)

end SchemaEntry

namespace ExtensionEntry

def json (e : ExtensionEntry) : Json :=
  .record (optionalEntry "schema" e.schema ++ optionalEntry "sdl" e.sdl
    ++ optionalEntry "file" e.file)

end ExtensionEntry

namespace RewriteEntry

/-- The word for what a rule does. -/
def word : RewriteEntry → String
  | removeType _ _ => "remove_type"
  | removeField _ _ _ => "remove_field"
  | removeRootTypes _ => "remove_root_types"
  | renameType _ _ _ => "rename_type"
  | renameField _ _ _ _ => "rename_field"

/-- What a rule is about, by its keys. -/
def arguments : RewriteEntry → List (String × Json)
  | removeType s type => optionalEntry "schema" s ++ [("type", .text type)]
  | removeField s type field =>
    optionalEntry "schema" s ++ [("type", .text type), ("field", .text field)]
  | removeRootTypes s => optionalEntry "schema" s
  | renameType s old new => optionalEntry "schema" s ++ [("from", .text old), ("to", .text new)]
  | renameField s type field new =>
    optionalEntry "schema" s
      ++ [("type", .text type), ("field", .text field), ("to", .text new)]

def json (e : RewriteEntry) : Json := .record [(e.word, .record e.arguments)]

end RewriteEntry

namespace Configuration

def json (c : Configuration) : Json :=
  .record [("schemas", .array (c.schemas.map SchemaEntry.json)),
    ("extensions", .array (c.extensions.map ExtensionEntry.json)),
    ("rewrites", .array (c.rewrites.map RewriteEntry.json))]

end Configuration

end SchemaWeave
