import SchemaWeave.Configuration.Basic
import SchemaWeave.Yaml.Reader

/-!
# Reading configurations

A configuration is written in YAML, of which JSON is a part.

## Records

A record is a mapping from the record's keys, each at most once and no others; or a sequence
of the values in the order of the keys, from whose end some may be missing. A value that is a
text may be any scalar. One that may be absent is so without its key, without text or under a
word for no value.
-/

namespace SchemaWeave

open Yaml

/-! ## Records -/

/-- The values of a record by their keys. -/
def Yaml.Node.record? (keys : List String) : Node → Option (List (String × Node))
  | .mapping entries =>
    if entries.all (fun e => keys.contains e.1) && (entries.map (·.1)).Nodup then some entries
    else none
  | .sequence items => if items.length ≤ keys.length then some (keys.zip items) else none
  | .scalar _ => none

def Yaml.Node.text? : Node → Option String
  | .scalar s => some s.text
  | _ => none

/-- The text of a value, or that it is absent. -/
def Yaml.Node.optionalText? : Node → Option (Option String)
  | .scalar s => some (if s.isAbsent then none else some s.text)
  | _ => none

def Yaml.Node.items? : Node → Option (List Node)
  | .sequence items => some items
  | _ => none

/-- The text under a key. -/
def requiredText (values : List (String × Node)) (key : String) : Option String :=
  (values.lookup key).bind Node.text?

/-- The text under a key, if there is one. -/
def optionalText (values : List (String × Node)) (key : String) : Option (Option String) :=
  match values.lookup key with
  | some n => n.optionalText?
  | none => some none

/-- The entries under a key, each read by itself. Without the key there are none. -/
def entriesOf {α : Type} (read : Node → Option α) (values : List (String × Node))
    (key : String) : Option (List α) :=
  match values.lookup key with
  | some n => n.items?.bind (·.mapM read)
  | none => some []

/-! ## Configurations -/

def SchemaEntry.ofNode? (n : Node) : Option SchemaEntry := do
  let values ← n.record? ["name", "sdl", "file"]
  return ⟨← requiredText values "name", ← optionalText values "sdl",
    ← optionalText values "file"⟩

def ExtensionEntry.ofNode? (n : Node) : Option ExtensionEntry := do
  let values ← n.record? ["schema", "sdl", "file"]
  return ⟨← optionalText values "schema", ← optionalText values "sdl",
    ← optionalText values "file"⟩

/-- The rule that a word and what stands under it make. -/
def RewriteEntry.ofWord? (word : String) (n : Node) : Option RewriteEntry :=
  match word with
  | "remove_type" => do
    let values ← n.record? ["schema", "type"]
    return .removeType (← optionalText values "schema") (← requiredText values "type")
  | "remove_field" => do
    let values ← n.record? ["schema", "type", "field"]
    return .removeField (← optionalText values "schema") (← requiredText values "type")
      (← requiredText values "field")
  | "remove_root_types" => do
    let values ← n.record? ["schema"]
    return .removeRootTypes (← optionalText values "schema")
  | "rename_type" => do
    let values ← n.record? ["schema", "from", "to"]
    return .renameType (← optionalText values "schema") (← requiredText values "from")
      (← requiredText values "to")
  | "rename_field" => do
    let values ← n.record? ["schema", "type", "field", "to"]
    return .renameField (← optionalText values "schema") (← requiredText values "type")
      (← requiredText values "field") (← requiredText values "to")
  | _ => none

/-- A rule is a mapping with one key. -/
def RewriteEntry.ofNode? : Node → Option RewriteEntry
  | .mapping [(word, n)] => RewriteEntry.ofWord? word n
  | _ => none

namespace Configuration

def ofNode? (n : Node) : Option Configuration := do
  let values ← n.record? ["schemas", "extensions", "rewrites"]
  return ⟨← entriesOf SchemaEntry.ofNode? values "schemas",
    ← entriesOf ExtensionEntry.ofNode? values "extensions",
    ← entriesOf RewriteEntry.ofNode? values "rewrites"⟩

/-- The configuration that a text describes. -/
def ofText? (s : String) : Option Configuration := (Node.ofText? s).bind ofNode?

end Configuration

end SchemaWeave
