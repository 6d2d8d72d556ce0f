import SchemaWeave.Configuration.Basic
import SchemaWeave.Plan.Basic

/-!
# The plan of a configuration

The entries of a configuration are registered in their order: schemas, extensions, rules.
What a plan does not accept it notes, as it does for registrations one by one.
-/

namespace SchemaWeave

/-- The one source of an entry, when it has just one. -/
def oneSource {α : Type} (ofText ofFile : String → α) (sdl file : Option String) : Option α :=
  match sdl, file with
  | some s, none => some (ofText s)
  | none, some f => some (ofFile f)
  | _, _ => none

namespace Plan

def addSchemaEntry (p : Plan) (e : SchemaEntry) : Plan :=
  match oneSource SchemaSource.text SchemaSource.file e.sdl e.file with
  | some source => p.addSchema e.name source
  | none => p.reject (.invalidSource (.schema e.name))

def addExtensionEntry (p : Plan) (e : ExtensionEntry) : Plan :=
  match oneSource ExtensionSource.text ExtensionSource.file e.sdl e.file with
  | some source => p.addExtension e.schema source
  | none => p.reject (.invalidSource (.extension e.schema))

def addRewriteEntry (p : Plan) : RewriteEntry → Plan
  | .removeType schema type => p.removeType schema type
  | .removeField schema type field =>
    match p.checkNames type field with
    | (p, some (t, f)) => p.addRule schema (.removeField ⟨none, t, f⟩)
    | (p, none) => p
  | .removeRootTypes schema => p.removeRootTypes schema
  | .renameType schema old new => p.renameType schema old new
  | .renameField schema type field new =>
    let (p, reference) := p.checkNames type field
    let (p, newName) := p.checkName new
    match reference, newName with
    | some (t, f), some n => p.addRule schema (.renameField ⟨none, t, f⟩ n)
    | _, _ => p

end Plan

namespace Configuration

def plan (c : Configuration) : Plan :=
  let withSchemas := c.schemas.foldl Plan.addSchemaEntry .empty
  let withExtensions := c.extensions.foldl Plan.addExtensionEntry withSchemas
  c.rewrites.foldl Plan.addRewriteEntry withExtensions

end Configuration

end SchemaWeave
