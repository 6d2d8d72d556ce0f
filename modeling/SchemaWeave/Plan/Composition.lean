import SchemaWeave.Merge.Run
import SchemaWeave.Plan.Basic
import SchemaWeave.Rewrite.Run

/-!
# Carrying out a plan

The schemas are acquired, extended and rewritten each by itself, merged into one, extended as a
whole and checked. Each stage reports everything that goes wrong in it, and the first stage
with an error is the last that runs.
-/

namespace SchemaWeave

/-! ## Errors -/

/-- The errors of the stage that failed. -/
inductive CompositionError where
  | configuration (errors : List ConfigurationError)
  | acquisition (errors : List AcquisitionError)
  | extension (errors : List ExtensionError)
  | rewrite (errors : List RewriteError)
  | merge (conflicts : List Conflict)
  | validation (violations : List Violation)

namespace CompositionError

def stage : CompositionError → String
  | configuration _ => "configuration"
  | acquisition _ => "schema acquisition"
  | extension _ => "extension application"
  | rewrite _ => "rewriting"
  | merge _ => "merging"
  | validation _ => "validation"

/-- The message of each error; nothing for those that have no wording of their own. -/
def messages : CompositionError → List (Option String)
  | configuration es => es.map ConfigurationError.message
  | acquisition es => es.map AcquisitionError.message
  | extension es => es.map ExtensionError.message
  | rewrite es => es.map fun e => some e.message
  | merge cs => cs.map fun c => some c.message
  | validation vs => vs.map fun v => some v.message

/-- The errors as one text, a line for each, if all have a wording. -/
def message (e : CompositionError) : Option String := do
  let ms ← e.messages.mapM id
  let errors := if ms.length = 1 then " error:\n" else " errors:\n"
  some ("composition failed during " ++ e.stage ++ " with " ++ toString ms.length ++ errors
    ++ "\n".intercalate (ms.map ("  - " ++ ·)))

end CompositionError

/-! ## Stages -/

namespace Plan

/-- The texts of the extensions, each with the schema it is for. -/
def loadExtensions (p : Plan) (files : Files) :
    Except (List AcquisitionError) (List (Option String × String)) :=
  collectResults (p.extensions.map fun e =>
    (e.2.load files (e.1.getD unifiedName)).map (e.1, ·))

/-- The texts that are for a given schema, or, without one, for the merged schema. -/
def textsFor (schema : Option String) (extensions : List (Option String × String)) : List String :=
  (extensions.filter fun e => e.1 = schema).map Prod.snd

/-- A schema with the extensions in the given texts. -/
def extendByTexts (s : Schema) (texts : List String) : Except (List ExtensionError) Schema := do
  s.extendBy (← readExtensions s.name texts)

/-- The schemas, each with the extensions that are for it. -/
def extendSchemas (schemas : List Schema) (extensions : List (Option String × String)) :
    Except (List ExtensionError) (List Schema) :=
  collectAll (schemas.map fun s => extendByTexts s (textsFor (some s.name) extensions))

/-- The merged schema with the extensions that are for it. What they add has no origin. -/
def extendMerged (m : Merged) (texts : List String) : Except (List ExtensionError) Merged :=
  if texts.isEmpty then .ok m
  else (extendByTexts m.schema texts).map fun s => ⟨s, m.origins.follow s⟩

/-! ## Composition -/

/-- Carries a plan out. -/
def compose (p : Plan) (files : Files) : Except CompositionError Merged := do
  unless p.allErrors.isEmpty do throw (.configuration p.allErrors)
  let schemas ← (acquireAll files p.schemas).mapError .acquisition
  let extensions ← (p.loadExtensions files).mapError .acquisition
  let extended ← (extendSchemas schemas extensions).mapError .extension
  let rewritten ← (rewriteAll extended p.rewriters).mapError .rewrite
  let merged ← (mergeSchemas p.registry rewritten).mapError .merge
  let complete ← (extendMerged merged (textsFor none extensions)).mapError .extension
  complete.schema.validate.mapError .validation
  return complete

end Plan

end SchemaWeave
