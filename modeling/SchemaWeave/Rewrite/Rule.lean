import SchemaWeave.Schema.Violation

/-!
# Rewrite rules

A rule removes or renames a type or a field, or removes the entry points. It is registered for
every schema or for one, and its text names it in messages.
-/

namespace SchemaWeave

/-- A field of a type. The schema it was looked for in may be noted; rules do not use it. -/
structure FieldReference where
  schema : Option String
  type : Name
  field : Name
deriving DecidableEq

namespace FieldReference

def text (r : FieldReference) : String := r.type.text ++ "." ++ r.field.text

end FieldReference

inductive Rule where
  /-- Removes a type and everything that cannot exist without it. -/
  | removeType (type : Name)
  | removeField (field : FieldReference)
  /-- Removes the types behind the entry points. -/
  | removeRootTypes
  /-- Renames a type and every reference to it. -/
  | renameType (old new : Name)
  | renameField (field : FieldReference) (new : Name)
deriving DecidableEq

namespace Rule

def text : Rule → String
  | removeType t => "RemoveType(" ++ t.text ++ ")"
  | removeField f => "RemoveField(" ++ f.text ++ ")"
  | removeRootTypes => "RemoveRootTypes"
  | renameType old new => "RenameType(" ++ old.text ++ " -> " ++ new.text ++ ")"
  | renameField f new => "RenameField(" ++ f.text ++ " -> " ++ new.text ++ ")"

end Rule

/-- The schemas that a rule is registered for. -/
inductive Scope where
  | everywhere
  | only (schema : String)
deriving DecidableEq

namespace Scope

def includes : Scope → String → Bool
  | everywhere, _ => true
  | only name, schema => name = schema

end Scope

/-- A rule with the schemas it is registered for. -/
structure Rewriter where
  scope : Scope
  rule : Rule
deriving DecidableEq

/-! ## Failures -/

/-- Why a rule does not apply to a schema. -/
inductive RuleFault where
  | typeMissing (type : Name)
  | fieldMissing (type field : Name)
  | typeExists (type : Name)
  | fieldExists (type field : Name)
  /-- The schema would get a violation that it does not have. -/
  | breaks (violation : Violation)
deriving DecidableEq

namespace RuleFault

def message : RuleFault → String
  | typeMissing t => "type `" ++ t.text ++ "` does not exist"
  | fieldMissing t f => "field `" ++ t.text ++ "." ++ f.text ++ "` does not exist"
  | typeExists t => "type `" ++ t.text ++ "` already exists"
  | fieldExists t f => "field `" ++ t.text ++ "." ++ f.text ++ "` already exists"
  | breaks v => v.message

end RuleFault

inductive RewriteError where
  | failed (schema : String) (rule : Rule) (fault : RuleFault)
  /-- The rule applied to no schema at all. -/
  | unmatched (rule : Rule)
deriving DecidableEq

namespace RewriteError

def message : RewriteError → String
  | failed schema rule fault =>
    rule.text ++ " on schema \"" ++ schema ++ "\" failed: " ++ fault.message
  | unmatched rule => rule.text ++ " did not match any schema"

end RewriteError

end SchemaWeave
