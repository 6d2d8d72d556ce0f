import SchemaWeave.Rewrite.Rule
import SchemaWeave.Rewrite.Removal
import SchemaWeave.Rewrite.Renaming

/-!
# Applying rules

A rule applies to a schema as a whole or not at all: when its target is missing, when a new
name is taken, or when it would cause a violation that the schema does not have already, the
schema stays as it is.

## Many schemas

The rules run on each schema by itself, in their order, so a rule sees what the rules before
it have left. A rule for every schema may miss some of them, but not all. Afterwards the types
behind the entry points get their canonical names. All failures are collected.
-/

namespace SchemaWeave

/-! ## One rule -/

/-- How a rule fails: its target is not there, or it is there and something stands against. -/
inductive Refusal where
  | targetMissing (fault : RuleFault)
  | failed (faults : List RuleFault)
deriving DecidableEq

namespace Rule

/-- The change that a rule makes, before it is looked at what it breaks. -/
def transform (rule : Rule) (s : Schema) : Except Refusal Schema :=
  match rule with
  | removeType t =>
    if s.types.contains t then .ok (s.withoutType t)
    else .error (.targetMissing (.typeMissing t))
  | removeField r =>
    match s.types.get? r.type with
    | none => .error (.targetMissing (.typeMissing r.type))
    | some d =>
      if d.hasField r.field then .ok (s.withoutField r.type r.field)
      else .error (.targetMissing (.fieldMissing r.type r.field))
  | removeRootTypes => .ok s.withoutRootTypes
  | renameType old new =>
    if !s.types.contains old then .error (.targetMissing (.typeMissing old))
    else if s.types.contains new || isBuiltInScalar new.text then
      .error (.failed [.typeExists new])
    else .ok (s.renameType old new)
  | renameField r new =>
    match s.types.get? r.type with
    | none => .error (.targetMissing (.typeMissing r.type))
    | some d =>
      if !d.hasField r.field then .error (.targetMissing (.fieldMissing r.type r.field))
      else if d.hasField new then .error (.failed [.fieldExists r.type new])
      else .ok (s.renameField r.type r.field new)

/-- The violations after a change that were not there before it. -/
def newViolations (before after : Schema) : List Violation :=
  after.violations.filter fun v => !before.violations.contains v

/-- The schema after a rule, if the rule breaks nothing. -/
def outcome (rule : Rule) (s : Schema) : Except Refusal Schema := do
  let after ← rule.transform s
  let broken := newViolations s after
  if broken.isEmpty then .ok after else .error (.failed (broken.map .breaks))

/-- The schema after a rule, or the errors that name the rule and the schema. -/
def apply (rule : Rule) (s : Schema) : Except (List RewriteError) Schema :=
  match rule.outcome s with
  | .ok after => .ok after
  | .error (.targetMissing fault) => .error [.failed s.name rule fault]
  | .error (.failed faults) => .error (faults.map (.failed s.name rule))

end Rule

/-! ## Entry points -/

namespace Schema

/-- Gives the type behind one entry point its canonical name. -/
def normalizeRoot (s : Schema) (op : RootOperation) : Except (List RewriteError) Schema :=
  match s.roots.get op with
  | none => .ok s
  | some current =>
    if current = op.canonicalName then .ok s
    else (Rule.renameType current op.canonicalName).apply s

/-- Gives the types behind the entry points their canonical names, one after another. -/
def normalizeRoots (s : Schema) : Except (List RewriteError) Schema :=
  RootOperation.all.foldlM normalizeRoot s

end Schema

/-! ## Many rules -/

/-- What the rules have done to one schema: what it is now, which of them found their target in
it, and what went wrong. -/
structure Passage where
  schema : Schema
  matched : List Bool
  errors : List RewriteError

namespace Passage

/-- Notes before the rest of a passage whether its first rule matched, and its errors. -/
def note (matched : Bool) (errors : List RewriteError) (p : Passage) : Passage :=
  ⟨p.schema, matched :: p.matched, errors ++ p.errors⟩

/-- Runs the rules on one schema, in their order. -/
def run : Schema → List Rewriter → Passage
  | s, [] => ⟨s, [], []⟩
  | s, r :: rs =>
    if r.scope.includes s.name then
      match r.rule.outcome s with
      | .ok after => (run after rs).note true []
      | .error (.targetMissing fault) =>
        match r.scope with
        | .everywhere => (run s rs).note false []
        | .only _ => (run s rs).note true [.failed s.name r.rule fault]
      | .error (.failed faults) => (run s rs).note true (faults.map (.failed s.name r.rule))
    else (run s rs).note false []

/-- The schema at the end of a passage with its entry points normalized, or what went wrong
there. -/
def finish (p : Passage) : Except (List RewriteError) Schema := p.schema.normalizeRoots

/-- Everything that went wrong in a passage, its end included. -/
def allErrors (p : Passage) : List RewriteError :=
  p.errors ++
    match p.finish with
    | .ok _ => []
    | .error es => es

end Passage

/-- The rules that found their target in no schema. -/
def unmatchedRules (passages : List Passage) (rewriters : List Rewriter) : List RewriteError :=
  (rewriters.zipIdx.filter fun r => !passages.any (fun p => p.matched.getD r.2 false)).map
    fun r => .unmatched r.1.rule

/-- The schemas after all rules, or every error. -/
def rewriteAll (schemas : List Schema) (rewriters : List Rewriter) :
    Except (List RewriteError) (List Schema) :=
  let passages := schemas.map (Passage.run · rewriters)
  let errors := passages.flatMap Passage.allErrors ++ unmatchedRules passages rewriters
  if errors.isEmpty then .ok (passages.filterMap (·.finish.toOption)) else .error errors

end SchemaWeave
