import SchemaWeave.Merge.Union
import SchemaWeave.Merge.Origin

/-!
# Merging schemas

Types are grouped by name over all schemas, in the order of first appearance. A type that one
schema defines is taken as it is; a group of several goes to the handler for its kind, except
for the types behind the entry points, whose fields are always united. Directive definitions
are not combined: they have to agree.

## Failures

Every group that cannot be combined adds its conflicts, and the merge succeeds only when there
is none. A handler may fail with a list of conflicts that is empty; then there is nothing to
report, and the merged schema lacks the type.
-/

namespace SchemaWeave

/-- The name of the merged schema. -/
def unifiedName : String := "unified"

/-- A merged schema with the origins of its parts. -/
structure Merged where
  schema : Schema
  origins : Origins
deriving DecidableEq

/-! ## Groups -/

/-- The names of the types that some schema defines. -/
def typeNames (schemas : List Schema) : Distinct Name := .ofList (schemas.flatMap (·.types.keys))

/-- The definitions of one type, schema by schema. -/
def candidates (schemas : List Schema) (type : Name) : List Candidate :=
  schemas.filterMap fun s => (s.types.get? type).map (⟨s.name, ·⟩)

/-- The names of the directives that some schema defines, apart from the built-in ones. -/
def directiveNames (schemas : List Schema) : Distinct Name :=
  .ofList ((schemas.flatMap (·.directiveDefinitions.keys)).filter
    fun n => !isBuiltInDirective n.text)

/-- The definitions of one directive, each with its schema. -/
def directiveCandidates (schemas : List Schema) (directive : Name) :
    List (String × DirectiveDefinition) :=
  schemas.filterMap fun s => (s.directiveDefinitions.get? directive).map (s.name, ·)

/-! ## What needs no handler -/

/-- The merged schema before its types: the entry points that any schema has, under their
canonical names, the first description and all directives, each once. -/
def mergedFrame (schemas : List Schema) : Schema :=
  let root (op : RootOperation) : Option Name :=
    if schemas.any (fun s => (s.roots.get op).isSome) then some op.canonicalName else none
  { Schema.empty unifiedName with
    description := schemas.findSome? Schema.description
    directives := appendDirectives [] (schemas.flatMap Schema.directives)
    roots := ⟨root .query, root .mutation, root .subscription⟩ }

/-- The one definition that all schemas give of a directive, with the first description. -/
def mergeDirective (directive : Name) (ds : List (String × DirectiveDefinition)) :
    Except Conflict (Option DirectiveDefinition) :=
  match ds with
  | [] => .ok none
  | (_, first) :: _ =>
    if ds.all (fun d => d.2.sameShape first) then
      .ok (some { first with description := ds.findSome? (·.2.description) })
    else .error (.directiveDiffers directive (.ofList (ds.map Prod.fst)))

/-! ## Types -/

/-- Accepts a handler's result when it is a definition of the type that was asked for. -/
def checkResult (type : Name) (kind : TypeKind) (d : TypeDefinition) :
    Except Conflict TypeDefinition :=
  if d.name ≠ type then .error (.breach type (.name d.name))
  else if d.kind ≠ kind then .error (.breach type (.kind d.kind kind))
  else .ok d

/-- Combines the definitions of one type for a schema with the given entry points. -/
def mergeType (registry : Registry) (frame : Schema) (type : Name) (cs : List Candidate) :
    Except Conflict TypeDefinition :=
  match cs with
  | [] => .error (Candidate.nothingToMerge type)
  | [single] => .ok single.definition
  | first :: _ :: _ =>
    let kind := first.definition.kind
    if cs.any (fun c => c.definition.kind ≠ kind) then .error (Candidate.kindsDiffer type cs)
    else if frame.isRootType type then Handler.fieldUnion type cs
    else
      match registry.handlerFor kind with
      | none =>
        .error (.rejected type (Candidate.schemas cs)
          ("no merge handler is registered for " ++ kind.text ++ "s"))
      | some handler => (handler type cs).bind (checkResult type kind)

/-! ## Schemas -/

namespace Merged

/-- Adds one merged type, or its conflicts. -/
def addType (registry : Registry) (schemas : List Schema) (m : Merged × List Conflict)
    (type : Name) : Merged × List Conflict :=
  let cs := candidates schemas type
  match mergeType registry m.1.schema type cs with
  | .ok d =>
    (⟨{ m.1.schema with types := m.1.schema.types.insert d.name d }, m.1.origins.record d cs⟩, m.2)
  | .error conflict => (m.1, m.2 ++ conflict.flatten)

/-- Adds one merged directive definition, or its conflict. -/
def addDirective (schemas : List Schema) (m : Merged × List Conflict) (directive : Name) :
    Merged × List Conflict :=
  match mergeDirective directive (directiveCandidates schemas directive) with
  | .ok none => m
  | .ok (some d) =>
    ({ m.1 with schema := { m.1.schema with
        directiveDefinitions := m.1.schema.directiveDefinitions.insert directive d } }, m.2)
  | .error conflict => (m.1, m.2 ++ [conflict])

end Merged

/-- The merged schema, or every conflict: those of the types first, group by group, then those
of the directives. -/
def mergeSchemas (registry : Registry) (schemas : List Schema) : Except (List Conflict) Merged :=
  let start : Merged × List Conflict := (⟨mergedFrame schemas, .empty⟩, [])
  let typed := (typeNames schemas).toList.foldl (Merged.addType registry schemas) start
  let (merged, conflicts) :=
    (directiveNames schemas).toList.foldl (Merged.addDirective schemas) typed
  if conflicts.isEmpty then .ok merged else .error conflicts

end SchemaWeave
