import SchemaWeave.Merge.Handler

/-!
# The built-in handlers

Definitions of one type are combined by union: what any schema defines is there, each element
as the first schema that has it defines it, in the order of first appearance.

## What has to agree

* Fields of object types and interfaces must have the same signature everywhere, input fields
  the same type. Every field on which the schemas disagree is a conflict.
* Enum values and union members never disagree.
* Scalars have nothing to unite and must be the same, descriptions aside.
-/

namespace SchemaWeave

namespace Candidate

/-- The schemas behind a list of definitions. -/
def schemas (cs : List Candidate) : SchemaNames := .ofList (cs.map Candidate.schema)

/-- The conflict that the definitions are of several kinds. -/
def kindsDiffer (type : Name) (cs : List Candidate) : Conflict :=
  .kindsDiffer type (cs.map fun c => (c.schema, c.definition.kind))

/-- The conflict that there is nothing to combine. -/
def nothingToMerge (type : Name) : Conflict := .rejected type .empty "no definitions to merge"

end Candidate

namespace TypeBody

/-- The signature of a field, or of an input field. -/
def signatureOf (b : TypeBody) (field : Name) : Option String :=
  match b with
  | object _ fields => (fields.get? field).map Field.signature
  | interface _ fields => (fields.get? field).map Field.signature
  | inputObject fields => (fields.get? field).map InputValue.signature
  | _ => none

end TypeBody

/-! ## Unions -/

/-- Appends the directives that are not applied yet. -/
def appendDirectives (ds more : List Directive) : List Directive :=
  more.foldl (fun acc d => if acc.contains d then acc else acc ++ [d]) ds

namespace TypeDefinition

/-- Takes over what every kind has: the description, when there is none yet, and the
directives that are not applied yet. -/
def absorb (d other : TypeDefinition) : TypeDefinition :=
  { d with
    description := if d.description.isNone then other.description else d.description
    directives := appendDirectives d.directives other.directives }

end TypeDefinition

/-- Adds the entries whose keys are new, and lists the keys under which the two tables do not
agree. -/
def uniteEntries {α : Type} (same : α → α → Bool) :
    Table Name α → List (Name × α) → Table Name α × List Name
  | t, [] => (t, [])
  | t, (n, a) :: more =>
    match t.get? n with
    | none => uniteEntries same (t.insert n a) more
    | some b =>
      let (t', differing) := uniteEntries same t more
      (t', if same b a then differing else n :: differing)

/-- Adds the entries whose keys are new. -/
def uniteTables {α : Type} (t added : Table Name α) : Table Name α :=
  added.entries.foldl (fun acc e => acc.insertIfNew e.1 e.2) t

/-- The union of two bodies with fields, and the fields on which they do not agree; nothing
when they are not of one kind or have no fields. -/
def TypeBody.unite? : TypeBody → TypeBody → Option (TypeBody × List Name)
  | .object is fs, .object js gs =>
    let (fields, differing) := uniteEntries Field.sameSignature fs gs.entries
    some (.object (is.append js.toList) fields, differing)
  | .interface is fs, .interface js gs =>
    let (fields, differing) := uniteEntries Field.sameSignature fs gs.entries
    some (.interface (is.append js.toList) fields, differing)
  | .inputObject fs, .inputObject gs =>
    let (fields, differing) := uniteEntries (fun a b => decide (a.type = b.type)) fs gs.entries
    some (.inputObject fields, differing)
  | _, _ => none

/-! ## Handlers -/

namespace Handler

/-- The conflict about one field, with the signature that each schema gives it. -/
def fieldConflict (type : Name) (cs : List Candidate) (field : Name) : Conflict :=
  .fieldDiffers type field (.ofList (cs.filterMap fun c =>
    (c.definition.body.signatureOf field).map (c.schema, ·)))

/-- Unites the fields of the remaining candidates with those of the definition so far. -/
def uniteFields (type : Name) (all : List Candidate) :
    TypeDefinition → List Name → List Candidate → Except Conflict TypeDefinition
  | d, differing, [] =>
    let fields := (Distinct.ofList differing).toList
    if fields.isEmpty then .ok d else .error (.ofList (fields.map (fieldConflict type all)))
  | d, differing, c :: cs =>
    match d.body.unite? c.definition.body with
    | none => .error (Candidate.kindsDiffer type all)
    | some (body, more) =>
      uniteFields type all { d.absorb c.definition with body := body } (differing ++ more) cs

/-- Object types, interfaces and input object types: the union of the fields and of the
interfaces. -/
def fieldUnion : Handler := fun type cs =>
  match cs with
  | [] => .error (Candidate.nothingToMerge type)
  | first :: rest => uniteFields type cs first.definition [] rest

/-- Combines definitions one after another with the definition so far. -/
def foldCandidates (step : TypeDefinition → TypeDefinition → Except Conflict TypeDefinition) :
    Handler := fun type cs =>
  match cs with
  | [] => .error (Candidate.nothingToMerge type)
  | first :: rest => rest.foldlM (fun d c => step d c.definition) first.definition

/-- Enums: the union of the values. -/
def enumValueUnion : Handler := fun type cs =>
  foldCandidates (fun d other =>
    match d.body, other.body with
    | .enum vs, .enum ws => .ok { d.absorb other with body := .enum (uniteTables vs ws) }
    | _, _ => .error (Candidate.kindsDiffer type cs)) type cs

/-- Unions: the union of the members. -/
def memberUnion : Handler := fun type cs =>
  foldCandidates (fun d other =>
    match d.body, other.body with
    | .union ms, .union ns => .ok { d.absorb other with body := .union (ms.append ns.toList) }
    | _, _ => .error (Candidate.kindsDiffer type cs)) type cs

/-- Scalars: the one definition that all schemas give. -/
def identicalScalar : Handler := fun type cs =>
  foldCandidates (fun d other =>
    if d.body = other.body && d.directives = other.directives then
      .ok { d with
        description := if d.description.isNone then other.description else d.description }
    else .error (.notIdentical .scalar type (Candidate.schemas cs))) type cs

end Handler

namespace Registry

/-- The built-in handlers alone. -/
def builtIn : Registry :=
  ⟨[⟨.object, leastPriority, Handler.fieldUnion⟩,
    ⟨.interface, leastPriority, Handler.fieldUnion⟩,
    ⟨.inputObject, leastPriority, Handler.fieldUnion⟩,
    ⟨.enum, leastPriority, Handler.enumValueUnion⟩,
    ⟨.union, leastPriority, Handler.memberUnion⟩,
    ⟨.scalar, leastPriority, Handler.identicalScalar⟩]⟩

end Registry

end SchemaWeave
