import SchemaWeave.Merge.Handler

/-!
# Origins

For every type and every field of a merged schema, the schemas that define it, in the order of
the merge. What is added after the merge comes from no schema.
-/

namespace SchemaWeave

structure TypeOrigins where
  /-- The schemas that define the type. -/
  schemas : Distinct String
  /-- For each field, the schemas whose definition of the type has it. -/
  fields : Table Name (Distinct String)
deriving DecidableEq

namespace TypeOrigins

/-- A type that comes from no schema. -/
def none : TypeOrigins := ⟨.empty, .empty⟩

/-- The origins of a definition that was made from the candidates. -/
def ofCandidates (d : TypeDefinition) (cs : List Candidate) : TypeOrigins :=
  let having (f : Name) : Distinct String :=
    .ofList ((cs.filter fun c => c.definition.hasField f).map Candidate.schema)
  ⟨.ofList (cs.map Candidate.schema), .ofList (d.fieldNames.map fun f => (f, having f))⟩

/-- The origins with exactly the fields of a definition: new fields come from no schema. -/
def follow (o : TypeOrigins) (d : TypeDefinition) : TypeOrigins :=
  let known := o.fields.filter fun f _ => d.hasField f
  { o with fields := d.fieldNames.foldl (fun t f => t.insertIfNew f .empty) known }

end TypeOrigins

structure Origins where
  types : Table Name TypeOrigins
deriving DecidableEq

namespace Origins

def empty : Origins := ⟨.empty⟩

def get? (o : Origins) (type : Name) : Option TypeOrigins := o.types.get? type

/-- The schemas that define a type. -/
def ofType (o : Origins) (type : Name) : Option (Distinct String) :=
  (o.get? type).map TypeOrigins.schemas

/-- The schemas that define a field of a type. -/
def ofField (o : Origins) (type field : Name) : Option (Distinct String) :=
  (o.get? type).bind fun t => t.fields.get? field

/-- Notes where a merged definition comes from. -/
def record (o : Origins) (d : TypeDefinition) (cs : List Candidate) : Origins :=
  ⟨o.types.insert d.name (.ofCandidates d cs)⟩

/-- The origins with exactly the types and fields of a schema: what is new comes from no
schema. -/
def follow (o : Origins) (s : Schema) : Origins :=
  let known := o.types.filter fun n _ => s.types.contains n
  ⟨s.types.values.foldl (fun t d => t.insert d.name (((t.get? d.name).getD .none).follow d)) known⟩

end Origins

end SchemaWeave
