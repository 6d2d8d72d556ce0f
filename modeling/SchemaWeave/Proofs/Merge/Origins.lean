import SchemaWeave.Proofs.Merge.Dispatch

/-!
# Where merged elements come from

The origins of a merged schema list its types in their order, and under each type its fields in
their order. A type comes from the schemas that define it, a field from those whose definition
of the type has it. A handler may give a type fields that no schema has; the built-in handlers
never do.

Origins that follow a schema which has grown keep what they know, and list what is new as
coming from no schema.
-/

namespace SchemaWeave

/-! ## Origins and schemas -/

/-- Whether a schema defines a field of a type. -/
def Schema.definesField (s : Schema) (type field : Name) : Bool :=
  (s.types.get? type).any (·.hasField field)

/-- Whether the origins list the types of the schema, and under each type its fields, all in
their order. -/
structure Merged.Aligned (m : Merged) : Prop where
  types : m.origins.types.keys = m.schema.types.keys
  fields : ∀ n o d, m.origins.get? n = some o → m.schema.types.get? n = some d →
    o.fields.keys = d.fieldNames

/-- The schemas that define a type. -/
def definers (schemas : List Schema) (type : Name) : Distinct String :=
  .ofList ((schemas.filter fun s => s.types.contains type).map Schema.name)

/-- The schemas whose definition of a type has a field. -/
def fieldDefiners (schemas : List Schema) (type field : Name) : Distinct String :=
  .ofList ((schemas.filter fun s => s.definesField type field).map Schema.name)

variable {registry : Registry} {schemas : List Schema}

theorem Schema.definesField_iff {s : Schema} {type field : Name} :
    s.definesField type field = true ↔
      ∃ d, s.types.get? type = some d ∧ d.hasField field = true := by
  unfold Schema.definesField
  rw [Option.any_eq_true]

theorem TypeBody.hasField_iff {b : TypeBody} {field : Name} :
    b.hasField field = true ↔ field ∈ b.fieldNames := by
  cases b <;> simp [hasField, fieldNames, Table.contains_iff]

theorem TypeBody.fieldNames_nodup (b : TypeBody) : b.fieldNames.Nodup := by
  cases b with
  | object _ fields => exact fields.keys_nodup
  | interface _ fields => exact fields.keys_nodup
  | inputObject fields => exact fields.keys_nodup
  | _ => exact List.nodup_nil

theorem TypeDefinition.hasField_iff {d : TypeDefinition} {field : Name} :
    d.hasField field = true ↔ field ∈ d.fieldNames :=
  TypeBody.hasField_iff

theorem TypeDefinition.fieldNames_nodup (d : TypeDefinition) : d.fieldNames.Nodup :=
  d.body.fieldNames_nodup

theorem Schema.types_contains_of_definesField {s : Schema} {type field : Name}
    (h : s.definesField type field) : type ∈ s.types.keys := by
  obtain ⟨d, hd, -⟩ := Schema.definesField_iff.mp h
  exact Table.mem_keys_of_get? hd

/-! ## One type -/

/-- The candidates with a field are from the schemas that define the field. -/
theorem candidates_schemas_of_hasField (type field : Name) :
    ((candidates schemas type).filter fun c => c.definition.hasField field).map Candidate.schema
      = (schemas.filter fun s => s.definesField type field).map Schema.name := by
  unfold candidates
  induction schemas with
  | nil => rfl
  | cons s schemas ih =>
    rw [List.filterMap_cons, List.filter_cons]
    cases h : s.types.get? type with
    | none => simpa [Schema.definesField, h] using ih
    | some d =>
      by_cases hf : d.hasField field = true
      · simp [Schema.definesField, h, hf, ih]
      · simp [Schema.definesField, h, hf, ih]

theorem TypeOrigins.ofCandidates_fields (d : TypeDefinition) (cs : List Candidate) :
    (TypeOrigins.ofCandidates d cs).fields
      = .tabulate ⟨d.fieldNames, d.fieldNames_nodup⟩ fun f =>
          some (.ofList ((cs.filter fun c => c.definition.hasField f).map Candidate.schema)) :=
  Table.ofList_map_eq_tabulate ⟨d.fieldNames, d.fieldNames_nodup⟩ _

theorem TypeOrigins.ofCandidates_keys (d : TypeDefinition) (cs : List Candidate) :
    (TypeOrigins.ofCandidates d cs).fields.keys = d.fieldNames := by
  rw [TypeOrigins.ofCandidates_fields]
  exact Table.keys_tabulate_of_isSome fun _ _ => rfl

/-! ## The merged schema -/

theorem mergedOrigins?_eq_some {type : Name} {o : TypeOrigins}
    (h : mergedOrigins? registry schemas type = some o) :
    ∃ d, mergedType registry schemas type = .ok d ∧
      o = .ofCandidates d (candidates schemas type) := by
  obtain ⟨d, hd, rfl⟩ := Option.map_eq_some_iff.mp h
  exact ⟨d, mergedType?_eq_some_iff.mp hd, rfl⟩

theorem mergeOutput_aligned : (mergeOutput registry schemas).Aligned where
  types := by
    show (Table.tabulate (typeNames schemas) (mergedOrigins? registry schemas)).keys
      = (Table.tabulate (typeNames schemas) (mergedType? registry schemas)).keys
    rw [Table.keys_tabulate, Table.keys_tabulate]
    exact List.filter_congr fun n _ => Option.isSome_map
  fields := by
    intro n o d ho hd
    rw [mergeOutput_origins_get?] at ho
    rw [mergeOutput_get?, mergedType?_eq_some_iff] at hd
    obtain ⟨e, he, rfl⟩ := mergedOrigins?_eq_some ho
    rw [hd] at he
    cases he
    exact TypeOrigins.ofCandidates_keys d _

/-- A merged type comes from the schemas that define it. -/
theorem mergeOutput_ofType {type : Name}
    (h : type ∈ (mergeOutput registry schemas).schema.types.keys) :
    (mergeOutput registry schemas).origins.ofType type = some (definers schemas type) := by
  obtain ⟨d, hd⟩ := Table.exists_get?_of_mem_keys h
  rw [mergeOutput_get?] at hd
  rw [Origins.ofType, mergeOutput_origins_get?, mergedOrigins?, hd]
  show some (Distinct.ofList _) = some (Distinct.ofList _)
  rw [candidates_schemas]

/-- A field of a merged type comes from the schemas whose definition of the type has it. -/
theorem mergeOutput_ofField {type field : Name}
    (h : (mergeOutput registry schemas).schema.definesField type field) :
    (mergeOutput registry schemas).origins.ofField type field
      = some (fieldDefiners schemas type field) := by
  obtain ⟨d, hd, hf⟩ := Schema.definesField_iff.mp h
  rw [mergeOutput_get?] at hd
  rw [Origins.ofField, mergeOutput_origins_get?, mergedOrigins?, hd]
  show (TypeOrigins.ofCandidates d (candidates schemas type)).fields.get? field = _
  rw [TypeOrigins.ofCandidates_fields, Table.get?_tabulate,
    if_pos (TypeDefinition.hasField_iff.mp hf), candidates_schemas_of_hasField]
  rfl

/-! ## Nothing from nowhere -/

theorem definers_ne_empty (hk : ∀ s ∈ schemas, s.TypesKeyed) {m : Merged} {type : Name}
    (hm : mergeSchemas registry schemas = .ok m) (h : type ∈ m.schema.types.keys) :
    definers schemas type ≠ .empty := by
  obtain ⟨s, hs, hn⟩ := ((mem_keys_of_mergeSchemas hk hm).mp h).1
  rw [definers, ne_eq, Distinct.ofList_eq_empty_iff, List.map_eq_nil_iff,
    List.filter_eq_nil_iff]
  exact fun hnil => hnil s hs (Table.contains_iff.mpr hn)

/-- Under the built-in handlers every field of a merged type is a field in some schema. -/
theorem fieldDefiners_ne_empty {type field : Name}
    (h : (mergeOutput .builtIn schemas).schema.definesField type field) :
    fieldDefiners schemas type field ≠ .empty := by
  obtain ⟨d, hd, hf⟩ := Schema.definesField_iff.mp h
  rw [mergeOutput_get?, mergedType?_eq_some_iff] at hd
  obtain ⟨c, hc, hcf⟩ := exists_hasField_of_mergeType hd hf
  obtain ⟨s, hs, hsd, -⟩ := mem_candidates.mp hc
  rw [fieldDefiners, ne_eq, Distinct.ofList_eq_empty_iff, List.map_eq_nil_iff,
    List.filter_eq_nil_iff]
  exact fun hnil => hnil s hs (Schema.definesField_iff.mpr ⟨_, hsd, hcf⟩)

end SchemaWeave
