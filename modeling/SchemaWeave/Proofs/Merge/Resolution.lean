import SchemaWeave.Proofs.Contracts
import SchemaWeave.Proofs.Merge.Associativity
import SchemaWeave.Proofs.Merge.Gathering

/-!
# What a merge can break

Under the built-in handlers a name that resolves in one of the schemas resolves in the merged
schema, to a type of the same kind: types of one name are combined only when they are of one kind,
and none is left out. Nothing that is in one of them gets lost, and nothing is added, so every
reference of the merged schema is one that some schema has made, and every type has parts again.

What can break are contracts. An interface gets the fields that any schema gives it, and a type
that implements it in one schema need not have those of the others.
-/

namespace SchemaWeave

/-! ## Parts that were gathered -/

namespace TypeBody.Gathers

variable {b c : TypeBody} {bs : List TypeBody}

theorem mem_partNames_iff (h : b.Gathers bs) {n : Name} :
    n ∈ b.partNames ↔ ∃ c ∈ bs, n ∈ c.partNames := by
  simp only [TypeBody.mem_partNames_iff, h.field, h.inputField, h.enumValue, h.members,
    List.findSome?_isSome_iff, ← exists_or, ← and_or_left]

theorem hasParts (h : b.Gathers bs) (hc : c ∈ bs) (hparts : c.HasParts) : b.HasParts := by
  rcases hparts with hscalar | hparts
  · exact Or.inl ((h.kind c hc).symm.trans hscalar)
  · obtain ⟨n, hn⟩ := List.exists_mem_of_ne_nil _ hparts
    exact Or.inr (List.ne_nil_of_mem (h.mem_partNames_iff.mpr ⟨c, hc, hn⟩))

theorem keyed (h : b.Gathers bs) (hk : ∀ c ∈ bs, c.Keyed) : b.Keyed := by
  refine keyed_iff.mpr ⟨fun n f hf => ?_, fun n v hv => ?_, fun n v hv => ?_⟩
  · obtain ⟨c, hc, hf⟩ := List.exists_of_findSome?_eq_some (h.field n ▸ hf)
    exact (keyed_iff.mp (hk c hc)).1 n f hf
  · obtain ⟨c, hc, hv⟩ := List.exists_of_findSome?_eq_some (h.inputField n ▸ hv)
    exact (keyed_iff.mp (hk c hc)).2.1 n v hv
  · obtain ⟨c, hc, hv⟩ := List.exists_of_findSome?_eq_some (h.enumValue n ▸ hv)
    exact (keyed_iff.mp (hk c hc)).2.2 n v hv

end TypeBody.Gathers

/-- What is combined refers to nothing that none of the definitions refers to. -/
theorem TypeDefinition.exists_mem_references {ds : List TypeDefinition} {d : TypeDefinition}
    (h : combineAll? ds = some d) (hn : ∀ e ∈ ds, e.name = d.name) {r : Reference}
    (hr : r ∈ d.references) : ∃ e ∈ ds, r ∈ e.references := by
  have hg := combineAll?_gathers h
  rcases mem_references_iff.mp hr with ⟨n, f, hf, hr⟩ | ⟨n, v, hv, rfl⟩
  · obtain ⟨b, hb, hf⟩ := List.exists_of_findSome?_eq_some (hg.field n ▸ hf)
    obtain ⟨e, he, rfl⟩ := List.mem_map.mp hb
    exact ⟨e, he, mem_references_iff.mpr (Or.inl ⟨n, f, hf, by rwa [hn e he]⟩)⟩
  · obtain ⟨b, hb, hv⟩ := List.exists_of_findSome?_eq_some (hg.inputField n ▸ hv)
    obtain ⟨e, he, rfl⟩ := List.mem_map.mp hb
    exact ⟨e, he, mem_references_iff.mpr (Or.inr ⟨n, v, hv, by rw [hn e he]⟩)⟩

/-- The common definition of a directive refers to what the first one refers to. -/
theorem DirectiveDefinition.exists_references_eq {ds : List DirectiveDefinition}
    {d : DirectiveDefinition} (h : combineAll? ds = some d) :
    ∃ e ∈ ds, e.references = d.references := by
  cases ds with
  | nil => cases h
  | cons first rest =>
    rw [combineAll?] at h
    split at h
    · cases h
      exact ⟨first, by simp, rfl⟩
    · cases h

/-! ## Kinds -/

namespace Schema

/-- Whether the names of the built-in scalars are names of scalars in a schema, if it defines
types with these names. -/
def SparesBuiltIns (s : Schema) : Prop :=
  ∀ e ∈ s.types.entries, isBuiltInScalar e.1.text = true → e.2.kind = .scalar

instance (s : Schema) : Decidable s.SparesBuiltIns :=
  inferInstanceAs (Decidable
    (∀ e ∈ s.types.entries, isBuiltInScalar e.1.text = true → e.2.kind = .scalar))

theorem map_kind_of_kind? {s : Schema} {n : Name} {k : TypeKind} (h : s.kind? n = some k)
    (hk : k ≠ .scalar) : (s.type? n).map TypeDefinition.kind = some k := by
  unfold kind? at h
  split at h
  · next d hd => rw [hd, Option.map_some, h]
  · split at h
    · cases h
      exact absurd rfl hk
    · cases h

theorem Resolved.rootsSound {s : Schema} (h : s.Resolved) (hr : s.roots.isCanonical = true) :
    s.RootsSound := fun op n hn =>
  ⟨RootOperations.isCanonical_iff.mp hr op n hn, map_kind_of_kind? (h.roots op n hn) (by decide)⟩

end Schema

/-! ## The merged schema -/

section Merge

variable {schemas : List Schema} (hc : mergeConflicts .builtIn schemas = [])

section Types

variable {n : Name} {d : TypeDefinition}

theorem mem_definitions :
    d ∈ (candidates schemas n).map Candidate.definition ↔
      ∃ s ∈ schemas, s.types.get? n = some d := by
  simp only [List.mem_map, mem_candidates]
  constructor
  · rintro ⟨c, ⟨s, hs, hd, -⟩, rfl⟩
    exact ⟨s, hs, hd⟩
  · rintro ⟨s, hs, hd⟩
    exact ⟨⟨s.name, d⟩, ⟨s, hs, hd, rfl⟩, rfl⟩

/-- A type of the merged schema is what combining the definitions of its name gives. -/
theorem mergeOutput_combineAll?
    (h : (mergeOutput .builtIn schemas).schema.types.get? n = some d) :
    TypeDefinition.combineAll? ((candidates schemas n).map Candidate.definition) = some d := by
  rw [mergeOutput_get?, mergedType?_eq_some_iff] at h
  exact combineAll?_of_mergeType h

theorem exists_get?_of_mergeOutput
    (h : (mergeOutput .builtIn schemas).schema.types.get? n = some d) :
    ∃ s ∈ schemas, ∃ e, s.types.get? n = some e ∧ e.kind = d.kind := by
  have hcomb := mergeOutput_combineAll? h
  have hne : (candidates schemas n).map Candidate.definition ≠ [] := by
    intro hnil
    rw [hnil] at hcomb
    cases hcomb
  obtain ⟨e, he⟩ := List.exists_mem_of_ne_nil _ hne
  obtain ⟨s, hs, hse⟩ := mem_definitions.mp he
  exact ⟨s, hs, e, hse, TypeDefinition.combineAll?_kind hcomb e he⟩

include hc

theorem exists_mergeOutput_get? {s : Schema} (hs : s ∈ schemas) (h : s.types.get? n = some d) :
    ∃ r, (mergeOutput .builtIn schemas).schema.types.get? n = some r ∧ d.kind = r.kind := by
  have hmem : d ∈ (candidates schemas n).map Candidate.definition := mem_definitions.mpr ⟨s, hs, h⟩
  have hne : candidates schemas n ≠ [] := by
    rw [ne_eq, ← List.map_eq_nil_iff (f := Candidate.definition)]
    exact List.ne_nil_of_mem hmem
  obtain ⟨r, hget⟩ := Option.isSome_iff_exists.mp
    ((mergeConflicts_builtIn_eq_nil_iff.mp hc).1 n (candidates_ne_nil_iff.mp hne))
  rw [← mergeOutput_get?] at hget
  exact ⟨r, hget, TypeDefinition.combineAll?_kind (mergeOutput_combineAll? hget) d hmem⟩

/-- A name that resolves in one of the schemas resolves in the merged one to the same kind. -/
theorem mergeOutput_kind? (hb : ∀ s ∈ schemas, s.SparesBuiltIns) {s : Schema} (hs : s ∈ schemas)
    {k : TypeKind} (h : s.kind? n = some k) :
    (mergeOutput .builtIn schemas).schema.kind? n = some k := by
  unfold Schema.kind? at h
  split at h
  · next d hd =>
    obtain ⟨r, hget, hkind⟩ := exists_mergeOutput_get? hc hs hd
    rw [Schema.kind?, Schema.type?, hget]
    exact (congrArg some hkind.symm).trans h
  · split at h
    · next hbuiltIn =>
      cases h
      unfold Schema.kind? Schema.type?
      cases hget : (mergeOutput .builtIn schemas).schema.types.get? n with
      | none => exact if_pos hbuiltIn
      | some r =>
        -- another schema defines a type of the name, which is a scalar there
        obtain ⟨s', hs', e, he, hkind⟩ := exists_get?_of_mergeOutput hget
        have hscalar := hb s' hs' (n, e) (Table.get?_eq_some_iff.mp he) hbuiltIn
        exact congrArg some (hkind.symm.trans hscalar)
    · cases h

end Types

/-! ### References -/

/-- Every reference of the merged schema is one that some schema has made. -/
theorem exists_mem_references_of_mergeOutput (hk : ∀ s ∈ schemas, s.TypesKeyed) {r : Reference}
    (h : r ∈ (mergeOutput .builtIn schemas).schema.references) :
    ∃ s ∈ schemas, r ∈ s.references := by
  rcases List.mem_append.mp h with h | h
  · obtain ⟨d, hd, hr'⟩ := List.mem_flatMap.mp h
    obtain ⟨n, hn⟩ := Table.mem_values_iff.mp hd
    have hname (e : TypeDefinition) (he : e ∈ (candidates schemas n).map Candidate.definition) :
        e.name = d.name := by
      obtain ⟨s, hs, he⟩ := mem_definitions.mp he
      rw [(hk s hs).name_eq he, (mergeOutput_typesKeyed hk).name_eq hn]
    obtain ⟨e, he, hre⟩ :=
      TypeDefinition.exists_mem_references (mergeOutput_combineAll? hn) hname hr'
    obtain ⟨s, hs, he⟩ := mem_definitions.mp he
    exact ⟨s, hs, List.mem_append_left _
      (List.mem_flatMap.mpr ⟨e, Table.mem_values_of_get? he, hre⟩)⟩
  · obtain ⟨d, hd, hr'⟩ := List.mem_flatMap.mp h
    obtain ⟨n, hn⟩ := Table.mem_values_iff.mp hd
    have hget : mergedDirective? schemas n = some d :=
      (Table.mem_entries_tabulate.mp (Table.get?_eq_some_iff.mp hn)).2
    rw [mergedDirective?_eq] at hget
    obtain ⟨e, he, hre⟩ := DirectiveDefinition.exists_references_eq hget
    obtain ⟨⟨a, e⟩, hmem, rfl⟩ := List.mem_map.mp he
    obtain ⟨s, hs, hse⟩ := List.mem_filterMap.mp hmem
    obtain ⟨e', he', heq⟩ := Option.map_eq_some_iff.mp hse
    cases heq
    exact ⟨s, hs, List.mem_append_right _
      (List.mem_flatMap.mpr ⟨e, Table.mem_values_of_get? he', by rwa [hre]⟩)⟩

theorem mergeOutput_bodies_keyed (hkeyed : ∀ s ∈ schemas, s.Keyed) :
    ∀ d ∈ (mergeOutput .builtIn schemas).schema.types.values, d.body.Keyed := by
  intro d hd
  obtain ⟨n, hn⟩ := Table.mem_values_iff.mp hd
  have hg := TypeDefinition.combineAll?_gathers (mergeOutput_combineAll? hn)
  refine hg.keyed fun b hb => ?_
  obtain ⟨e, he, rfl⟩ := List.mem_map.mp hb
  obtain ⟨s, hs, he⟩ := mem_definitions.mp he
  exact (hkeyed s hs).bodies e (Table.mem_values_of_get? he)

/-! ### The whole -/

include hc

/-- Schemas in which every name resolves are merged to a schema in which every name resolves. -/
theorem mergeOutput_resolved (hk : ∀ s ∈ schemas, s.TypesKeyed)
    (hr : ∀ s ∈ schemas, s.RootsSound) (hb : ∀ s ∈ schemas, s.SparesBuiltIns)
    (hs : ∀ s ∈ schemas, s.Resolved) : (mergeOutput .builtIn schemas).schema.Resolved := by
  have hkind {s : Schema} (hmem : s ∈ schemas) {n : Name} {k : TypeKind} (h : s.kind? n = some k) :
      (mergeOutput .builtIn schemas).schema.kind? n = some k := mergeOutput_kind? hc hb hmem h
  -- whatever a merged type has comes from a definition that some schema gives of it
  have hsource {d : TypeDefinition} (hd : d ∈ (mergeOutput .builtIn schemas).schema.types.values) :
      ∃ ds : List TypeDefinition, ds ≠ [] ∧ d.body.Gathers (ds.map TypeDefinition.body) ∧
        ∀ e ∈ ds, ∃ s ∈ schemas, e ∈ s.types.values := by
    obtain ⟨n, hn⟩ := Table.mem_values_iff.mp hd
    have hcomb := mergeOutput_combineAll? hn
    refine ⟨_, ?_, TypeDefinition.combineAll?_gathers hcomb, fun e he => ?_⟩
    · intro hnil
      rw [hnil] at hcomb
      cases hcomb
    · obtain ⟨s, hmem, he⟩ := mem_definitions.mp he
      exact ⟨s, hmem, Table.mem_values_of_get? he⟩
  refine ⟨fun r hr' => ?_, fun d hd => ?_, fun d hd n hn => ?_, fun d hd n hn => ?_,
    fun op n hn => ?_⟩
  · obtain ⟨s, hmem, hrs⟩ := exists_mem_references_of_mergeOutput hk hr'
    obtain ⟨k, hk', hallows⟩ := (hs s hmem).references r hrs
    exact ⟨k, hkind hmem hk', hallows⟩
  · obtain ⟨ds, hne, hg, hds⟩ := hsource hd
    obtain ⟨e, he⟩ := List.exists_mem_of_ne_nil ds hne
    obtain ⟨s, hmem, hes⟩ := hds e he
    exact hg.hasParts (List.mem_map_of_mem he) ((hs s hmem).parts e hes)
  · obtain ⟨ds, -, hg, hds⟩ := hsource hd
    obtain ⟨b, hb', hnb⟩ := (hg.interfaces n).mp hn
    obtain ⟨e, he, rfl⟩ := List.mem_map.mp hb'
    obtain ⟨s, hmem, hes⟩ := hds e he
    exact hkind hmem ((hs s hmem).interfaces e hes n hnb)
  · obtain ⟨ds, -, hg, hds⟩ := hsource hd
    obtain ⟨b, hb', hnb⟩ := (hg.members n).mp hn
    obtain ⟨e, he, rfl⟩ := List.mem_map.mp hb'
    obtain ⟨s, hmem, hes⟩ := hds e he
    exact hkind hmem ((hs s hmem).members e hes n hnb)
  · obtain ⟨d, hd, hobject⟩ :=
      Option.map_eq_some_iff.mp ((mergeOutput_rootsSound hk hr hc op n hn).2)
    rw [Schema.kind?, hd]
    exact congrArg some hobject

end Merge

/-- Merging valid schemas can break nothing but contracts of interfaces: every name still resolves
to a type of a kind that fits its place, no field is there twice and no type is empty. -/
theorem mergeSchemas_breaksContract {schemas : List Schema} {m : Merged}
    (hk : ∀ s ∈ schemas, s.Keyed) (hs : ∀ s ∈ schemas, s.violations = [])
    (hr : ∀ s ∈ schemas, s.roots.isCanonical = true) (hb : ∀ s ∈ schemas, s.SparesBuiltIns)
    (hm : mergeSchemas .builtIn schemas = .ok m) :
    ∀ v ∈ m.schema.violations, v.breaksContract = true := by
  have htypes : ∀ s ∈ schemas, s.TypesKeyed := fun s hmem => (hk s hmem).types
  have hresolved : ∀ s ∈ schemas, s.Resolved := by
    intro s hmem
    refine (Schema.resolved_iff (hk s hmem).bodies).mpr ?_
    rw [hs s hmem]
    exact fun v hv => by cases hv
  have hsound : ∀ s ∈ schemas, s.RootsSound :=
    fun s hmem => (hresolved s hmem).rootsSound (hr s hmem)
  obtain ⟨hc, rfl⟩ := (mergeSchemas_eq_ok_iff htypes).mp hm
  exact (Schema.resolved_iff (mergeOutput_bodies_keyed hk)).mp
    (mergeOutput_resolved hc htypes hsound hb hresolved)

/-- A schema of an interface with one field and of a type that implements it. -/
def vesselSchema (schema : String) (vessel field : Name) : Schema :=
  let interface : Name := ⟨"Vessel", by decide⟩
  let fields : Table Name Field := .ofList [(field, .ofType field (.named interface))]
  { Schema.empty schema with
    types := .ofList [(interface, ⟨interface, none, [], .interface .empty fields⟩),
      (vessel, ⟨vessel, none, [], .object (.ofList [interface]) fields⟩)] }

/-- Each of two types lacks the field that the other schema gives to the interface. -/
theorem mergeSchemas_breaksContract_vessels :
    let schemas := [vesselSchema "ferries" ⟨"Ferry", by decide⟩ ⟨"route", by decide⟩,
      vesselSchema "barges" ⟨"Barge", by decide⟩ ⟨"tug", by decide⟩]
    (∀ s ∈ schemas, s.Keyed) ∧ (∀ s ∈ schemas, s.violations = []) ∧
      (∀ s ∈ schemas, s.roots.isCanonical = true) ∧ (∀ s ∈ schemas, s.SparesBuiltIns) ∧
      ∃ m, mergeSchemas .builtIn schemas = .ok m ∧ m.schema.violations.length = 2 ∧
        ∀ v ∈ m.schema.violations, v.breaksContract = true := by
  intro schemas
  have hk : ∀ s ∈ schemas, s.Keyed := by decide
  have hs : ∀ s ∈ schemas, s.violations = [] := by decide
  have hr : ∀ s ∈ schemas, s.roots.isCanonical = true := by decide
  have hb : ∀ s ∈ schemas, s.SparesBuiltIns := by decide
  exact ⟨hk, hs, hr, hb, _, rfl, by decide, mergeSchemas_breaksContract hk hs hr hb rfl⟩

end SchemaWeave
