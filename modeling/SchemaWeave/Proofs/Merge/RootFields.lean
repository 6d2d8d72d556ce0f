import SchemaWeave.Proofs.Merge.Associativity
import SchemaWeave.Proofs.Merge.Origins

/-!
# Fields behind entry points

The type behind an entry point of a merged schema has the canonical name and unites every type
of that name. A schema that has the name for an ordinary type takes part as well, although it
does not declare the type for the operation, and its fields stand behind the entry point then.

So a merged entry point has what the schemas declare for it, and has nothing else exactly when
whatever the ordinary types of the name have is declared too, in a schema of the same name.
-/

namespace SchemaWeave

/-- Whether a schema has a field in the type behind one of its entry points. -/
def Schema.declaresRootField (s : Schema) (op : RootOperation) (field : Name) : Bool :=
  (s.roots.get op).any fun n => s.definesField n field

/-- Whether the type behind an entry point has the fields that some schema gives it and no
others, each of them from the schemas that do. -/
def Merged.UnitesRoot (m : Merged) (op : RootOperation) (schemas : List Schema)
    (gives : Schema → Name → Bool) : Prop :=
  ∃ n d, m.schema.roots.get op = some n ∧ m.schema.types.get? n = some d ∧
    (∀ f, f ∈ d.fieldNames ↔ ∃ s ∈ schemas, gives s f = true) ∧
    ∀ f ∈ d.fieldNames, ∃ o, m.origins.ofField n f = some o ∧
      ∀ a, a ∈ o.toList ↔ ∃ s ∈ schemas, s.name = a ∧ gives s f = true

variable {schemas : List Schema} {op : RootOperation} {m : Merged}

/-! ## What schemas give -/

/-- Only which fields come from which names decides what an entry point unites. -/
theorem Merged.unitesRoot_iff {gives gives' : Schema → Name → Bool}
    (h : m.UnitesRoot op schemas gives) :
    m.UnitesRoot op schemas gives' ↔
      ∀ a f, (∃ s ∈ schemas, s.name = a ∧ gives s f = true) ↔
        ∃ s ∈ schemas, s.name = a ∧ gives' s f = true := by
  obtain ⟨n, d, hn, hd, hfields, horigins⟩ := h
  have hname (g : Schema → Name → Bool) (f : Name) :
      (∃ s ∈ schemas, g s f = true) ↔ ∃ a, ∃ s ∈ schemas, s.name = a ∧ g s f = true :=
    ⟨fun ⟨s, hs, hg⟩ => ⟨s.name, s, hs, rfl, hg⟩, fun ⟨_, s, hs, _, hg⟩ => ⟨s, hs, hg⟩⟩
  constructor
  · rintro ⟨n', d', hn', hd', hfields', horigins'⟩ a f
    obtain rfl : n = n' := Option.some.inj (hn.symm.trans hn')
    obtain rfl : d = d' := Option.some.inj (hd.symm.trans hd')
    by_cases hf : f ∈ d.fieldNames
    · obtain ⟨o, ho, hmem⟩ := horigins f hf
      obtain ⟨o', ho', hmem'⟩ := horigins' f hf
      obtain rfl : o = o' := Option.some.inj (ho.symm.trans ho')
      rw [← hmem, ← hmem']
    · -- a field that the type does not have is given by no schema, in either sense
      refine iff_of_false ?_ ?_
      · rintro ⟨s, hs, -, hg⟩
        exact hf ((hfields f).mpr ⟨s, hs, hg⟩)
      · rintro ⟨s, hs, -, hg⟩
        exact hf ((hfields' f).mpr ⟨s, hs, hg⟩)
  · intro hsame
    refine ⟨n, d, hn, hd, fun f => ?_, fun f hf => ?_⟩
    · rw [hfields, hname gives, hname gives']
      exact exists_congr fun a => hsame a f
    · obtain ⟨o, ho, hmem⟩ := horigins f hf
      exact ⟨o, ho, fun a => (hmem a).trans (hsame a f)⟩

theorem Schema.RootsSound.definesField {s : Schema} (hs : s.RootsSound) {f : Name}
    (h : s.declaresRootField op f) : s.definesField op.canonicalName f := by
  obtain ⟨n, hn, hf⟩ := (Option.any_eq_true _ _).mp h
  rwa [← (hs op n hn).1]

theorem mem_fieldDefiners {type field : Name} {a : String} :
    a ∈ (fieldDefiners schemas type field).toList ↔
      ∃ s ∈ schemas, s.name = a ∧ s.definesField type field = true := by
  rw [fieldDefiners, Distinct.mem_ofList, List.mem_map]
  constructor
  · rintro ⟨s, hs, rfl⟩
    obtain ⟨hs, hf⟩ := List.mem_filter.mp hs
    exact ⟨s, hs, rfl, hf⟩
  · rintro ⟨s, hs, rfl, hf⟩
    exact ⟨s, List.mem_filter.mpr ⟨hs, hf⟩, rfl⟩

/-! ## What a merge unites -/

/-- Under the built-in handlers a merged type has the fields that any schema defines. -/
theorem hasField_mergedType?_iff (hk : ∀ s ∈ schemas, s.TypesKeyed)
    (hr : ∀ s ∈ schemas, s.RootsSound) {type : Name} {d : TypeDefinition}
    (h : mergedType? .builtIn schemas type = some d) {f : Name} :
    d.hasField f ↔ ∃ s ∈ schemas, s.definesField type f = true := by
  rw [mergedType?_builtIn hk hr] at h
  rw [TypeDefinition.hasField_combineAll?_iff h]
  constructor
  · rintro ⟨e, he, hf⟩
    obtain ⟨c, hc, rfl⟩ := List.mem_map.mp he
    obtain ⟨s, hs, hd, -⟩ := mem_candidates.mp hc
    exact ⟨s, hs, Schema.definesField_iff.mpr ⟨_, hd, hf⟩⟩
  · rintro ⟨s, hs, hf⟩
    obtain ⟨e, he, hf⟩ := Schema.definesField_iff.mp hf
    have hc : (⟨s.name, e⟩ : Candidate) ∈ candidates schemas type :=
      mem_candidates.mpr ⟨s, hs, he, rfl⟩
    exact ⟨e, List.mem_map_of_mem hc, hf⟩

/-- The type behind an entry point unites all types of its name. -/
theorem mergeOutput_unitesRoot (hk : ∀ s ∈ schemas, s.TypesKeyed)
    (hr : ∀ s ∈ schemas, s.RootsSound) (hc : mergeConflicts .builtIn schemas = [])
    (hop : ∃ s ∈ schemas, (s.roots.get op).isSome) :
    (mergeOutput .builtIn schemas).UnitesRoot op schemas
      fun s f => s.definesField op.canonicalName f := by
  have hroot : (mergeOutput .builtIn schemas).schema.roots.get op = some op.canonicalName := by
    show (mergedFrame schemas).roots.get op = _
    rw [mergedFrame_roots_get, if_pos (List.any_eq_true.mpr hop)]
  have hname : op.canonicalName ∈ (typeNames schemas).toList := by
    obtain ⟨-, c, hc, -⟩ := exists_object_of_mergedFrame hr (show _ = _ from hroot)
    exact candidates_ne_nil_iff.mp (List.ne_nil_of_mem hc)
  obtain ⟨d, hd⟩ := Option.isSome_iff_exists.mp
    ((mergeConflicts_builtIn_eq_nil_iff.mp hc).1 op.canonicalName hname)
  have hget : (mergeOutput .builtIn schemas).schema.types.get? op.canonicalName = some d := by
    rw [mergeOutput_get?, hd]
  refine ⟨_, d, hroot, hget, fun f => ?_, fun f hf => ?_⟩
  · rw [← TypeDefinition.hasField_iff, hasField_mergedType?_iff hk hr hd]
  · have hdefined : (mergeOutput .builtIn schemas).schema.definesField op.canonicalName f :=
      Schema.definesField_iff.mpr ⟨d, hget, TypeDefinition.hasField_iff.mpr hf⟩
    exact ⟨_, mergeOutput_ofField hdefined, fun a => mem_fieldDefiners⟩

/-- Under the built-in handlers, the type behind an entry point unites all types of its
canonical name, and with them the types that the schemas declare for the operation. It unites
nothing else exactly when every field of a type of the name is declared for the operation in a
schema of the same name. -/
theorem mergeSchemas_unitesRoot (hk : ∀ s ∈ schemas, s.TypesKeyed)
    (hr : ∀ s ∈ schemas, s.RootsSound) (hm : mergeSchemas .builtIn schemas = .ok m)
    (hop : ∃ s ∈ schemas, (s.roots.get op).isSome) :
    m.UnitesRoot op schemas (fun s f => s.definesField op.canonicalName f) ∧
    (m.UnitesRoot op schemas (fun s f => s.declaresRootField op f) ↔
      ∀ s ∈ schemas, ∀ f, s.definesField op.canonicalName f = true →
        ∃ s' ∈ schemas, s'.name = s.name ∧ s'.declaresRootField op f = true) := by
  obtain ⟨hc, rfl⟩ := (mergeSchemas_eq_ok_iff hk).mp hm
  have hunites := mergeOutput_unitesRoot hk hr hc hop
  refine ⟨hunites, ?_⟩
  rw [Merged.unitesRoot_iff hunites]
  constructor
  · intro hsame s hs f hf
    exact (hsame s.name f).mp ⟨s, hs, rfl, hf⟩
  · intro hdeclared a f
    constructor
    · rintro ⟨s, hs, rfl, hf⟩
      exact hdeclared s hs f hf
    · rintro ⟨s, hs, rfl, hf⟩
      exact ⟨s, hs, rfl, (hr s hs).definesField hf⟩

/-- A schema of object types with one field each. -/
def ofFields (schema : String) (roots : RootOperations) (fields : List (Name × Name)) : Schema :=
  let object (e : Name × Name) : TypeDefinition :=
    ⟨e.1, none, [], .object .empty (.ofList [(e.2, .ofType e.2 (.named ⟨"ID", by decide⟩))])⟩
  { Schema.empty schema with
    roots := roots
    types := .ofList (fields.map fun e => (e.1, object e)) }

theorem mergeSchemas_unitesRoot_ofFields :
    let query := RootOperation.query.canonicalName
    let roots : RootOperations := ⟨some query, none, none⟩
    let schemas := [ofFields "A" roots [(query, ⟨"a", by decide⟩)],
      ofFields "B" roots [(query, ⟨"b", by decide⟩)]]
    (∀ s ∈ schemas, s.TypesKeyed) ∧ (∀ s ∈ schemas, s.RootsSound) ∧
      (∃ s ∈ schemas, (s.roots.get .query).isSome) ∧
      ∃ m, mergeSchemas .builtIn schemas = .ok m ∧
        m.UnitesRoot .query schemas (fun s f => s.declaresRootField .query f) := by
  intro query roots schemas
  have hk : ∀ s ∈ schemas, s.TypesKeyed := by decide
  have hr : ∀ s ∈ schemas, s.RootsSound := by decide
  have hop : ∃ s ∈ schemas, (s.roots.get .query).isSome := by decide
  have hroots : ∀ s ∈ schemas, s.roots.get .query = some query := by decide
  refine ⟨hk, hr, hop, _, rfl, (mergeSchemas_unitesRoot hk hr rfl hop).2.mpr fun s hs f hf => ?_⟩
  refine ⟨s, hs, rfl, ?_⟩
  rw [Schema.declaresRootField, hroots s hs]
  exact hf

/-- An ordinary type with the name of an entry point leaks into the type behind it, and a type
that is not stored under its own name is not found behind an entry point. -/
theorem not_unitesRoot_ofFields :
    let query := RootOperation.query.canonicalName
    let mutation := RootOperation.mutation.canonicalName
    let leaking := [ofFields "A" ⟨some query, none, none⟩ [(query, ⟨"a", by decide⟩)],
      ofFields "B" ⟨none, some mutation, none⟩
        [(mutation, ⟨"m", by decide⟩), (query, ⟨"secret", by decide⟩)]]
    let other := ofFields "A" ⟨some query, none, none⟩ [(⟨"Other", by decide⟩, ⟨"a", by decide⟩)]
    let misplaced := [{ other with types := other.types.rekey ⟨"Other", by decide⟩ query id }]
    ((∀ s ∈ leaking, s.TypesKeyed ∧ s.RootsSound) ∧
      ∃ m, mergeSchemas .builtIn leaking = .ok m ∧
        ¬ m.UnitesRoot .query leaking fun s f => s.declaresRootField .query f) ∧
    (∀ s ∈ misplaced, s.RootsSound) ∧
      ∃ m, mergeSchemas .builtIn misplaced = .ok m ∧
        ¬ m.UnitesRoot .query misplaced fun s f => s.declaresRootField .query f := by
  intro query mutation leaking other misplaced
  refine ⟨⟨by decide, _, rfl, ?_⟩, by decide, _, rfl, ?_⟩
  · rintro ⟨n, d, hn, hd, hfields, -⟩
    cases hn
    cases hd
    exact absurd ((hfields ⟨"secret", by decide⟩).mp (by decide)) (by decide)
  · rintro ⟨n, d, hn, hd, -⟩
    cases hn
    cases hd

end SchemaWeave
