import SchemaWeave.Proofs.Document.RoundTrip
import SchemaWeave.Proofs.Keyed.Rewrite
import SchemaWeave.Proofs.Merge.Associativity
import SchemaWeave.Proofs.Merge.Origins
import SchemaWeave.Proofs.Violation

/-!
# A merge of one schema

A schema that is alone goes through the stages unchanged but for its name. Its entry points have
their canonical names already, each of its types is alone in its group, so that no handler is
asked, and its directive definitions agree with themselves.
-/

namespace SchemaWeave

variable {registry : Registry} {s : Schema}

/-! ## Rewriting -/

namespace Schema

/-- Entry points that have their canonical names keep them. -/
theorem normalizeRoots_of_isCanonical (h : s.roots.isCanonical = true) :
    s.normalizeRoots = .ok s := by
  have hroot (op : RootOperation) : s.normalizeRoot op = .ok s := by
    unfold normalizeRoot
    cases hop : s.roots.get op with
    | none => rfl
    | some n => exact if_pos (RootOperations.isCanonical_iff.mp h op n hop)
  unfold normalizeRoots RootOperation.all
  simp only [List.foldlM_cons, List.foldlM_nil, bind_eq_ok_iff]
  exact ⟨s, hroot _, s, hroot _, s, hroot _, rfl⟩

end Schema

theorem rewriteAll_single (h : s.roots.isCanonical = true) : rewriteAll [s] [] = .ok [s] := by
  refine rewriteAll_eq_ok_iff.mpr ⟨.cons ⟨rfl, ?_⟩ .nil, rfl⟩
  exact Schema.normalizeRoots_of_isCanonical h

/-! ## Types -/

theorem candidates_single (s : Schema) (n : Name) :
    candidates [s] n = ((s.types.get? n).map (⟨s.name, ·⟩)).toList := by
  unfold candidates
  cases h : s.types.get? n <;> simp [h]

/-- A type that is alone in its group is taken as it is. -/
theorem mergedType_single {n : Name} {d : TypeDefinition} (h : s.types.get? n = some d) :
    mergedType registry [s] n = .ok d := by
  rw [mergedType, candidates_single, h]
  rfl

theorem typeNames_single (s : Schema) : typeNames [s] = ⟨s.types.keys, s.types.nodup⟩ := by
  refine Distinct.ext ?_
  rw [typeNames, List.flatMap_singleton]
  exact Distinct.toList_ofList_of_nodup s.types.keys_nodup

theorem mergeOutput_types_single (registry : Registry) (s : Schema) :
    (mergeOutput registry [s]).schema.types = s.types := by
  have hget (n : Name) (hn : n ∈ s.types.keys) :
      mergedType? registry [s] n = s.types.get? n := by
    obtain ⟨d, hd⟩ := Table.exists_get?_of_mem_keys hn
    rw [hd, mergedType?_eq_some_iff, mergedType_single hd]
  show Table.tabulate (typeNames [s]) (mergedType? registry [s]) = _
  rw [typeNames_single, Table.tabulate_congr hget, Table.tabulate_get?]

/-! ## Directive definitions -/

/-- A directive that is alone agrees with itself. -/
theorem mergedDirective_single {n : Name} {d : DirectiveDefinition}
    (h : s.directiveDefinitions.get? n = some d) : mergedDirective [s] n = .ok (some d) := by
  have hcandidates : directiveCandidates [s] n = [(s.name, d)] := by
    unfold directiveCandidates
    simp [h]
  rw [mergedDirective, hcandidates, mergeDirective, if_pos (by simp [d.sameShape_refl])]
  obtain ⟨name, description, arguments, repeatable, locations⟩ := d
  cases description <;> rfl

theorem directiveNames_single
    (h : ∀ n ∈ s.directiveDefinitions.keys, isBuiltInDirective n.text = false) :
    directiveNames [s] = ⟨s.directiveDefinitions.keys, s.directiveDefinitions.nodup⟩ := by
  refine Distinct.ext ?_
  rw [directiveNames, List.flatMap_singleton, List.filter_eq_self.mpr fun n hn => by simp [h n hn]]
  exact Distinct.toList_ofList_of_nodup s.directiveDefinitions.keys_nodup

theorem mergeOutput_directives_single (registry : Registry)
    (h : ∀ n ∈ s.directiveDefinitions.keys, isBuiltInDirective n.text = false) :
    (mergeOutput registry [s]).schema.directiveDefinitions = s.directiveDefinitions := by
  have hget (n : Name) (hn : n ∈ s.directiveDefinitions.keys) :
      mergedDirective? [s] n = s.directiveDefinitions.get? n := by
    obtain ⟨d, hd⟩ := Table.exists_get?_of_mem_keys hn
    rw [hd, mergedDirective?, mergedDirective_single hd]
    rfl
  show Table.tabulate (directiveNames [s]) (mergedDirective? [s]) = _
  rw [directiveNames_single h, Table.tabulate_congr hget, Table.tabulate_get?]

/-! ## The schema -/

theorem mergeConflicts_single (registry : Registry) (s : Schema) :
    mergeConflicts registry [s] = [] := by
  refine mergeConflicts_eq_nil_iff.mpr ⟨fun n hn => ?_, fun n hn => ?_⟩
  · rw [typeNames_single] at hn
    obtain ⟨d, hd⟩ := Table.exists_get?_of_mem_keys hn
    rw [typeConflicts, mergedType_single hd]
  · obtain ⟨⟨s', hs', hkey⟩, -⟩ := mem_directiveNames.mp hn
    obtain rfl := List.mem_singleton.mp hs'
    obtain ⟨d, hd⟩ := Table.exists_get?_of_mem_keys hkey
    rw [directiveConflicts, mergedDirective_single hd]

/-- The frame of a merge of one schema is all of the schema that is in no table. -/
theorem mergedFrame_single (hr : s.roots.isCanonical = true) (hd : s.directives.Nodup) :
    mergedFrame [s] = ⟨unifiedName, s.description, s.directives, s.roots, .empty, .empty⟩ := by
  have hdescription : (mergedFrame [s]).description = s.description := by
    show [s].findSome? Schema.description = _
    cases h : s.description <;> simp [h]
  have hdirectives : (mergedFrame [s]).directives = s.directives := by
    show appendDirectives (Distinct.empty : Distinct Directive).toList
      ([s].flatMap Schema.directives) = _
    rw [appendDirectives_toList, List.flatMap_singleton]
    exact Distinct.toList_ofList_of_nodup hd
  have hroots : (mergedFrame [s]).roots = s.roots := by
    refine RootOperations.ext_get fun op => ?_
    rw [mergedFrame_roots_get]
    cases hop : s.roots.get op with
    | none => simp [hop]
    | some n => simp [hop, RootOperations.isCanonical_iff.mp hr op n hop]
  rw [mergedFrame_eq, hdescription, hdirectives, hroots]

theorem mergeOutput_schema_single (registry : Registry) (hr : s.roots.isCanonical = true)
    (hb : ∀ n ∈ s.directiveDefinitions.keys, isBuiltInDirective n.text = false)
    (hd : s.directives.Nodup) :
    (mergeOutput registry [s]).schema = { s with name := unifiedName } := by
  rw [mergeOutput_schema_eq, mergeOutput_types_single, mergeOutput_directives_single registry hb,
    mergedFrame_single hr hd]

/-! ## Composition -/

/-- A schema that is alone composes to itself: rewritten by no rules, merged under any handlers
and checked it is the same in everything but its name, and all of its types and fields come from
it alone. -/
theorem mergeSchemas_single (hk : s.TypesKeyed) (hs : s.violations = [])
    (hr : s.roots.isCanonical = true)
    (hb : ∀ n ∈ s.directiveDefinitions.keys, isBuiltInDirective n.text = false)
    (hd : s.directives.Nodup) (registry : Registry) :
    rewriteAll [s] [] = .ok [s] ∧
      ∃ m, mergeSchemas registry [s] = .ok m ∧ m.schema.validate = .ok () ∧
        m.schema = { s with name := unifiedName } ∧
        (∀ n ∈ s.types.keys, m.origins.ofType n = some (.ofList [s.name])) ∧
        ∀ n f, s.definesField n f = true → m.origins.ofField n f = some (.ofList [s.name]) := by
  have hschema := mergeOutput_schema_single registry hr hb hd
  have htypes : (mergeOutput registry [s]).schema.types = s.types :=
    mergeOutput_types_single registry s
  refine ⟨rewriteAll_single hr, mergeOutput registry [s], ?_, ?_, hschema, fun n hn => ?_,
    fun n f hf => ?_⟩
  · refine (mergeSchemas_eq_ok_iff ?_).mpr ⟨mergeConflicts_single registry s, rfl⟩
    exact List.forall_mem_singleton.mpr hk
  · rw [hschema, Schema.validate_eq_ok_iff, ← hs]
    exact Schema.violations_congr rfl rfl rfl
  · have hdefines : [s].filter (fun s => s.types.contains n) = [s] :=
      List.filter_cons_of_pos (Table.contains_iff.mpr hn)
    rw [mergeOutput_ofType (by rwa [htypes]), definers, hdefines]
    rfl
  · have hmerged : (mergeOutput registry [s]).schema.definesField n f = true := by
      rwa [Schema.definesField, htypes]
    have hdefines : [s].filter (fun s => s.definesField n f) = [s] := List.filter_cons_of_pos hf
    rw [mergeOutput_ofField hmerged, fieldDefiners, hdefines]
    rfl

/-- The coast with a description and a directive that is applied twice with different arguments.
Every handler refuses, and none is asked. -/
theorem mergeSchemas_single_coast :
    let seen : Name := ⟨"seen", by decide⟩
    let sea : Name := ⟨"SEA", by decide⟩
    let s : Schema := { coast with
      description := some "Seen from the sea"
      directives := [⟨seen, []⟩, ⟨seen, [(seen, .enum sea)]⟩] }
    let registry : Registry := ⟨TypeKind.all.map fun kind => ⟨kind, 0, fun _ _ =>
      .error (.several [])⟩⟩
    (s.TypesKeyed ∧ s.violations = [] ∧ s.roots.isCanonical = true ∧ s.directives.Nodup ∧
      ∀ n ∈ s.directiveDefinitions.keys, isBuiltInDirective n.text = false) ∧
      rewriteAll [s] [] = .ok [s] ∧
      ∃ m, mergeSchemas registry [s] = .ok m ∧ m.schema.validate = .ok () ∧
        m.schema = { s with name := unifiedName } ∧
        (∀ n ∈ s.types.keys, m.origins.ofType n = some (.ofList ["coast"])) ∧
        ∀ n f, s.definesField n f = true → m.origins.ofField n f = some (.ofList ["coast"]) := by
  intro seen sea s registry
  have hk : s.TypesKeyed := by decide
  have hs : s.violations = [] := by decide
  have hr : s.roots.isCanonical = true := by decide
  have hd : s.directives.Nodup := by decide
  have hb : ∀ n ∈ s.directiveDefinitions.keys, isBuiltInDirective n.text = false := by decide
  exact ⟨⟨hk, hs, hr, hd, hb⟩, mergeSchemas_single hk hs hr hb hd registry⟩

end SchemaWeave
