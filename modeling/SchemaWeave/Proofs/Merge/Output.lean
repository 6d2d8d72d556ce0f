import SchemaWeave.Proofs.Keyed.Basic
import SchemaWeave.Proofs.Merge.Types

/-!
# The merged schema, group by group

A merge goes through its groups and adds what comes out of them to a schema and to a list of
conflicts. `mergeSchemas_eq` says the same without the walk: the conflicts are those of the
groups, in order, and the merged schema is the table of the groups' results.

## Keys

The walk stores a result under the name that the result carries. The types of the schemas have
to be stored under their names for that to be the name of the group.
-/

namespace SchemaWeave

/-! ## Groups -/

section Groups

variable {schemas : List Schema} {type : Name}

theorem mem_candidates {c : Candidate} :
    c ∈ candidates schemas type ↔
      ∃ s ∈ schemas, s.types.get? type = some c.definition ∧ s.name = c.schema := by
  unfold candidates
  rw [List.mem_filterMap]
  constructor
  · rintro ⟨s, hs, h⟩
    obtain ⟨d, hd, rfl⟩ := Option.map_eq_some_iff.mp h
    exact ⟨s, hs, hd, rfl⟩
  · rintro ⟨s, hs, hd, hn⟩
    exact ⟨s, hs, by rw [hd, hn]; rfl⟩

theorem candidates_name (hk : ∀ s ∈ schemas, s.TypesKeyed) :
    ∀ c ∈ candidates schemas type, c.definition.name = type := by
  intro c hc
  obtain ⟨s, hs, hd, -⟩ := mem_candidates.mp hc
  exact (hk s hs).name_eq hd

theorem mem_typeNames : type ∈ (typeNames schemas).toList ↔ ∃ s ∈ schemas, type ∈ s.types.keys := by
  rw [typeNames, Distinct.mem_ofList, List.mem_flatMap]

theorem candidates_ne_nil_iff :
    candidates schemas type ≠ [] ↔ type ∈ (typeNames schemas).toList := by
  rw [mem_typeNames, List.ne_nil_iff_exists_cons]
  constructor
  · rintro ⟨c, cs, hcs⟩
    obtain ⟨s, hs, hd, -⟩ :=
      mem_candidates.mp (hcs ▸ List.mem_cons_self : c ∈ candidates schemas type)
    exact ⟨s, hs, Table.mem_keys_of_get? hd⟩
  · rintro ⟨s, hs, hn⟩
    obtain ⟨d, hd⟩ := Table.exists_get?_of_mem_keys hn
    have hc : (⟨s.name, d⟩ : Candidate) ∈ candidates schemas type :=
      mem_candidates.mpr ⟨s, hs, hd, rfl⟩
    exact List.exists_cons_of_ne_nil (List.ne_nil_of_mem hc)

/-- The schemas behind a group are those that define the type. -/
theorem candidates_schemas :
    (candidates schemas type).map Candidate.schema
      = (schemas.filter fun s => s.types.contains type).map Schema.name := by
  unfold candidates
  rw [List.map_filterMap]
  induction schemas with
  | nil => rfl
  | cons s schemas ih =>
    rw [List.filterMap_cons, List.filter_cons, ih]
    cases h : s.types.get? type <;> simp [Table.contains, h]

theorem mem_directiveNames {directive : Name} :
    directive ∈ (directiveNames schemas).toList ↔
      (∃ s ∈ schemas, directive ∈ s.directiveDefinitions.keys) ∧
        isBuiltInDirective directive.text = false := by
  rw [directiveNames, Distinct.mem_ofList, List.mem_filter, List.mem_flatMap, Bool.not_eq_true']

theorem directiveCandidates_ne_nil {directive : Name}
    (h : directive ∈ (directiveNames schemas).toList) :
    directiveCandidates schemas directive ≠ [] := by
  obtain ⟨⟨s, hs, hn⟩, -⟩ := mem_directiveNames.mp h
  obtain ⟨d, hd⟩ := Table.exists_get?_of_mem_keys hn
  exact List.ne_nil_of_mem (List.mem_filterMap.mpr ⟨s, hs, by rw [hd]; rfl⟩)

end Groups

/-! ## What comes out of a group -/

variable (registry : Registry) (schemas : List Schema)

/-- What the merge makes of one type. -/
def mergedType (type : Name) : Except Conflict TypeDefinition :=
  mergeType registry (mergedFrame schemas) type (candidates schemas type)

/-- What the merge makes of one directive. -/
def mergedDirective (directive : Name) : Except Conflict (Option DirectiveDefinition) :=
  mergeDirective directive (directiveCandidates schemas directive)

def mergedType? (type : Name) : Option TypeDefinition := (mergedType registry schemas type).toOption

/-- Where the result for one type comes from. -/
def mergedOrigins? (type : Name) : Option TypeOrigins :=
  (mergedType? registry schemas type).map (.ofCandidates · (candidates schemas type))

def mergedDirective? (directive : Name) : Option DirectiveDefinition :=
  (mergedDirective schemas directive).toOption.join

/-- The conflicts that one type adds to the errors. -/
def typeConflicts (type : Name) : List Conflict :=
  match mergedType registry schemas type with
  | .ok _ => []
  | .error conflict => conflict.flatten

/-- The conflicts that one directive adds to the errors. -/
def directiveConflicts (directive : Name) : List Conflict :=
  match mergedDirective schemas directive with
  | .ok _ => []
  | .error conflict => [conflict]

/-- What the merge has when it is through with some types and some directives: the results of
those groups that have one, and the conflicts of the others. -/
def mergeProgress (types directives : Distinct Name) : Merged × List Conflict where
  fst :=
    { schema := { mergedFrame schemas with
        types := .tabulate types (mergedType? registry schemas)
        directiveDefinitions := .tabulate directives (mergedDirective? schemas) }
      origins := ⟨.tabulate types (mergedOrigins? registry schemas)⟩ }
  snd := types.toList.flatMap (typeConflicts registry schemas)
    ++ directives.toList.flatMap (directiveConflicts schemas)

/-- The results of all groups that have one. -/
def mergeOutput : Merged :=
  (mergeProgress registry schemas (typeNames schemas) (directiveNames schemas)).1

/-- The conflicts of all groups. -/
def mergeConflicts : List Conflict :=
  (mergeProgress registry schemas (typeNames schemas) (directiveNames schemas)).2

/-! ## The walk -/

variable {registry schemas}

theorem mergedType_name (hk : ∀ s ∈ schemas, s.TypesKeyed) {type : Name} {d : TypeDefinition}
    (h : mergedType registry schemas type = .ok d) : d.name = type :=
  mergeType_name h (candidates_name hk)

theorem addType_mergeProgress (hk : ∀ s ∈ schemas, s.TypesKeyed) {types : Distinct Name} {n : Name}
    (hn : n ∉ types.toList) :
    Merged.addType registry schemas (mergeProgress registry schemas types .empty) n
      = mergeProgress registry schemas (types.insert n) .empty := by
  -- the walk shows each group the schema so far, of which only the entry points count
  have hstep : mergeType registry (mergeProgress registry schemas types .empty).1.schema n
      (candidates schemas n) = mergedType registry schemas n := mergeType_congr rfl
  unfold Merged.addType
  dsimp only
  rw [hstep]
  unfold mergeProgress
  cases hm : mergedType registry schemas n with
  | error conflict =>
    have hr : mergedType? registry schemas n = none := by rw [mergedType?, hm]; rfl
    have ho : mergedOrigins? registry schemas n = none := by rw [mergedOrigins?, hr]; rfl
    rw [Table.tabulate_insert_of_none hr, Table.tabulate_insert_of_none ho,
      Distinct.toList_insert_of_not_mem hn]
    simp [typeConflicts, hm]
  | ok d =>
    have hr : mergedType? registry schemas n = some d := by rw [mergedType?, hm]; rfl
    have ho : mergedOrigins? registry schemas n
        = some (.ofCandidates d (candidates schemas n)) := by rw [mergedOrigins?, hr]; rfl
    obtain rfl : d.name = n := mergedType_name hk hm
    rw [← Table.insert_tabulate hn hr, ← Table.insert_tabulate hn ho,
      Distinct.toList_insert_of_not_mem hn]
    simp [typeConflicts, hm, Origins.record]

theorem addDirective_mergeProgress {types directives : Distinct Name} {n : Name}
    (hn : n ∉ directives.toList) :
    Merged.addDirective schemas (mergeProgress registry schemas types directives) n
      = mergeProgress registry schemas types (directives.insert n) := by
  have hstep : mergeDirective n (directiveCandidates schemas n) = mergedDirective schemas n := rfl
  unfold Merged.addDirective
  rw [hstep]
  unfold mergeProgress
  cases hm : mergedDirective schemas n with
  | error conflict =>
    have hr : mergedDirective? schemas n = none := by rw [mergedDirective?, hm]; rfl
    rw [Table.tabulate_insert_of_none hr, Distinct.toList_insert_of_not_mem hn]
    simp [directiveConflicts, hm]
  | ok result =>
    have hr : mergedDirective? schemas n = result := by rw [mergedDirective?, hm]; rfl
    cases result with
    | none =>
      rw [Table.tabulate_insert_of_none hr, Distinct.toList_insert_of_not_mem hn]
      simp [directiveConflicts, hm]
    | some d =>
      rw [← Table.insert_tabulate hn hr, Distinct.toList_insert_of_not_mem hn]
      simp [directiveConflicts, hm]

/-- A merge succeeds when no group has a conflict, with the results of the groups. -/
theorem mergeSchemas_eq (hk : ∀ s ∈ schemas, s.TypesKeyed) :
    mergeSchemas registry schemas =
      if mergeConflicts registry schemas = [] then .ok (mergeOutput registry schemas)
      else .error (mergeConflicts registry schemas) := by
  -- both walks are inductions over distinct names, one step of progress for each name
  have htypes : (typeNames schemas).toList.foldl (Merged.addType registry schemas)
      (⟨mergedFrame schemas, .empty⟩, [])
      = mergeProgress registry schemas (typeNames schemas) .empty :=
    Distinct.foldl_toList (g := fun ns => mergeProgress registry schemas ns .empty)
      (fun _ _ hn => addType_mergeProgress hk hn) _
  have hdirectives : (directiveNames schemas).toList.foldl (Merged.addDirective schemas)
      (mergeProgress registry schemas (typeNames schemas) .empty)
      = mergeProgress registry schemas (typeNames schemas) (directiveNames schemas) :=
    Distinct.foldl_toList (g := mergeProgress registry schemas (typeNames schemas))
      (fun _ _ hn => addDirective_mergeProgress hn) _
  unfold mergeSchemas
  dsimp only
  rw [htypes, hdirectives]
  show (if (mergeConflicts registry schemas).isEmpty = true then
    Except.ok (mergeOutput registry schemas) else .error (mergeConflicts registry schemas)) = _
  by_cases hc : mergeConflicts registry schemas = []
  · rw [if_pos hc, if_pos (List.isEmpty_iff.mpr hc)]
  · rw [if_neg hc, if_neg fun h => hc (List.isEmpty_iff.mp h)]

/-! ### The conflicts of a walk

Under which names the results are stored does not matter for the conflicts. -/

theorem conflicts_foldl_addType (types : List Name) {m : Merged × List Conflict}
    (h : m.1.schema.roots = (mergedFrame schemas).roots) :
    (types.foldl (Merged.addType registry schemas) m).2
      = m.2 ++ types.flatMap (typeConflicts registry schemas) := by
  induction types generalizing m with
  | nil => simp
  | cons n types ih =>
    have hstep : mergeType registry m.1.schema n (candidates schemas n)
        = mergedType registry schemas n := mergeType_congr h
    have hroots : (Merged.addType registry schemas m n).1.schema.roots
        = (mergedFrame schemas).roots := by
      unfold Merged.addType
      dsimp only
      split <;> exact h
    have hconflicts : (Merged.addType registry schemas m n).2
        = m.2 ++ typeConflicts registry schemas n := by
      unfold Merged.addType typeConflicts
      dsimp only
      rw [hstep]
      cases mergedType registry schemas n <;> simp
    rw [List.foldl_cons, ih hroots, hconflicts, List.flatMap_cons, List.append_assoc]

theorem conflicts_foldl_addDirective (directives : List Name) (m : Merged × List Conflict) :
    (directives.foldl (Merged.addDirective schemas) m).2
      = m.2 ++ directives.flatMap (directiveConflicts schemas) := by
  induction directives generalizing m with
  | nil => simp
  | cons n directives ih =>
    have hstep : mergeDirective n (directiveCandidates schemas n) = mergedDirective schemas n := rfl
    have hconflicts : (Merged.addDirective schemas m n).2
        = m.2 ++ directiveConflicts schemas n := by
      unfold Merged.addDirective directiveConflicts
      rw [hstep]
      cases mergedDirective schemas n with
      | error conflict => rfl
      | ok result => cases result <;> simp
    rw [List.foldl_cons, ih, hconflicts, List.flatMap_cons, List.append_assoc]

/-- A merge that fails has the conflicts of all groups, whether or not the types are stored under
their names. -/
theorem mergeSchemas_eq_error_iff {conflicts : List Conflict} :
    mergeSchemas registry schemas = .error conflicts ↔
      mergeConflicts registry schemas ≠ [] ∧ conflicts = mergeConflicts registry schemas := by
  have hwalk : ((directiveNames schemas).toList.foldl (Merged.addDirective schemas)
      ((typeNames schemas).toList.foldl (Merged.addType registry schemas)
        (⟨mergedFrame schemas, .empty⟩, []))).2 = mergeConflicts registry schemas := by
    rw [conflicts_foldl_addDirective, conflicts_foldl_addType]
    · rfl
    · rfl
  unfold mergeSchemas
  dsimp only
  rw [hwalk]
  by_cases hc : mergeConflicts registry schemas = []
  · simp [hc]
  · rw [if_neg fun h => hc (List.isEmpty_iff.mp h), Except.error.injEq]
    exact ⟨fun h => ⟨hc, h.symm⟩, fun h => h.2.symm⟩

theorem mergeSchemas_eq_ok_iff (hk : ∀ s ∈ schemas, s.TypesKeyed) {m : Merged} :
    mergeSchemas registry schemas = .ok m ↔
      mergeConflicts registry schemas = [] ∧ m = mergeOutput registry schemas := by
  rw [mergeSchemas_eq hk]
  split
  · next hc => exact ⟨fun h => ⟨hc, by cases h; rfl⟩, fun h => by rw [h.2]⟩
  · next hc => exact iff_of_false (by simp) fun h => hc h.1

/-! ## Reading the result -/

theorem mergedType?_eq_some_iff {type : Name} {d : TypeDefinition} :
    mergedType? registry schemas type = some d ↔ mergedType registry schemas type = .ok d := by
  unfold mergedType?
  cases mergedType registry schemas type <;> simp [Except.toOption]

theorem mem_typeNames_of_mergedType {type : Name} {d : TypeDefinition}
    (h : mergedType registry schemas type = .ok d) : type ∈ (typeNames schemas).toList := by
  rw [← candidates_ne_nil_iff]
  intro hnil
  rw [mergedType, hnil] at h
  cases h

/-- The types of the result are those whose groups have one. -/
theorem mergeOutput_get? (type : Name) :
    (mergeOutput registry schemas).schema.types.get? type = mergedType? registry schemas type := by
  show (Table.tabulate (typeNames schemas) (mergedType? registry schemas)).get? type = _
  rw [Table.get?_tabulate]
  split
  · rfl
  · next hn =>
    cases hm : mergedType? registry schemas type with
    | none => rfl
    | some d => exact absurd (mem_typeNames_of_mergedType (mergedType?_eq_some_iff.mp hm)) hn

theorem mergeOutput_origins_get? (type : Name) :
    (mergeOutput registry schemas).origins.get? type = mergedOrigins? registry schemas type := by
  show (Table.tabulate (typeNames schemas) (mergedOrigins? registry schemas)).get? type = _
  rw [Table.get?_tabulate]
  split
  · rfl
  · next hn =>
    cases hm : mergedType? registry schemas type with
    | none => rw [mergedOrigins?, hm]; rfl
    | some d => exact absurd (mem_typeNames_of_mergedType (mergedType?_eq_some_iff.mp hm)) hn

/-- The merged schema stores each type under its own name. -/
theorem mergeOutput_typesKeyed (hk : ∀ s ∈ schemas, s.TypesKeyed) :
    (mergeOutput registry schemas).schema.TypesKeyed := by
  rintro ⟨n, d⟩ hd
  rw [← Table.get?_eq_some_iff, mergeOutput_get?, mergedType?_eq_some_iff] at hd
  exact mergedType_name hk hd

theorem typeConflicts_eq_nil_iff {type : Name} :
    typeConflicts registry schemas type = [] ↔
      (∃ d, mergedType registry schemas type = .ok d) ∨
        ∃ conflict, mergedType registry schemas type = .error conflict ∧ conflict.IsSilent := by
  unfold typeConflicts
  cases mergedType registry schemas type with
  | ok d => simp
  | error conflict => simp [Conflict.IsSilent]

theorem mergeConflicts_eq_nil_iff :
    mergeConflicts registry schemas = [] ↔
      (∀ n ∈ (typeNames schemas).toList, typeConflicts registry schemas n = []) ∧
        ∀ n ∈ (directiveNames schemas).toList, directiveConflicts schemas n = [] := by
  show (typeNames schemas).toList.flatMap (typeConflicts registry schemas)
    ++ (directiveNames schemas).toList.flatMap (directiveConflicts schemas) = [] ↔ _
  rw [List.append_eq_nil_iff, List.flatMap_eq_nil_iff, List.flatMap_eq_nil_iff]

end SchemaWeave
