import SchemaWeave.Proofs.EntryPoints
import SchemaWeave.Proofs.Merge.Output

/-!
# Merging in parts

Under the built-in handlers the first schemas of a list may be merged by themselves and their
merge put in their place. Names, entry points, descriptions and directives are lists that keep
first occurrences or first values; types are combined from left to right; directive definitions
are compared with the first of them, and the merged one agrees with the first.

## Entry points

The types behind entry points are united like object types, whatever their kind. For types of
other kinds that differs from what their handlers do, so the entry points have to be object
types.
-/

namespace SchemaWeave

variable {registry : Registry} {schemas xs ys : List Schema}

/-! ## Entry points -/

/-- Whether every entry point that is set has its canonical name and is an object type of the
schema. -/
def Schema.RootsSound (s : Schema) : Prop :=
  ∀ op n, s.roots.get op = some n →
    n = op.canonicalName ∧ (s.type? n).map TypeDefinition.kind = some .object

instance (s : Schema) : Decidable s.RootsSound :=
  decidable_of_iff (∀ op ∈ RootOperation.all, ∀ n ∈ s.roots.get op,
      n = op.canonicalName ∧ (s.type? n).map TypeDefinition.kind = some .object)
    ⟨fun h op n hn => h op (by cases op <;> decide) n hn, fun h op _ n hn => h op n hn⟩

theorem mergedFrame_roots_get (schemas : List Schema) (op : RootOperation) :
    (mergedFrame schemas).roots.get op =
      if schemas.any (fun s => (s.roots.get op).isSome) then some op.canonicalName else none := by
  cases op <;> rfl

theorem exists_get_of_isRootType {s : Schema} {n : Name} (h : s.isRootType n) :
    ∃ op, s.roots.get op = some n := by
  unfold Schema.isRootType RootOperations.operationOf at h
  rw [Option.isSome_map, List.find?_isSome] at h
  obtain ⟨⟨op, n'⟩, he, hn⟩ := h
  obtain rfl : n' = n := by simpa using hn
  exact ⟨op, RootOperations.mem_toList.mp he⟩

/-- An entry point of the merged schema is an object type in one of the schemas. -/
theorem exists_object_of_mergedFrame (hr : ∀ s ∈ schemas, s.RootsSound) {op : RootOperation}
    {n : Name} (h : (mergedFrame schemas).roots.get op = some n) :
    n = op.canonicalName ∧ ∃ c ∈ candidates schemas n, c.definition.kind = .object := by
  rw [mergedFrame_roots_get] at h
  split at h
  · next hany =>
    cases h
    obtain ⟨s, hs, hop⟩ := List.any_eq_true.mp hany
    obtain ⟨n, hn⟩ := Option.isSome_iff_exists.mp hop
    obtain ⟨rfl, hkind⟩ := hr s hs op n hn
    obtain ⟨d, hd, hobj⟩ := Option.map_eq_some_iff.mp hkind
    exact ⟨rfl, ⟨s.name, d⟩, mem_candidates.mpr ⟨s, hs, hd, rfl⟩, hobj⟩
  · cases h

/-- What the built-in handlers make of a type is what combining its definitions gives. -/
theorem mergedType?_builtIn (hk : ∀ s ∈ schemas, s.TypesKeyed) (hr : ∀ s ∈ schemas, s.RootsSound)
    (n : Name) :
    mergedType? .builtIn schemas n =
      TypeDefinition.combineAll? ((candidates schemas n).map Candidate.definition) := by
  ext d
  rw [mergedType?_eq_some_iff]
  refine mergeType_builtIn_eq_ok_iff (candidates_name hk) fun hroot => ?_
  obtain ⟨op, hop⟩ := exists_get_of_isRootType hroot
  exact (exists_object_of_mergedFrame hr hop).2

/-! ## Directive definitions -/

theorem DirectiveDefinition.sameShape_refl (d : DirectiveDefinition) : d.sameShape d := by
  have hargs : ∀ e ∈ d.arguments.entries,
      ((d.arguments.get? e.1).any fun a => a.type = e.2.type && a.default = e.2.default) := by
    intro e he
    rw [Table.get?_eq_some_iff.mpr he]
    simp
  simp only [sameShape, Bool.and_eq_true, List.all_eq_true, decide_true, List.contains_iff_mem]
  exact ⟨⟨⟨⟨⟨trivial, trivial⟩, trivial⟩, fun _ h => h⟩, trivial⟩, hargs⟩

/-- The one definition that several have in common, with the first description. -/
def DirectiveDefinition.combineAll? : List DirectiveDefinition → Option DirectiveDefinition
  | [] => none
  | first :: rest =>
    if (first :: rest).all (·.sameShape first) then
      some { first with description := (first :: rest).findSome? DirectiveDefinition.description }
    else none

/-- The definition that some have in common stands for them in a comparison with others. -/
theorem DirectiveDefinition.combineAll?_append {ds : List DirectiveDefinition} (h : ds ≠ [])
    (es : List DirectiveDefinition) :
    combineAll? (ds ++ es) = (combineAll? ds).bind fun d => combineAll? (d :: es) := by
  cases ds with
  | nil => exact absurd rfl h
  | cons first rest =>
    rw [List.cons_append, combineAll?, combineAll?, ← List.cons_append, List.all_append]
    by_cases hds : (first :: rest).all (·.sameShape first)
    · -- the description does not count for the shape, so the others are compared with the same
      generalize hdesc : (first :: rest).findSome? DirectiveDefinition.description = desc
      have hself : ({ first with description := desc } : DirectiveDefinition).sameShape
          { first with description := desc } = true := DirectiveDefinition.sameShape_refl _
      rw [hds, Bool.true_and, if_pos rfl, Option.bind_some, combineAll?, List.all_cons, hself,
        Bool.true_and, List.findSome?_append, hdesc, List.findSome?_cons]
      cases desc <;> rfl
    · simp [hds]

theorem mergedDirective?_eq (schemas : List Schema) (n : Name) :
    mergedDirective? schemas n =
      DirectiveDefinition.combineAll? ((directiveCandidates schemas n).map Prod.snd) := by
  unfold mergedDirective? mergedDirective mergeDirective
  generalize directiveCandidates schemas n = ds
  match ds with
  | [] => rfl
  | (name, first) :: rest =>
    have hall : ((name, first) :: rest).all (fun d => d.2.sameShape first)
        = (first :: rest.map Prod.snd).all (·.sameShape first) := by
      rw [← List.map_cons (f := Prod.snd) (a := (name, first)), List.all_map]
      rfl
    have hdesc : ((name, first) :: rest).findSome? (·.2.description)
        = (first :: rest.map Prod.snd).findSome? DirectiveDefinition.description := by
      rw [← List.map_cons (f := Prod.snd) (a := (name, first)), List.findSome?_map]
      rfl
    show _ = DirectiveDefinition.combineAll? (first :: rest.map Prod.snd)
    dsimp only
    rw [hall, hdesc, DirectiveDefinition.combineAll?]
    split <;> rfl

/-! ## Success -/

theorem typeConflicts_builtIn_eq_nil_iff {n : Name} :
    typeConflicts .builtIn schemas n = [] ↔ (mergedType? .builtIn schemas n).isSome := by
  rw [typeConflicts_eq_nil_iff, Option.isSome_iff_exists]
  simp only [mergedType?_eq_some_iff]
  refine or_iff_left ?_
  rintro ⟨conflict, he, hs⟩
  exact (mergeType_builtIn_isReport he).not_isSilent hs

theorem directiveConflicts_eq_nil_iff {n : Name} (hn : n ∈ (directiveNames schemas).toList) :
    directiveConflicts schemas n = [] ↔ (mergedDirective? schemas n).isSome := by
  unfold directiveConflicts mergedDirective? mergedDirective
  cases hc : directiveCandidates schemas n with
  | nil => exact absurd hc (directiveCandidates_ne_nil hn)
  | cons first rest =>
    unfold mergeDirective
    dsimp only
    by_cases hall : (first :: rest).all fun d => d.2.sameShape first.2
    · rw [if_pos hall]
      exact iff_of_true rfl rfl
    · rw [if_neg hall]
      exact iff_of_false (List.cons_ne_nil _ _) Bool.false_ne_true

/-- A merge with the built-in handlers succeeds when every group has a result. -/
theorem mergeConflicts_builtIn_eq_nil_iff :
    mergeConflicts .builtIn schemas = [] ↔
      (∀ n ∈ (typeNames schemas).toList, (mergedType? .builtIn schemas n).isSome) ∧
        ∀ n ∈ (directiveNames schemas).toList, (mergedDirective? schemas n).isSome := by
  rw [mergeConflicts_eq_nil_iff]
  refine and_congr (forall₂_congr fun n _ => typeConflicts_builtIn_eq_nil_iff) ?_
  exact forall₂_congr fun n hn => directiveConflicts_eq_nil_iff hn

/-! ## Frames -/

theorem appendDirectives_toList (s : Distinct Directive) (l : List Directive) :
    appendDirectives s.toList l = (s.append l).toList := by
  induction l generalizing s with
  | nil => rfl
  | cons x l ih =>
    show appendDirectives (if s.toList.contains x then s.toList else s.toList ++ [x]) l
      = ((s.insert x).append l).toList
    rw [← ih (s.insert x)]
    by_cases hx : x ∈ s.toList
    · rw [if_pos (List.contains_iff_mem.mpr hx), Distinct.insert_of_mem hx]
    · rw [if_neg fun h => hx (List.contains_iff_mem.mp h), Distinct.toList_insert_of_not_mem hx]

theorem appendDirectives_append (l m : List Directive) :
    appendDirectives [] (appendDirectives [] l ++ m) = appendDirectives [] (l ++ m) := by
  have hlist (l : List Directive) : appendDirectives [] l = (Distinct.ofList l).toList :=
    appendDirectives_toList .empty l
  rw [hlist, hlist, hlist, Distinct.ofList_toList_append]

/-- The frame of a merge is its description, its directives and its entry points. -/
theorem mergedFrame_eq (schemas : List Schema) :
    mergedFrame schemas = ⟨unifiedName, (mergedFrame schemas).description,
      (mergedFrame schemas).directives, (mergedFrame schemas).roots, .empty, .empty⟩ := rfl

theorem mergedFrame_append {s : Schema} (hd : s.description = (mergedFrame xs).description)
    (ha : s.directives = (mergedFrame xs).directives) (hr : s.roots = (mergedFrame xs).roots) :
    mergedFrame (s :: ys) = mergedFrame (xs ++ ys) := by
  have hroots : (mergedFrame (s :: ys)).roots = (mergedFrame (xs ++ ys)).roots := by
    refine RootOperations.ext_get fun op => ?_
    rw [mergedFrame_roots_get, mergedFrame_roots_get, List.any_cons, List.any_append, hr,
      mergedFrame_roots_get]
    by_cases h : xs.any fun s => (s.roots.get op).isSome
    · simp [h]
    · simp [h]
  have hdescription :
      (mergedFrame (s :: ys)).description = (mergedFrame (xs ++ ys)).description := by
    show (s :: ys).findSome? Schema.description = (xs ++ ys).findSome? Schema.description
    have hxs : s.description = xs.findSome? Schema.description := hd
    rw [List.findSome?_append, List.findSome?_cons, hxs]
    cases xs.findSome? Schema.description <;> rfl
  have hdirectives : (mergedFrame (s :: ys)).directives = (mergedFrame (xs ++ ys)).directives := by
    show appendDirectives [] ((s :: ys).flatMap Schema.directives)
      = appendDirectives [] ((xs ++ ys).flatMap Schema.directives)
    rw [List.flatMap_cons, List.flatMap_append, ha]
    exact appendDirectives_append _ _
  rw [mergedFrame_eq (s :: ys), hdescription, hdirectives, hroots]
  rfl

/-! ## A merge in the place of its schemas -/

theorem candidates_append (xs ys : List Schema) (n : Name) :
    candidates (xs ++ ys) n = candidates xs n ++ candidates ys n :=
  List.filterMap_append

theorem directiveCandidates_append (xs ys : List Schema) (n : Name) :
    directiveCandidates (xs ++ ys) n = directiveCandidates xs n ++ directiveCandidates ys n :=
  List.filterMap_append

/-- The names stay in their order when a schema stands for several that define the same types
in that order. -/
theorem typeNames_append {s : Schema} (h : s.types.keys = (typeNames xs).toList) :
    typeNames (s :: ys) = typeNames (xs ++ ys) := by
  unfold typeNames
  rw [List.flatMap_cons, List.flatMap_append, h]
  exact Distinct.ofList_toList_append _ _

theorem directiveNames_append {s : Schema}
    (h : s.directiveDefinitions.keys = (directiveNames xs).toList) :
    directiveNames (s :: ys) = directiveNames (xs ++ ys) := by
  -- built-in directives are already left out of what a merge defines
  have hself : s.directiveDefinitions.keys.filter (fun n => !isBuiltInDirective n.text)
      = (directiveNames xs).toList := by
    rw [h, List.filter_eq_self]
    intro n hn
    simpa using (mem_directiveNames.mp hn).2
  unfold directiveNames
  rw [List.flatMap_cons, List.flatMap_append, List.filter_append, List.filter_append, hself]
  exact Distinct.ofList_toList_append _ _

theorem mergeOutput_schema_eq (schemas : List Schema) :
    (mergeOutput registry schemas).schema = { mergedFrame schemas with
      types := (mergeOutput registry schemas).schema.types
      directiveDefinitions := (mergeOutput registry schemas).schema.directiveDefinitions } := rfl

/-! ### Of results that all are there -/

section Replace

variable (hk : ∀ s ∈ xs, s.TypesKeyed) (hr : ∀ s ∈ xs, s.RootsSound)
  (hxs : mergeConflicts .builtIn xs = [])

include hxs

theorem mergeOutput_types_keys :
    (mergeOutput .builtIn xs).schema.types.keys = (typeNames xs).toList :=
  Table.keys_tabulate_of_isSome (mergeConflicts_builtIn_eq_nil_iff.mp hxs).1

theorem mergeOutput_directives_keys :
    (mergeOutput .builtIn xs).schema.directiveDefinitions.keys = (directiveNames xs).toList :=
  Table.keys_tabulate_of_isSome (mergeConflicts_builtIn_eq_nil_iff.mp hxs).2

include hk hr

/-- The entry points of a merged schema are sound again. -/
theorem mergeOutput_rootsSound : (mergeOutput .builtIn xs).schema.RootsSound := by
  intro op n hop
  obtain ⟨hn, c, hc, hobj⟩ := exists_object_of_mergedFrame hr hop
  have hmem : n ∈ (typeNames xs).toList :=
    candidates_ne_nil_iff.mp (List.ne_nil_of_mem hc)
  obtain ⟨d, hd⟩ := Option.isSome_iff_exists.mp
    ((mergeConflicts_builtIn_eq_nil_iff.mp hxs).1 n hmem)
  -- combining definitions keeps their kind, and one of them is an object type
  have hkind : c.definition.kind = d.kind := by
    rw [mergedType?_builtIn hk hr] at hd
    exact TypeDefinition.combineAll?_kind hd _ (List.mem_map_of_mem hc)
  refine ⟨hn, ?_⟩
  rw [Schema.type?, mergeOutput_get?, hd, Option.map_some, ← hkind, hobj]

end Replace

/-! ### In a longer merge -/

section Append

variable (hk : ∀ s ∈ xs ++ ys, s.TypesKeyed) (hr : ∀ s ∈ xs ++ ys, s.RootsSound)

include hk hr

theorem mergeOutput_cons_sound (hxs : mergeConflicts .builtIn xs = []) :
    ∀ s ∈ (mergeOutput .builtIn xs).schema :: ys, s.TypesKeyed ∧ s.RootsSound := by
  have hkxs : ∀ s ∈ xs, s.TypesKeyed := fun s hs => hk s (List.mem_append_left _ hs)
  have hrxs : ∀ s ∈ xs, s.RootsSound := fun s hs => hr s (List.mem_append_left _ hs)
  intro s hs
  rcases List.mem_cons.mp hs with rfl | hs
  · exact ⟨mergeOutput_typesKeyed hkxs, mergeOutput_rootsSound hkxs hrxs hxs⟩
  · exact ⟨hk s (List.mem_append_right _ hs), hr s (List.mem_append_right _ hs)⟩

/-- A type that the first schemas define is combined to something only if it is in them. -/
theorem mergedType?_append {n : Name} (hn : candidates xs n ≠ []) :
    mergedType? .builtIn (xs ++ ys) n = (mergedType? .builtIn xs n).bind fun d =>
      TypeDefinition.combineAll? (d :: (candidates ys n).map Candidate.definition) := by
  have hkxs : ∀ s ∈ xs, s.TypesKeyed := fun s hs => hk s (List.mem_append_left _ hs)
  have hrxs : ∀ s ∈ xs, s.RootsSound := fun s hs => hr s (List.mem_append_left _ hs)
  rw [mergedType?_builtIn hk hr, mergedType?_builtIn hkxs hrxs, candidates_append,
    List.map_append, TypeDefinition.combineAll?_append (by simpa using hn)]

theorem mergedType?_cons (hxs : mergeConflicts .builtIn xs = []) (n : Name) :
    mergedType? .builtIn ((mergeOutput .builtIn xs).schema :: ys) n
      = mergedType? .builtIn (xs ++ ys) n := by
  have hsound := mergeOutput_cons_sound hk hr hxs
  rw [mergedType?_builtIn (fun s hs => (hsound s hs).1) fun s hs => (hsound s hs).2, candidates,
    List.filterMap_cons, mergeOutput_get?]
  -- either the first schemas define the type and their result stands for them, or both lists
  -- of candidates are those of the rest
  by_cases hn : candidates xs n = []
  · have hnone : mergedType? .builtIn xs n = none := by
      rw [mergedType?, mergedType, hn]
      rfl
    rw [hnone, mergedType?_builtIn hk hr, candidates_append, hn]
    rfl
  · obtain ⟨d, hd⟩ := Option.isSome_iff_exists.mp
      ((mergeConflicts_builtIn_eq_nil_iff.mp hxs).1 n (candidates_ne_nil_iff.mp hn))
    rw [mergedType?_append hk hr hn, hd]
    rfl

omit hk hr in
theorem mergedDirective?_append {n : Name} (hn : directiveCandidates xs n ≠ []) :
    mergedDirective? (xs ++ ys) n = (mergedDirective? xs n).bind fun d =>
      DirectiveDefinition.combineAll? (d :: (directiveCandidates ys n).map Prod.snd) := by
  rw [mergedDirective?_eq, mergedDirective?_eq, directiveCandidates_append, List.map_append,
    DirectiveDefinition.combineAll?_append (by simpa using hn)]

omit hk hr in
theorem mergedDirective?_cons (hxs : mergeConflicts .builtIn xs = []) {n : Name}
    (hn : n ∈ (directiveNames (xs ++ ys)).toList) :
    mergedDirective? ((mergeOutput .builtIn xs).schema :: ys) n =
      mergedDirective? (xs ++ ys) n := by
  have hget : (mergeOutput .builtIn xs).schema.directiveDefinitions.get? n
      = if n ∈ (directiveNames xs).toList then mergedDirective? xs n else none :=
    Table.get?_tabulate _ _ _
  rw [mergedDirective?_eq, directiveCandidates, List.filterMap_cons, hget]
  by_cases hx : n ∈ (directiveNames xs).toList
  · obtain ⟨d, hd⟩ := Option.isSome_iff_exists.mp
      ((mergeConflicts_builtIn_eq_nil_iff.mp hxs).2 n hx)
    rw [if_pos hx, mergedDirective?_append (directiveCandidates_ne_nil hx), hd]
    rfl
  · -- a directive of the longer merge is not built in, so the first schemas do not define it
    have hnone : directiveCandidates xs n = [] := by
      rw [directiveCandidates, List.filterMap_eq_nil_iff]
      intro s hs
      have hkey : n ∉ s.directiveDefinitions.keys := fun hkey =>
        hx (mem_directiveNames.mpr ⟨⟨s, hs, hkey⟩, (mem_directiveNames.mp hn).2⟩)
      rw [Table.get?_eq_none_iff.mpr hkey]
      rfl
    rw [if_neg hx, mergedDirective?_eq, directiveCandidates_append, hnone]
    rfl

/-- What a merge makes of the first schemas may stand in their place. -/
theorem mergeOutput_cons (hxs : mergeConflicts .builtIn xs = []) :
    (mergeOutput .builtIn ((mergeOutput .builtIn xs).schema :: ys)).schema
      = (mergeOutput .builtIn (xs ++ ys)).schema := by
  have hframe : mergedFrame ((mergeOutput .builtIn xs).schema :: ys) = mergedFrame (xs ++ ys) :=
    mergedFrame_append rfl rfl rfl
  have htypes : (mergeOutput .builtIn ((mergeOutput .builtIn xs).schema :: ys)).schema.types
      = (mergeOutput .builtIn (xs ++ ys)).schema.types := by
    show Table.tabulate (typeNames _) _ = Table.tabulate (typeNames _) _
    rw [typeNames_append (mergeOutput_types_keys hxs)]
    exact Table.tabulate_congr fun n _ => mergedType?_cons hk hr hxs n
  have hdirectives :
      (mergeOutput .builtIn ((mergeOutput .builtIn xs).schema :: ys)).schema.directiveDefinitions
        = (mergeOutput .builtIn (xs ++ ys)).schema.directiveDefinitions := by
    show Table.tabulate (directiveNames _) _ = Table.tabulate (directiveNames _) _
    rw [directiveNames_append (mergeOutput_directives_keys hxs)]
    exact Table.tabulate_congr fun n hn => mergedDirective?_cons hxs hn
  rw [mergeOutput_schema_eq, mergeOutput_schema_eq (xs ++ ys), hframe, htypes, hdirectives]

/-- A merge fails where the merge of its first schemas fails. -/
theorem mergeConflicts_of_append (h : mergeConflicts .builtIn (xs ++ ys) = []) :
    mergeConflicts .builtIn xs = [] := by
  obtain ⟨htypes, hdirectives⟩ := mergeConflicts_builtIn_eq_nil_iff.mp h
  refine mergeConflicts_builtIn_eq_nil_iff.mpr ⟨fun n hn => ?_, fun n hn => ?_⟩
  · obtain ⟨s, hs, hkey⟩ := mem_typeNames.mp hn
    have hsome := htypes n (mem_typeNames.mpr ⟨s, List.mem_append_left _ hs, hkey⟩)
    rw [mergedType?_append hk hr (candidates_ne_nil_iff.mpr hn)] at hsome
    exact Option.isSome_of_isSome_bind hsome
  · obtain ⟨⟨s, hs, hkey⟩, hbuiltIn⟩ := mem_directiveNames.mp hn
    have hsome := hdirectives n
      (mem_directiveNames.mpr ⟨⟨s, List.mem_append_left _ hs, hkey⟩, hbuiltIn⟩)
    rw [mergedDirective?_append (directiveCandidates_ne_nil hn)] at hsome
    exact Option.isSome_of_isSome_bind hsome

/-- Where the first schemas have a merge, the rest may be merged with it. -/
theorem mergeConflicts_cons (hxs : mergeConflicts .builtIn xs = []) :
    mergeConflicts .builtIn ((mergeOutput .builtIn xs).schema :: ys) = [] ↔
      mergeConflicts .builtIn (xs ++ ys) = [] := by
  rw [mergeConflicts_builtIn_eq_nil_iff, mergeConflicts_builtIn_eq_nil_iff,
    typeNames_append (mergeOutput_types_keys hxs),
    directiveNames_append (mergeOutput_directives_keys hxs)]
  refine and_congr (forall₂_congr fun n _ => ?_) (forall₂_congr fun n hn => ?_)
  · rw [mergedType?_cons hk hr hxs]
  · rw [mergedDirective?_cons hxs hn]

end Append

/-! ## Bracketing -/

/-- Under the built-in handlers, merging a list and merging the merge of its first schemas with
the rest succeed together, and give the same schema. -/
theorem mergeSchemas_append (hk : ∀ s ∈ xs ++ ys, s.TypesKeyed)
    (hr : ∀ s ∈ xs ++ ys, s.RootsSound) :
    ((∃ r, mergeSchemas .builtIn (xs ++ ys) = .ok r) ↔
      ∃ m, mergeSchemas .builtIn xs = .ok m ∧
        ∃ r, mergeSchemas .builtIn ([m.schema] ++ ys) = .ok r) ∧
    ∀ m r r', mergeSchemas .builtIn xs = .ok m → mergeSchemas .builtIn (xs ++ ys) = .ok r →
      mergeSchemas .builtIn ([m.schema] ++ ys) = .ok r' → r.schema = r'.schema := by
  have hkxs : ∀ s ∈ xs, s.TypesKeyed := fun s hs => hk s (List.mem_append_left _ hs)
  have hcons (hxs : mergeConflicts .builtIn xs = []) :
      ∀ s ∈ [(mergeOutput .builtIn xs).schema] ++ ys, s.TypesKeyed :=
    fun s hs => (mergeOutput_cons_sound hk hr hxs s hs).1
  refine ⟨⟨?_, ?_⟩, ?_⟩
  · rintro ⟨r, h⟩
    have hall := ((mergeSchemas_eq_ok_iff hk).mp h).1
    have hxs := mergeConflicts_of_append hk hr hall
    exact ⟨_, (mergeSchemas_eq_ok_iff hkxs).mpr ⟨hxs, rfl⟩, _,
      (mergeSchemas_eq_ok_iff (hcons hxs)).mpr ⟨(mergeConflicts_cons hk hr hxs).mpr hall, rfl⟩⟩
  · rintro ⟨m, hm, r, h⟩
    obtain ⟨hxs, rfl⟩ := (mergeSchemas_eq_ok_iff hkxs).mp hm
    have hall := ((mergeSchemas_eq_ok_iff (hcons hxs)).mp h).1
    exact ⟨_, (mergeSchemas_eq_ok_iff hk).mpr ⟨(mergeConflicts_cons hk hr hxs).mp hall, rfl⟩⟩
  · intro m r r' hm h h'
    obtain ⟨hxs, rfl⟩ := (mergeSchemas_eq_ok_iff hkxs).mp hm
    obtain ⟨-, rfl⟩ := (mergeSchemas_eq_ok_iff hk).mp h
    obtain ⟨-, rfl⟩ := (mergeSchemas_eq_ok_iff (hcons hxs)).mp h'
    exact (mergeOutput_cons hk hr hxs).symm

/-- A schema whose entry point for queries has one field. -/
def queryOnly (schema : String) (field : Name) : Schema :=
  let query := RootOperation.query.canonicalName
  let fields : Table Name Field := .ofList [(field, .ofType field (.named ⟨"Int", by decide⟩))]
  { Schema.empty schema with
    roots := ⟨some query, none, none⟩
    types := .ofList [(query, ⟨query, none, [], .object .empty fields⟩)] }

theorem mergeSchemas_append_queryOnly :
    let xs := [queryOnly "a" ⟨"x", by decide⟩]
    let ys := [queryOnly "b" ⟨"y", by decide⟩]
    (∀ s ∈ xs ++ ys, s.TypesKeyed) ∧ (∀ s ∈ xs ++ ys, s.RootsSound) ∧
      ∃ m, mergeSchemas .builtIn xs = .ok m ∧
        ∃ r, mergeSchemas .builtIn ([m.schema] ++ ys) = .ok r :=
  ⟨by decide, by decide, (mergeSchemas_append (by decide) (by decide)).1.mp ⟨_, rfl⟩⟩

end SchemaWeave
