import Mathlib.Data.List.Perm.Subperm
import SchemaWeave.Proofs.Merge.Associativity
import SchemaWeave.Proofs.Merge.Disputes

/-!
# Definitions of directives and their order

All definitions of a directive are compared with the first of them. Names, arguments and the
number of locations are compared for equality, but the locations themselves only in one
direction: those of the later definition have to be among those of the first.

For lists of one length in which no location is repeated, being among the others is being the
same. A definition that repeats a location has room for fewer of them: it agrees with a first
definition that lists more, and not the other way round. So the comparison is a preorder, and the
order of the schemas decides over a directive exactly when one of its definitions agrees with all
and lists a location that another one does not.
-/

namespace SchemaWeave

/-! ## Shapes -/

/-- What definitions of a directive have to be equal in. -/
structure DirectiveOutline where
  name : Name
  repeatable : Bool
  /-- The number of locations, where each counts as often as it is listed. -/
  places : Nat
  arguments : Name → Option (TypeRef × Option Value)

namespace DirectiveDefinition

variable {d e f : DirectiveDefinition}

def outline (d : DirectiveDefinition) : DirectiveOutline :=
  ⟨d.name, d.repeatable, d.locations.length,
    fun n => (d.arguments.get? n).map fun a => (a.type, a.default)⟩

/-- A definition has the shape of another when the two have one outline and its locations are
among those of the other. -/
theorem sameShape_iff :
    d.sameShape e = true ↔ d.outline = e.outline ∧ d.locations ⊆ e.locations := by
  have harguments := Table.size_eq_and_all_iff (s := d.arguments) (t := e.arguments)
    fun a : InputValue => (a.type, a.default)
  simp only [Prod.mk.injEq, Bool.decide_and] at harguments
  unfold sameShape outline
  simp only [Bool.and_eq_true, decide_eq_true_iff, List.all_eq_true, List.contains_iff_mem,
    DirectiveOutline.mk.injEq, funext_iff, ← harguments]
  constructor
  · rintro ⟨⟨⟨⟨⟨hname, hrep⟩, hlength⟩, hlocations⟩, hsize⟩, hall⟩
    exact ⟨⟨hname, hrep, hlength, hsize, hall⟩, hlocations⟩
  · rintro ⟨⟨hname, hrep, hlength, hsize, hall⟩, hlocations⟩
    exact ⟨⟨⟨⟨⟨hname, hrep⟩, hlength⟩, hlocations⟩, hsize⟩, hall⟩

theorem sameShape_trans (h : d.sameShape e = true) (h' : e.sameShape f = true) :
    d.sameShape f = true := by
  rw [sameShape_iff] at h h' ⊢
  exact ⟨h.1.trans h'.1, List.Subset.trans h.2 h'.2⟩

/-- The comparison is the same in both directions when the locations are. -/
theorem sameShape_comm_iff (h : d.sameShape e = true) :
    e.sameShape d = true ↔ e.locations ⊆ d.locations := by
  rw [sameShape_iff] at h ⊢
  exact and_iff_right h.1.symm

/-- A definition that repeats no location lists all those of the definitions it agrees with. -/
theorem locations_subset_of_nodup (hd : d.locations.Nodup) (h : d.sameShape e = true) :
    e.locations ⊆ d.locations := by
  obtain ⟨houtline, hsub⟩ := sameShape_iff.mp h
  have hlength : d.locations.length = e.locations.length :=
    congrArg DirectiveOutline.places houtline
  exact ((hd.subperm hsub).perm_of_length_le hlength.ge).symm.subset

end DirectiveDefinition

/-! ## Refusals -/

/-- The definitions that the schemas give of a directive. -/
def directiveDefinitionsOf (schemas : List Schema) (directive : Name) :
    List DirectiveDefinition :=
  (directiveCandidates schemas directive).map Prod.snd

theorem mem_directiveDefinitionsOf {schemas : List Schema} {directive : Name}
    {d : DirectiveDefinition} :
    d ∈ directiveDefinitionsOf schemas directive ↔
      ∃ s ∈ schemas, s.directiveDefinitions.get? directive = some d := by
  simp [directiveDefinitionsOf, directiveCandidates]

/-- Whether a merge reports a conflict about a directive. -/
def RefusesDirective (registry : Registry) (schemas : List Schema) (directive : Name) : Prop :=
  ∃ conflicts, mergeSchemas registry schemas = .error conflicts ∧
    ∃ names, .directiveDiffers directive names ∈ conflicts

/-- Whether the handlers of a registry report no conflicts about directives, which they are not
asked about. -/
def Registry.LeavesDirectives (r : Registry) : Prop :=
  ∀ kind handler, r.handlerFor kind = some handler → ∀ type cs, cs ≠ [] →
    (∀ c ∈ cs, c.definition.kind = kind) → ∀ directive names,
      .directiveDiffers directive names ∉ conflictsOf (handler type cs)

theorem Registry.builtIn_leavesDirectives : Registry.builtIn.LeavesDirectives := by
  intro kind handler hh type cs hne hk directive names hmem
  rcases (Handler.mem_conflictsOf_builtIn hh hne hk).mp hmem with ⟨n, -, h⟩ | ⟨-, -, h⟩ <;> cases h

variable {registry : Registry} {schemas schemas' : List Schema} {directive : Name}
  {names : SchemaNames}

/-! ### Where conflicts about directives come from -/

theorem directiveDiffers_not_mem_fieldUnion {type : Name} {cs : List Candidate} {k : TypeKind}
    (hmany : 2 ≤ cs.length) (hk : ∀ c ∈ cs, c.definition.kind = k) :
    .directiveDiffers directive names ∉ conflictsOf (Handler.fieldUnion type cs) := by
  intro hmem
  have hne : cs ≠ [] := List.ne_nil_of_length_pos (by omega)
  by_cases hf : k.HasFields
  · obtain ⟨n, -, h⟩ := (Handler.mem_conflictsOf_fieldUnion hf hne hk).mp hmem
    cases h
  · match cs, hmany with
    | c :: e :: cs, _ =>
      rw [Handler.fieldUnion_of_not_hasFields (by rwa [hk c (by simp)])] at hmem
      cases List.mem_singleton.mp hmem

theorem directiveDiffers_not_mem_typeConflicts (hreg : registry.LeavesDirectives) (type : Name) :
    .directiveDiffers directive names ∉ typeConflicts registry schemas type := by
  rw [typeConflicts_eq_conflictsOf]
  cases hm : mergedType registry schemas type with
  | ok d => exact List.not_mem_nil
  | error conflict =>
    rcases mergeType_error_cases hm with ⟨_, _, rfl⟩ | rfl | ⟨_, rfl⟩ |
      ⟨first, second, rest, hcs, hk, ⟨-, he⟩ | ⟨-, handler, hh, he⟩⟩
    · exact fun h => nomatch List.mem_singleton.mp h
    · exact fun h => nomatch List.mem_singleton.mp h
    · exact fun h => nomatch List.mem_singleton.mp h
    · rw [← he]
      exact directiveDiffers_not_mem_fieldUnion (by simp [hcs]) hk
    · rw [← he]
      exact hreg _ handler hh type _ (by simp [hcs]) hk directive names

theorem mergeDirective_eq_error_iff {ds : List (String × DirectiveDefinition)} {x : Conflict} :
    mergeDirective directive ds = .error x ↔
      (∃ first d, (ds.map Prod.snd).head? = some first ∧ d ∈ ds.map Prod.snd ∧
        d.sameShape first = false) ∧
      x = .directiveDiffers directive (.ofList (ds.map Prod.fst)) := by
  unfold mergeDirective
  cases ds with
  | nil => simp
  | cons first rest =>
    simp only [List.head?_map, List.head?_cons, Option.map_some, Option.some.injEq,
      exists_and_left, exists_eq_left']
    split
    · next hall =>
      refine iff_of_false (fun h => nomatch h) fun ⟨⟨d, hd, hdiffers⟩, _⟩ => ?_
      obtain ⟨e, he, rfl⟩ := List.mem_map.mp hd
      exact Bool.false_ne_true (hdiffers.symm.trans (List.all_eq_true.mp hall e he))
    · next hall =>
      obtain ⟨e, he, hdiffers⟩ := List.all_eq_false.mp (Bool.eq_false_of_not_eq_true hall)
      rw [Except.error.injEq, eq_comm]
      exact (and_iff_right
        ⟨e.2, List.mem_map_of_mem he, Bool.eq_false_of_not_eq_true hdiffers⟩).symm

theorem directiveDiffers_mem_directiveConflicts_iff {n : Name} :
    .directiveDiffers directive names ∈ directiveConflicts schemas n ↔
      mergedDirective schemas n = .error (.directiveDiffers directive names) := by
  unfold directiveConflicts
  cases mergedDirective schemas n <;> simp [eq_comm]

/-- A merge refuses a directive that is not built in when a definition differs from the first. -/
theorem refusesDirective_iff (hreg : registry.LeavesDirectives) :
    RefusesDirective registry schemas directive ↔
      isBuiltInDirective directive.text = false ∧
        ∃ first d, (directiveDefinitionsOf schemas directive).head? = some first ∧
          d ∈ directiveDefinitionsOf schemas directive ∧ d.sameShape first = false := by
  have hgroups : RefusesDirective registry schemas directive ↔ ∃ names,
      ∃ n ∈ (directiveNames schemas).toList, .directiveDiffers directive names
        ∈ directiveConflicts schemas n := by
    simp only [RefusesDirective, mergeSchemas_eq_error_iff]
    constructor
    · rintro ⟨_, ⟨-, rfl⟩, names, hmem⟩
      rcases List.mem_append.mp hmem with hmem | hmem
      · obtain ⟨type, -, hmem⟩ := List.mem_flatMap.mp hmem
        exact absurd hmem (directiveDiffers_not_mem_typeConflicts hreg type)
      · exact ⟨names, List.mem_flatMap.mp hmem⟩
    · rintro ⟨names, hmem⟩
      have hmem : .directiveDiffers directive names ∈ mergeConflicts registry schemas :=
        List.mem_append_right _ (List.mem_flatMap.mpr hmem)
      exact ⟨_, ⟨List.ne_nil_of_mem hmem, rfl⟩, names, hmem⟩
  simp only [hgroups, directiveDiffers_mem_directiveConflicts_iff, mergedDirective,
    mergeDirective_eq_error_iff]
  constructor
  · rintro ⟨names, n, hn, hdiffers, heq⟩
    cases heq
    exact ⟨(mem_directiveNames.mp hn).2, hdiffers⟩
  · rintro ⟨hbuiltIn, first, d, hfirst, hd, hdiffers⟩
    obtain ⟨s, hs, hget⟩ := mem_directiveDefinitionsOf.mp hd
    have hn : directive ∈ (directiveNames schemas).toList :=
      mem_directiveNames.mpr ⟨⟨s, hs, Table.mem_keys_of_get? hget⟩, hbuiltIn⟩
    exact ⟨_, directive, hn, ⟨first, d, hfirst, hd, hdiffers⟩, rfl⟩

/-- A merge accepts a directive that is not built in when all definitions have the shape of the
first. -/
theorem not_refusesDirective_iff (hreg : registry.LeavesDirectives)
    (hbuiltIn : isBuiltInDirective directive.text = false) :
    ¬ RefusesDirective registry schemas directive ↔
      ∀ first, (directiveDefinitionsOf schemas directive).head? = some first →
        ∀ d ∈ directiveDefinitionsOf schemas directive, d.sameShape first = true := by
  simp [refusesDirective_iff hreg, hbuiltIn]

/-! ## Orders -/

theorem directiveDefinitionsOf_perm (hp : schemas.Perm schemas') :
    (directiveDefinitionsOf schemas directive).Perm (directiveDefinitionsOf schemas' directive) :=
  (hp.filterMap _).map _

/-- Some order of the schemas has a given definition first. -/
theorem exists_perm_head? {d : DirectiveDefinition}
    (h : d ∈ directiveDefinitionsOf schemas directive) :
    ∃ schemas', schemas.Perm schemas' ∧
      (directiveDefinitionsOf schemas' directive).head? = some d := by
  obtain ⟨s, hs, hd⟩ := mem_directiveDefinitionsOf.mp h
  obtain ⟨before, after, rfl⟩ := List.append_of_mem hs
  exact ⟨s :: (before ++ after), List.perm_middle,
    by simp [directiveDefinitionsOf, directiveCandidates, hd]⟩

/-- What some definitions of a directive have to be like for their order not to matter: one that
all others agree with has no location that another one lacks. -/
def Interchangeable (ds : List DirectiveDefinition) : Prop :=
  ∀ f ∈ ds, (∀ d ∈ ds, d.sameShape f = true) → ∀ g ∈ ds, f.locations ⊆ g.locations

theorem Interchangeable.perm {ds es : List DirectiveDefinition} (h : Interchangeable ds)
    (hp : ds.Perm es) : Interchangeable es := by
  unfold Interchangeable at h ⊢
  simpa only [hp.mem_iff] using h

/-- Definitions that repeat no location can be taken in any order. -/
theorem interchangeable_of_nodup {ds : List DirectiveDefinition}
    (h : ∀ d ∈ ds, d.locations.Nodup) : Interchangeable ds :=
  fun _ _ hall g hg => DirectiveDefinition.locations_subset_of_nodup (h g hg) (hall g hg)

/-- A directive that is accepted in one order is accepted in another when its definitions can be
interchanged. -/
theorem not_refusesDirective_of_perm (hreg : registry.LeavesDirectives)
    (hbuiltIn : isBuiltInDirective directive.text = false) (hp : schemas.Perm schemas')
    (h : Interchangeable (directiveDefinitionsOf schemas directive))
    (haccepted : ¬ RefusesDirective registry schemas directive) :
    ¬ RefusesDirective registry schemas' directive := by
  have hmem (e : DirectiveDefinition) : e ∈ directiveDefinitionsOf schemas directive ↔
      e ∈ directiveDefinitionsOf schemas' directive := (directiveDefinitionsOf_perm hp).mem_iff
  rw [not_refusesDirective_iff hreg hbuiltIn] at haccepted ⊢
  intro g hg d hd
  have hg : g ∈ directiveDefinitionsOf schemas directive :=
    (hmem g).mpr (List.mem_of_mem_head? hg)
  obtain ⟨f, hf⟩ := Option.ne_none_iff_exists'.mp
    (mt List.head?_eq_none_iff.mp (List.ne_nil_of_mem hg))
  have hall := haccepted f hf
  -- the new first definition has the shape of the old one, and the other way round
  have hfg : f.sameShape g = true := (DirectiveDefinition.sameShape_comm_iff (hall g hg)).mpr
    (h f (List.mem_of_mem_head? hf) hall g hg)
  exact DirectiveDefinition.sameShape_trans (hall d ((hmem d).mpr hd)) hfg

/-- The order of the schemas decides over a directive exactly when one of its definitions agrees
with all and lists a location that another does not list. -/
theorem refusesDirective_perm_iff (hreg : registry.LeavesDirectives) :
    (∀ schemas', schemas.Perm schemas' →
      (RefusesDirective registry schemas' directive ↔
        RefusesDirective registry schemas directive)) ↔
      isBuiltInDirective directive.text = true ∨
        Interchangeable (directiveDefinitionsOf schemas directive) := by
  cases hbuiltIn : isBuiltInDirective directive.text with
  | true => simp [refusesDirective_iff hreg, hbuiltIn]
  | false =>
    simp only [Bool.false_eq_true, false_or]
    constructor
    · intro horder f hf hall g hg
      -- with `f` in front the directive is accepted, so it is with `g` in front
      obtain ⟨front, hp, hfront⟩ := exists_perm_head? hf
      obtain ⟨front', hp', hfront'⟩ := exists_perm_head? hg
      have haccepted : ¬ RefusesDirective registry front directive := by
        rw [not_refusesDirective_iff hreg hbuiltIn, hfront]
        intro first hfirst d hd
        cases hfirst
        exact hall d ((directiveDefinitionsOf_perm hp).mem_iff.mpr hd)
      rw [horder front hp, ← horder front' hp', not_refusesDirective_iff hreg hbuiltIn] at haccepted
      have hfg : f.sameShape g = true :=
        haccepted g hfront' f ((directiveDefinitionsOf_perm hp').mem_iff.mp hf)
      exact (DirectiveDefinition.sameShape_iff.mp hfg).2
    · intro h schemas' hp
      refine not_iff_not.mp ⟨?_, not_refusesDirective_of_perm hreg hbuiltIn hp h⟩
      exact not_refusesDirective_of_perm hreg hbuiltIn hp.symm
        (h.perm (directiveDefinitionsOf_perm hp))

/-- The comparison of definitions is a preorder that is symmetric up to their locations, and so
the order of the schemas decides over a directive only where a definition repeats a location. -/
theorem directiveDefinitions_order_iff (hreg : registry.LeavesDirectives) :
    (∀ d : DirectiveDefinition, d.sameShape d = true) ∧
    (∀ d e f : DirectiveDefinition,
      d.sameShape e = true → e.sameShape f = true → d.sameShape f = true) ∧
    (∀ d e : DirectiveDefinition,
      d.sameShape e = true → (e.sameShape d = true ↔ e.locations ⊆ d.locations)) ∧
    (∀ ds : List DirectiveDefinition, (∀ d ∈ ds, d.locations.Nodup) → Interchangeable ds) ∧
    ∀ (schemas : List Schema) (directive : Name),
      (∀ schemas', schemas.Perm schemas' →
        (RefusesDirective registry schemas' directive ↔
          RefusesDirective registry schemas directive)) ↔
        isBuiltInDirective directive.text = true ∨
          Interchangeable (directiveDefinitionsOf schemas directive) :=
  ⟨DirectiveDefinition.sameShape_refl, fun _ _ _ => DirectiveDefinition.sameShape_trans,
    fun _ _ => DirectiveDefinition.sameShape_comm_iff, fun _ => interchangeable_of_nodup,
    fun _ _ => refusesDirective_perm_iff hreg⟩

/-- A directive without arguments. -/
def cachedDirective (locations : List DirectiveLocation) : DirectiveDefinition :=
  ⟨⟨"cached", by decide⟩, none, .empty, false, locations⟩

/-- A schema that defines the directive. -/
def cachedSchema (schema : String) (locations : List DirectiveLocation) : Schema :=
  let directive := cachedDirective locations
  { Schema.empty schema with directiveDefinitions := .ofList [(directive.name, directive)] }

/-- The order in which locations are listed does not matter. -/
theorem directiveDefinitions_order_cached :
    let schemas := [cachedSchema "A" [.field, .object], cachedSchema "B" [.object, .field]]
    Registry.builtIn.LeavesDirectives ∧
      ∀ schemas', schemas.Perm schemas' →
        ¬ RefusesDirective .builtIn schemas' (cachedDirective []).name := by
  intro schemas
  have hdefinitions : directiveDefinitionsOf schemas (cachedDirective []).name
      = [cachedDirective [.field, .object], cachedDirective [.object, .field]] := rfl
  obtain ⟨-, -, -, hnodup, horder⟩ :=
    directiveDefinitions_order_iff Registry.builtIn_leavesDirectives
  have hsame := (horder schemas (cachedDirective []).name).mpr
    (Or.inr (hdefinitions ▸ hnodup _ (by decide)))
  refine ⟨Registry.builtIn_leavesDirectives, fun schemas' hp => ?_⟩
  rw [hsame schemas' hp]
  rintro ⟨_, h, -⟩
  cases h

/-- A definition that repeats a location agrees with one that lists another in its place, but not
the other way round. -/
theorem not_refusesDirective_perm_cached :
    let wide := cachedDirective [.field, .object]
    let narrow := cachedDirective [.field, .field]
    let a := cachedSchema "A" [.field, .object]
    let b := cachedSchema "B" [.field, .field]
    (narrow.sameShape wide = true ∧ wide.sameShape narrow = false) ∧
      [a, b].Perm [b, a] ∧ ¬ RefusesDirective .builtIn [a, b] wide.name ∧
        RefusesDirective .builtIn [b, a] wide.name := by
  intro wide narrow a b
  refine ⟨by decide, .swap _ _ _, ?_, _, rfl, _, List.mem_singleton_self _⟩
  rintro ⟨_, h, -⟩
  cases h

end SchemaWeave
