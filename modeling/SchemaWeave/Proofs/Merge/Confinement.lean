import SchemaWeave.Proofs.Merge.Associativity
import SchemaWeave.Proofs.Merge.Origins
import SchemaWeave.Proofs.Merge.Registry

/-!
# What handlers may decide

A handler is asked about a type that several schemas define, all as one kind, and that is no entry
point. Everything else in a merged schema is the same whatever handlers there are, and of what
they return the merge takes only definitions of the name and the kind that it asked for.
-/

namespace SchemaWeave

variable {registry registry' : Registry} {schemas : List Schema} {type : Name}

/-- Whether a merge asks a handler for a kind about a type. -/
structure HandlerGroup (schemas : List Schema) (type : Name) (kind : TypeKind) : Prop where
  several : 2 ≤ (candidates schemas type).length
  kinds : ∀ c ∈ candidates schemas type, c.definition.kind = kind
  ordinary : (mergedFrame schemas).isRootType type = false

/-- What the handler that counts for a kind answers about a type. -/
def Registry.answer (registry : Registry) (schemas : List Schema) (type : Name) (kind : TypeKind) :
    Option (Except Conflict TypeDefinition) :=
  (registry.handlerFor kind).map fun handler => handler type (candidates schemas type)

/-! ## One type -/

/-- A merge takes for a type that a handler is asked about what the handler answers, as long as
that has the name and the kind it was asked for. -/
theorem HandlerGroup.mergedType_eq {kind : TypeKind} (h : HandlerGroup schemas type kind) :
    mergedType registry schemas type =
      match registry.answer schemas type kind with
      | none => .error (.rejected type (Candidate.schemas (candidates schemas type))
          ("no merge handler is registered for " ++ kind.text ++ "s"))
      | some answer => answer.bind (checkResult type kind) := by
  obtain ⟨hseveral, hkinds, hordinary⟩ := h
  unfold mergedType Registry.answer
  generalize candidates schemas type = cs at hseveral hkinds ⊢
  match cs with
  | [] => cases hseveral
  | [_] => exact absurd hseveral (by simp)
  | first :: second :: rest =>
    have hfirst : first.definition.kind = kind := hkinds first List.mem_cons_self
    have hany : ((first :: second :: rest).any fun c => c.definition.kind ≠ kind) = false := by
      simpa using hkinds
    rw [mergeType, hfirst, hany, hordinary]
    cases registry.handlerFor kind <;> rfl

/-- A type that no handler is asked about is merged in the same way under all registries. -/
theorem mergedType_eq_of_forall_not (h : ∀ kind, ¬ HandlerGroup schemas type kind) :
    mergedType registry schemas type = mergedType registry' schemas type := by
  unfold mergedType
  rcases hcs : candidates schemas type with - | ⟨first, - | ⟨second, rest⟩⟩
  · rfl
  · rfl
  · rw [mergeType, mergeType]
    split
    · rfl
    · next hany =>
      split
      · rfl
      · next hroot =>
        refine absurd ⟨?_, ?_, by simpa using hroot⟩ (h first.definition.kind)
        · rw [hcs]
          simp
        · rw [hcs]
          simpa using hany

theorem mergedType_congr (h : ∀ kind, HandlerGroup schemas type kind →
      registry.answer schemas type kind = registry'.answer schemas type kind) :
    mergedType registry schemas type = mergedType registry' schemas type := by
  by_cases hasked : ∃ kind, HandlerGroup schemas type kind
  · obtain ⟨kind, hasked⟩ := hasked
    rw [hasked.mergedType_eq, hasked.mergedType_eq, h kind hasked]
  · exact mergedType_eq_of_forall_not (not_exists.mp hasked)

/-- A merged type has the kind of its definitions. -/
theorem mergedType_kind {d : TypeDefinition} (h : mergedType registry schemas type = .ok d) :
    ∀ c ∈ candidates schemas type, c.definition.kind = d.kind := by
  intro c hc
  have hmem : c.definition ∈ (candidates schemas type).map Candidate.definition :=
    List.mem_map_of_mem hc
  rcases mergeType_eq_ok h with hd | hd | ⟨kind, handler, hkinds, -, -, -, hkind⟩
  · rw [hd] at hmem
    rw [List.mem_singleton.mp hmem]
  · exact TypeDefinition.combineAll?_kind (Handler.combineAll?_of_fieldUnion hd) _ hmem
  · exact (hkinds c hc).trans hkind.symm

/-- A type that no handler is asked about is merged, unless that adds to the conflicts. -/
theorem exists_mergedType_of_forall_not (h : ∀ kind, ¬ HandlerGroup schemas type kind)
    (hc : typeConflicts registry schemas type = []) :
    ∃ d, mergedType registry schemas type = .ok d := by
  rcases typeConflicts_eq_nil_iff.mp hc with hd | ⟨conflict, he, hs⟩
  · exact hd
  · rcases mergeType_isReport_or_asked he with
      hreport | ⟨first, second, rest, hcs, hkinds, hordinary, -⟩
    · exact absurd hs hreport.not_isSilent
    · exact absurd ⟨by simp [hcs], hkinds, hordinary⟩ (h first.definition.kind)

theorem not_handlerGroup_of_single
    (h : (schemas.filter fun s => s.types.contains type).length = 1) (kind : TypeKind) :
    ¬ HandlerGroup schemas type kind := by
  intro hasked
  have hlength := congrArg List.length (@candidates_schemas schemas type)
  rw [List.length_map, List.length_map, h] at hlength
  have hseveral := hasked.several
  omega

/-! ## The merged schema -/

/-- Whether two merges of the same schemas differ in nothing but what handlers are asked about,
and there in neither names nor kinds nor origins. -/
structure Merged.Confined (schemas : List Schema) (m m' : Merged) : Prop where
  name : m.schema.name = m'.schema.name
  description : m.schema.description = m'.schema.description
  directives : m.schema.directives = m'.schema.directives
  roots : m.schema.roots = m'.schema.roots
  directiveDefinitions : m.schema.directiveDefinitions = m'.schema.directiveDefinitions
  single : ∀ n, (schemas.filter fun s => s.types.contains n).length = 1 →
    ∃ d, m.schema.types.get? n = some d ∧ m'.schema.types.get? n = some d
  rootTypes : ∀ n, m.schema.isRootType n = true → (∃ s ∈ schemas, n ∈ s.types.keys) →
    ∃ d, m.schema.types.get? n = some d ∧ m'.schema.types.get? n = some d
  others : ∀ n d d', m.schema.types.get? n = some d → m'.schema.types.get? n = some d' →
    d.name = d'.name ∧ d.kind = d'.kind ∧ m.origins.ofType n = m'.origins.ofType n

/-- Two merges agree on a type that no handler is asked about. -/
theorem exists_mergeOutput_get?_of_forall_not (hn : ∃ s ∈ schemas, type ∈ s.types.keys)
    (h : ∀ kind, ¬ HandlerGroup schemas type kind)
    (hc : mergeConflicts registry schemas = []) :
    ∃ d, (mergeOutput registry schemas).schema.types.get? type = some d ∧
      (mergeOutput registry' schemas).schema.types.get? type = some d := by
  have hnone := (mergeConflicts_eq_nil_iff.mp hc).1 type (mem_typeNames.mpr hn)
  obtain ⟨d, hd⟩ := exists_mergedType_of_forall_not h hnone
  refine ⟨d, ?_, ?_⟩
  · rw [mergeOutput_get?, mergedType?_eq_some_iff, hd]
  · rw [mergeOutput_get?, mergedType?_eq_some_iff, ← mergedType_eq_of_forall_not h, hd]

/-- Two merges that both succeed differ only in what handlers are asked about. -/
theorem mergeOutput_confined (hk : ∀ s ∈ schemas, s.TypesKeyed)
    (hc : mergeConflicts registry schemas = []) :
    Merged.Confined schemas (mergeOutput registry schemas) (mergeOutput registry' schemas) where
  name := rfl
  description := rfl
  directives := rfl
  roots := rfl
  directiveDefinitions := rfl
  single := by
    intro n hn
    refine exists_mergeOutput_get?_of_forall_not ?_ (not_handlerGroup_of_single hn) hc
    obtain ⟨s, hs⟩ := List.exists_mem_of_length_pos (hn ▸ Nat.one_pos)
    obtain ⟨hs, hcontains⟩ := List.mem_filter.mp hs
    exact ⟨s, hs, Table.contains_iff.mp hcontains⟩
  rootTypes := by
    intro n hroot hn
    refine exists_mergeOutput_get?_of_forall_not hn (fun kind hasked => ?_) hc
    have hordinary : (mergeOutput registry schemas).schema.isRootType n = false := hasked.ordinary
    rw [hroot] at hordinary
    cases hordinary
  others := by
    intro n d d' hd hd'
    have hkey := Table.mem_keys_of_get? hd
    have hkey' := Table.mem_keys_of_get? hd'
    rw [mergeOutput_get?, mergedType?_eq_some_iff] at hd hd'
    refine ⟨(mergedType_name hk hd).trans (mergedType_name hk hd').symm, ?_, ?_⟩
    · obtain ⟨c, hmem⟩ := List.exists_mem_of_ne_nil _
        (candidates_ne_nil_iff.mpr (mem_typeNames_of_mergedType hd))
      exact (mergedType_kind hd c hmem).symm.trans (mergedType_kind hd' c hmem)
    · rw [mergeOutput_ofType hkey, mergeOutput_ofType hkey']

/-- A merge depends on the handlers only through what they answer where they are asked. -/
theorem mergeSchemas_congr (hk : ∀ s ∈ schemas, s.TypesKeyed)
    (h : ∀ type kind, HandlerGroup schemas type kind →
      registry.answer schemas type kind = registry'.answer schemas type kind) :
    mergeSchemas registry schemas = mergeSchemas registry' schemas := by
  have hmerged : mergedType registry schemas = mergedType registry' schemas :=
    funext fun type => mergedType_congr (h type)
  have hprogress (types directives : Distinct Name) :
      mergeProgress registry schemas types directives
        = mergeProgress registry' schemas types directives := by
    unfold mergeProgress mergedOrigins? mergedType? typeConflicts
    rw [hmerged]
  rw [mergeSchemas_eq hk, mergeSchemas_eq hk, mergeConflicts, mergeConflicts, mergeOutput,
    mergeOutput, hprogress]

/-- What a merge has for a type that a handler is asked about is what the chosen handler answers,
if that has the name and the kind it was asked for. -/
theorem exists_chosen_of_handlerGroup (hk : ∀ s ∈ schemas, s.TypesKeyed) (xs : List Registration)
    {kind : TypeKind} (h : HandlerGroup schemas type kind) :
    ∃ x, (Registry.builtIn.registerAll xs).Chooses kind x ∧
      ∀ m, mergeSchemas (Registry.builtIn.registerAll xs) schemas = .ok m →
        ∀ d, m.schema.types.get? type = some d ↔
          x.handler type (candidates schemas type) = .ok d ∧ d.name = type ∧ d.kind = kind := by
  obtain ⟨x, hselected, hchosen⟩ := Registry.exists_select_registerAll xs kind
  refine ⟨x, hchosen, fun m hm d => ?_⟩
  obtain ⟨-, rfl⟩ := (mergeSchemas_eq_ok_iff hk).mp hm
  have hanswer : (Registry.builtIn.registerAll xs).answer schemas type kind
      = some (x.handler type (candidates schemas type)) := by
    rw [Registry.answer, Registry.handlerFor, hselected]
    rfl
  rw [mergeOutput_get?, mergedType?_eq_some_iff, h.mergedType_eq, hanswer]
  show (x.handler type (candidates schemas type) >>= checkResult type kind) = .ok d ↔ _
  rw [bind_eq_ok_iff]
  simp only [checkResult_eq_ok_iff]
  constructor
  · rintro ⟨e, he, rfl, hname, hkind⟩
    exact ⟨he, hname, hkind⟩
  · rintro ⟨he, hname, hkind⟩
    exact ⟨d, he, rfl, hname, hkind⟩

/-- Handlers are confined to the groups that they are asked about. Two merges of the same schemas
that succeed differ in nothing else, and merges whose handlers answer the same where they are asked
are the same. The handler that is asked has the greatest priority for the kind, and was registered
first among those that have it; the built-in ones are registered first of all, with the least
priority. -/
theorem mergeSchemas_confined (hk : ∀ s ∈ schemas, s.TypesKeyed) :
    (∀ r r' m m', mergeSchemas r schemas = .ok m → mergeSchemas r' schemas = .ok m' →
      m.Confined schemas m') ∧
    (∀ r r' : Registry, (∀ type kind, HandlerGroup schemas type kind →
        r.answer schemas type kind = r'.answer schemas type kind) →
      mergeSchemas r schemas = mergeSchemas r' schemas) ∧
    (∀ xs type kind, HandlerGroup schemas type kind →
      ∃ x, (Registry.builtIn.registerAll xs).Chooses kind x ∧
        ∀ m, mergeSchemas (Registry.builtIn.registerAll xs) schemas = .ok m →
          ∀ d, m.schema.types.get? type = some d ↔
            x.handler type (candidates schemas type) = .ok d ∧ d.name = type ∧ d.kind = kind) ∧
    (∀ xs, (Registry.builtIn.registerAll xs).registrations
      = Registry.builtIn.registrations ++ xs) ∧
    ∀ x ∈ Registry.builtIn.registrations, x.priority = Registry.leastPriority := by
  refine ⟨fun r r' m m' hm hm' => ?_, fun r r' h => mergeSchemas_congr hk h,
    fun xs type kind h => exists_chosen_of_handlerGroup hk xs h,
    Registry.registrations_registerAll _, Registry.priority_of_mem_builtIn⟩
  obtain ⟨hc, rfl⟩ := (mergeSchemas_eq_ok_iff hk).mp hm
  obtain ⟨-, rfl⟩ := (mergeSchemas_eq_ok_iff hk).mp hm'
  exact mergeOutput_confined hk hc

/-- Two schemas that both define the entry point for queries and an enum, and a type that only the
second one has. -/
def seasons : List Schema :=
  let query := RootOperation.query.canonicalName
  let season : Name := ⟨"Season", by decide⟩
  let reef : Name := ⟨"Reef", by decide⟩
  let dry : Name := ⟨"dry", by decide⟩
  let wet : Name := ⟨"wet", by decide⟩
  let fields (n : Name) : TypeBody := .object .empty (.ofList [(n, .ofType n (.named season))])
  let values (n : Name) : TypeBody := .enum (.ofList [(n, ⟨n, none, []⟩)])
  let schema (name : String) (types : List (Name × TypeBody)) : Schema :=
    { Schema.empty name with
      roots := ⟨some query, none, none⟩
      types := .ofList (types.map fun e => (e.1, ⟨e.1, none, [], e.2⟩)) }
  [schema "north" [(query, fields dry), (season, values dry)],
    schema "south" [(query, fields wet), (season, values wet), (reef, fields wet)]]

/-- A handler that refuses every object type, one that keeps the first definition of an enum, and
one of the same priority after it that refuses every enum. -/
def firstSeason : List Registration :=
  let refuse : Handler := fun type cs => .error (.rejected type (Candidate.schemas cs) "no")
  let keep : Handler := fun type cs =>
    match cs with
    | [] => .error (Candidate.nothingToMerge type)
    | first :: _ => .ok first.definition
  [⟨.object, 2, refuse⟩, ⟨.enum, 1, keep⟩, ⟨.enum, 1, refuse⟩]

/-- The enum is the only type that a handler is asked about, and the only one in which the merges
with and without the handlers differ. -/
theorem mergeSchemas_confined_seasons :
    let season : Name := ⟨"Season", by decide⟩
    let registry := Registry.builtIn.registerAll firstSeason
    (∀ s ∈ seasons, s.TypesKeyed) ∧ HandlerGroup seasons season .enum ∧
      ∃ m m', mergeSchemas .builtIn seasons = .ok m ∧ mergeSchemas registry seasons = .ok m' ∧
        m.schema ≠ m'.schema ∧ m.Confined seasons m' ∧
        ∃ x, registry.Chooses .enum x ∧
          ∀ d, m'.schema.types.get? season = some d ↔
            x.handler season (candidates seasons season) = .ok d ∧
              d.name = season ∧ d.kind = .enum := by
  intro season registry
  have hk : ∀ s ∈ seasons, s.TypesKeyed := by decide
  have hasked : HandlerGroup seasons season .enum := ⟨by decide, by decide, by decide⟩
  have hm : mergeSchemas .builtIn seasons = .ok (mergeOutput .builtIn seasons) :=
    (mergeSchemas_eq_ok_iff hk).mpr ⟨by decide, rfl⟩
  have hm' : mergeSchemas registry seasons = .ok (mergeOutput registry seasons) :=
    (mergeSchemas_eq_ok_iff hk).mpr ⟨by decide, rfl⟩
  obtain ⟨hconfined, -, hchosen, -⟩ := mergeSchemas_confined hk
  obtain ⟨x, hx, hget⟩ := hchosen firstSeason season .enum hasked
  exact ⟨hk, hasked, _, _, hm, hm', by decide, hconfined _ _ _ _ hm hm', x, hx, hget _ hm'⟩

end SchemaWeave
