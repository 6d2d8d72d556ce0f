import SchemaWeave.Proofs.Merge.Associativity
import SchemaWeave.Proofs.Merge.Disputes
import SchemaWeave.Proofs.Merge.Origins

/-!
# The order of the schemas

In which order the schemas are merged decides in which order the types, fields, values, members
and interfaces come, and whose descriptions, directives and default values are kept. It does not
decide whether the schemas can be merged, what there is in the merged schema, of which types its
fields are, and where all that comes from; and when they cannot be merged, it does not decide over
what.

That is so because the disputes of a group are disputes between any two of its definitions, and
because what a group gathers is there in whichever definition it is.

## Keys

A schema is an index of types by their names, as whatever is read from a text or a listing is.
Where a type is stored under another name, the order decides more: the merge stores it under its
own name, where the group that comes last has the place, and of several definitions in a group only
the first has to have the name of the group.
-/

namespace SchemaWeave

/-! ## What the order leaves alone -/

namespace TypeBody

/-- Whether two bodies have the same parts, fields with the same signatures and input fields of
the same types. -/
structure Alike (b c : TypeBody) : Prop where
  kind : b.kind = c.kind
  fields : ∀ n, Option.Rel (fun f g => f.sameSignature g = true) (b.field? n) (c.field? n)
  inputFields : ∀ n, Option.Rel (fun v w => v.type = w.type) (b.inputField? n) (c.inputField? n)
  enumValues : ∀ n, (b.enumValue? n).isSome = (c.enumValue? n).isSome
  members : ∀ n, n ∈ b.memberNames ↔ n ∈ c.memberNames
  interfaces : ∀ n, n ∈ b.interfaceNames ↔ n ∈ c.interfaceNames

end TypeBody

/-- Whether two definitions are of one name and have bodies that are alike. -/
structure TypeDefinition.Alike (d e : TypeDefinition) : Prop where
  name : d.name = e.name
  body : d.body.Alike e.body

/-- Whether two lists without repetition have the same elements. -/
def Distinct.SameElements {α : Type} (s t : Distinct α) : Prop := ∀ a, a ∈ s.toList ↔ a ∈ t.toList

/-- Whether two merged schemas have the same entry points and types that are alike, with the same
origins of all types and fields. -/
structure Merged.Alike (m m' : Merged) : Prop where
  roots : m.schema.roots = m'.schema.roots
  types : ∀ n, Option.Rel TypeDefinition.Alike (m.schema.types.get? n) (m'.schema.types.get? n)
  typeOrigins : ∀ n, Option.Rel Distinct.SameElements (m.origins.ofType n) (m'.origins.ofType n)
  fieldOrigins : ∀ n f,
    Option.Rel Distinct.SameElements (m.origins.ofField n f) (m'.origins.ofField n f)

/-- Whether two merges either give results that are alike or fail over the same. -/
def SameOutcome : Except (List Conflict) Merged → Except (List Conflict) Merged → Prop
  | .ok m, .ok m' => m.Alike m'
  | .error cs, .error cs' => ∀ y, y ∈ cs.map Conflict.summary ↔ y ∈ cs'.map Conflict.summary
  | .ok _, .error _ => False
  | .error _, .ok _ => False

/-! ## Groups -/

theorem Option.rel_iff {α β : Type} {R : α → β → Prop} {x : Option α} {y : Option β} :
    Option.Rel R x y ↔ (x = none ∧ y = none) ∨ ∃ a b, x = some a ∧ y = some b ∧ R a b := by
  constructor
  · rintro (h | -)
    · exact Or.inr ⟨_, _, rfl, rfl, h⟩
    · exact Or.inl ⟨rfl, rfl⟩
  · rintro (⟨rfl, rfl⟩ | ⟨a, b, rfl, rfl, h⟩)
    · exact .none
    · exact .some h

/-- A reading that is related wherever two elements have one is related whichever comes first. -/
theorem Option.rel_findSome? {α β : Type} {R : β → β → Prop} {read : α → Option β} {as bs : List α}
    (hmem : ∀ a, a ∈ as ↔ a ∈ bs)
    (hR : ∀ a ∈ as, ∀ b ∈ as, ∀ x y, read a = some x → read b = some y → R x y) :
    Option.Rel R (as.findSome? read) (bs.findSome? read) := by
  cases ha : as.findSome? read with
  | none =>
    rw [List.findSome?_eq_none_iff] at ha
    have hb : bs.findSome? read = none :=
      List.findSome?_eq_none_iff.mpr fun b hb => ha b ((hmem b).mpr hb)
    rw [hb]
    exact .none
  | some x =>
    obtain ⟨a, haa, hx⟩ := List.exists_of_findSome?_eq_some ha
    have hsome : (bs.findSome? read).isSome :=
      List.findSome?_isSome_iff.mpr ⟨a, (hmem a).mp haa, by rw [hx]; rfl⟩
    obtain ⟨y, hy⟩ := Option.isSome_iff_exists.mp hsome
    obtain ⟨b, hb, hby⟩ := List.exists_of_findSome?_eq_some hy
    rw [hy]
    exact .some (hR a haa b ((hmem b).mpr hb) x y hx hby)

namespace TypeBody

/-- What gathers from the same bodies in two orders is alike, unless they contest a field. -/
theorem Gathers.alike {b c : TypeBody} {bs cs : List TypeBody} (hb : b.Gathers bs)
    (hc : c.Gathers cs) (hmem : ∀ x, x ∈ bs ↔ x ∈ cs) (hne : bs ≠ [])
    (hagree : ∀ n, ¬ Contested bs n) : b.Alike c := by
  have hshape {n : Name} {x y : TypeBody} {p q : FieldShape} (hx : x ∈ bs) (hy : y ∈ bs)
      (hp : x.shape? n = some p) (hq : y.shape? n = some q) : p = q :=
    not_not.mp fun hpq => hagree n ⟨p, q, hpq, ⟨x, hx, hp⟩, y, hy, hq⟩
  refine ⟨?_, fun n => ?_, fun n => ?_, fun n => ?_, fun n => ?_, fun n => ?_⟩
  · obtain ⟨x, hx⟩ := List.exists_mem_of_ne_nil bs hne
    exact (hb.kind x hx).symm.trans (hc.kind x ((hmem x).mp hx))
  · rw [hb.field, hc.field]
    refine Option.rel_findSome? hmem fun x hx y hy f g hf hg => Field.sameSignature_iff.mpr ?_
    exact hshape hx hy (shape?_of_field? hf) (shape?_of_field? hg)
  · rw [hb.inputField, hc.inputField]
    refine Option.rel_findSome? hmem fun x hx y hy v w hv hw => FieldShape.input.inj ?_
    exact hshape hx hy (shape?_of_inputField? hv) (shape?_of_inputField? hw)
  · rw [hb.enumValue, hc.enumValue, Bool.eq_iff_iff, List.findSome?_isSome_iff,
      List.findSome?_isSome_iff]
    simp only [hmem]
  · simp only [hb.members, hc.members, hmem]
  · simp only [hb.interfaces, hc.interfaces, hmem]

end TypeBody

/-- Two lists of the same definitions, merged for the same entry points, give types that are
alike. -/
theorem mergeType_alike {frame : Schema} {type : Name} {cs cs' : List Candidate}
    {d d' : TypeDefinition} (hp : cs.Perm cs') (hn : ∀ c ∈ cs, c.definition.name = type)
    (h : mergeType .builtIn frame type cs = .ok d)
    (h' : mergeType .builtIn frame type cs' = .ok d') : d.Alike d' := by
  have hne : cs ≠ [] := by
    rintro rfl
    cases h
  have hd := combineAll?_of_mergeType h
  have hd' := combineAll?_of_mergeType h'
  have hnone (y : ConflictSummary) : ¬ Dispute (frame.isRootType type) type cs y := by
    rw [← mem_summary_mergeType_iff hn hne, h]
    exact List.not_mem_nil
  refine ⟨?_, ?_⟩
  · have hn' : ∀ c ∈ cs', c.definition.name = type := fun c hc => hn c (hp.mem_iff.mpr hc)
    rw [TypeDefinition.combineAll?_name hd (by simpa using hn),
      TypeDefinition.combineAll?_name hd' (by simpa using hn')]
  · refine (TypeDefinition.combineAll?_gathers hd).alike (TypeDefinition.combineAll?_gathers hd')
      (fun x => ((hp.map _).map _).mem_iff) (by simpa using hne) fun n hcon => ?_
    have hkind := TypeDefinition.combineAll?_kind hd
    rw [List.map_map] at hcon
    refine hnone _ (.field (fun c hc e he => ?_) hcon)
    rw [hkind _ (List.mem_map_of_mem hc), hkind _ (List.mem_map_of_mem he)]

/-! ### Disputes -/

theorem Candidate.sources_perm {cs cs' : List Candidate} (hp : cs.Perm cs') :
    sources cs = sources cs' :=
  List.toFinset_eq_of_perm _ _ (hp.map _)

theorem TypeBody.Contested.of_mem_iff {bs cs : List TypeBody} {n : Name} (h : Contested bs n)
    (hmem : ∀ x, x ∈ bs ↔ x ∈ cs) : Contested cs n := by
  obtain ⟨x, y, hxy, ⟨b, hb, hx⟩, c, hc, hy⟩ := h
  exact ⟨x, y, hxy, ⟨b, (hmem b).mp hb, hx⟩, c, (hmem c).mp hc, hy⟩

/-- A dispute is about definitions, not about their order. -/
theorem Dispute.perm {isRoot : Bool} {type : Name} {cs cs' : List Candidate} {y : ConflictSummary}
    (hp : cs.Perm cs') (h : Dispute isRoot type cs y) : Dispute isRoot type cs' y := by
  cases h with
  | kinds hc he h =>
    rw [Candidate.sources_perm hp]
    exact .kinds (hp.mem_iff.mp hc) (hp.mem_iff.mp he) h
  | root hroot hmany hc h =>
    rw [Candidate.sources_perm hp]
    exact .root hroot (hp.length_eq ▸ hmany) (hp.mem_iff.mp hc) h
  | field hk h =>
    rw [Candidate.sources_perm (hp.filter _)]
    exact .field (fun c hc e he => hk c (hp.mem_iff.mpr hc) e (hp.mem_iff.mpr he))
      (h.of_mem_iff fun x => (hp.map _).mem_iff)
  | scalar hroot hk hc he h =>
    rw [Candidate.sources_perm hp]
    exact .scalar hroot (fun c hc => hk c (hp.mem_iff.mpr hc)) (hp.mem_iff.mp hc)
      (hp.mem_iff.mp he) h

/-! ### Origins -/

theorem TypeBody.Alike.shape?_eq {b c : TypeBody} (h : b.Alike c) (n : Name) :
    b.shape? n = c.shape? n := by
  have hfields : (b.field? n).map Field.shape = (c.field? n).map Field.shape := by
    rcases Option.rel_iff.mp (h.fields n) with ⟨hb, hc⟩ | ⟨f, g, hb, hc, hs⟩
    · rw [hb, hc]
    · rw [hb, hc]
      exact congrArg some (Field.sameSignature_iff.mp hs)
  have hinputs : (b.inputField? n).map (fun v => FieldShape.input v.type)
      = (c.inputField? n).map fun v => FieldShape.input v.type := by
    rcases Option.rel_iff.mp (h.inputFields n) with ⟨hb, hc⟩ | ⟨v, w, hb, hc, ht⟩
    · rw [hb, hc]
    · rw [hb, hc]
      exact congrArg (fun t => some (FieldShape.input t)) ht
  rw [TypeBody.shape?, TypeBody.shape?, hfields, hinputs]

theorem Distinct.sameElements_ofList {α : Type} [DecidableEq α] {l l' : List α} (hp : l.Perm l') :
    (ofList l).SameElements (ofList l') := by
  intro a
  rw [mem_ofList, mem_ofList, hp.mem_iff]

/-- The fields of types that are alike come from the same definitions. -/
theorem TypeOrigins.ofCandidates_alike {d d' : TypeDefinition} {cs cs' : List Candidate}
    (h : d.Alike d') (hp : cs.Perm cs') (f : Name) :
    Option.Rel Distinct.SameElements ((ofCandidates d cs).fields.get? f)
      ((ofCandidates d' cs').fields.get? f) := by
  have hfield : f ∈ d.fieldNames ↔ f ∈ d'.fieldNames := by
    have hshape : d.body.hasField f = d'.body.hasField f := by
      rw [TypeBody.hasField_eq, TypeBody.hasField_eq, h.body.shape?_eq]
    rw [← TypeDefinition.hasField_iff, ← TypeDefinition.hasField_iff, TypeDefinition.hasField,
      TypeDefinition.hasField, hshape]
  rw [ofCandidates_fields, ofCandidates_fields, Table.get?_tabulate, Table.get?_tabulate]
  by_cases hf : f ∈ d.fieldNames
  · rw [if_pos hf, if_pos (hfield.mp hf)]
    exact .some (Distinct.sameElements_ofList ((hp.filter _).map _))
  · rw [if_neg hf, if_neg fun hf' => hf (hfield.mpr hf')]
    exact .none

/-! ## Schemas -/

/-- The disputes of a merge without directives are those of its groups. -/
theorem mem_summary_mergeConflicts_iff {schemas : List Schema} (hk : ∀ s ∈ schemas, s.TypesKeyed)
    (hd : ∀ s ∈ schemas, s.directiveDefinitions = .empty) {y : ConflictSummary} :
    y ∈ (mergeConflicts .builtIn schemas).map Conflict.summary ↔
      ∃ n, candidates schemas n ≠ [] ∧
        Dispute ((mergedFrame schemas).isRootType n) n (candidates schemas n) y := by
  have hdirectives : (directiveNames schemas).toList = [] := by
    refine List.eq_nil_iff_forall_not_mem.mpr fun n hn => ?_
    obtain ⟨⟨s, hs, hmem⟩, -⟩ := mem_directiveNames.mp hn
    rw [hd s hs] at hmem
    cases hmem
  show y ∈ ((typeNames schemas).toList.flatMap (typeConflicts .builtIn schemas)
    ++ (directiveNames schemas).toList.flatMap (directiveConflicts schemas)).map _ ↔ _
  rw [hdirectives, List.flatMap_nil, List.append_nil, List.map_flatMap, List.mem_flatMap]
  refine exists_congr fun n => ?_
  rw [← candidates_ne_nil_iff, typeConflicts_eq_conflictsOf, mergedType]
  exact and_congr_right fun hne => mem_summary_mergeType_iff (candidates_name hk) hne

section Perm

variable {schemas schemas' : List Schema} (hp : schemas.Perm schemas')

include hp

theorem candidates_perm (n : Name) : (candidates schemas n).Perm (candidates schemas' n) :=
  hp.filterMap _

theorem mergedFrame_roots_perm : (mergedFrame schemas).roots = (mergedFrame schemas').roots := by
  refine RootOperations.ext_get fun op => ?_
  rw [mergedFrame_roots_get, mergedFrame_roots_get, hp.any_eq]

theorem mergeConflicts_perm (hk : ∀ s ∈ schemas, s.TypesKeyed)
    (hd : ∀ s ∈ schemas, s.directiveDefinitions = .empty) (y : ConflictSummary) :
    y ∈ (mergeConflicts .builtIn schemas).map Conflict.summary ↔
      y ∈ (mergeConflicts .builtIn schemas').map Conflict.summary := by
  have hk' : ∀ s ∈ schemas', s.TypesKeyed := fun s hs => hk s (hp.mem_iff.mpr hs)
  have hd' : ∀ s ∈ schemas', s.directiveDefinitions = .empty :=
    fun s hs => hd s (hp.mem_iff.mpr hs)
  have hroot (n : Name) :
      (mergedFrame schemas).isRootType n = (mergedFrame schemas').isRootType n := by
    rw [Schema.isRootType, mergedFrame_roots_perm hp, Schema.isRootType]
  rw [mem_summary_mergeConflicts_iff hk hd, mem_summary_mergeConflicts_iff hk' hd']
  refine exists_congr fun n => and_congr ?_ ?_
  · rw [ne_eq, ne_eq, ← List.length_eq_zero_iff, (candidates_perm hp n).length_eq,
      List.length_eq_zero_iff]
  · rw [hroot]
    exact ⟨.perm (candidates_perm hp n), .perm (candidates_perm hp n).symm⟩

theorem mergeConflicts_eq_nil_perm (hk : ∀ s ∈ schemas, s.TypesKeyed)
    (hd : ∀ s ∈ schemas, s.directiveDefinitions = .empty) :
    mergeConflicts .builtIn schemas = [] ↔ mergeConflicts .builtIn schemas' = [] := by
  rw [← List.map_eq_nil_iff (f := Conflict.summary), List.eq_nil_iff_forall_not_mem,
    ← List.map_eq_nil_iff (f := Conflict.summary) (l := mergeConflicts .builtIn schemas'),
    List.eq_nil_iff_forall_not_mem]
  exact forall_congr' fun y => not_congr (mergeConflicts_perm hp hk hd y)

/-- Merges of the same schemas that succeed are alike. -/
theorem mergeOutput_perm (hk : ∀ s ∈ schemas, s.TypesKeyed)
    (hc : mergeConflicts .builtIn schemas = []) (hc' : mergeConflicts .builtIn schemas' = []) :
    (mergeOutput .builtIn schemas).Alike (mergeOutput .builtIn schemas') := by
  -- group by group: either both have a definition, and these are alike, or none has
  have hgroup (n : Name) :
      Option.Rel TypeDefinition.Alike (mergedType? .builtIn schemas n)
        (mergedType? .builtIn schemas' n) := by
    have hcs := candidates_perm hp n
    by_cases hnil : candidates schemas n = []
    · have hnil' : candidates schemas' n = [] := (hnil ▸ hcs).nil_eq.symm
      rw [mergedType?, mergedType, hnil, mergedType?, mergedType, hnil']
      exact .none
    · have hnil' : candidates schemas' n ≠ [] := fun h => hnil (h ▸ hcs).eq_nil
      obtain ⟨d, hd⟩ := Option.isSome_iff_exists.mp
        ((mergeConflicts_builtIn_eq_nil_iff.mp hc).1 n (candidates_ne_nil_iff.mp hnil))
      obtain ⟨d', hd'⟩ := Option.isSome_iff_exists.mp
        ((mergeConflicts_builtIn_eq_nil_iff.mp hc').1 n (candidates_ne_nil_iff.mp hnil'))
      rw [hd, hd']
      refine .some (mergeType_alike hcs (candidates_name hk) (mergedType?_eq_some_iff.mp hd) ?_)
      rw [mergeType_congr (mergedFrame_roots_perm hp)]
      exact mergedType?_eq_some_iff.mp hd'
  refine ⟨mergedFrame_roots_perm hp, fun n => ?_, fun n => ?_, fun n f => ?_⟩
  · rw [mergeOutput_get?, mergeOutput_get?]
    exact hgroup n
  · rw [Origins.ofType, Origins.ofType, mergeOutput_origins_get?, mergeOutput_origins_get?,
      mergedOrigins?, mergedOrigins?]
    rcases Option.rel_iff.mp (hgroup n) with ⟨hd, hd'⟩ | ⟨d, d', hd, hd', -⟩
    · rw [hd, hd']
      exact .none
    · rw [hd, hd']
      exact .some (Distinct.sameElements_ofList ((candidates_perm hp n).map _))
  · rw [Origins.ofField, Origins.ofField, mergeOutput_origins_get?, mergeOutput_origins_get?,
      mergedOrigins?, mergedOrigins?]
    rcases Option.rel_iff.mp (hgroup n) with ⟨hd, hd'⟩ | ⟨d, d', hd, hd', h⟩
    · rw [hd, hd']
      exact .none
    · rw [hd, hd']
      exact TypeOrigins.ofCandidates_alike h (candidates_perm hp n) f

end Perm

/-- Whether schemas that store their types under their own names can be merged, and to what, does
not depend on their order, but for the order of what there is and for what is taken from whoever
comes first. -/
theorem mergeSchemas_perm {schemas schemas' : List Schema} (hp : schemas.Perm schemas')
    (hk : ∀ s ∈ schemas, s.TypesKeyed) (hd : ∀ s ∈ schemas, s.directiveDefinitions = .empty) :
    SameOutcome (mergeSchemas .builtIn schemas) (mergeSchemas .builtIn schemas') := by
  have hk' : ∀ s ∈ schemas', s.TypesKeyed := fun s hs => hk s (hp.mem_iff.mpr hs)
  have hnil := mergeConflicts_eq_nil_perm hp hk hd
  rw [mergeSchemas_eq hk, mergeSchemas_eq hk']
  by_cases hc : mergeConflicts .builtIn schemas = []
  · rw [if_pos hc, if_pos (hnil.mp hc)]
    exact mergeOutput_perm hp hk hc (hnil.mp hc)
  · rw [if_neg hc, if_neg fun hc' => hc (hnil.mpr hc')]
    exact mergeConflicts_perm hp hk hd

/-- A schema that stores one type, called `Gauge`, under a name. -/
def gaugeSchema (schema : String) (stored : Name) (body : TypeBody) : Schema :=
  let type : TypeDefinition := ⟨⟨"Gauge", by decide⟩, none, [], body⟩
  { Schema.empty schema with types := .ofList [(stored, type)] }

/-- Enums are united in either order, and a scalar among them is a dispute in either order. -/
theorem mergeSchemas_perm_gauges :
    let gauge : Name := ⟨"Gauge", by decide⟩
    let level (n : Name) : TypeBody := .enum (.ofList [(n, ⟨n, none, []⟩)])
    let low := gaugeSchema "low" gauge (level ⟨"LOW", by decide⟩)
    let high := gaugeSchema "high" gauge (level ⟨"HIGH", by decide⟩)
    let plain := gaugeSchema "plain" gauge .scalar
    (∀ s ∈ [low, high, plain], s.TypesKeyed ∧ s.directiveDefinitions = .empty) ∧
      (∃ m m', mergeSchemas .builtIn [low, high] = .ok m ∧
        mergeSchemas .builtIn [high, low] = .ok m' ∧ m ≠ m' ∧ m.Alike m') ∧
      ∃ cs cs', mergeSchemas .builtIn [low, high, plain] = .error cs ∧
        mergeSchemas .builtIn [plain, low, high] = .error cs' ∧
        ∀ y, y ∈ cs.map Conflict.summary ↔ y ∈ cs'.map Conflict.summary := by
  intro gauge level low high plain
  have hswap : [low, high].Perm [high, low] := .swap _ _ _
  have hrotate : ([low, high] ++ [plain]).Perm ([plain] ++ [low, high]) := List.perm_append_comm
  have hk : ∀ s ∈ [low, high], s.TypesKeyed := by decide
  have hd : ∀ s ∈ [low, high], s.directiveDefinitions = .empty := by decide
  have hk' : ∀ s ∈ [low, high, plain], s.TypesKeyed := by decide
  have hd' : ∀ s ∈ [low, high, plain], s.directiveDefinitions = .empty := by decide
  exact ⟨fun s hs => ⟨hk' s hs, hd' s hs⟩,
    ⟨_, _, rfl, rfl, by decide, mergeSchemas_perm hswap hk hd⟩,
    _, _, rfl, rfl, mergeSchemas_perm hrotate hk' hd'⟩

/-- Types that are stored under another name make the outcome depend on the order. Where all are
called `Gauge` and one is stored as `Dial`, the group that comes last decides the kind of the merged
type. Where both are stored as `Gauge` and one of them is called `Dial`, only the definition that
comes first is held to the name, so that there is a merged schema in one order and none in the
other. -/
theorem not_mergeSchemas_perm_misfiled :
    let gauge : Name := ⟨"Gauge", by decide⟩
    let dial : Name := ⟨"Dial", by decide⟩
    let filed := gaugeSchema "filed" gauge (.enum .empty)
    let astray := gaugeSchema "astray" dial .scalar
    let misnamed : Schema :=
      { Schema.empty "misnamed" with
        types := .ofList [(gauge, ⟨dial, none, [], .enum .empty⟩)] }
    (∀ s ∈ [filed, astray, misnamed], s.directiveDefinitions = .empty) ∧
      [filed, astray].Perm [astray, filed] ∧
      ¬ SameOutcome (mergeSchemas .builtIn [filed, astray])
        (mergeSchemas .builtIn [astray, filed]) ∧
      [filed, misnamed].Perm [misnamed, filed] ∧
      (∃ m, mergeSchemas .builtIn [filed, misnamed] = .ok m) ∧
      ∃ cs, mergeSchemas .builtIn [misnamed, filed] = .error cs := by
  intro gauge dial filed astray misnamed
  have hd : ∀ s ∈ [filed, astray, misnamed], s.directiveDefinitions = .empty := by decide
  refine ⟨hd, .swap _ _ _, fun h => ?_, .swap _ _ _, ⟨_, rfl⟩, _, rfl⟩
  -- both orders give a type of the name, of different kinds
  have htypes := (show Merged.Alike _ _ from h).types gauge
  rcases Option.rel_iff.mp htypes with ⟨hnone, -⟩ | ⟨d, d', hd, hd', halike⟩
  · cases hnone
  · cases hd
    cases hd'
    have hkind : TypeKind.scalar = TypeKind.enum := halike.body.kind
    cases hkind

end SchemaWeave
