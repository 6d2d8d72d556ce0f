import SchemaWeave.Proofs.Composition.Stages
import SchemaWeave.Proofs.Merge.Origins

/-!
# Origins after an extension

Extensions of the merged schema only add, so its origins have to be completed and nowhere
corrected: what was known before stays, in its place, and what is new comes from no schema.
-/

namespace SchemaWeave

/-! ## Fields -/

namespace TypeOrigins

variable {o : TypeOrigins} {d : TypeDefinition}

theorem follow_eq (h : o.fields.keys <+: d.fieldNames) :
    o.follow d =
      { o with fields := d.fieldNames.foldl (fun t f => t.insertIfNew f .empty) o.fields } := by
  unfold follow
  dsimp only
  rw [Table.filter_eq_self]
  intro f x hx
  exact TypeDefinition.hasField_iff.mpr (h.subset (Table.mem_keys_of_mem hx))

theorem follow_keys (h : o.fields.keys <+: d.fieldNames) :
    (o.follow d).fields.keys = d.fieldNames := by
  rw [follow_eq h]
  have hmap : d.fieldNames.map id = d.fieldNames := List.map_id _
  rw [← hmap] at h
  have hkeys := Table.keys_foldl_of_prefix (g := id)
    (fun t f => Table.keys_insertIfNew t f Distinct.empty) (hmap.symm ▸ d.fieldNames_nodup) h
  exact hkeys.trans hmap

theorem follow_get? (h : o.fields.keys <+: d.fieldNames) (f : Name) :
    (o.follow d).fields.get? f
      = (o.fields.get? f).or (if f ∈ d.fieldNames then some .empty else Option.none) := by
  rw [follow_eq h]
  exact Table.get?_foldl_insertIfNew _ _ _ _

end TypeOrigins

/-! ## Types -/

namespace Origins

/-- One step of `follow`: the origins of a type follow its definition. -/
def followType (t : Table Name TypeOrigins) (d : TypeDefinition) : Table Name TypeOrigins :=
  t.insert d.name (((t.get? d.name).getD .none).follow d)

theorem get?_foldl_followType_of_not_mem {l : List TypeDefinition} {n : Name}
    (h : n ∉ l.map TypeDefinition.name) (t : Table Name TypeOrigins) :
    (l.foldl followType t).get? n = t.get? n := by
  induction l generalizing t with
  | nil => rfl
  | cons d l ih =>
    rw [List.map_cons, List.mem_cons, not_or] at h
    rw [List.foldl_cons, ih h.2, followType, Table.get?_insert, if_neg h.1]

theorem get?_foldl_followType {l : List TypeDefinition} (hl : (l.map TypeDefinition.name).Nodup)
    {d : TypeDefinition} (hd : d ∈ l) (t : Table Name TypeOrigins) :
    (l.foldl followType t).get? d.name = some (((t.get? d.name).getD .none).follow d) := by
  induction l generalizing t with
  | nil => cases hd
  | cons e l ih =>
    have hnd := List.nodup_cons.mp hl
    rw [List.foldl_cons]
    -- a name occurs once, so no later step writes under the name of this one
    rcases List.mem_cons.mp hd with rfl | hd
    · rw [get?_foldl_followType_of_not_mem hnd.1, followType, Table.get?_insert, if_pos rfl]
    · have hne : d.name ≠ e.name := fun he =>
        hnd.1 (List.mem_map.mpr ⟨d, hd, he⟩)
      rw [ih hnd.2 hd, followType, Table.get?_insert, if_neg hne]

variable {o : Origins} {s : Schema}

theorem follow_eq (h : o.types.keys <+: s.types.keys) :
    o.follow s = ⟨s.types.values.foldl followType o.types⟩ := by
  unfold follow
  dsimp only
  rw [Table.filter_eq_self]
  · rfl
  · intro n x hx
    exact Table.contains_iff.mpr (h.subset (Table.mem_keys_of_mem hx))

theorem follow_keys (hs : s.TypesKeyed) (h : o.types.keys <+: s.types.keys) :
    (o.follow s).types.keys = s.types.keys := by
  have hnames : s.types.values.map TypeDefinition.name = s.types.keys := hs.map_name_values
  rw [follow_eq h]
  rw [← hnames] at h ⊢
  refine Table.keys_foldl_of_prefix (fun t d => Table.keys_insert t d.name _) ?_ h
  rw [hnames]
  exact s.types.keys_nodup

theorem follow_get? (hs : s.TypesKeyed) (h : o.types.keys <+: s.types.keys) {n : Name}
    {d : TypeDefinition} (hd : s.types.get? n = some d) :
    (o.follow s).get? n = some (((o.get? n).getD .none).follow d) := by
  have hnames : s.types.values.map TypeDefinition.name = s.types.keys := hs.map_name_values
  rw [follow_eq h, ← hs.name_eq hd]
  refine get?_foldl_followType ?_ (Table.mem_values_of_get? hd) o.types
  rw [hnames]
  exact s.types.keys_nodup

end Origins

/-! ## The merged schema -/

namespace Merged

variable {m m' : Merged} {s : Schema}

theorem Aligned.exists_type (ha : m.Aligned) {n : Name} {o : TypeOrigins}
    (ho : m.origins.get? n = some o) : ∃ d, m.schema.types.get? n = some d := by
  refine Table.exists_get?_of_mem_keys ?_
  rw [← ha.types]
  exact Table.mem_keys_of_get? ho

/-- The fields of a type are those that its origins know. -/
theorem Aligned.definesField_iff (ha : m.Aligned) {n f : Name} {o : TypeOrigins}
    (ho : m.origins.get? n = some o) : m.schema.definesField n f ↔ f ∈ o.fields.keys := by
  obtain ⟨e, he⟩ := ha.exists_type ho
  rw [ha.fields n o e ho he, ← TypeDefinition.hasField_iff, Schema.definesField_iff]
  constructor
  · rintro ⟨e', he', h⟩
    rw [he] at he'
    cases he'
    exact h
  · exact fun h => ⟨e, he, h⟩

/-- What the origins know of a type that has grown are its first fields. -/
theorem Aligned.fields_prefix (ha : m.Aligned) (hg : m.schema.GrowsTo s) {n : Name}
    {d : TypeDefinition} (hd : s.types.get? n = some d) :
    ((m.origins.get? n).getD .none).fields.keys <+: d.fieldNames := by
  cases ho : m.origins.get? n with
  | none => exact List.nil_prefix
  | some o =>
    obtain ⟨e, he⟩ := ha.exists_type ho
    obtain ⟨e', he', hgrow⟩ := hg.types n e he
    rw [hd] at he'
    cases he'
    rw [Option.getD_some, ha.fields n o e ho he]
    exact hgrow.body.fieldNames

theorem Aligned.get?_eq_none (ha : m.Aligned) {n : Name} (hn : n ∉ m.schema.types.keys) :
    m.origins.get? n = none := by
  rw [← ha.types] at hn
  exact Table.get?_eq_none_iff.mpr hn

/-- The origins of a type after an extension. -/
theorem Aligned.follow_get? (ha : m.Aligned) (hg : m.schema.GrowsTo s) (hs : s.TypesKeyed)
    {n : Name} {d : TypeDefinition} (hd : s.types.get? n = some d) :
    (m.origins.follow s).get? n = some (((m.origins.get? n).getD .none).follow d) := by
  refine Origins.follow_get? hs ?_ hd
  rw [ha.types]
  exact hg.keys

theorem Aligned.follow (ha : m.Aligned) (hg : m.schema.GrowsTo s) (hs : s.TypesKeyed) :
    Merged.Aligned ⟨s, m.origins.follow s⟩ where
  types := by
    refine Origins.follow_keys hs ?_
    rw [ha.types]
    exact hg.keys
  fields := by
    intro n o d ho hd
    rw [ha.follow_get? hg hs hd] at ho
    cases ho
    exact TypeOrigins.follow_keys (ha.fields_prefix hg hd)

/-- A type keeps the schemas it comes from; a new type comes from none. -/
theorem Aligned.follow_ofType (ha : m.Aligned) (hg : m.schema.GrowsTo s) (hs : s.TypesKeyed)
    {n : Name} (hn : n ∈ s.types.keys) :
    (m.origins.follow s).ofType n
      = if n ∈ m.schema.types.keys then m.origins.ofType n else some .empty := by
  obtain ⟨d, hd⟩ := Table.exists_get?_of_mem_keys hn
  rw [Origins.ofType, ha.follow_get? hg hs hd]
  show some ((m.origins.get? n).getD .none).schemas = _
  split
  · next hm =>
    rw [← ha.types] at hm
    obtain ⟨o, ho⟩ := Table.exists_get?_of_mem_keys hm
    replace ho : m.origins.get? n = some o := ho
    rw [Origins.ofType, ho]
    rfl
  · next hm =>
    rw [ha.get?_eq_none hm]
    rfl

/-- A field keeps the schemas it comes from; a new field comes from none. -/
theorem Aligned.follow_ofField (ha : m.Aligned) (hg : m.schema.GrowsTo s) (hs : s.TypesKeyed)
    {n f : Name} (hf : s.definesField n f) :
    (m.origins.follow s).ofField n f
      = if m.schema.definesField n f then m.origins.ofField n f else some .empty := by
  obtain ⟨d, hd, hdf⟩ := Schema.definesField_iff.mp hf
  rw [Origins.ofField, ha.follow_get? hg hs hd]
  show (((m.origins.get? n).getD .none).follow d).fields.get? f = _
  rw [TypeOrigins.follow_get? (ha.fields_prefix hg hd), if_pos (TypeDefinition.hasField_iff.mp hdf)]
  cases ho : m.origins.get? n with
  | none =>
    -- the whole type is new
    have hnot : ¬ m.schema.definesField n f := by
      intro h
      have hn := Schema.types_contains_of_definesField h
      rw [← ha.types] at hn
      exact Table.get?_eq_none_iff.mp ho hn
    rw [if_neg hnot]
    rfl
  | some o =>
    have hfields := ha.definesField_iff ho (f := f)
    rw [Option.getD_some]
    split
    · next h =>
      obtain ⟨x, hx⟩ := Table.exists_get?_of_mem_keys (hfields.mp h)
      rw [Origins.ofField, ho, Option.bind_some, hx]
      rfl
    · next h =>
      rw [Table.get?_eq_none_iff.mpr fun hk => h (hfields.mpr hk)]
      rfl

end Merged

/-! ## Compositions -/

theorem Schema.GrowsTo.definesField {s s' : Schema} (h : s.GrowsTo s') {n f : Name}
    (hf : s.definesField n f) : s'.definesField n f := by
  obtain ⟨d, hd, hdf⟩ := Schema.definesField_iff.mp hf
  obtain ⟨d', hd', hg⟩ := h.types n d hd
  refine Schema.definesField_iff.mpr ⟨d', hd', ?_⟩
  rw [TypeDefinition.hasField_iff] at hdf ⊢
  exact hg.body.fieldNames.subset hdf

/-- Extending a merged schema keeps it aligned with its origins, and gives no origin to what is
new. -/
theorem extendMerged_origins {m m' : Merged} {texts : List String} (ha : m.Aligned)
    (hk : m.schema.TypesKeyed) (h : Plan.extendMerged m texts = .ok m') :
    m'.Aligned ∧ m.schema.GrowsTo m'.schema ∧
      (∀ n ∈ m'.schema.types.keys, m'.origins.ofType n
        = if n ∈ m.schema.types.keys then m.origins.ofType n else some .empty) ∧
      ∀ n f, m'.schema.definesField n f → m'.origins.ofField n f
        = if m.schema.definesField n f then m.origins.ofField n f else some .empty := by
  rcases Plan.extendMerged_eq_ok h with rfl | ⟨ds, hds, ho⟩
  · exact ⟨ha, Schema.GrowsTo.refl _, fun n hn => by rw [if_pos hn],
      fun n f hf => by rw [if_pos hf]⟩
  · have hg := Schema.extendBy_growsTo hds
    have hs := Schema.extendBy_typesKeyed hk hds
    have hm' : m' = ⟨m'.schema, m.origins.follow m'.schema⟩ := by rw [← ho]
    rw [hm']
    exact ⟨ha.follow hg hs, hg, fun n hn => ha.follow_ofType hg hs hn,
      fun n f hf => ha.follow_ofField hg hs hf⟩

/-- After a composition the origins and the schema list the same types and fields in the same
order. What came out of the merge comes from the schemas that define it, in the order of their
registration; what an extension of the merged schema adds comes from no schema; and under the
built-in handlers nothing else does. -/
theorem compose_origins {p : Plan} {files : Files} {m : Merged} (h : p.compose files = .ok m) :
    m.Aligned ∧ ∃ c : Composition p files m,
      c.rewritten.map Schema.name = p.schemas.map Prod.fst ∧
      (∀ n ∈ c.merged.schema.types.keys,
        n ∈ m.schema.types.keys ∧ m.origins.ofType n = some (definers c.rewritten n)) ∧
      (∀ n f, c.merged.schema.definesField n f →
        m.schema.definesField n f ∧ m.origins.ofField n f = some (fieldDefiners c.rewritten n f)) ∧
      (∀ n ∈ m.schema.types.keys, n ∉ c.merged.schema.types.keys →
        m.origins.ofType n = some .empty) ∧
      (∀ n f, m.schema.definesField n f → ¬ c.merged.schema.definesField n f →
        m.origins.ofField n f = some .empty) ∧
      (p.registry = .builtIn →
        (∀ n ∈ c.merged.schema.types.keys, m.origins.ofType n ≠ some .empty) ∧
        ∀ n f, c.merged.schema.definesField n f → m.origins.ofField n f ≠ some .empty) := by
  obtain ⟨c⟩ := Plan.compose_eq_ok_iff.mp h
  have hk : ∀ s ∈ c.rewritten, s.TypesKeyed := fun s hs => (c.rewritten_keyed s hs).types
  obtain ⟨-, hmerged⟩ := (mergeSchemas_eq_ok_iff hk).mp c.merging
  -- the merge is aligned with its origins, and the last extension keeps it so
  have hcompletion := c.completion
  rw [hmerged] at hcompletion
  obtain ⟨haligned, hgrows, htype, hfield⟩ :=
    extendMerged_origins mergeOutput_aligned (mergeOutput_typesKeyed hk) hcompletion
  rw [← hmerged] at hgrows htype hfield
  have hofType (n : Name) (hn : n ∈ c.merged.schema.types.keys) :
      n ∈ m.schema.types.keys ∧ m.origins.ofType n = some (definers c.rewritten n) := by
    have hn' := hgrows.keys.subset hn
    refine ⟨hn', ?_⟩
    rw [htype n hn', if_pos hn]
    rw [hmerged] at hn ⊢
    exact mergeOutput_ofType hn
  have hofField (n f : Name) (hf : c.merged.schema.definesField n f) :
      m.schema.definesField n f ∧
        m.origins.ofField n f = some (fieldDefiners c.rewritten n f) := by
    have hf' := hgrows.definesField hf
    refine ⟨hf', ?_⟩
    rw [hfield n f hf', if_pos hf]
    rw [hmerged] at hf ⊢
    exact mergeOutput_ofField hf
  refine ⟨haligned, c, c.rewritten_names, hofType, hofField, ?_, ?_, ?_⟩
  · intro n hn hnew
    rw [htype n hn, if_neg hnew]
  · intro n f hf hnew
    rw [hfield n f hf, if_neg hnew]
  · intro hbuiltIn
    refine ⟨fun n hn hempty => ?_, fun n f hf hempty => ?_⟩
    · rw [(hofType n hn).2] at hempty
      exact definers_ne_empty hk c.merging hn (Option.some.inj hempty)
    · rw [(hofField n f hf).2] at hempty
      rw [hmerged, hbuiltIn] at hf
      exact fieldDefiners_ne_empty hf (Option.some.inj hempty)

/-- Two schemas that share a type and a field of it, and an extension of the merged schema that
gives the type another field. -/
def extendedQuery : Plan :=
  let schemas := (Plan.empty.addSchema "a" (.text "type Query{left:Int both:Int}")).addSchema "b"
    (.text "type Query{right:Int both:Int}")
  schemas.addExtension none (.text "extend type Query{more:Int}")

/-- What both schemas have comes from both, in the order of their registration; what one of them has
comes from that one, and what the extension adds from none. -/
theorem compose_origins_extendedQuery :
    let query := RootOperation.query.canonicalName
    let left : Name := ⟨"left", by decide⟩
    let both : Name := ⟨"both", by decide⟩
    let right : Name := ⟨"right", by decide⟩
    let more : Name := ⟨"more", by decide⟩
    ∃ m, extendedQuery.compose .none = .ok m ∧ m.Aligned ∧
      m.origins.ofType query = some (.ofList ["a", "b"]) ∧
      m.origins.ofField query left = some (.ofList ["a"]) ∧
      m.origins.ofField query both = some (.ofList ["a", "b"]) ∧
      m.origins.ofField query right = some (.ofList ["b"]) ∧
      m.origins.ofField query more = some .empty ∧
      ∃ c : Composition extendedQuery .none m, c.rewritten.map Schema.name = ["a", "b"] ∧
        definers c.rewritten query = .ofList ["a", "b"] ∧
        (∀ f ∈ [left, both, right], c.merged.schema.definesField query f ∧
          m.origins.ofField query f = some (fieldDefiners c.rewritten query f)) ∧
        ¬ c.merged.schema.definesField query more := by
  intro query left both right more
  have hrun : (extendedQuery.compose .none).toOption.any (fun m =>
      query ∈ m.schema.types.keys ∧ m.origins.ofType query = some (.ofList ["a", "b"]) ∧
      m.origins.ofField query left = some (.ofList ["a"]) ∧
      m.origins.ofField query both = some (.ofList ["a", "b"]) ∧
      m.origins.ofField query right = some (.ofList ["b"]) ∧
      m.origins.ofField query more = some .empty ∧
      ∀ f ∈ [left, both, right],
        m.schema.definesField query f ∧ m.origins.ofField query f ≠ some .empty) := by
    decide +kernel
  cases h : extendedQuery.compose .none with
  | error e =>
    rw [h] at hrun
    cases hrun
  | ok m =>
    rw [h] at hrun
    obtain ⟨hmem, hquery, hleft, hboth, hright, hmore, hfields⟩ := of_decide_eq_true hrun
    obtain ⟨haligned, c, hnames, htype, hfield, hnewType, hnewField, hbuiltIn⟩ := compose_origins h
    -- what was not in the merge has no origins, so what has origins was in it
    have hmerged : query ∈ c.merged.schema.types.keys := by
      by_contra hnew
      rw [hnewType query hmem hnew] at hquery
      exact absurd hquery (by decide)
    have hmergedField (f : Name) (hf : f ∈ [left, both, right]) :
        c.merged.schema.definesField query f := by
      by_contra hnew
      exact (hfields f hf).2 (hnewField query f (hfields f hf).1 hnew)
    have hnotMerged : ¬ c.merged.schema.definesField query more :=
      fun hdef => (hbuiltIn rfl).2 query more hdef hmore
    have hdefiners : definers c.rewritten query = .ofList ["a", "b"] := by
      rw [(htype query hmerged).2] at hquery
      exact Option.some.inj hquery
    exact ⟨m, rfl, haligned, hquery, hleft, hboth, hright, hmore, c, hnames.trans (by decide),
      hdefiners, fun f hf => ⟨hmergedField f hf, (hfield query f (hmergedField f hf)).2⟩,
      hnotMerged⟩

end SchemaWeave
