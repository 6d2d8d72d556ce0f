import SchemaWeave.Proofs.Keyed.Extension
import SchemaWeave.Proofs.Results
import SchemaWeave.Source.Acquisition

/-!
# Acquired schemas are keyed

Whatever source a schema comes from, it is keyed and has the name of its registration. A
listing is converted element by element, and each entry goes under the name that it was
converted with.
-/

namespace SchemaWeave

namespace Introspection

/-! ## Tables -/

section ConvertTable

variable {α β : Type} {name : β → Name} {repeated : α → Malformation} {convert : α → Conversion β}

/-- What every new entry preserves, the conversion of a list preserves. -/
theorem convertTable_induct {P : Table Name β → Prop}
    (hstep : ∀ t a b, convert a = .ok b → P t → P (t.insert (name b) b))
    {t t' : Table Name β} {l : List α} (h : convertTable name repeated convert t l = .ok t')
    (ht : P t) : P t' := by
  induction l generalizing t with
  | nil =>
    cases h
    exact ht
  | cons a l ih =>
    obtain ⟨b, hb, h⟩ := bind_eq_ok_iff.mp h
    split at h
    · cases h
    · exact ih h (hstep t a b hb ht)

theorem convertTable_keyed {t : Table Name β} {l : List α}
    (h : convertTable name repeated convert .empty l = .ok t) : t.Keyed name :=
  convertTable_induct (P := Table.Keyed name) (fun _ _ _ _ ht => ht.insert rfl) h Table.Keyed.empty

theorem forall_values_convertTable {Q : β → Prop} {t : Table Name β} {l : List α}
    (h : convertTable name repeated convert .empty l = .ok t)
    (hQ : ∀ a b, convert a = .ok b → Q b) : ∀ b ∈ t.values, Q b :=
  convertTable_induct (P := fun t => ∀ b ∈ t.values, Q b)
    (fun _ a b hb ht => Table.forall_values_insert ht _ (hQ a b hb)) h
    fun _ hb => by cases hb

end ConvertTable

/-! ## Types and directives -/

theorem convertField_keyed {type : String} {l : ListedField} {f : Field}
    (h : convertField type l = .ok f) : f.Keyed := by
  obtain ⟨_, _, h⟩ := bind_eq_ok_iff.mp h
  obtain ⟨args, ha, h⟩ := bind_eq_ok_iff.mp h
  obtain ⟨_, _, h⟩ := bind_eq_ok_iff.mp h
  cases h
  exact convertTable_keyed ha

theorem convertFields_keyed {type : String} {l : List ListedField} {fields : Table Name Field}
    (h : convertFields type l = .ok fields) :
    fields.Keyed Field.name ∧ ∀ f ∈ fields.values, f.Keyed :=
  ⟨convertTable_keyed h, forall_values_convertTable h fun _ _ => convertField_keyed⟩

theorem convertBody_keyed {t : ListedType} {b : TypeBody} (h : convertBody t = .ok b) :
    b.Keyed := by
  unfold convertBody at h
  split at h
  · cases h
    trivial
  · obtain ⟨_, _, h⟩ := bind_eq_ok_iff.mp h
    obtain ⟨fields, hf, h⟩ := bind_eq_ok_iff.mp h
    cases h
    exact convertFields_keyed hf
  · obtain ⟨_, _, h⟩ := bind_eq_ok_iff.mp h
    obtain ⟨fields, hf, h⟩ := bind_eq_ok_iff.mp h
    cases h
    exact convertFields_keyed hf
  · obtain ⟨_, _, h⟩ := bind_eq_ok_iff.mp h
    cases h
    trivial
  · obtain ⟨values, hv, h⟩ := bind_eq_ok_iff.mp h
    cases h
    exact convertTable_keyed hv
  · obtain ⟨fields, hf, h⟩ := bind_eq_ok_iff.mp h
    cases h
    exact convertTable_keyed hf
  · cases h
  · cases h

theorem convertType_keyed {t : ListedType} {d : TypeDefinition} (h : convertType t = .ok d) :
    d.body.Keyed := by
  obtain ⟨_, _, h⟩ := bind_eq_ok_iff.mp h
  obtain ⟨b, hb, h⟩ := bind_eq_ok_iff.mp h
  cases h
  exact convertBody_keyed hb

theorem convertDirective_keyed {l : ListedDirective} {d : DirectiveDefinition}
    (h : convertDirective l = .ok d) : d.Keyed := by
  obtain ⟨_, _, h⟩ := bind_eq_ok_iff.mp h
  obtain ⟨args, ha, h⟩ := bind_eq_ok_iff.mp h
  obtain ⟨_, _, h⟩ := bind_eq_ok_iff.mp h
  cases h
  exact convertTable_keyed ha

theorem convertDirectives_keyed {l : List ListedDirective} {t : Table Name DirectiveDefinition}
    (h : convertDirectives l = .ok t) :
    t.Keyed DirectiveDefinition.name ∧ ∀ d ∈ t.values, d.Keyed := by
  obtain ⟨ds, hds, h⟩ := bind_eq_ok_iff.mp h
  cases h
  have hkeyed : ∀ d ∈ ds, d.Keyed := forall_of_mapM_eq_ok hds fun _ _ => convertDirective_keyed
  constructor
  · refine Table.Keyed.ofList fun e he => ?_
    obtain ⟨d, _, rfl⟩ := List.mem_map.mp he
    rfl
  · refine Table.forall_values_ofList fun e he => ?_
    obtain ⟨d, hd, rfl⟩ := List.mem_map.mp he
    exact hkeyed d hd

/-! ## Listings -/

theorem convert_keyed {name : String} {l : Listing} {s : Schema} (h : convert name l = .ok s) :
    s.Keyed ∧ s.name = name := by
  obtain ⟨_, _, h⟩ := bind_eq_ok_iff.mp h
  obtain ⟨_, _, h⟩ := bind_eq_ok_iff.mp h
  obtain ⟨_, _, h⟩ := bind_eq_ok_iff.mp h
  obtain ⟨types, ht, h⟩ := bind_eq_ok_iff.mp h
  obtain ⟨directives, hd, h⟩ := bind_eq_ok_iff.mp h
  cases h
  exact ⟨⟨convertTable_keyed ht, forall_values_convertTable ht fun _ _ => convertType_keyed,
    (convertDirectives_keyed hd).1, (convertDirectives_keyed hd).2⟩, rfl⟩

theorem ofText_keyed {name text : String} {s : Schema} (h : ofText name text = .ok s) :
    s.Keyed ∧ s.name = name := by
  unfold ofText ofResponse at h
  split at h
  · split at h
    · split at h
      · exact convert_keyed h
      · cases h
    · cases h
  · cases h

end Introspection

/-! ## Sources -/

theorem Schema.ofText_keyed {name sdl : String} {s : Schema} (h : Schema.ofText name sdl = .ok s) :
    s.Keyed ∧ s.name = name := by
  unfold Schema.ofText at h
  split at h
  · cases h
  · next d _ =>
    have hd := mapError_eq_ok_iff.mp h
    exact ⟨Schema.ofDocument_keyed hd, Schema.ofDocument_name hd⟩

theorem SchemaSource.acquire_keyed {files : Files} {name : String} {source : SchemaSource}
    {s : Schema} (h : source.acquire files name = .ok s) : s.Keyed ∧ s.name = name := by
  cases source with
  | text sdl => exact Schema.ofText_keyed h
  | file path =>
    obtain ⟨_, _, h⟩ := bind_eq_ok_iff.mp h
    exact Schema.ofText_keyed h
  | introspection transport =>
    obtain ⟨_, _, h⟩ := bind_eq_ok_iff.mp h
    exact Introspection.ofText_keyed (mapError_eq_ok_iff.mp h)

theorem acquireAll_names {files : Files} {sources : List (String × SchemaSource)}
    {ss : List Schema} (h : acquireAll files sources = .ok ss) :
    ss.map Schema.name = sources.map Prod.fst :=
  map_eq_map_of_forall₂ (forall₂_of_map_eq (collectResults_eq_ok_iff.mp h))
    fun _ _ hs => (SchemaSource.acquire_keyed hs).2

theorem acquireAll_keyed {files : Files} {sources : List (String × SchemaSource)}
    {ss : List Schema} (h : acquireAll files sources = .ok ss) : ∀ s ∈ ss, s.Keyed :=
  forall_of_forall₂ (P := fun _ => True) (forall₂_of_map_eq (collectResults_eq_ok_iff.mp h))
    (fun _ _ => trivial) fun _ _ hs _ => (SchemaSource.acquire_keyed hs).1

end SchemaWeave
