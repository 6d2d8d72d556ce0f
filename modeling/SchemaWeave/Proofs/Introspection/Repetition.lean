import SchemaWeave.Proofs.Keyed.Acquisition

/-!
# Elements that are listed more than once

A listing that lists a type, a field, an argument, an enum value or an input field more than once
is not converted. Nothing checks the other elements: of two directives with one name the later
counts, and an interface or a possible type that is listed again adds nothing. So what a listing
is converted to shows every element of it exactly when none of these is listed more than once.
-/

namespace SchemaWeave

namespace Introspection

/-! ## What is listed -/

/-- The name that ends a reference in one layer. -/
def ListedReference.name : ListedReference → Option String
  | layer _ n _ => n

/-- Whether the parts of a type are each listed once. Which parts a type has, its kind decides. -/
def ListedType.PartsOnce (t : ListedType) : Prop :=
  match t.kind with
  | .object | .interface =>
    ((t.fields.getD []).map ListedField.name).Nodup ∧
      ∀ f ∈ t.fields.getD [], (f.arguments.map ListedInputValue.name).Nodup
  | .enum => ((t.enumValues.getD []).map ListedEnumValue.name).Nodup
  | .inputObject => ((t.inputFields.getD []).map ListedInputValue.name).Nodup
  | _ => True

/-- The interfaces of a type, or the members of a union. -/
def ListedType.references (t : ListedType) : List ListedReference :=
  match t.kind with
  | .object | .interface => t.interfaces.getD []
  | .union => t.possibleTypes.getD []
  | _ => []

namespace Listing

/-- The types of a listing that belong to the schema. -/
def ownTypes (l : Listing) : List ListedType := l.types.filter fun t => !isPredefined t

/-- The directives of a listing that belong to the schema. -/
def ownDirectives (l : Listing) : List ListedDirective :=
  l.directives.filter fun d => !isBuiltInDirective d.name

/-- Whether what the conversion checks is listed once. -/
structure CheckedOnce (l : Listing) : Prop where
  types : (l.ownTypes.map ListedType.name).Nodup
  parts : ∀ t ∈ l.ownTypes, t.PartsOnce
  arguments : ∀ d ∈ l.ownDirectives, (d.arguments.map ListedInputValue.name).Nodup

/-- Whether what the conversion collects without a check is listed once. -/
structure CollectedOnce (l : Listing) : Prop where
  directives : (l.ownDirectives.map ListedDirective.name).Nodup
  references : ∀ t ∈ l.ownTypes, (t.references.map ListedReference.name).Nodup

instance (l : Listing) : Decidable l.CollectedOnce :=
  decidable_of_iff ((l.ownDirectives.map ListedDirective.name).Nodup ∧
      ∀ t ∈ l.ownTypes, (t.references.map ListedReference.name).Nodup)
    ⟨fun h => ⟨h.1, h.2⟩, fun h => ⟨h.directives, h.references⟩⟩

end Listing

/-! ## What is shown -/

/-- Whether a set has the names of a list of references, each once and in its order. -/
def ShowsNames (rs : List ListedReference) (s : Distinct Name) : Prop :=
  rs.map ListedReference.name = s.toList.map fun n => some n.text

/-- Whether a table has the input values of a list, each once and in its order. -/
def ShowsInputValues (owner : String) (vs : List ListedInputValue) (t : Table Name InputValue) :
    Prop :=
  List.Forall₂ (fun v a => convertInputValue owner v = .ok a) vs t.values

/-- Whether a table has the fields of a list, each once and in its order, with its arguments. -/
def ShowsFields (type : String) (fs : List ListedField) (t : Table Name Field) : Prop :=
  List.Forall₂ (fun f g => convertField type f = .ok g ∧
    ShowsInputValues (type ++ "." ++ f.name) f.arguments g.arguments) fs t.values

/-- Whether the body of a type has what is listed of it. -/
def ShowsBody (t : ListedType) : TypeBody → Prop
  | .scalar => True
  | .object is fs =>
    ShowsNames (t.interfaces.getD []) is ∧ ShowsFields t.name (t.fields.getD []) fs
  | .interface is fs =>
    ShowsNames (t.interfaces.getD []) is ∧ ShowsFields t.name (t.fields.getD []) fs
  | .union ms => ShowsNames (t.possibleTypes.getD []) ms
  | .enum ws =>
    List.Forall₂ (fun v w => convertEnumValue v = .ok w) (t.enumValues.getD []) ws.values
  | .inputObject fs => ShowsInputValues t.name (t.inputFields.getD []) fs

/-- Whether a schema has every type and every directive of a listing, each once and in its order,
with all that is listed of it. -/
structure Listing.ShownBy (l : Listing) (s : Schema) : Prop where
  types : List.Forall₂ (fun t d => convertType t = .ok d ∧ ShowsBody t d.body) l.ownTypes
    s.types.values
  directives : List.Forall₂ (fun e d => convertDirective e = .ok d ∧
    ShowsInputValues e.name e.arguments d.arguments) l.ownDirectives s.directiveDefinitions.values

/-! ## Names -/

theorem convertName_eq_ok {text : String} {n : Name} (h : convertName text = .ok n) :
    n.text = text := by
  unfold convertName at h
  split at h
  · next hn =>
    cases h
    exact Name.ofText?_eq_some hn
  · cases h

theorem convertInputValue_name {owner : String} {v : ListedInputValue} {a : InputValue}
    (h : convertInputValue owner v = .ok a) : a.name.text = v.name := by
  obtain ⟨_, _, h⟩ := bind_eq_ok_iff.mp h
  obtain ⟨_, _, h⟩ := bind_eq_ok_iff.mp h
  obtain ⟨n, hn, h⟩ := bind_eq_ok_iff.mp h
  cases h
  exact convertName_eq_ok hn

theorem convertField_name {type : String} {f : ListedField} {g : Field}
    (h : convertField type f = .ok g) : g.name.text = f.name := by
  obtain ⟨n, hn, h⟩ := bind_eq_ok_iff.mp h
  obtain ⟨_, _, h⟩ := bind_eq_ok_iff.mp h
  obtain ⟨_, _, h⟩ := bind_eq_ok_iff.mp h
  cases h
  exact convertName_eq_ok hn

theorem convertEnumValue_name {v : ListedEnumValue} {w : EnumValue}
    (h : convertEnumValue v = .ok w) : w.name.text = v.name := by
  obtain ⟨n, hn, h⟩ := bind_eq_ok_iff.mp h
  cases h
  exact convertName_eq_ok hn

theorem convertType_name {t : ListedType} {d : TypeDefinition} (h : convertType t = .ok d) :
    d.name.text = t.name := by
  obtain ⟨n, hn, h⟩ := bind_eq_ok_iff.mp h
  obtain ⟨_, _, h⟩ := bind_eq_ok_iff.mp h
  cases h
  exact convertName_eq_ok hn

theorem convertDirective_name {e : ListedDirective} {d : DirectiveDefinition}
    (h : convertDirective e = .ok d) : d.name.text = e.name := by
  obtain ⟨n, hn, h⟩ := bind_eq_ok_iff.mp h
  obtain ⟨_, _, h⟩ := bind_eq_ok_iff.mp h
  obtain ⟨_, _, h⟩ := bind_eq_ok_iff.mp h
  cases h
  exact convertName_eq_ok hn

/-! ## Tables and sets -/

section Tables

variable {α β : Type} {name : β → Name} {repeated : α → Malformation} {convert : α → Conversion β}
  {raw : α → String}

/-- A table that has the elements of a list, one for each, shows that none is listed twice. -/
theorem nodup_of_forall₂ {t : Table Name β} {as : List α} (ht : t.Keyed name)
    (h : List.Forall₂ (fun a b => convert a = .ok b) as t.values)
    (hraw : ∀ a b, convert a = .ok b → (name b).text = raw a) : (as.map raw).Nodup := by
  have hnames : as.map raw = t.keys.map Name.text := by
    rw [← map_eq_map_of_forall₂ h hraw, ← ht.map_name_values, List.map_map]
    rfl
  rw [hnames]
  exact t.keys_nodup.map fun _ _ => Name.ext

/-- What is added to a table stands after what was there. -/
theorem exists_values_convertTable {t t' : Table Name β} {as : List α}
    (h : convertTable name repeated convert t as = .ok t') :
    ∃ bs, t'.values = t.values ++ bs ∧ List.Forall₂ (fun a b => convert a = .ok b) as bs := by
  induction as generalizing t with
  | nil =>
    cases h
    exact ⟨[], (List.append_nil _).symm, .nil⟩
  | cons a as ih =>
    obtain ⟨b, hb, h⟩ := bind_eq_ok_iff.mp h
    split at h
    · cases h
    · next hnew =>
      rw [Table.contains_iff] at hnew
      obtain ⟨bs, hbs, has⟩ := ih h
      refine ⟨b :: bs, ?_, .cons hb has⟩
      rw [hbs, Table.values, Table.entries_insert_of_not_mem b hnew, List.map_append,
        List.append_assoc]
      rfl

/-- A converted table has the elements of its list, one for each, and none is listed twice. -/
theorem convertTable_eq_ok {t : Table Name β} {as : List α}
    (h : convertTable name repeated convert .empty as = .ok t)
    (hraw : ∀ a b, convert a = .ok b → (name b).text = raw a) :
    List.Forall₂ (fun a b => convert a = .ok b) as t.values ∧ (as.map raw).Nodup := by
  obtain ⟨bs, hbs, has⟩ := exists_values_convertTable h
  obtain rfl : t.values = bs := hbs
  exact ⟨has, nodup_of_forall₂ (convertTable_keyed h) has hraw⟩

/-- A table of a list of pairs has the elements, one for each, exactly when none is listed twice. -/
theorem forall₂_ofList_iff {as : List α} {bs : List β}
    (h : List.Forall₂ (fun a b => convert a = .ok b) as bs)
    (hraw : ∀ a b, convert a = .ok b → (name b).text = raw a) :
    List.Forall₂ (fun a b => convert a = .ok b) as
        (Table.ofList (bs.map fun b => (name b, b))).values ↔ (as.map raw).Nodup := by
  constructor
  · intro has
    refine nodup_of_forall₂ (Table.Keyed.ofList fun e he => ?_) has hraw
    obtain ⟨b, -, rfl⟩ := List.mem_map.mp he
    rfl
  · intro hnodup
    rw [← map_eq_map_of_forall₂ h hraw] at hnodup
    have hkeys : ((bs.map fun b => (name b, b)).map Prod.fst).Nodup := by
      rw [List.map_map]
      exact List.Nodup.of_map Name.text (by rwa [List.map_map])
    rw [Table.values, Table.entries_ofList_of_nodup hkeys, List.map_map]
    simpa [Function.comp_def] using h

end Tables

theorem convertNamed_eq_ok {r : ListedReference} {n : Name} (h : convertNamed r = .ok n) :
    some n.text = r.name := by
  obtain ⟨kind, name, inner⟩ := r
  cases name with
  | none => cases h
  | some text => exact congrArg some (convertName_eq_ok h)

/-- A set of names shows its list exactly when no name is listed twice. -/
theorem showsNames_iff {rs : List ListedReference} {s : Distinct Name}
    (h : convertNames rs = .ok s) : ShowsNames rs s ↔ (rs.map ListedReference.name).Nodup := by
  obtain ⟨ns, hns, h⟩ := bind_eq_ok_iff.mp h
  cases h
  have hnames := map_eq_map_of_forall₂ (forall₂_of_mapM_eq_ok hns) fun _ _ => convertNamed_eq_ok
  have hinj : Function.Injective fun n : Name => some n.text := fun m n hmn =>
    Name.ext (Option.some.inj hmn)
  rw [ShowsNames, ← hnames, (List.map_injective_iff.mpr hinj).eq_iff, List.nodup_map_iff hinj]
  constructor
  · intro heq
    rw [heq]
    exact (Distinct.ofList ns).nodup
  · exact fun hnodup => (Distinct.toList_ofList_of_nodup hnodup).symm

/-! ## Types -/

theorem convertInputValues_eq_ok {owner : String} {vs : List ListedInputValue}
    {t : Table Name InputValue} (h : convertInputValues owner vs = .ok t) :
    ShowsInputValues owner vs t ∧ (vs.map ListedInputValue.name).Nodup :=
  convertTable_eq_ok h fun _ _ => convertInputValue_name

theorem convertField_eq_ok {type : String} {f : ListedField} {g : Field}
    (h : convertField type f = .ok g) :
    ShowsInputValues (type ++ "." ++ f.name) f.arguments g.arguments ∧
      (f.arguments.map ListedInputValue.name).Nodup := by
  obtain ⟨_, _, h⟩ := bind_eq_ok_iff.mp h
  obtain ⟨args, hargs, h⟩ := bind_eq_ok_iff.mp h
  obtain ⟨_, _, h⟩ := bind_eq_ok_iff.mp h
  cases h
  exact convertInputValues_eq_ok hargs

theorem convertFields_eq_ok {type : String} {fs : List ListedField} {t : Table Name Field}
    (h : convertFields type fs = .ok t) :
    ShowsFields type fs t ∧ (fs.map ListedField.name).Nodup ∧
      ∀ f ∈ fs, (f.arguments.map ListedInputValue.name).Nodup := by
  obtain ⟨hshown, hnodup⟩ := convertTable_eq_ok h fun _ _ => convertField_name
  refine ⟨hshown.imp fun f g hg => ⟨hg, (convertField_eq_ok hg).1⟩, hnodup, ?_⟩
  exact forall_of_forall₂ hshown.flip (fun _ _ => trivial) fun g f hg _ => (convertField_eq_ok hg).2

/-- The body of a type shows what is listed of it exactly when its interfaces or members are each
listed once. Its other parts are listed once anyway. -/
theorem convertBody_eq_ok {t : ListedType} {b : TypeBody} (h : convertBody t = .ok b) :
    t.PartsOnce ∧ (ShowsBody t b ↔ (t.references.map ListedReference.name).Nodup) := by
  unfold convertBody at h
  unfold ListedType.PartsOnce ListedType.references
  split at h
  · next hkind =>
    cases h
    simp [hkind, ShowsBody]
  · next hkind =>
    obtain ⟨is, his, h⟩ := bind_eq_ok_iff.mp h
    obtain ⟨fs, hfs, h⟩ := bind_eq_ok_iff.mp h
    cases h
    obtain ⟨hshown, honce⟩ := convertFields_eq_ok hfs
    simp only [hkind]
    exact ⟨honce, (and_iff_left hshown).trans (showsNames_iff his)⟩
  · next hkind =>
    obtain ⟨is, his, h⟩ := bind_eq_ok_iff.mp h
    obtain ⟨fs, hfs, h⟩ := bind_eq_ok_iff.mp h
    cases h
    obtain ⟨hshown, honce⟩ := convertFields_eq_ok hfs
    simp only [hkind]
    exact ⟨honce, (and_iff_left hshown).trans (showsNames_iff his)⟩
  · next hkind =>
    obtain ⟨ms, hms, h⟩ := bind_eq_ok_iff.mp h
    cases h
    simp only [hkind]
    exact ⟨trivial, showsNames_iff hms⟩
  · next hkind =>
    obtain ⟨vs, hvs, h⟩ := bind_eq_ok_iff.mp h
    cases h
    obtain ⟨hshown, honce⟩ := convertTable_eq_ok hvs fun _ _ => convertEnumValue_name
    simp only [hkind]
    exact ⟨honce, iff_of_true hshown List.nodup_nil⟩
  · next hkind =>
    obtain ⟨fs, hfs, h⟩ := bind_eq_ok_iff.mp h
    cases h
    obtain ⟨hshown, honce⟩ := convertInputValues_eq_ok hfs
    simp only [hkind]
    exact ⟨honce, iff_of_true hshown List.nodup_nil⟩
  · cases h
  · cases h

theorem convertType_eq_ok {t : ListedType} {d : TypeDefinition} (h : convertType t = .ok d) :
    t.PartsOnce ∧ (ShowsBody t d.body ↔ (t.references.map ListedReference.name).Nodup) := by
  obtain ⟨_, _, h⟩ := bind_eq_ok_iff.mp h
  obtain ⟨b, hb, h⟩ := bind_eq_ok_iff.mp h
  cases h
  exact convertBody_eq_ok hb

theorem convertDirective_eq_ok {e : ListedDirective} {d : DirectiveDefinition}
    (h : convertDirective e = .ok d) :
    ShowsInputValues e.name e.arguments d.arguments ∧
      (e.arguments.map ListedInputValue.name).Nodup := by
  obtain ⟨_, _, h⟩ := bind_eq_ok_iff.mp h
  obtain ⟨args, hargs, h⟩ := bind_eq_ok_iff.mp h
  obtain ⟨_, _, h⟩ := bind_eq_ok_iff.mp h
  cases h
  exact convertInputValues_eq_ok hargs

/-! ## Listings -/

/-- A listing that is converted lists no type, field, argument, enum value or input field more than
once. Everything that it lists is in the schema, once and as it is listed, exactly when it lists no
directive and no interface or possible type of a type more than once. -/
theorem convert_shownBy_iff {name : String} {l : Listing} {s : Schema}
    (h : convert name l = .ok s) : l.CheckedOnce ∧ (l.ShownBy s ↔ l.CollectedOnce) := by
  obtain ⟨_, _, h⟩ := bind_eq_ok_iff.mp h
  obtain ⟨_, _, h⟩ := bind_eq_ok_iff.mp h
  obtain ⟨_, _, h⟩ := bind_eq_ok_iff.mp h
  obtain ⟨types, htypes, h⟩ := bind_eq_ok_iff.mp h
  obtain ⟨directives, hdirectives, h⟩ := bind_eq_ok_iff.mp h
  cases h
  obtain ⟨htypes, hnames⟩ := convertTable_eq_ok htypes fun _ _ => convertType_name
  obtain ⟨ds, hds, h⟩ := bind_eq_ok_iff.mp hdirectives
  cases h
  have hds := forall₂_of_mapM_eq_ok hds
  have hbodies := forall₂_and_iff htypes fun t d htd => (convertType_eq_ok htd).2
  have hshown := forall₂_ofList_iff hds fun _ _ => convertDirective_name
  refine ⟨⟨hnames, ?_, ?_⟩, fun hl => ⟨hshown.mp ?_, hbodies.mp hl.types⟩,
    fun hl => ⟨hbodies.mpr hl.references, ?_⟩⟩
  · exact forall_of_forall₂ htypes.flip (fun _ _ => trivial) fun d t htd _ =>
      (convertType_eq_ok htd).1
  · exact forall_of_forall₂ hds.flip (fun _ _ => trivial) fun d e hed _ =>
      (convertDirective_eq_ok hed).2
  · exact hl.directives.imp fun _ _ h => h.1
  · exact (hshown.mpr hl.directives).imp fun e d hed => ⟨hed, (convertDirective_eq_ok hed).1⟩

/-- A listing of a ferry with interfaces, a vessel, and a union of crafts. -/
def fleetListing (interfaces crafts : List String) : Listing :=
  let reference (kind : Kind) (n : String) : ListedReference := .layer kind (some n) none
  let name : ListedField := ⟨"name", none, [], reference .scalar "String", false, none⟩
  ⟨none, none, none,
    [⟨.object, "Ferry", none, none, some [name], none,
        some (interfaces.map (reference .interface)), none, none⟩,
      ⟨.interface, "Vessel", none, none, some [name], none, none, none, none⟩,
      ⟨.union, "Craft", none, none, none, none, none, none,
        some (crafts.map (reference .object))⟩], []⟩

/-- The fleet is shown with every interface and every craft, unless one is listed twice. -/
theorem convert_shownBy_fleet :
    let once := fleetListing ["Vessel"] ["Ferry"]
    let twice := fleetListing ["Vessel", "Vessel"] ["Ferry", "Ferry"]
    ∃ s, convert "fleet" once = .ok s ∧ once.ShownBy s ∧
      convert "fleet" twice = .ok s ∧ twice.CheckedOnce ∧ ¬ twice.ShownBy s := by
  intro once twice
  have honce : convert "fleet" once = .ok _ := rfl
  have htwice : convert "fleet" twice = convert "fleet" once := rfl
  have hshown := convert_shownBy_iff honce
  have hchecked := convert_shownBy_iff (htwice.trans honce)
  exact ⟨_, honce, hshown.2.mpr (by decide), htwice.trans honce, hchecked.1,
    fun h => absurd (hchecked.2.mp h) (by decide)⟩

/-- A listing that lists one directive for two places. -/
def tollListing : Listing :=
  ⟨none, none, none, [],
    [⟨"cost", none, ["OBJECT"], [], false⟩, ⟨"cost", none, ["ENUM"], [], false⟩]⟩

/-- The directive is converted to the later one alone. -/
theorem not_collectedOnce_toll :
    let cost : Name := ⟨"cost", by decide⟩
    ¬ tollListing.CollectedOnce ∧ convert "fleet" tollListing
      = .ok { Schema.empty "fleet" with
          directiveDefinitions := .ofList [(cost, ⟨cost, none, .empty, false, [.enum]⟩)] } := by
  decide

end Introspection

end SchemaWeave
