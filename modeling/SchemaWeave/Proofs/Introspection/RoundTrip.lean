import SchemaWeave.Proofs.Introspection.Answer
import SchemaWeave.Proofs.Parts
import SchemaWeave.Proofs.Results

/-!
# Schemas read back from introspection

A schema of which introspection tells everything is read back from its answer, in every part and
every order, exactly when the query follows all its references to the end. Otherwise the
conversion fails, so a reference that is cut off is never taken for another one.
-/

namespace SchemaWeave

open Introspection

namespace Introspection

/-! ## Small parts -/

theorem convertName_text (n : Name) : convertName n.text = .ok n := by
  rw [convertName, Name.ofText?_text]

theorem convertDescription_of_ne {d : Option String} (h : d ≠ some "") :
    convertDescription d = d := by
  cases d with
  | none => rfl
  | some s =>
    have hs : s ≠ "" := fun hs => h (congrArg some hs)
    simp [convertDescription, hs]

theorem deprecation_of {ds : List Directive} (h : Directive.IsDeprecation ds) :
    deprecation (Directive.isDeprecated ds) (Directive.deprecationReason ds) = ds := by
  rcases h with rfl | rfl | ⟨text, rfl⟩ <;> rfl

theorem convertLocation_text (l : DirectiveLocation) : convertLocation l.text = .ok l := by
  rw [convertLocation, DirectiveLocation.ofText?_text]

/-! ## References -/

theorem convertReference_cut_listedName (s : Schema) (m : Name) (n : Nat) :
    convertReference ((s.listedName m).cut n) = .ok (.named m) := by
  have hlayer (kind : Kind) (hlist : kind ≠ .list) (hnonNull : kind ≠ .nonNull) :
      convertReference (.layer kind (some m.text) none) = .ok (.named m) := by
    cases kind with
    | list => exact absurd rfl hlist
    | nonNull => exact absurd rfl hnonNull
    | _ =>
      rw [convertReference, convertName_text]
      · rfl
      all_goals simp
  have hcut : (s.listedName m).cut n = s.listedName m := by cases n <;> rfl
  rw [hcut]
  refine hlayer _ ?_ ?_ <;> rcases s.kind? m with _ | kind <;> try cases kind
  all_goals decide

/-- A reference is read back exactly when it has no more layers than are followed. -/
theorem convertReference_cut_listed (s : Schema) (t : TypeRef) (n : Nat) :
    GivesWhen (convertReference ((t.listed s).cut n)) (t.layers ≤ n) t := by
  induction t generalizing n with
  | named m =>
    rw [TypeRef.listed, convertReference_cut_listedName]
    exact (givesWhen_ok _).of_iff (by simp [TypeRef.layers])
  | nonNullNamed m =>
    cases n with
    | zero => exact givesWhen_error (by simp [TypeRef.layers]) _ _
    | succ n =>
      refine GivesWhen.of_ok (convertReference_cut_listedName s m n) ?_
      exact (givesWhen_ok _).of_iff (by simp [TypeRef.layers])
  | list t ih =>
    cases n with
    | zero => exact givesWhen_error (by simp [TypeRef.layers]) _ _
    | succ n =>
      refine .of_iff (.bind_ok (ih n) rfl) ?_
      rw [TypeRef.layers, Nat.succ_le_succ_iff]
  | nonNullList t ih =>
    match n with
    | 0 => exact givesWhen_error (by simp [TypeRef.layers]) _ _
    | 1 => exact givesWhen_error (by simp [TypeRef.layers]) _ _
    | n + 2 =>
      refine .of_iff (.bind_ok (.bind_ok (ih n) rfl) rfl) ?_
      rw [TypeRef.layers, Nat.add_le_add_iff_right]

theorem convertNames_cut_listedName (s : Schema) (ns : Distinct Name) (n : Nat) :
    convertNames ((ns.toList.map s.listedName).map (ListedReference.cut n)) = .ok ns := by
  have hname (m : Name) : convertNamed ((s.listedName m).cut n) = .ok m := by
    cases n <;> exact convertName_text m
  have hnames : ((ns.toList.map s.listedName).map (ListedReference.cut n)).mapM convertNamed
      = .ok ns.toList := by
    have hgives : ∀ m ∈ ns.toList,
        GivesWhen (convertNamed ((ListedReference.cut n ∘ s.listedName) m)) True m :=
      fun m _ => (congrArg (GivesWhen · True m) (hname m)).mpr (givesWhen_ok m)
    rw [List.map_map]
    exact (GivesWhen.mapM hgives _).mpr ⟨fun _ _ => trivial, rfl⟩
  rw [convertNames, hnames]
  exact congrArg Except.ok (Distinct.ofList_toList ns)

/-! ## Tables -/

/-- What is extra can be told from the rest when the rest has nothing of it. -/
theorem Extends.filter_not {α : Type} {extra : α → Bool} {l m : List α} (h : Extends extra l m)
    (hl : ∀ a ∈ l, extra a = false) : (m.filter fun a => !extra a) = l := by
  induction h with
  | nil => rfl
  | keep a _ ih =>
    obtain ⟨ha, hl⟩ := List.forall_mem_cons.mp hl
    rw [List.filter_cons_of_pos (by simp [ha]), ih hl]
  | add ha _ ih => rw [List.filter_cons_of_neg (by simp [ha]), ih hl]

/-- Elements that convert to what a keyed table holds convert to the table. -/
theorem convertTable_values {α β : Type} {name : β → Name} {repeated : α → Malformation}
    {convert : α → Conversion β} {node : β → α} {p : β → Prop} {t : Table Name β}
    (ht : t.Keyed name) (h : ∀ b ∈ t.values, GivesWhen (convert (node b)) (p b) b) :
    GivesWhen (convertTable name repeated convert .empty (t.values.map node))
      (∀ b ∈ t.values, p b) t := by
  rw [Table.values, List.map_map]
  simp only [List.forall_mem_map]
  refine Table.fill_induct (t := t) (P := fun t' es =>
    GivesWhen (convertTable name repeated convert t' (es.map (node ∘ Prod.snd)))
      (∀ e ∈ es, p e.2) t) ((givesWhen_ok t).of_iff (by simp)) ?_
  intro t' k b es he hk ih
  have hname : name b = k := ht (k, b) he
  rw [List.map_cons, convertTable]
  refine ((h b (Table.mem_values_of_mem he)).bind (q := ∀ e ∈ es, p e.2) ?_).of_iff ?_
  · rw [hname, Table.contains_eq_false_iff.mpr hk]
    exact ih
  · rw [List.forall_mem_cons]

/-! ## Elements -/

/-- Whether the query follows a reference to its end. -/
def Followed (t : TypeRef) : Prop := t.layers ≤ referenceDepth

section Elements

variable (s : Schema)

theorem convertInputValue_listed (owner : String) {v : InputValue} (hv : v.Introspectable) :
    GivesWhen (convertInputValue owner (v.listed s).cut) (Followed v.type) v := by
  have hdefault : convertDefault owner (v.listed s).cut = .ok v.default := by
    cases hd : v.default with
    | none => simp [convertDefault, ListedInputValue.cut, InputValue.listed, hd]
    | some d =>
      simp [convertDefault, ListedInputValue.cut, InputValue.listed, hd, hv.default d hd]
  refine .bind_ok (convertReference_cut_listed s v.type referenceDepth) ?_
  rw [hdefault]
  show (convertName v.name.text >>= _) = _
  rw [convertName_text]
  show Except.ok (InputValue.mk v.name (convertDescription v.description) v.type v.default []) = _
  rw [convertDescription_of_ne hv.description, ← hv.directives]

theorem convertInputValues_listed (owner : String) {vs : Table Name InputValue}
    (hkeys : vs.Keyed InputValue.name) (h : ∀ v ∈ vs.values, v.Introspectable) :
    GivesWhen (convertInputValues owner
        ((vs.values.map (InputValue.listed s)).map ListedInputValue.cut))
      (∀ v ∈ vs.values, Followed v.type) vs := by
  rw [List.map_map]
  exact convertTable_values hkeys fun v hv => convertInputValue_listed s owner (h v hv)

theorem convertField_listed (type : String) {f : Field} (hkeyed : f.Keyed)
    (hf : f.Introspectable) :
    GivesWhen (convertField type (f.listed s).cut)
      (Followed f.type ∧ ∀ a ∈ f.arguments.values, Followed a.type) f := by
  refine .of_iff (.of_ok (convertName_text f.name) (.bind
    (convertInputValues_listed s _ hkeyed hf.arguments)
    (.bind_ok (convertReference_cut_listed s f.type referenceDepth) ?_))) and_comm
  show Except.ok (Field.mk f.name (convertDescription f.description) f.arguments f.type
    (deprecation (Directive.isDeprecated f.directives)
      (Directive.deprecationReason f.directives))) = _
  rw [convertDescription_of_ne hf.description, deprecation_of hf.directives]

theorem convertFields_listed (type : String) {fields : Table Name Field}
    (hkeys : fields.Keyed Field.name) (hkeyed : ∀ f ∈ fields.values, f.Keyed)
    (h : ∀ f ∈ fields.values, f.Introspectable) :
    GivesWhen (convertFields type ((fields.values.map (Field.listed s)).map ListedField.cut))
      (∀ f ∈ fields.values, Followed f.type ∧ ∀ a ∈ f.arguments.values, Followed a.type)
      fields := by
  rw [List.map_map]
  exact convertTable_values hkeys fun f hf => convertField_listed s type (hkeyed f hf) (h f hf)

omit s in
theorem convertEnumValues_listed (type : String) {values : Table Name EnumValue}
    (hkeys : values.Keyed EnumValue.name) (h : ∀ v ∈ values.values, v.Introspectable) :
    convertEnumValues type (values.values.map EnumValue.listed) = .ok values := by
  refine (convertTable_values (p := fun _ => True) hkeys (fun v hv => ?_) _).mpr
    ⟨fun _ _ => trivial, rfl⟩
  refine .of_ok (convertName_text v.name) ?_
  show GivesWhen (Except.ok (EnumValue.mk v.name (convertDescription v.description)
    (deprecation (Directive.isDeprecated v.directives)
      (Directive.deprecationReason v.directives)))) True v
  rw [convertDescription_of_ne (h v hv).description, deprecation_of (h v hv).directives]
  exact givesWhen_ok v

/-! ## Types and directives -/

theorem convertBody_listed {d : TypeDefinition} (hkeyed : d.body.Keyed)
    (hd : d.body.Introspectable) :
    GivesWhen (convertBody (d.listed s).cut) (∀ r ∈ d.references, Followed r.type) d.body := by
  obtain ⟨n, description, directives, body⟩ := d
  cases body with
  | scalar => exact (givesWhen_ok _).of_iff (by simp [TypeDefinition.references])
  | object interfaces fields =>
    refine .of_iff (.of_ok (convertNames_cut_listedName s interfaces referenceDepth)
      (.bind_ok (convertFields_listed s n.text hkeyed.1 hkeyed.2 hd) rfl)) ?_
    exact (forall_fieldReferences (p := Followed)).symm
  | interface interfaces fields =>
    refine .of_iff (.of_ok (convertNames_cut_listedName s interfaces referenceDepth)
      (.bind_ok (convertFields_listed s n.text hkeyed.1 hkeyed.2 hd) rfl)) ?_
    exact (forall_fieldReferences (p := Followed)).symm
  | union members =>
    refine .of_ok (convertNames_cut_listedName s members referenceDepth) ?_
    exact (givesWhen_ok _).of_iff (by simp [TypeDefinition.references])
  | enum values =>
    refine .of_ok (convertEnumValues_listed n.text hkeyed hd) ?_
    exact (givesWhen_ok _).of_iff (by simp [TypeDefinition.references])
  | inputObject fields =>
    refine .of_iff (.bind_ok (convertInputValues_listed s n.text hkeyed hd) rfl) ?_
    simp [TypeDefinition.references]

theorem convertType_listed {d : TypeDefinition} (hkeyed : d.body.Keyed) (hd : d.Introspectable) :
    GivesWhen (convertType (d.listed s).cut) (∀ r ∈ d.references, Followed r.type) d := by
  refine .of_ok (convertName_text d.name) (.bind_ok (convertBody_listed s hkeyed hd.body) ?_)
  have hdirectives : (if Kind.ofTypeKind d.kind = .scalar
      then specification (Directive.specification d.directives) else []) = d.directives := by
    rcases hd.directives with hnone | ⟨hscalar, text, hurl⟩
    · rw [hnone]
      exact ite_self []
    · rw [hscalar, hurl]
      rfl
  show Except.ok (TypeDefinition.mk d.name (convertDescription d.description) _ d.body) = _
  rw [convertDescription_of_ne hd.description]
  exact congrArg (fun ds => Except.ok (TypeDefinition.mk d.name d.description ds d.body)) hdirectives

theorem convertDirective_listed {d : DirectiveDefinition} (hkeyed : d.Keyed)
    (hd : d.Introspectable) :
    GivesWhen (convertDirective (d.listed s).cut) (∀ r ∈ d.references, Followed r.type) d := by
  have hlocations : (d.locations.map DirectiveLocation.text).mapM convertLocation
      = .ok d.locations := by
    refine (GivesWhen.mapM (p := fun _ => True) (fun l _ => ?_) _).mpr ⟨fun _ _ => trivial, rfl⟩
    rw [convertLocation_text]
    exact givesWhen_ok l
  refine .of_iff (.of_ok (convertName_text d.name)
    (.bind_ok (convertInputValues_listed s d.name.text hkeyed hd.arguments) ?_)) ?_
  · show ((d.locations.map DirectiveLocation.text).mapM convertLocation >>= _) = _
    rw [hlocations]
    show Except.ok (DirectiveDefinition.mk d.name (convertDescription d.description) d.arguments
      d.repeatable d.locations) = _
    rw [convertDescription_of_ne hd.description]
  · simp [DirectiveDefinition.references]

theorem convertDirectives_listed {ds : Table Name DirectiveDefinition}
    (hkeys : ds.Keyed DirectiveDefinition.name) (hkeyed : ∀ d ∈ ds.values, d.Keyed)
    (h : ∀ d ∈ ds.values, d.Introspectable) {ls : List ListedDirective}
    (hls : Extends (fun d => isBuiltInDirective d.name)
      (ds.values.map (DirectiveDefinition.listed s)) ls) :
    GivesWhen (convertDirectives (ls.map ListedDirective.cut))
      (∀ d ∈ ds.values, ∀ r ∈ d.references, Followed r.type) ds := by
  have hown : (ls.map ListedDirective.cut).filter (fun d => !isBuiltInDirective d.name) =
      (ds.values.map (DirectiveDefinition.listed s)).map ListedDirective.cut := by
    have hnone : ∀ l ∈ ds.values.map (DirectiveDefinition.listed s),
        isBuiltInDirective l.name = false :=
      List.forall_mem_map.mpr fun d hd => (h d hd).notBuiltIn
    rw [List.filter_map, ← hls.filter_not hnone]
    rfl
  rw [convertDirectives, hown, List.map_map]
  refine .bind_ok (.mapM fun d hd => convertDirective_listed s (hkeyed d hd) (h d hd)) ?_
  exact congrArg Except.ok hkeys.ofList_values

theorem convertTypes_listed {repeated : ListedType → Malformation} {ds : Table Name TypeDefinition}
    (hkeys : ds.Keyed TypeDefinition.name) (hkeyed : ∀ d ∈ ds.values, d.body.Keyed)
    (h : ∀ d ∈ ds.values, d.Introspectable) {ls : List ListedType}
    (hls : Extends isPredefined (ds.values.map (TypeDefinition.listed s)) ls) :
    GivesWhen (convertTable TypeDefinition.name repeated convertType .empty
        ((ls.map ListedType.cut).filter fun t => !isPredefined t))
      (∀ d ∈ ds.values, ∀ r ∈ d.references, Followed r.type) ds := by
  have hown : (ls.map ListedType.cut).filter (fun t => !isPredefined t) =
      (ds.values.map (TypeDefinition.listed s)).map ListedType.cut := by
    have hnone : ∀ t ∈ ds.values.map (TypeDefinition.listed s), isPredefined t = false := by
      refine List.forall_mem_map.mpr fun d hd => ?_
      have hreserved := (h d hd).notReserved
      rw [← List.isPrefixOf_iff_prefix, Bool.not_eq_true] at hreserved
      exact Bool.or_eq_false_iff.mpr ⟨hreserved, (h d hd).notBuiltIn⟩
    rw [List.filter_map, ← hls.filter_not hnone]
    rfl
  rw [hown, List.map_map]
  exact convertTable_values hkeys fun d hd => convertType_listed s (hkeyed d hd) (h d hd)

end Elements

/-! ## Schemas -/

theorem mapM_convertName_text (n : Option Name) :
    (n.map Name.text).mapM convertName = .ok n := by
  cases n with
  | none => rfl
  | some n =>
    show (some <$> convertName n.text) = _
    rw [convertName_text]
    rfl

/-- The cut listing of a schema converts to the schema, when all references are followed. -/
theorem convert_cut {s : Schema} (hkeyed : s.Keyed) (hs : s.Introspectable) {l : Listing}
    (hl : l.Lists s) :
    GivesWhen (convert s.name l.cut) (∀ r ∈ s.references, Followed r.type) s := by
  obtain ⟨hquery, hmutation, hsubscription, htypes, hdirectives⟩ := hl
  have hroot : ∀ {t : Option String} {n : Option Name}, t = n.map Name.text →
      t.mapM convertName = .ok n := fun h => h ▸ mapM_convertName_text _
  refine .of_iff (.of_ok (hroot hquery) (.of_ok (hroot hmutation) (.of_ok (hroot hsubscription)
    (.bind (convertTypes_listed s hkeyed.types hkeyed.bodies hs.types htypes)
      (.bind_ok (convertDirectives_listed s hkeyed.directives hkeyed.arguments
        hs.directiveDefinitions hdirectives) ?_))))) ?_
  · show Except.ok (Schema.mk s.name none [] s.roots s.types s.directiveDefinitions) = _
    rw [← hs.description, ← hs.directives]
  · rw [Schema.references, List.forall_mem_append, List.forall_mem_flatMap,
      List.forall_mem_flatMap]

end Introspection

/-- The answer for a schema of which introspection tells everything has a text. From each of its
texts the schema is read back, exactly when no reference has more layers than the query follows;
otherwise nothing is read. -/
theorem Schema.ofText_answer {s : Schema} (hkeyed : s.Keyed) (hs : s.Introspectable)
    {l : Listing} (hl : l.Lists s) :
    (∃ text, Json.ofText? text = some l.answer) ∧
      ∀ text, Json.ofText? text = some l.answer → ∀ s',
        (Introspection.ofText s.name text = .ok s' ↔
          (∀ r ∈ s.references, r.type.layers ≤ referenceDepth) ∧ s' = s) := by
  refine ⟨⟨l.text, l.ofText?_text⟩, fun text htext => ?_⟩
  rw [Introspection.ofText, Response.ofText?_of_answer htext]
  exact convert_cut hkeyed hs hl

/-- Tides with a place where they are specified, and a deprecated field whose type has as many
layers as are followed. -/
def tides : Schema :=
  let query := RootOperation.query.canonicalName
  let tide : Name := ⟨"Tide", by decide⟩
  let swell : Name := ⟨"swell", by decide⟩
  let near : Name := ⟨"near", by decide⟩
  let chart : Name := ⟨"chart", by decide⟩
  let nearBy : InputValue := ⟨near, none, .named tide, some (.int "1"), []⟩
  let moved : Directive := ⟨Directive.deprecated, [(Directive.reason, .string "moved")]⟩
  let specified : Directive := ⟨Directive.specifiedBy, [(Directive.url, .string "tide.example")]⟩
  let swells : Field := ⟨swell, some "How high", .ofList [(near, nearBy)],
    .nonNullList (.nonNullList (.nonNullList (.nonNullNamed tide))), [moved]⟩
  { Schema.empty "tides" with
    roots := ⟨some query, none, none⟩
    types := .ofList [
      (query, ⟨query, none, [], .object .empty (.ofList [(swell, swells)])⟩),
      (tide, ⟨tide, none, [specified], .scalar⟩)]
    directiveDefinitions := .ofList [(chart, ⟨chart, none, .empty, true, [.field]⟩)] }

/-- A listing of the tides with a built-in scalar between their types. -/
def tidesListing : Listing :=
  let int : ListedType := ⟨.scalar, "Int", none, none, none, none, none, none, none⟩
  { tides.listing with types := tides.listing.types.intersperse int }

theorem ofText_answer_tides :
    tides.Keyed ∧ tides.Introspectable ∧ tidesListing.Lists tides ∧
      Introspection.ofText "tides" tidesListing.text = .ok tides := by
  have hkeyed : tides.Keyed := by decide
  have hl : tidesListing.Lists tides :=
    ⟨rfl, rfl, rfl, .keep _ (.add (by decide) (.keep _ .nil)), .keep _ .nil⟩
  have hs : tides.Introspectable := by
    have hdefault : parseDefault "1" = some (.int "1") := by decide +kernel
    have harguments : ∀ d ∈ some (Value.int "1"), parseDefault (Sdl.valueText .oneLine d) = some d := by
      rintro _ ⟨⟩
      exact hdefault
    refine ⟨rfl, rfl, List.forall_mem_cons.mpr ⟨?_, List.forall_mem_singleton.mpr ?_⟩,
      List.forall_mem_singleton.mpr ?_⟩
    · refine ⟨by decide, by decide, by decide, .inl rfl, List.forall_mem_singleton.mpr ?_⟩
      exact ⟨by decide, .inr (.inr ⟨"moved", rfl⟩),
        List.forall_mem_singleton.mpr ⟨by decide, rfl, harguments⟩⟩
    · exact ⟨by decide, by decide, by decide, .inr ⟨rfl, "tide.example", rfl⟩, trivial⟩
    · exact ⟨by decide, by decide, fun _ ha => by cases ha⟩
  refine ⟨hkeyed, hs, hl, ?_⟩
  exact ((Schema.ofText_answer hkeyed hs hl).2 _ tidesListing.ofText?_text tides).mpr
    ⟨by decide, rfl⟩

end SchemaWeave
