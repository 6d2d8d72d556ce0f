import SchemaWeave.Proofs.Contracts
import SchemaWeave.Proofs.Document.UnderNames

/-!
# Contracts that a document keeps

The check finds the fields and arguments of an interface in an implementing type by their keys,
and a document shows them by their names. A schema that passes has a document that passes exactly
when names do not repeat and the contracts of its interfaces are kept by names as well. In a keyed
schema the one is the other.
-/

namespace SchemaWeave

/-- The output fields of a type, in their order. -/
def TypeBody.outputFields : TypeBody → List Field
  | .object _ fields => fields.values
  | .interface _ fields => fields.values
  | _ => []

namespace Schema

variable {s : Schema}

/-! ## Entry points -/

/-- What the check asks of a schema with other entry points. -/
theorem violations_withRoots_eq_nil_iff {r : RootOperations} :
    { s with roots := r }.violations = [] ↔
      (∀ x ∈ s.references, s.checkReference x = []) ∧
      (∀ d ∈ s.types.values, s.checkType d = []) ∧
      ∀ op n, r.get op = some n → s.kind? n = some .object := by
  have htype (d : TypeDefinition) : { s with roots := r }.checkType d = s.checkType d :=
    checkType_congr (by rfl) d
  rw [violations_eq_nil_iff]
  simp only [htype, checkRoot_eq_nil_iff, Prod.forall, RootOperations.mem_toList]
  rfl

/-- Entry points that are found by their names are object types, so the check accepts them. -/
theorem inferRoots_violations_eq_nil_iff : s.inferRoots.violations = [] ↔ s.violations = [] := by
  have hserves {op : RootOperation} (h : s.servesByName op = true) :
      s.kind? op.canonicalName = some .object := by
    obtain ⟨d, hd, hkind⟩ := (Option.any_eq_true _ _).mp h
    rw [kind?, hd]
    exact congrArg some (of_decide_eq_true hkind)
  refine violations_withRoots_eq_nil_iff.trans ?_
  refine Iff.trans ?_ (violations_withRoots_eq_nil_iff (s := s) (r := s.roots)).symm
  refine and_congr_right fun _ => and_congr_right fun _ => forall_congr' fun op => ?_
  show (∀ n, s.inferRoots.roots.get op = some n → _) ↔ _
  rw [inferRoots_get]
  cases hop : s.roots.get op with
  | some n => simp
  | none =>
    cases hs : s.servesByName op with
    | false => simp
    | true => simp [hserves hs]

/-! ## Contracts by names -/

/-- Whether a field is one that an interface asks for, as names tell: it has the name and a type
that fits, takes every argument of the interface field at its type, and requires no other. -/
structure Implements (s : Schema) (f wanted : Field) : Prop where
  name : f.name = wanted.name
  type : s.isSubtype f.type wanted.type = true
  arguments : ∀ b ∈ wanted.arguments.values, ∃ a ∈ f.arguments.values,
    a.name = b.name ∧ a.type = b.type
  required : ∀ a ∈ f.arguments.values, a.type.isNonNull = true → a.default.isNone = true →
    ∃ b ∈ wanted.arguments.values, b.name = a.name

instance (s : Schema) (f wanted : Field) : Decidable (s.Implements f wanted) :=
  decidable_of_iff (f.name = wanted.name ∧ s.isSubtype f.type wanted.type = true
      ∧ (∀ b ∈ wanted.arguments.values, ∃ a ∈ f.arguments.values,
        a.name = b.name ∧ a.type = b.type)
      ∧ ∀ a ∈ f.arguments.values, a.type.isNonNull = true → a.default.isNone = true →
        ∃ b ∈ wanted.arguments.values, b.name = a.name)
    ⟨fun h => ⟨h.1, h.2.1, h.2.2.1, h.2.2.2⟩, fun h => ⟨h.name, h.type, h.arguments, h.required⟩⟩

/-- Whether types have by names all fields that their interfaces ask for. -/
def ContractsByName (s : Schema) : Prop :=
  ∀ d ∈ s.types.values, ∀ e ∈ s.types.values, e.name ∈ d.body.interfaceNames →
    ∀ w ∈ e.body.outputFields, ∃ f ∈ d.body.outputFields, s.Implements f w

instance (s : Schema) : Decidable s.ContractsByName :=
  inferInstanceAs (Decidable (∀ d ∈ s.types.values, ∀ e ∈ s.types.values,
    e.name ∈ d.body.interfaceNames →
      ∀ w ∈ e.body.outputFields, ∃ f ∈ d.body.outputFields, s.Implements f w))

/-- The check of a field that stands under its name together with its arguments. -/
theorem checkField_underNames_eq_nil_iff {type interface n : Name} {f wanted : Field}
    (hf : f.NamesDistinct) (hw : wanted.NamesDistinct) (hname : f.name = wanted.name) :
    s.checkField type interface n f.underNames wanted.underNames = [] ↔
      s.Implements f wanted := by
  have hget {g : Field} (hg : g.NamesDistinct) (m : Name) (a : InputValue) :
      g.underNames.arguments.get? m = some a ↔ a ∈ g.arguments.values ∧ a.name = m := by
    refine (Table.get?_underNames_eq_some_iff hg).trans ?_
    simp
  have hkeys (m : Name) : m ∈ wanted.underNames.arguments.keys ↔
      ∃ b ∈ wanted.arguments.values, b.name = m := by
    simp only [← Table.contains_iff, Table.contains, Option.isSome_iff_exists, hget hw]
  rw [checkField_eq_nil_iff f.underNames_keyed]
  simp only [hget hf, hget hw, hkeys]
  constructor
  · rintro ⟨htype, harguments, hrequired⟩
    refine ⟨hname, htype, fun b hb => ?_, fun a ha => hrequired a.name a ⟨ha, rfl⟩⟩
    obtain ⟨a, ⟨ha, hname⟩, htype⟩ := harguments b.name b ⟨hb, rfl⟩
    exact ⟨a, ha, hname, htype⟩
  · intro h
    refine ⟨h.type, ?_, ?_⟩
    · rintro m b ⟨hb, rfl⟩
      obtain ⟨a, ha, hname, htype⟩ := h.arguments b hb
      exact ⟨a, ⟨ha, hname⟩, htype⟩
    · rintro m a ⟨ha, rfl⟩
      exact h.required a ha

theorem checkContract_underNames_eq_nil_iff {type interface : Name}
    {fields wanted : Table Name Field}
    (hf : fields.NamesDistinct Field.name ∧ ∀ f ∈ fields.values, f.NamesDistinct)
    (hw : wanted.NamesDistinct Field.name ∧ ∀ f ∈ wanted.values, f.NamesDistinct) :
    s.checkContract type interface (fields.underNames Field.name Field.underNames)
        (wanted.underNames Field.name Field.underNames) = [] ↔
      ∀ w ∈ wanted.values, ∃ f ∈ fields.values, s.Implements f w := by
  rw [checkContract, List.flatMap_eq_nil_iff, Table.entries_underNames hw.1, List.forall_mem_map]
  refine forall₂_congr fun w hmem => ?_
  have hget (f : Field) : (fields.underNames Field.name Field.underNames).get? w.name = some f ↔
      ∃ a ∈ fields.values, a.name = w.name ∧ a.underNames = f :=
    Table.get?_underNames_eq_some_iff hf.1
  have hcheck {f : Field} (hfield : f ∈ fields.values) (hname : f.name = w.name) :
      s.checkField type interface w.name f.underNames w.underNames = [] ↔ s.Implements f w :=
    checkField_underNames_eq_nil_iff (hf.2 f hfield) (hw.2 w hmem) hname
  constructor
  · intro h
    split at h
    · cases h
    · next f' hf' =>
      obtain ⟨f, hfield, hname, rfl⟩ := (hget f').mp hf'
      exact ⟨f, hfield, (hcheck hfield hname).mp h⟩
  · rintro ⟨f, hfield, himplements⟩
    rw [(hget f.underNames).mpr ⟨f, hfield, himplements.name, rfl⟩]
    exact (hcheck hfield himplements.name).mpr himplements

/-! ## Types under their names -/

theorem type?_underNames (h : s.TypesKeyed) (n : Name) :
    s.underNames.type? n = (s.type? n).map TypeDefinition.underNames :=
  Table.Keyed.get?_underNames h n

theorem kind?_underNames (h : s.TypesKeyed) (n : Name) : s.underNames.kind? n = s.kind? n := by
  rw [kind?, kind?, type?_underNames h]
  cases s.type? n with
  | none => rfl
  | some d => exact congrArg some d.kind_underNames

theorem isSubtype_underNames (h : s.TypesKeyed) (t u : TypeRef) :
    s.underNames.isSubtype t u = s.isSubtype t u := by
  refine isSubtype_congr (fun m n => ?_) t u
  have himplements (d : TypeDefinition) : d.underNames.implements n = d.implements n := by
    obtain ⟨name, description, directives, body⟩ := d
    cases body <;> rfl
  simp only [isNamedSubtype, type?_underNames h]
  congr 1
  cases hn : s.type? n with
  | none => rfl
  | some e =>
    obtain ⟨name, description, directives, body⟩ := e
    cases body with
    | interface interfaces fields =>
      show ((s.type? m).map TypeDefinition.underNames).any (·.implements n) = _
      cases s.type? m with
      | none => rfl
      | some d => exact himplements d
    | _ => rfl

theorem implements_underNames_iff (h : s.TypesKeyed) {f wanted : Field} :
    s.underNames.Implements f wanted ↔ s.Implements f wanted := by
  have htype := isSubtype_underNames h f.type wanted.type
  exact ⟨fun hi => ⟨hi.name, htype ▸ hi.type, hi.arguments, hi.required⟩,
    fun hi => ⟨hi.name, htype.symm ▸ hi.type, hi.arguments, hi.required⟩⟩

/-! ### References -/

theorem references_underNames_of_type {d : TypeDefinition} (h : d.body.NamesDistinct) :
    d.underNames.references = d.references := by
  have hfields {fields : Table Name Field} (hf : fields.NamesDistinct Field.name ∧
      ∀ f ∈ fields.values, f.NamesDistinct) :
      (fields.underNames Field.name Field.underNames).values.flatMap (·.references d.name)
        = fields.values.flatMap (·.references d.name) := by
    rw [Table.values_underNames hf.1, List.flatMap_map]
    refine List.flatMap_congr fun f hmem => ?_
    rw [Field.references, Field.underNames, Table.values_underNames (hf.2 f hmem), List.map_id]
    rfl
  obtain ⟨name, description, directives, body⟩ := d
  cases body with
  | object interfaces fields => exact hfields h.2
  | interface interfaces fields => exact hfields h.2
  | inputObject fields =>
    show (fields.underNames InputValue.name id).values.map _ = _
    rw [Table.values_underNames h, List.map_id]
    rfl
  | scalar => rfl
  | union members => rfl
  | enum values => rfl

/-- Keys are no part of what a schema refers to. -/
theorem references_underNames (h : s.NamesDistinct) : s.underNames.references = s.references := by
  unfold references
  rw [types_values_underNames h, directives_values_underNames h, List.flatMap_map,
    List.flatMap_map]
  congr 1
  · exact List.flatMap_congr fun d hd => references_underNames_of_type (h.bodies d hd)
  · refine List.flatMap_congr fun d hd => ?_
    rw [DirectiveDefinition.references, DirectiveDefinition.underNames,
      Table.values_underNames (h.arguments d hd), List.map_id]
    rfl

/-! ### Contracts -/

/-- Of an interface that passes by keys nothing but the contract is to be checked by names. -/
theorem checkInterface_underNames_eq_nil_iff (hk : s.TypesKeyed) (hs : s.NamesDistinct)
    {type interface : Name} {interfaces : Distinct Name} {fields : Table Name Field}
    (hf : fields.NamesDistinct Field.name ∧ ∀ f ∈ fields.values, f.NamesDistinct)
    (hcheck : s.checkInterface type interfaces fields interface = []) :
    s.underNames.checkInterface type interfaces
        (fields.underNames Field.name Field.underNames) interface = [] ↔
      ∀ e ∈ s.types.values, e.name = interface →
        ∀ w ∈ e.body.outputFields, ∃ f ∈ fields.values, s.Implements f w := by
  obtain ⟨e, inherited, wanted, he, hbody, hinherited, -⟩ := checkInterface_eq_nil_iff.mp hcheck
  have hmem : e ∈ s.types.values := Table.mem_values_of_get? he
  have hunder : s.underNames.types.get? interface = some e.underNames := by
    refine (type?_underNames hk interface).trans ?_
    rw [type?, he]
    rfl
  have hbody' : e.underNames.body
      = .interface inherited (wanted.underNames Field.name Field.underNames) := by
    rw [TypeDefinition.underNames, hbody]
    rfl
  have hw : wanted.NamesDistinct Field.name ∧ ∀ f ∈ wanted.values, f.NamesDistinct := by
    have hdistinct := hs.bodies e hmem
    rw [hbody] at hdistinct
    exact hdistinct.2
  have hcontract : s.underNames.checkContract type interface
      (fields.underNames Field.name Field.underNames)
      (wanted.underNames Field.name Field.underNames) = [] ↔
        ∀ w ∈ e.body.outputFields, ∃ f ∈ fields.values, s.Implements f w := by
    rw [checkContract_underNames_eq_nil_iff hf hw, hbody]
    simp only [implements_underNames_iff hk]
    rfl
  rw [checkInterface_eq_nil_iff, hunder]
  constructor
  · rintro ⟨_, _, _, ⟨⟩, hfound, -, hnone⟩ e' he' rfl
    rw [hbody'] at hfound
    cases hfound
    -- types are found by their names, so there is one of this name
    have hsame := hk.get?_name he'
    rw [he] at hsame
    cases hsame
    exact hcontract.mp hnone
  · intro h
    exact ⟨_, _, _, rfl, hbody', hinherited, hcontract.mpr (h e hmem (hk.name_eq he))⟩

theorem checkFields_underNames_eq_nil_iff (hk : s.TypesKeyed) (hs : s.NamesDistinct)
    {kind : TypeKind} {type : Name} {interfaces : Distinct Name} {fields : Table Name Field}
    (hf : fields.NamesDistinct Field.name ∧ ∀ f ∈ fields.values, f.NamesDistinct)
    (hcheck : s.checkFields kind type interfaces fields = []) :
    s.underNames.checkFields kind type interfaces
        (fields.underNames Field.name Field.underNames) = [] ↔
      ∀ e ∈ s.types.values, e.name ∈ interfaces.toList →
        ∀ w ∈ e.body.outputFields, ∃ f ∈ fields.values, s.Implements f w := by
  simp only [checkFields, List.append_eq_nil_iff, List.flatMap_eq_nil_iff] at hcheck
  obtain ⟨⟨-, hparts⟩, hinterfaces⟩ := hcheck
  rw [checkFields, repeatedFields_values (fields_underNames_keyed fields).1,
    Table.isEmpty_underNames hf.1, hparts, List.append_nil, List.nil_append,
    List.flatMap_eq_nil_iff]
  have hiff (n : Name) (hn : n ∈ interfaces.toList) :=
    checkInterface_underNames_eq_nil_iff hk hs hf (hinterfaces n hn)
  constructor
  · intro h e he hmem
    exact (hiff e.name hmem).mp (h e.name hmem) e he rfl
  · intro h n hn
    refine (hiff n hn).mpr ?_
    rintro e he rfl
    exact h e he hn

/-- Of a type that passes by keys nothing but the contracts is to be checked by names. -/
theorem checkType_underNames_eq_nil_iff (hk : s.TypesKeyed) (hs : s.NamesDistinct)
    {d : TypeDefinition} (hd : d.body.NamesDistinct) (hcheck : s.checkType d = []) :
    s.underNames.checkType d.underNames = [] ↔
      ∀ e ∈ s.types.values, e.name ∈ d.body.interfaceNames →
        ∀ w ∈ e.body.outputFields, ∃ f ∈ d.body.outputFields, s.Implements f w := by
  obtain ⟨name, description, directives, body⟩ := d
  cases body with
  | object interfaces fields => exact checkFields_underNames_eq_nil_iff hk hs hd.2 hcheck
  | interface interfaces fields => exact checkFields_underNames_eq_nil_iff hk hs hd.2 hcheck
  | scalar => exact iff_of_true rfl fun _ _ h => by cases h
  | union members =>
    refine iff_of_true ?_ fun _ _ h => by cases h
    have hmember : s.underNames.checkMember name = s.checkMember name := by
      funext member
      rw [checkMember, checkMember, kind?_underNames hk]
    rw [← hcheck]
    simp only [checkType, hmember, TypeDefinition.underNames, TypeBody.underNames]
  | enum values =>
    refine iff_of_true ?_ fun _ _ h => by cases h
    rw [← hcheck]
    simp only [checkType, TypeDefinition.underNames, TypeBody.underNames,
      Table.isEmpty_underNames hd]
  | inputObject fields =>
    refine iff_of_true ?_ fun _ _ h => by cases h
    rw [← hcheck]
    simp only [checkType, TypeDefinition.underNames, TypeBody.underNames,
      Table.isEmpty_underNames hd, Table.values_underNames hd, List.map_id]

/-! ## Documents -/

/-- Whether the document of a schema is accepted and gives a schema that passes. -/
def DocumentValid (s : Schema) : Prop :=
  ∃ s', ofDocument s.name s.toDocument = .ok s' ∧ s'.validate = .ok ()

/-- The document of a schema shows a valid schema exactly when names do not repeat and the schema
under names passes with the entry points that are written. -/
theorem documentValid_iff_underNames :
    s.DocumentValid ↔
      s.NamesDistinct ∧ { s.underNames with roots := s.writtenRoots }.validate = .ok () := by
  simp only [DocumentValid, ofDocument_toDocument_eq_ok_iff, validate_eq_ok_iff]
  have hread : (if s.needsNode then s.underNames
        else { s.underNames with roots := .none }.inferRoots).violations = [] ↔
      { s.underNames with roots := s.writtenRoots }.violations = [] := by
    unfold writtenRoots
    by_cases h : s.needsNode = true
    · simp only [if_pos h]
      rfl
    · simp only [if_neg h]
      exact inferRoots_violations_eq_nil_iff
  constructor
  · rintro ⟨s', ⟨hdistinct, rfl⟩, hvalid⟩
    exact ⟨hdistinct, hread.mp hvalid⟩
  · rintro ⟨hdistinct, hvalid⟩
    exact ⟨_, ⟨hdistinct, rfl⟩, hread.mpr hvalid⟩

/-- An entry point that is written is one of the schema. -/
theorem get_of_writtenRoots {op : RootOperation} {n : Name}
    (h : s.writtenRoots.get op = some n) : s.roots.get op = some n := by
  unfold writtenRoots at h
  split at h
  · exact h
  · cases op <;> cases h

/-- Where types stand under their names, a schema that passes also passes under names exactly when
contracts are kept by names. -/
theorem underNames_validate_iff (hk : s.TypesKeyed) (hs : s.NamesDistinct)
    (h : s.validate = .ok ()) :
    { s.underNames with roots := s.writtenRoots }.validate = .ok () ↔ s.ContractsByName := by
  obtain ⟨hreferences, htypes, hroots⟩ := violations_eq_nil_iff.mp (validate_eq_ok_iff.mp h)
  have hkind (n : Name) : s.underNames.kind? n = s.kind? n := kind?_underNames hk n
  rw [validate_eq_ok_iff, violations_withRoots_eq_nil_iff]
  constructor
  · rintro ⟨-, hunder, -⟩ d hd
    refine (checkType_underNames_eq_nil_iff hk hs (hs.bodies d hd) (htypes d hd)).mp ?_
    refine hunder d.underNames ?_
    rw [types_values_underNames hs]
    exact List.mem_map_of_mem hd
  · intro hcontracts
    refine ⟨fun r hr => ?_, fun d' hd' => ?_, fun op n hop => ?_⟩
    · rw [references_underNames hs] at hr
      rw [← hreferences r hr, checkReference, checkReference, hkind]
    · rw [types_values_underNames hs] at hd'
      obtain ⟨d, hd, rfl⟩ := List.mem_map.mp hd'
      exact (checkType_underNames_eq_nil_iff hk hs (hs.bodies d hd) (htypes d hd)).mpr
        (hcontracts d hd)
    · rw [hkind]
      exact checkRoot_eq_nil_iff.mp
        (hroots (op, n) (RootOperations.mem_toList.mpr (get_of_writtenRoots hop)))

/-- A keyed schema that passes has a document that passes. -/
theorem Keyed.documentValid (hk : s.Keyed) (h : s.validate = .ok ()) : s.DocumentValid := by
  obtain ⟨hreferences, htypes, hroots⟩ := violations_eq_nil_iff.mp (validate_eq_ok_iff.mp h)
  refine ⟨_, ofDocument_toDocument_eq hk, validate_eq_ok_iff.mpr ?_⟩
  split
  · exact validate_eq_ok_iff.mp h
  · exact inferRoots_violations_eq_nil_iff.mpr (violations_withRoots_eq_nil_iff.mpr
      ⟨hreferences, htypes, fun op n hop => by cases op <;> cases hop⟩)

/-- A schema that passes has a document that is accepted and passes exactly when no two elements
that stand side by side have one name and the schema passes with every element under its own name
and the entry points that are written. Where types stand under their names, that is exactly when
names do not repeat and contracts are kept by names; in a keyed schema it is always so. -/
theorem documentValid_iff_of_validate (h : s.validate = .ok ()) :
    (s.DocumentValid ↔
      s.NamesDistinct ∧ { s.underNames with roots := s.writtenRoots }.validate = .ok ()) ∧
    (s.TypesKeyed → (s.DocumentValid ↔ s.NamesDistinct ∧ s.ContractsByName)) ∧
    (s.Keyed → s.DocumentValid) := by
  refine ⟨documentValid_iff_underNames, fun hk => ?_, fun hk => hk.documentValid h⟩
  rw [documentValid_iff_underNames]
  exact and_congr_right fun hs => underNames_validate_iff hk hs h

end Schema

/-- A harbour with an interface and an object type that implements it. Each has one field, stored
under the same key and with a name of its own. -/
def harbour (wanted found : Name) : Schema :=
  let berths : Name := ⟨"berths", by decide⟩
  let moored : Name := ⟨"Moored", by decide⟩
  let ferry : Name := ⟨"Ferry", by decide⟩
  let berth (name : Name) : Table Name Field := .ofList [(berths, .ofType name (.named ferry))]
  { Schema.empty "harbour" with
    types := .ofList [
      (moored, ⟨moored, none, [], .interface .empty (berth wanted)⟩),
      (ferry, ⟨ferry, none, [], .object (.ofList [moored]) (berth found)⟩)] }

/-- Fields that have another name than their key in the interface and in the object type alike. -/
theorem documentValid_harbour :
    let slips : Name := ⟨"slips", by decide⟩
    let s := harbour slips slips
    s.validate = .ok () ∧ ¬ s.Keyed ∧ s.DocumentValid := by
  intro slips s
  have h : s.validate = .ok () := by decide
  have hk : s.TypesKeyed := by decide
  have hnames : s.NamesDistinct ∧ s.ContractsByName := by decide
  exact ⟨h, by decide, ((Schema.documentValid_iff_of_validate h).2.1 hk).mpr hnames⟩

/-- A field that has the name of the interface field as its key and another name: the check accepts
it, and the document shows an object type without the field. -/
theorem not_documentValid_harbour :
    let berths : Name := ⟨"berths", by decide⟩
    let slips : Name := ⟨"slips", by decide⟩
    let s := harbour berths slips
    s.validate = .ok () ∧
      (∃ s', Schema.ofDocument s.name s.toDocument = .ok s' ∧
        s'.validate = .error [.fieldMissing ⟨"Ferry", by decide⟩ ⟨"Moored", by decide⟩ berths]) ∧
      ¬ s.DocumentValid := by
  intro berths slips s
  refine ⟨by decide, ⟨_, rfl, by decide⟩, fun h => ?_⟩
  exact absurd (Schema.documentValid_iff_underNames.mp h).2 (by decide)

end SchemaWeave
