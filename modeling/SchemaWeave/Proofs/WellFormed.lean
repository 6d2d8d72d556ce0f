import SchemaWeave.Proofs.Document.Contracts

/-!
# Well-formed schemas

In a keyed schema what the check looks up by keys is what names say. That it finds no violation is
then a statement about names alone: every name resolves to a type of a kind that fits, every type
has something in it, and every type keeps the contracts of the interfaces that it implements.
-/

namespace SchemaWeave

/-! ## Fields of a type -/

namespace TypeBody

variable {b : TypeBody} {w : Field}

/-- The input fields of a type, in their order. -/
def inputFields : TypeBody → List InputValue
  | .inputObject fields => fields.values
  | _ => []

theorem mem_outputFields_iff : w ∈ b.outputFields ↔ ∃ n, b.field? n = some w := by
  cases b <;> simp [outputFields, Table.mem_values_iff]

theorem mem_inputFields_iff {v : InputValue} :
    v ∈ b.inputFields ↔ ∃ n, b.inputField? n = some v := by
  cases b <;> simp [inputFields, Table.mem_values_iff]

theorem Keyed.field?_eq_some_iff (h : b.Keyed) {n : Name} :
    b.field? n = some w ↔ w ∈ b.outputFields ∧ w.name = n := by
  rw [mem_outputFields_iff]
  constructor
  · intro hw
    exact ⟨⟨n, hw⟩, ((keyed_iff.mp h).1 n w hw).1⟩
  · rintro ⟨⟨m, hm⟩, rfl⟩
    rwa [((keyed_iff.mp h).1 m w hm).1]

theorem Keyed.hasField_iff (h : b.Keyed) {n : Name} :
    b.hasField n = true ↔
      (∃ f ∈ b.outputFields, f.name = n) ∨ ∃ v ∈ b.inputFields, v.name = n := by
  have htable {α : Type} {name : α → Name} {t : Table Name α} (ht : t.Keyed name) :
      t.contains n = true ↔ ∃ a ∈ t.values, name a = n := by
    rw [Table.contains_iff, ← ht.map_name_values, List.mem_map]
  cases b with
  | object _ fields => simpa [hasField, outputFields, inputFields] using htable h.1
  | interface _ fields => simpa [hasField, outputFields, inputFields] using htable h.1
  | inputObject fields => simpa [hasField, outputFields, inputFields] using htable h
  | _ => simp [hasField, outputFields, inputFields]

end TypeBody

theorem TypeDefinition.mem_references_iff_fields {d : TypeDefinition} {r : Reference} :
    r ∈ d.references ↔
      (∃ f ∈ d.body.outputFields, r ∈ f.references d.name) ∨
      ∃ v ∈ d.body.inputFields, r = ⟨.member d.name v.name, v.type, .input⟩ := by
  rw [mem_references_iff]
  simp only [TypeBody.mem_outputFields_iff, TypeBody.mem_inputFields_iff]
  grind

/-! ## Outlines -/

/-- What can be seen of a type without its fields and values. -/
structure Outline where
  kind : TypeKind
  interfaces : List Name
  members : List Name

def TypeDefinition.outline (d : TypeDefinition) : Outline :=
  ⟨d.kind, d.body.interfaceNames, d.body.memberNames⟩

theorem TypeDefinition.implements_iff {d : TypeDefinition} {n : Name} :
    d.implements n = true ↔ n ∈ d.body.interfaceNames := by
  obtain ⟨name, description, directives, body⟩ := d
  cases body <;>
    simp [implements, TypeBody.implements, TypeBody.interfaces?, TypeBody.interfaceNames,
      Distinct.contains]

/-! ## Keyed parts under their names -/

theorem Table.Keyed.underNames_eq {κ α : Type} [DecidableEq κ] {name : α → κ} {t : Table κ α}
    (h : t.Keyed name) {f : α → α} (hf : ∀ a ∈ t.values, f a = a) : t.underNames name f = t := by
  have hsame : (t.values.map fun a => (name a, f a)) = t.values.map fun a => (name a, a) :=
    List.map_congr_left fun a ha => by rw [hf a ha]
  rw [Table.underNames, hsame, h.ofList_values]

theorem Field.Keyed.underNames_eq {f : Field} (h : f.Keyed) : f.underNames = f := by
  have harguments : f.arguments.underNames InputValue.name id = f.arguments :=
    Table.Keyed.underNames_eq h fun _ _ => rfl
  rw [Field.underNames, harguments]

theorem fields_underNames_eq {fields : Table Name Field} (h : fields.Keyed Field.name)
    (h' : ∀ f ∈ fields.values, f.Keyed) :
    fields.underNames Field.name Field.underNames = fields :=
  h.underNames_eq fun f hf => (h' f hf).underNames_eq

namespace Schema

variable {s : Schema}

/-! ## Subtypes and contracts -/

theorem isSubtype_refl (t : TypeRef) : s.isSubtype t t = true := by
  have hnamed (n : Name) : s.isNamedSubtype n n = true := by simp [isNamedSubtype]
  induction t with
  | named n => exact hnamed n
  | nonNullNamed n => exact hnamed n
  | list t ih => exact ih
  | nonNullList t ih => exact ih

theorem Implements.refl (f : Field) : s.Implements f f :=
  ⟨rfl, isSubtype_refl f.type, fun b hb => ⟨b, hb, rfl, rfl⟩, fun a ha _ _ => ⟨a, ha, rfl⟩⟩

/-- Whether a body has all fields that another one asks for. -/
def Covers (s : Schema) (b wanted : TypeBody) : Prop :=
  ∀ w ∈ wanted.outputFields, ∃ f ∈ b.outputFields, s.Implements f w

theorem Covers.refl (b : TypeBody) : s.Covers b b := fun w hw => ⟨w, hw, Implements.refl w⟩

/-- Whether a type with this body implements an interface as it should: together with all that the
interface itself implements, and with all of its fields. -/
def Keeps (s : Schema) (b : TypeBody) (interface : Name) : Prop :=
  ∃ e, s.types.get? interface = some e ∧ e.kind = .interface ∧
    (∀ n ∈ e.body.interfaceNames, n ∈ b.interfaceNames) ∧ s.Covers b e.body

/-! ## The check in a keyed schema -/

theorem checkReference_eq_nil_iff {r : Reference} :
    s.checkReference r = [] ↔
      ∃ k, s.kind? r.type.innerName = some k ∧ r.position.allows k = true := by
  unfold checkReference
  cases s.kind? r.type.innerName with
  | none => simp
  | some k => by_cases h : r.position.allows k = true <;> simp [h]

theorem checkMember_eq_nil_iff {union member : Name} :
    s.checkMember union member = [] ↔ s.kind? member = some .object := by
  unfold checkMember
  cases s.kind? member with
  | none => simp
  | some k => cases k <;> simp

theorem checkParts_eq_nil_iff {kind : TypeKind} {type : Name} {none : Bool} :
    checkParts kind type none = [] ↔ none = false := by
  cases none <;> simp [checkParts]

theorem checkContract_eq_nil_iff {type interface : Name} {fields wanted : Table Name Field}
    (hf : fields.Keyed Field.name ∧ ∀ f ∈ fields.values, f.Keyed)
    (hw : wanted.Keyed Field.name ∧ ∀ f ∈ wanted.values, f.Keyed) :
    s.checkContract type interface fields wanted = [] ↔
      ∀ w ∈ wanted.values, ∃ f ∈ fields.values, s.Implements f w := by
  have h := @checkContract_underNames_eq_nil_iff s type interface fields wanted
    (fields_namesDistinct hf.1 hf.2) (fields_namesDistinct hw.1 hw.2)
  rwa [fields_underNames_eq hf.1 hf.2, fields_underNames_eq hw.1 hw.2] at h

/-- One interface of a type with fields. -/
theorem checkInterface_eq_nil_iff_keeps (hk : s.Keyed) {type interface : Name} {b : TypeBody}
    {interfaces : Distinct Name} {fields : Table Name Field}
    (hf : fields.Keyed Field.name ∧ ∀ f ∈ fields.values, f.Keyed)
    (hinterfaces : b.interfaceNames = interfaces.toList)
    (hfields : b.outputFields = fields.values) :
    s.checkInterface type interfaces fields interface = [] ↔ s.Keeps b interface := by
  rw [checkInterface_eq_nil_iff, Keeps]
  constructor
  · rintro ⟨e, inherited, wanted, he, hbody, hinherited, hcontract⟩
    have hw := hk.bodies e (Table.mem_values_of_get? he)
    rw [hbody] at hw
    refine ⟨e, he, by rw [TypeDefinition.kind, hbody]; rfl, ?_, ?_⟩
    · rw [hbody, hinterfaces]
      exact hinherited
    · rw [Covers, hbody, hfields]
      exact (checkContract_eq_nil_iff hf hw).mp hcontract
  · rintro ⟨⟨name, description, directives, body⟩, he, hkind, hinherited, hcovers⟩
    have hw := hk.bodies _ (Table.mem_values_of_get? he)
    cases body with
    | interface inherited wanted =>
      rw [hinterfaces] at hinherited
      rw [Covers, hfields] at hcovers
      exact ⟨_, inherited, wanted, he, rfl, hinherited,
        (checkContract_eq_nil_iff hf hw).mpr hcovers⟩
    | _ => cases hkind

theorem checkFields_eq_nil_iff (hk : s.Keyed) {kind : TypeKind} {type : Name} {b : TypeBody}
    {interfaces : Distinct Name} {fields : Table Name Field}
    (hf : fields.Keyed Field.name ∧ ∀ f ∈ fields.values, f.Keyed)
    (hinterfaces : b.interfaceNames = interfaces.toList)
    (hfields : b.outputFields = fields.values) :
    s.checkFields kind type interfaces fields = [] ↔
      fields.keys ≠ [] ∧ ∀ n ∈ b.interfaceNames, s.Keeps b n := by
  rw [checkFields, repeatedFields_values hf.1, List.nil_append, List.append_eq_nil_iff,
    List.flatMap_eq_nil_iff, checkParts_eq_nil_iff, Table.isEmpty_eq_false_iff, hinterfaces]
  exact and_congr_right fun _ => forall₂_congr fun n _ =>
    checkInterface_eq_nil_iff_keeps hk hf hinterfaces hfields

theorem checkType_eq_nil_iff (hk : s.Keyed) {d : TypeDefinition} (hd : d.body.Keyed) :
    s.checkType d = [] ↔
      d.body.HasParts ∧ (∀ n ∈ d.body.memberNames, s.kind? n = some .object) ∧
        ∀ n ∈ d.body.interfaceNames, s.Keeps d.body n := by
  obtain ⟨name, description, directives, body⟩ := d
  cases body with
  | object interfaces fields =>
    refine (checkFields_eq_nil_iff hk hd (b := .object interfaces fields) rfl rfl).trans ?_
    simp [TypeBody.HasParts, TypeBody.kind, TypeBody.partNames, TypeBody.memberNames]
  | interface interfaces fields =>
    refine (checkFields_eq_nil_iff hk hd (b := .interface interfaces fields) rfl rfl).trans ?_
    simp [TypeBody.HasParts, TypeBody.kind, TypeBody.partNames, TypeBody.memberNames]
  | union members =>
    show checkParts .union name members.isEmpty ++ _ = [] ↔ _
    rw [List.append_eq_nil_iff, List.flatMap_eq_nil_iff, checkParts_eq_nil_iff]
    simp [TypeBody.HasParts, TypeBody.kind, TypeBody.partNames, TypeBody.interfaceNames,
      TypeBody.memberNames, checkMember_eq_nil_iff, Distinct.isEmpty]
  | inputObject fields =>
    show repeatedFields name (fields.values.map InputValue.name)
      ++ checkParts .inputObject name fields.isEmpty = [] ↔ _
    rw [repeatedFields_values hd, List.nil_append, checkParts_eq_nil_iff,
      Table.isEmpty_eq_false_iff]
    simp [TypeBody.HasParts, TypeBody.kind, TypeBody.partNames, TypeBody.interfaceNames,
      TypeBody.memberNames]
  | enum values =>
    refine checkParts_eq_nil_iff.trans ?_
    rw [Table.isEmpty_eq_false_iff]
    simp [TypeBody.HasParts, TypeBody.kind, TypeBody.partNames, TypeBody.interfaceNames,
      TypeBody.memberNames]
  | scalar =>
    simp [checkType, TypeBody.HasParts, TypeBody.kind, TypeBody.interfaceNames,
      TypeBody.memberNames]

/-! ## The schema -/

/-- Whether every name in a schema resolves to a type of a kind that fits its place, every type has
something in it, and every type implements its interfaces as it should. -/
structure WellFormed (s : Schema) : Prop where
  resolved : s.Resolved
  keeps : ∀ n d, s.types.get? n = some d → ∀ m ∈ d.body.interfaceNames, s.Keeps d.body m

/-- A keyed schema has no violation exactly when it is well-formed. -/
theorem Keyed.violations_eq_nil_iff (hk : s.Keyed) : s.violations = [] ↔ s.WellFormed := by
  have hcheck (d : TypeDefinition) (hd : d ∈ s.types.values) :=
    checkType_eq_nil_iff hk (hk.bodies d hd)
  constructor
  · intro h
    refine ⟨(resolved_iff hk.bodies).mpr (by simp [h]), fun n d hd => ?_⟩
    have hmem := Table.mem_values_of_get? hd
    exact ((hcheck d hmem).mp ((Schema.violations_eq_nil_iff.mp h).2.1 d hmem)).2.2
  · intro h
    refine Schema.violations_eq_nil_iff.mpr ⟨fun r hr => ?_, fun d hd => ?_, fun r hr => ?_⟩
    · exact checkReference_eq_nil_iff.mpr (h.resolved.references r hr)
    · obtain ⟨n, hn⟩ := Table.mem_values_iff.mp hd
      exact (hcheck d hd).mpr ⟨h.resolved.parts d hd, h.resolved.members d hd, h.keeps n d hn⟩
    · exact checkRoot_eq_nil_iff.mpr (h.resolved.roots r.1 r.2 (RootOperations.mem_toList.mp hr))

/-! ## The same outlines

References and subtypes see of a type its kind and the names of its interfaces and members. In a
schema with the same outlines as a well-formed one there is not much left to ask for. -/

/-- The outline of the type of a name. -/
def outline? (s : Schema) (n : Name) : Option Outline :=
  (s.types.get? n).map TypeDefinition.outline

theorem outline?_eq_some_iff {n : Name} {o : Outline} :
    s.outline? n = some o ↔ ∃ d, s.types.get? n = some d ∧ d.outline = o :=
  Option.map_eq_some_iff

theorem kind?_eq_outline (n : Name) :
    s.kind? n = ((s.outline? n).map Outline.kind).or
      (if isBuiltInScalar n.text then some .scalar else none) := by
  unfold kind? type? outline?
  cases s.types.get? n <;> rfl

theorem isNamedSubtype_iff {m n : Name} :
    s.isNamedSubtype m n = true ↔
      m = n ∨ ∃ o, s.outline? n = some o ∧
        (o.kind = .interface ∧ (∃ o', s.outline? m = some o' ∧ n ∈ o'.interfaces) ∨
          m ∈ o.members) := by
  have himplements : (s.type? m).any (·.implements n) = true ↔
      ∃ o', s.outline? m = some o' ∧ n ∈ o'.interfaces := by
    unfold type? outline?
    cases s.types.get? m with
    | none => simp
    | some d => simp [TypeDefinition.implements_iff, TypeDefinition.outline]
  rw [isNamedSubtype, Bool.or_eq_true, decide_eq_true_eq]
  refine or_congr_right ?_
  rw [← himplements]
  unfold type? outline?
  cases s.types.get? n with
  | none => simp
  | some e =>
    obtain ⟨name, description, directives, body⟩ := e
    cases body <;>
      simp [TypeDefinition.outline, TypeDefinition.kind, TypeBody.kind, TypeBody.memberNames,
        Distinct.contains]

section SameOutline

variable {s' : Schema} (h : ∀ n, s'.outline? n = s.outline? n)
include h

theorem kind?_of_outline (n : Name) : s'.kind? n = s.kind? n := by
  rw [kind?_eq_outline, kind?_eq_outline, h]

theorem exists_get?_of_outline {n : Name} {d' : TypeDefinition} (hd : s'.types.get? n = some d') :
    ∃ d, s.types.get? n = some d ∧ d.kind = d'.kind ∧
      d.body.interfaceNames = d'.body.interfaceNames ∧
      d.body.memberNames = d'.body.memberNames := by
  obtain ⟨d, hd, hsame⟩ :=
    outline?_eq_some_iff.mp ((h n).symm.trans (outline?_eq_some_iff.mpr ⟨d', hd, rfl⟩))
  exact ⟨d, hd, congrArg Outline.kind hsame, congrArg Outline.interfaces hsame,
    congrArg Outline.members hsame⟩

theorem implements_of_outline {f wanted : Field} :
    s'.Implements f wanted ↔ s.Implements f wanted := by
  have hsubtype : s'.isSubtype f.type wanted.type = s.isSubtype f.type wanted.type :=
    isSubtype_congr (fun m n => by rw [Bool.eq_iff_iff]; simp only [isNamedSubtype_iff, h]) _ _
  exact ⟨fun hi => ⟨hi.name, hsubtype ▸ hi.type, hi.arguments, hi.required⟩,
    fun hi => ⟨hi.name, hsubtype ▸ hi.type, hi.arguments, hi.required⟩⟩

theorem covers_of_outline {b wanted : TypeBody} : s'.Covers b wanted ↔ s.Covers b wanted := by
  simp only [Covers, implements_of_outline h]

/-- What resolves in one schema resolves in another one with the same outlines that refers to
nothing else. -/
theorem resolved_of_outline (hs : s.Resolved) (hroots : s'.roots = s.roots)
    (hreferences : ∀ r ∈ s'.references,
      ∃ q ∈ s.references, q.type = r.type ∧ q.position = r.position)
    (hparts : ∀ d ∈ s'.types.values, d.body.HasParts) : s'.Resolved := by
  refine ⟨fun r hr => ?_, hparts, fun d' hd' n hn => ?_, fun d' hd' n hn => ?_, fun op n hop => ?_⟩
  · obtain ⟨q, hq, htype, hposition⟩ := hreferences r hr
    rw [kind?_of_outline h, ← htype, ← hposition]
    exact hs.references q hq
  · obtain ⟨m, hm⟩ := Table.mem_values_iff.mp hd'
    obtain ⟨d, hd, -, hinterfaces, -⟩ := exists_get?_of_outline h hm
    rw [kind?_of_outline h]
    exact hs.interfaces d (Table.mem_values_of_get? hd) n (hinterfaces ▸ hn)
  · obtain ⟨m, hm⟩ := Table.mem_values_iff.mp hd'
    obtain ⟨d, hd, -, -, hmembers⟩ := exists_get?_of_outline h hm
    rw [kind?_of_outline h]
    exact hs.members d (Table.mem_values_of_get? hd) n (hmembers ▸ hn)
  · rw [kind?_of_outline h]
    exact hs.roots op n (hroots ▸ hop)

/-- With the outlines of a well-formed schema and no other references, a schema is well-formed
exactly when every type has something in it and the fields that its interfaces ask for. -/
theorem wellFormed_of_outline_iff (hs : s.WellFormed) (hroots : s'.roots = s.roots)
    (hreferences : ∀ r ∈ s'.references,
      ∃ q ∈ s.references, q.type = r.type ∧ q.position = r.position) :
    s'.WellFormed ↔ (∀ d ∈ s'.types.values, d.body.HasParts) ∧
      ∀ n d m e, s'.types.get? n = some d → s'.types.get? m = some e →
        m ∈ d.body.interfaceNames → s.Covers d.body e.body := by
  constructor
  · refine fun hs' => ⟨hs'.resolved.parts, fun n d m e hd he hm => ?_⟩
    obtain ⟨e', he', -, -, hcovers⟩ := hs'.keeps n d hd m hm
    cases he.symm.trans he'
    exact (covers_of_outline h).mp hcovers
  · rintro ⟨hparts, hcovers⟩
    refine ⟨resolved_of_outline h hs.resolved hroots hreferences hparts, fun n d' hd' m hm => ?_⟩
    obtain ⟨d, hd, -, hinterfaces, -⟩ := exists_get?_of_outline h hd'
    obtain ⟨e, he, hkind, hinherited, -⟩ := hs.keeps n d hd m (hinterfaces ▸ hm)
    obtain ⟨e', he', hkind', hinterfaces', -⟩ := exists_get?_of_outline (fun n => (h n).symm) he
    refine ⟨e', he', hkind'.trans hkind, ?_, ?_⟩
    · rw [hinterfaces', ← hinterfaces]
      exact hinherited
    · exact (covers_of_outline h).mpr (hcovers n d' m e' hd' he' hm)

end SameOutline

end Schema

end SchemaWeave
