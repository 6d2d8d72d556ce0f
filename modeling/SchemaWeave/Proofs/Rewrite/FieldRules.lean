import SchemaWeave.Proofs.Rewrite.FieldChange
import SchemaWeave.Proofs.Rewrite.Rule

/-!
# What the field rules break

A field can go, or get another name, as long as the contracts of interfaces are kept. There are
three ways in which they are not, or a type is left empty:

* an interface that the type implements asks for the field,
* the type is an interface, and an implementing type lacks the field under its new name,
* the field that goes is the last one.

Nothing else in a schema without violations depends on the fields of one type. Other types keep
their outlines, so references, members and subtypes are what they were.
-/

namespace SchemaWeave

namespace Schema

/-- Whether a type has to have a field for the sake of an interface other than itself. -/
def Owes (s : Schema) (type field : Name) : Prop :=
  ∃ d n e, s.types.get? type = some d ∧ n ≠ type ∧ d.implements n = true ∧
    s.types.get? n = some e ∧ e.hasField field = true

/-- Whether a type has the field that an interface field asks for. -/
def Provides (s : Schema) (d : TypeDefinition) (wanted : Field) : Prop :=
  ∃ f, d.body.field? wanted.name = some f ∧ s.Implements f wanted

variable {s s' : Schema} {type old : Name} {new : Option Name} {d : TypeDefinition}

theorem provides_iff (hd : d.body.Keyed) {wanted : Field} :
    s.Provides d wanted ↔ ∃ f ∈ d.body.outputFields, s.Implements f wanted := by
  simp only [Provides, hd.field?_eq_some_iff]
  constructor
  · rintro ⟨f, ⟨hf, -⟩, himplements⟩
    exact ⟨f, hf, himplements⟩
  · rintro ⟨f, hf, himplements⟩
    exact ⟨f, ⟨hf, himplements.name⟩, himplements⟩

/-- In a well-formed schema a type provides all that an interface of it asks for. -/
theorem WellFormed.provides (hs : s.WellFormed) (hk : s.Keyed) {n m : Name} {e : TypeDefinition}
    (hd : s.types.get? n = some d) (he : s.types.get? m = some e) (hm : d.implements m = true)
    {w : Field} (hw : w ∈ e.body.outputFields) : s.Provides d w := by
  obtain ⟨e', he', -, -, hcovers⟩ := hs.keeps n d hd m (TypeDefinition.implements_iff.mp hm)
  cases he.symm.trans he'
  exact (provides_iff (hk.bodies d (Table.mem_values_of_get? hd))).mpr (hcovers w hw)

/-- An interface has output fields and no others. -/
theorem hasField_interface_iff (hd : d.body.Keyed) (hkind : d.kind = .interface) {n : Name} :
    d.hasField n = true ↔ ∃ w ∈ d.body.outputFields, w.name = n := by
  have hinput : d.body.inputFields = [] := by
    obtain ⟨name, description, directives, body⟩ := d
    cases body <;> first | rfl | cases hkind
  rw [TypeDefinition.hasField, hd.hasField_iff, hinput]
  simp

namespace FieldBecomes

variable (h : s.FieldBecomes type old new s') (hd : s.types.get? type = some d)
include h hd

theorem outline?_eq (n : Name) : s'.outline? n = s.outline? n := by
  unfold outline?
  by_cases hn : n = type
  · subst hn
    obtain ⟨b, hb, hbody⟩ := h.changed d hd
    rw [hb, hd, Option.map_some, Option.map_some, TypeDefinition.outline, TypeDefinition.outline,
      TypeDefinition.kind, hbody.kind, hbody.interfaces, hbody.members]
    rfl
  · rw [h.others n hn]

theorem exists_mem_references {r : Reference} (hr : r ∈ s'.references) :
    ∃ q ∈ s.references, q.type = r.type ∧ q.position = r.position := by
  rcases List.mem_append.mp hr with hr | hr
  · obtain ⟨e, he, hr⟩ := List.mem_flatMap.mp hr
    obtain ⟨n, hn⟩ := Table.mem_values_iff.mp he
    have hmem {q : Reference} {c : TypeDefinition} {m : Name} (hc : s.types.get? m = some c)
        (hq : q ∈ c.references) : q ∈ s.references :=
      List.mem_append_left _ (List.mem_flatMap.mpr ⟨c, Table.mem_values_of_get? hc, hq⟩)
    by_cases hname : n = type
    · subst hname
      obtain ⟨b, hb, hbody⟩ := h.changed d hd
      cases hb.symm.trans hn
      obtain ⟨q, hq, hsame⟩ := hbody.exists_mem_references rfl hr
      exact ⟨q, hmem hd hq, hsame⟩
    · exact ⟨r, hmem ((h.others n hname).symm.trans hn) hr, rfl, rfl⟩
  · have hdirectives : s'.directiveDefinitions = s.directiveDefinitions := by rw [h.rest]
    exact ⟨r, List.mem_append_right _ (hdirectives ▸ hr), rfl, rfl⟩

/-- A type with a changed field is left with one when the field is renamed or is not its last. -/
theorem forall_hasParts_iff (hk : s.Keyed) (hk' : s'.Keyed) (hs : s.WellFormed)
    (hf : d.hasField old = true) :
    (∀ e ∈ s'.types.values, e.body.HasParts) ↔
      (∃ n, new = some n) ∨ ∃ n, n ≠ old ∧ d.hasField n = true := by
  obtain ⟨b, hb, hbody⟩ := h.changed d hd
  have hchanged : b.HasParts ↔ (∃ n, new = some n) ∨ ∃ n, n ≠ old ∧ d.hasField n = true := by
    rw [TypeBody.hasParts_iff_exists_hasField hf hbody.kind]
    simp only [hbody.hasField_iff (hk.bodies d (Table.mem_values_of_get? hd))
      (hk'.bodies _ (Table.mem_values_of_get? hb)), exists_or]
    constructor
    · rintro (⟨n, hn, hne⟩ | ⟨n, hn, -⟩)
      · exact Or.inr ⟨n, hne, hn⟩
      · exact Or.inl ⟨n, hn⟩
    · rintro (⟨n, hn⟩ | ⟨n, hne, hn⟩)
      · exact Or.inr ⟨n, hn, hf⟩
      · exact Or.inl ⟨n, hn, hne⟩
  rw [← hchanged]
  constructor
  · exact fun hparts => hparts _ (Table.mem_values_of_get? hb)
  · intro hparts e he
    obtain ⟨n, hn⟩ := Table.mem_values_iff.mp he
    by_cases hname : n = type
    · subst hname
      cases hb.symm.trans hn
      exact hparts
    · exact hs.resolved.parts e (Table.mem_values_of_get? ((h.others n hname).symm.trans hn))

/-- Only the contracts in which the changed type has a part are to be looked at. -/
theorem forall_covers_iff (hs : s.WellFormed) {b : TypeBody}
    (hb : s'.types.get? type = some { d with body := b }) (hbody : d.body.FieldBecomes old new b) :
    (∀ n c m e, s'.types.get? n = some c → s'.types.get? m = some e →
        m ∈ c.body.interfaceNames → s.Covers c.body e.body) ↔
      (∀ m e, m ≠ type → s.types.get? m = some e → m ∈ d.body.interfaceNames →
        s.Covers b e.body) ∧
      ∀ n c, n ≠ type → s.types.get? n = some c → type ∈ c.body.interfaceNames →
        s.Covers c.body b := by
  constructor
  · intro hcovers
    refine ⟨fun m e hm he hmem => ?_, fun n c hn hc hmem => ?_⟩
    · exact hcovers type _ m e hb ((h.others m hm).trans he) (hbody.interfaces.symm ▸ hmem)
    · exact hcovers n c type _ ((h.others n hn).trans hc) hb hmem
  · rintro ⟨hown, hothers⟩ n c m e hc he hmem
    by_cases hn : n = type <;> by_cases hm : m = type
    · -- the type implements itself
      subst hn hm
      cases hc.symm.trans he
      exact Covers.refl _
    · subst hn
      cases hb.symm.trans hc
      exact hown m e hm ((h.others m hm).symm.trans he) (hbody.interfaces ▸ hmem)
    · subst hm
      cases hb.symm.trans he
      exact hothers n c hn ((h.others n hn).symm.trans hc) hmem
    · obtain ⟨e', he', -, -, hcovers⟩ := hs.keeps n c ((h.others n hn).symm.trans hc) m hmem
      cases he'.symm.trans ((h.others m hm).symm.trans he)
      exact hcovers

omit h in
theorem forall_covers_iff_not_owes (hk : s.Keyed) (hs : s.WellFormed) {b : TypeBody}
    (hbody : d.body.FieldBecomes old new b) (hnew : new ≠ some old) :
    (∀ m e, m ≠ type → s.types.get? m = some e → m ∈ d.body.interfaceNames →
      s.Covers b e.body) ↔ ¬ s.Owes type old := by
  have hcontract {m : Name} {e : TypeDefinition} (he : s.types.get? m = some e)
      (hm : m ∈ d.body.interfaceNames) : s.Covers b e.body ↔ ¬ e.hasField old = true := by
    obtain ⟨e', he', hkind, -, hcovers⟩ := hs.keeps type d hd m hm
    cases he.symm.trans he'
    rw [hbody.covers_iff hnew hcovers,
      hasField_interface_iff (hk.bodies e (Table.mem_values_of_get? he)) hkind]
    simp only [not_exists, not_and, ne_eq]
  constructor
  · rintro hcovers ⟨d', m, e, hd', hne, himplements, he, hfield⟩
    cases hd.symm.trans hd'
    have hm := TypeDefinition.implements_iff.mp himplements
    exact (hcontract he hm).mp (hcovers m e hne he hm) hfield
  · intro howes m e hne he hm
    refine (hcontract he hm).mpr fun hfield => howes ?_
    exact ⟨d, m, e, hd, hne, TypeDefinition.implements_iff.mpr hm, he, hfield⟩

omit h in
theorem forall_covers_iff_provides (hk : s.Keyed) (hs : s.WellFormed) {b : TypeBody}
    (hbody : d.body.FieldBecomes old new b) :
    (∀ n c, n ≠ type → s.types.get? n = some c → type ∈ c.body.interfaceNames →
      s.Covers c.body b) ↔
    ∀ n w, new = some n → d.body.field? old = some w → ∀ m e, m ≠ type →
      s.types.get? m = some e → e.implements type = true → s.Provides e (w.withName n) := by
  have hdk := hk.bodies d (Table.mem_values_of_get? hd)
  have hcontract {m : Name} {c : TypeDefinition} (hc : s.types.get? m = some c)
      (hm : type ∈ c.body.interfaceNames) : s.Covers c.body b ↔
        ∀ n w, new = some n → d.body.field? old = some w → s.Provides c (w.withName n) := by
    obtain ⟨e, he, -, -, hcovers⟩ := hs.keeps m c hc type hm
    cases hd.symm.trans he
    simp only [hbody.covered_iff hcovers, hdk.field?_eq_some_iff,
      provides_iff (hk.bodies c (Table.mem_values_of_get? hc))]
    exact ⟨fun h n w hn hw => h w hw.1 hw.2 n hn, fun h w hw hname n hn => h n w hn ⟨hw, hname⟩⟩
  simp only [TypeDefinition.implements_iff]
  constructor
  · intro hcovers n w hn hw m c hne hc hm
    exact (hcontract hc hm).mp (hcovers m c hne hc hm) n w hn hw
  · intro hprovides m c hne hc hm
    exact (hcontract hc hm).mpr fun n w hn hw => hprovides n w hn hw m c hne hc hm

/-- A changed field breaks nothing exactly when it is not the last one that goes, the type does not
owe it, and the types that implement the type have it under its new name. -/
theorem violations_eq_nil_iff (hk : s.Keyed) (hk' : s'.Keyed) (hs : s.violations = [])
    (hf : d.hasField old = true) (hnew : new ≠ some old) :
    s'.violations = [] ↔
      ((∃ n, new = some n) ∨ ∃ n, n ≠ old ∧ d.hasField n = true) ∧ ¬ s.Owes type old ∧
      ∀ n w, new = some n → d.body.field? old = some w → ∀ m e, m ≠ type →
        s.types.get? m = some e → e.implements type = true → s.Provides e (w.withName n) := by
  have hs : s.WellFormed := hk.violations_eq_nil_iff.mp hs
  have hroots : s'.roots = s.roots := by rw [h.rest]
  obtain ⟨b, hb, hbody⟩ := h.changed d hd
  rw [hk'.violations_eq_nil_iff, wellFormed_of_outline_iff (h.outline?_eq hd) hs hroots fun r hr =>
      h.exists_mem_references hd hr, h.forall_hasParts_iff hd hk hk' hs hf,
    h.forall_covers_iff hd hs hb hbody, forall_covers_iff_not_owes hd hk hs hbody hnew,
    forall_covers_iff_provides hd hk hs hbody]

end FieldBecomes

end Schema

/-! ## Renaming back -/

theorem TypeBody.renameField_renameField {b : TypeBody} (hb : b.Keyed) {old new : Name}
    (hnew : b.hasField new = false) : (b.renameField old new).renameField new old = b := by
  have hfields {fields : Table Name Field} (hk : fields.Keyed Field.name)
      (hfree : fields.contains new = false) :
      (fields.rekey old new fun f => { f with name := new }).rekey new old
        (fun f => { f with name := old }) = fields := by
    refine Table.rekey_rekey (Table.contains_eq_false_iff.mp hfree) fun f hf => ?_
    obtain rfl : f.name = old := hk _ hf
    rfl
  cases b with
  | object interfaces fields => exact congrArg (object interfaces) (hfields hb.1 hnew)
  | interface interfaces fields => exact congrArg (interface interfaces) (hfields hb.1 hnew)
  | inputObject fields =>
    refine congrArg inputObject (Table.rekey_rekey (Table.contains_eq_false_iff.mp hnew) ?_)
    intro v hv
    obtain rfl : v.name = old := hb _ hv
    rfl
  | _ => rfl

theorem Schema.renameField_renameField {s : Schema} (hk : s.Keyed) {type old new : Name}
    {d : TypeDefinition} (hd : s.types.get? type = some d) (hnew : d.hasField new = false) :
    (s.renameField type old new).renameField type new old = s := by
  have htypes : (s.types.modify type fun d => { d with body := d.body.renameField old new }).modify
      type (fun d => { d with body := d.body.renameField new old }) = s.types := by
    rw [Table.modify, Table.modify, Table.map_map]
    refine Table.map_eq_self fun n e he => ?_
    by_cases hn : n = type
    · subst hn
      cases hd.symm.trans (Table.get?_eq_some_iff.mpr he)
      have hback : (d.body.renameField old new).renameField new old = d.body :=
        TypeBody.renameField_renameField (hk.bodies d (Table.mem_values_of_get? hd)) hnew
      simp only [↓reduceIte, hback]
    · rw [if_neg hn, if_neg hn]
  exact congrArg (fun t => { s with types := t }) htypes

/-! ## The rules -/

namespace Rule

variable {s s' : Schema} {r : FieldReference} {d : TypeDefinition}

theorem removeField_apply_eq_ok_iff (hs : s.violations = []) (hd : s.types.get? r.type = some d)
    (hf : d.hasField r.field = true) :
    (Rule.removeField r).apply s = .ok s' ↔
      s' = s.withoutField r.type r.field ∧ (s.withoutField r.type r.field).violations = [] :=
  apply_eq_ok_iff_of_changes hs (.removeField hd hf)

theorem renameField_apply_eq_ok_iff (hs : s.violations = []) (hd : s.types.get? r.type = some d)
    (hf : d.hasField r.field = true) {new : Name} (hnew : d.hasField new = false) :
    (Rule.renameField r new).apply s = .ok s' ↔
      s' = s.renameField r.type r.field new ∧
        (s.renameField r.type r.field new).violations = [] :=
  apply_eq_ok_iff_of_changes hs (.renameField hd hf hnew)

/-- A renamed field gets its name back by the rule that renames it back. -/
theorem renameField_apply_back (hk : s.Keyed) (hs : s.violations = [])
    (hd : s.types.get? r.type = some d) (hf : d.hasField r.field = true) {new : Name}
    (hnew : d.hasField new = false) (h : (Rule.renameField r new).apply s = .ok s') :
    (Rule.renameField { r with field := new } r.field).apply s' = .ok s := by
  obtain ⟨rfl, hs'⟩ := (renameField_apply_eq_ok_iff hs hd hf hnew).mp h
  obtain ⟨b, hb, hbody⟩ := (Schema.renameField_fieldBecomes hk hd hnew).changed d hd
  have hfield (n : Name) : b.hasField n = true ↔
      d.hasField n = true ∧ n ≠ r.field ∨ some new = some n ∧ d.hasField r.field = true :=
    hbody.hasField_iff (hk.bodies d (Table.mem_values_of_get? hd))
      ((Schema.renameField_keyed hk _ _ _).bodies _ (Table.mem_values_of_get? hb))
  have hold : ¬ b.hasField r.field = true := by
    rw [hfield]
    rintro (⟨-, hne⟩ | ⟨hsame, -⟩)
    · exact hne rfl
    · cases hsame
      exact absurd (hf.symm.trans hnew) (by decide)
  have hback : (s.renameField r.type r.field new).renameField r.type new r.field = s :=
    Schema.renameField_renameField hk hd hnew
  refine (renameField_apply_eq_ok_iff (r := { r with field := new }) hs' hb
    ((hfield new).mpr (Or.inr ⟨rfl, hf⟩)) (Bool.not_eq_true _ ▸ hold)).mpr ⟨hback.symm, ?_⟩
  exact (congrArg Schema.violations hback).trans hs

/-- A field can go when it is not the last one and the type does not owe it. -/
theorem exists_removeField_apply_iff (hk : s.Keyed) (hs : s.violations = [])
    (hd : s.types.get? r.type = some d) (hf : d.hasField r.field = true) :
    (∃ s', (Rule.removeField r).apply s = .ok s') ↔
      (∃ n, n ≠ r.field ∧ d.hasField n = true) ∧ ¬ s.Owes r.type r.field := by
  have hvalid := (Schema.withoutField_fieldBecomes hk r.type r.field).violations_eq_nil_iff hd hk
    (Schema.withoutField_keyed hk _ _) hs hf (by simp)
  simp [removeField_apply_eq_ok_iff hs hd hf, hvalid]

/-- A field can get another name when the type does not owe it and the types that implement the type
have it under that name. -/
theorem exists_renameField_apply_iff (hk : s.Keyed) (hs : s.violations = [])
    (hd : s.types.get? r.type = some d) (hf : d.hasField r.field = true) {new : Name}
    (hnew : d.hasField new = false) :
    (∃ s', (Rule.renameField r new).apply s = .ok s') ↔
      ¬ s.Owes r.type r.field ∧
      (d.kind = .interface → ∀ w, d.body.field? r.field = some w → ∀ n e, n ≠ r.type →
        s.types.get? n = some e → e.implements r.type = true → s.Provides e (w.withName new)) := by
  have hne : some new ≠ some r.field := fun h => by
    cases h
    exact absurd (hf.symm.trans hnew) (by decide)
  have hvalid := (Schema.renameField_fieldBecomes hk hd hnew).violations_eq_nil_iff hd hk
    (Schema.renameField_keyed hk _ _ _) hs hf hne
  simp only [renameField_apply_eq_ok_iff hs hd hf hnew, exists_eq_left, hvalid]
  constructor
  · rintro ⟨-, howes, hprovides⟩
    exact ⟨howes, fun _ w hw n e hn he hi => hprovides new w rfl hw n e hn he hi⟩
  · rintro ⟨howes, hprovides⟩
    refine ⟨Or.inl ⟨new, rfl⟩, howes, ?_⟩
    rintro n w ⟨⟩ hw m e hm he hi
    -- what is implemented is an interface
    obtain ⟨d', hd', hkind, -⟩ := (hk.violations_eq_nil_iff.mp hs).keeps m e he r.type
      (TypeDefinition.implements_iff.mp hi)
    cases hd.symm.trans hd'
    exact hprovides hkind w hw m e hm he hi

/-- After a renaming the types that implement the type have the field under its new name. -/
theorem provides_of_renameField_apply (hk : s.Keyed) (hs : s.violations = [])
    (hd : s.types.get? r.type = some d) (hf : d.hasField r.field = true) {new : Name}
    (hnew : d.hasField new = false) (h : (Rule.renameField r new).apply s = .ok s') {w : Field}
    (hw : d.body.field? r.field = some w) {n : Name} {e : TypeDefinition}
    (he : s'.types.get? n = some e) (hi : e.implements r.type = true) :
    s'.Provides e (w.withName new) := by
  obtain ⟨rfl, hs'⟩ := (renameField_apply_eq_ok_iff hs hd hf hnew).mp h
  have hk' := Schema.renameField_keyed hk r.type r.field new
  obtain ⟨b, hb, hbody⟩ := (Schema.renameField_fieldBecomes hk hd hnew).changed d hd
  obtain ⟨hmem, hname⟩ :=
    (hk.bodies d (Table.mem_values_of_get? hd)).field?_eq_some_iff.mp hw
  refine (hk'.violations_eq_nil_iff.mp hs').provides hk' he hb hi ?_
  rw [hbody.outputFields]
  exact mem_filterMap_fate_iff.mpr (Or.inr ⟨w, hmem, hname, new, rfl, rfl⟩)

/-- In a keyed schema without violations a field can be removed exactly when it is not the last one
and its type does not owe it to another interface, and it can be renamed exactly when its type does
not owe it to another interface and the types that implement its type have it under the new name.
What comes out is the one keyed schema in which the field and nothing else has changed, and a
renaming can be taken back. -/
theorem fieldRules_apply_iff (hk : s.Keyed) (hs : s.violations = [])
    (hd : s.types.get? r.type = some d) (hf : d.hasField r.field = true) :
    (((∃ s', (Rule.removeField r).apply s = .ok s') ↔
        (∃ n, n ≠ r.field ∧ d.hasField n = true) ∧ ¬ s.Owes r.type r.field) ∧
      ∀ s', (Rule.removeField r).apply s = .ok s' →
        ∀ t, t.Keyed ∧ s.FieldBecomes r.type r.field none t ↔ t = s') ∧
    ∀ new, d.hasField new = false →
      ((∃ s', (Rule.renameField r new).apply s = .ok s') ↔
        ¬ s.Owes r.type r.field ∧
        (d.kind = .interface → ∀ w, d.body.field? r.field = some w → ∀ n e, n ≠ r.type →
          s.types.get? n = some e → e.implements r.type = true → s.Provides e (w.withName new))) ∧
      ∀ s', (Rule.renameField r new).apply s = .ok s' →
        (∀ t, t.Keyed ∧ s.FieldBecomes r.type r.field (some new) t ↔ t = s') ∧
        (∀ w, d.body.field? r.field = some w → ∀ n e, s'.types.get? n = some e →
          e.implements r.type = true → s'.Provides e (w.withName new)) ∧
        (Rule.renameField { r with field := new } r.field).apply s' = .ok s := by
  have hdetermined {new : Option Name} {s' : Schema} (hk' : s'.Keyed)
      (h : s.FieldBecomes r.type r.field new s') (t : Schema) :
      t.Keyed ∧ s.FieldBecomes r.type r.field new t ↔ t = s' :=
    ⟨fun ht => ht.2.unique hd hf ht.1 hk' h, fun ht => ht ▸ ⟨hk', h⟩⟩
  refine ⟨⟨exists_removeField_apply_iff hk hs hd hf, fun s' h => ?_⟩, fun new hnew =>
    ⟨exists_renameField_apply_iff hk hs hd hf hnew, fun s' h => ⟨?_, ?_, ?_⟩⟩⟩
  · obtain ⟨rfl, -⟩ := (removeField_apply_eq_ok_iff hs hd hf).mp h
    exact hdetermined (Schema.withoutField_keyed hk _ _) (Schema.withoutField_fieldBecomes hk _ _)
  · obtain ⟨rfl, -⟩ := (renameField_apply_eq_ok_iff hs hd hf hnew).mp h
    exact hdetermined (Schema.renameField_keyed hk _ _ _)
      (Schema.renameField_fieldBecomes hk hd hnew)
  · exact fun w hw n e he hi => provides_of_renameField_apply hk hs hd hf hnew h hw he hi
  · exact renameField_apply_back hk hs hd hf hnew h

end Rule

/-- An orchestra with two interfaces of one field each that a flute implements. -/
def orchestra : Schema :=
  let playable : Name := ⟨"Playable", by decide⟩
  let tunable : Name := ⟨"Tunable", by decide⟩
  let flute : Name := ⟨"Flute", by decide⟩
  let sound : Name := ⟨"sound", by decide⟩
  let pitch : Name := ⟨"pitch", by decide⟩
  let fields (ns : List Name) (t : Name) : Table Name Field :=
    .ofList (ns.map fun n => (n, .ofType n (.named t)))
  { Schema.empty "orchestra" with
    types := .ofList [
      (playable, ⟨playable, none, [], .interface .empty (fields [sound] playable)⟩),
      (tunable, ⟨tunable, none, [], .interface .empty (fields [pitch] flute)⟩),
      (flute, ⟨flute, none, [], .object (.ofList [playable, tunable])
        (fields [sound, pitch, ⟨"breath", by decide⟩] flute)⟩)] }

/-- The flute can lose what it does not owe, and the interface can lose nothing. The field of the
interface can take a name under which the flute has a field, and the field of the flute no other. -/
theorem fieldRules_apply_iff_orchestra :
    let playable : Name := ⟨"Playable", by decide⟩
    let flute : Name := ⟨"Flute", by decide⟩
    let sound : Name := ⟨"sound", by decide⟩
    let breath : Name := ⟨"breath", by decide⟩
    (∃ s', (Rule.removeField ⟨none, flute, breath⟩).apply orchestra = .ok s') ∧
      (¬ ∃ s', (Rule.removeField ⟨none, playable, sound⟩).apply orchestra = .ok s') ∧
      (∃ s', (Rule.renameField ⟨none, playable, sound⟩ breath).apply orchestra = .ok s' ∧
        (Rule.renameField ⟨none, playable, breath⟩ sound).apply s' = .ok orchestra) ∧
      ¬ ∃ s', (Rule.renameField ⟨none, flute, sound⟩ ⟨"tone", by decide⟩).apply orchestra
        = .ok s' := by
  intro playable flute sound breath
  have hk : orchestra.Keyed := by decide
  have hs : orchestra.violations = [] := by decide
  have hrename : (Rule.renameField ⟨none, playable, sound⟩ breath).apply orchestra
      = .ok (orchestra.renameField playable sound breath) := by decide
  refine ⟨?_, ?_, ⟨_, hrename, ?_⟩, ?_⟩
  · refine (Rule.fieldRules_apply_iff hk hs (r := ⟨none, flute, breath⟩) rfl (by decide)).1.1.mpr
      ⟨⟨sound, by decide, by decide⟩, ?_⟩
    rintro ⟨d, n, e, hd, -, hi, he, hf⟩
    cases hd
    have hn : n = playable ∨ n = ⟨"Tunable", by decide⟩ :=
      List.mem_pair.mp (TypeDefinition.implements_iff.mp hi)
    rcases hn with rfl | rfl <;> cases he <;> exact absurd hf (by decide)
  · intro h
    obtain ⟨⟨n, hn, hfield⟩, -⟩ := (Rule.fieldRules_apply_iff hk hs
      (r := ⟨none, playable, sound⟩) rfl (by decide)).1.1.mp h
    exact hn (List.mem_singleton.mp (Table.contains_iff.mp hfield))
  · exact ((Rule.fieldRules_apply_iff hk hs (r := ⟨none, playable, sound⟩) rfl
      (by decide)).2 breath (by decide)).2 _ hrename |>.2.2
  · intro h
    refine ((Rule.fieldRules_apply_iff hk hs (r := ⟨none, flute, sound⟩) rfl
      (by decide)).2 ⟨"tone", by decide⟩ (by decide)).1.mp h |>.1 ?_
    exact ⟨_, playable, _, rfl, by decide, by decide, rfl, by decide⟩

end SchemaWeave
