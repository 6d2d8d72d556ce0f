import SchemaWeave.Proofs.EntryPoints
import SchemaWeave.Proofs.Rewrite.Removal

/-!
# What the removal of a type breaks

In a keyed schema without violations, the removal of a type can leave a type with nothing in
it, a type without a field that one of its interfaces has, and a non-null argument of a
directive without its type. These are exactly the violations that it causes.

## Contracts

A field and the interface field that it implements lose the same arguments, because the check
has made sure that the arguments of an interface field are there with the same types. A field
that the interface loses is a field more in the type, which no contract forbids. So only the
type can fall short, where its own field goes and that of the interface stays.
-/

namespace SchemaWeave

/-! ## Violations -/

/-- Whether a body of a kind that needs parts, enums aside, has none. -/
def TypeBody.IsHollow : TypeBody → Prop
  | .object _ fields => fields.keys = []
  | .interface _ fields => fields.keys = []
  | .inputObject fields => fields.keys = []
  | .union members => members.toList = []
  | .scalar => False
  | .enum _ => False

/-- The violations of a schema that has lost a type. -/
inductive Schema.Spoiled (s : Schema) (gone : Name) : Violation → Prop where
  | hollow {d : TypeDefinition} (hd : d ∈ s.types.values) (h : d.body.IsHollow) :
    s.Spoiled gone (.nothingInside d.kind d.name)
  | unfulfilled {type interface field : Name} {d e : TypeDefinition}
    (hd : s.types.get? type = some d) (hi : d.implements interface)
    (he : s.types.get? interface = some e) (hf : e.hasField field) (hnot : ¬ d.hasField field) :
    s.Spoiled gone (.fieldMissing type interface field)
  | dangling {d : DirectiveDefinition} {a : InputValue} (hgone : ¬ isBuiltInScalar gone.text)
    (hd : d ∈ s.directiveDefinitions.values) (ha : a ∈ d.arguments.values)
    (hnull : a.type.isNonNull) (hname : a.type.innerName = gone) :
    s.Spoiled gone (.unknownType (.directiveArgument d.name a.name) gone)

namespace Schema

variable {s : Schema} {gone : Name}

/-! ## Contracts -/

/-- A field that stays still implements an interface field that stays. -/
theorem checkField_withoutType {type interface name : Name} {f wanted : Field} (hf : f.Keyed)
    (hfs : f.survives gone = true) (hws : wanted.survives gone = true)
    (h : s.checkField type interface name f wanted = []) :
    (s.withoutType gone).checkField type interface name (f.dropArguments gone)
      (wanted.dropArguments gone) = [] := by
  obtain ⟨hsub, hgiven, hrequired⟩ := (checkField_eq_nil_iff hf).mp h
  have hf' : (f.dropArguments gone).Keyed := Table.Keyed.filter hf _
  refine (checkField_eq_nil_iff hf').mpr ⟨?_, ?_, ?_⟩
  · show (s.withoutType gone).isSubtype f.type wanted.type = true
    rw [isSubtype_withoutType (Field.survives_iff.mp hfs).1 (Field.survives_iff.mp hws).1]
    exact hsub
  · intro n b hb
    obtain ⟨hb, hne⟩ := Field.get?_dropArguments.mp hb
    obtain ⟨a, ha, htype⟩ := hgiven n b hb
    exact ⟨a, Field.get?_dropArguments.mpr ⟨ha, by rw [htype]; exact hne⟩, htype⟩
  · intro n a ha hnull hdefault
    obtain ⟨ha, hne⟩ := Field.get?_dropArguments.mp ha
    obtain ⟨b, hb⟩ := Table.exists_get?_of_mem_keys (hrequired n a ha hnull hdefault)
    -- the interface field asks for the argument with the type that it has, so it keeps it too
    obtain ⟨a', ha', htype⟩ := hgiven n b hb
    rw [ha] at ha'
    cases ha'
    exact Table.mem_keys_of_get? (Field.get?_dropArguments.mpr ⟨hb, by rw [← htype]; exact hne⟩)

/-- Of a contract that was kept only the presence of fields can be lost. -/
theorem mem_checkContract_withoutType {type interface : Name} {fields wanted : Table Name Field}
    (hf : ∀ f ∈ fields.values, f.Keyed) (h : s.checkContract type interface fields wanted = [])
    {v : Violation}
    (hv : v ∈ (s.withoutType gone).checkContract type interface (remainingFields fields gone)
      (remainingFields wanted gone)) :
    ∃ name ∈ (remainingFields wanted gone).keys,
      name ∉ (remainingFields fields gone).keys ∧ v = .fieldMissing type interface name := by
  obtain ⟨⟨name, w'⟩, hw', hv⟩ := List.mem_flatMap.mp hv
  refine ⟨name, Table.mem_keys_of_mem hw', ?_⟩
  obtain ⟨w, hw, hws, rfl⟩ := get?_remainingFields.mp (Table.get?_eq_some_iff.mpr hw')
  have hcheck := List.flatMap_eq_nil_iff.mp h (name, w) (Table.get?_eq_some_iff.mp hw)
  dsimp only at hcheck hv
  cases hg : (remainingFields fields gone).get? name with
  | none =>
    rw [hg] at hv
    exact ⟨Table.get?_eq_none_iff.mp hg, List.mem_singleton.mp hv⟩
  | some f' =>
    obtain ⟨f, hget, hfs, rfl⟩ := get?_remainingFields.mp hg
    rw [hget] at hcheck
    rw [hg] at hv
    dsimp only at hv
    rw [checkField_withoutType (hf f (Table.mem_values_of_get? hget)) hfs hws hcheck] at hv
    cases hv

/-- An interface that was implemented and stays is implemented up to fields that are missing. -/
theorem mem_checkInterface_withoutType {type interface : Name} {interfaces : Distinct Name}
    {fields : Table Name Field} (hne : interface ≠ gone) (hf : ∀ f ∈ fields.values, f.Keyed)
    (h : s.checkInterface type interfaces fields interface = []) {v : Violation}
    (hv : v ∈ (s.withoutType gone).checkInterface type (interfaces.erase gone)
      (remainingFields fields gone) interface) :
    ∃ e name, (s.withoutType gone).types.get? interface = some e ∧ e.hasField name ∧
      name ∉ (remainingFields fields gone).keys ∧ v = .fieldMissing type interface name := by
  obtain ⟨e, inherited, wanted, he, hbody, hinherited, hcontract⟩ :=
    checkInterface_eq_nil_iff.mp h
  have he' : (s.withoutType gone).types.get? interface = some (e.withoutType gone) :=
    get?_withoutType_eq_some.mpr ⟨hne, e, he, rfl⟩
  have hbody' : (e.withoutType gone).body
      = .interface (inherited.erase gone) (remainingFields wanted gone) := by
    rw [TypeDefinition.withoutType, hbody]
    rfl
  -- what the interface implements besides the type that goes, the type still implements
  have hnone : ((inherited.erase gone).toList.filter fun n => !(interfaces.erase gone).contains n)
      = [] := by
    rw [List.filter_eq_nil_iff]
    intro n hn
    obtain ⟨hn, hng⟩ := Distinct.mem_erase.mp hn
    rw [Distinct.contains_erase hng]
    simp [Distinct.contains, hinherited n hn]
  unfold checkInterface type? at hv
  rw [he', Option.map_some, hbody'] at hv
  dsimp only at hv
  rw [hnone] at hv
  obtain ⟨name, hname, hnot, rfl⟩ := mem_checkContract_withoutType hf hcontract hv
  refine ⟨_, name, he', ?_, hnot, rfl⟩
  unfold TypeDefinition.hasField
  rw [hbody']
  exact Table.contains_iff.mpr hname

/-! ## Types -/

/-- What can become wrong with an object type or an interface that stays. -/
theorem mem_checkFields_withoutType {kind : TypeKind} {type : Name} {interfaces : Distinct Name}
    {fields : Table Name Field} (hk : fields.Keyed Field.name) (hf : ∀ f ∈ fields.values, f.Keyed)
    (h : s.checkFields kind type interfaces fields = []) {v : Violation}
    (hv : v ∈ (s.withoutType gone).checkFields kind type (interfaces.erase gone)
      (remainingFields fields gone)) :
    ((remainingFields fields gone).keys = [] ∧ v = .nothingInside kind type) ∨
      ∃ interface ∈ (interfaces.erase gone).toList, ∃ e name,
        (s.withoutType gone).types.get? interface = some e ∧ e.hasField name ∧
        name ∉ (remainingFields fields gone).keys ∧ v = .fieldMissing type interface name := by
  unfold checkFields at h hv
  rw [List.append_eq_nil_iff, List.flatMap_eq_nil_iff] at h
  rw [repeatedFields_values (remainingFields_keyed gone hk hf).1, List.nil_append,
    List.mem_append] at hv
  rcases hv with hv | hv
  · obtain ⟨hempty, rfl⟩ := mem_checkParts.mp hv
    refine Or.inl ⟨?_, rfl⟩
    rw [Table.keys, List.isEmpty_iff.mp hempty]
    rfl
  · obtain ⟨interface, hi, hv⟩ := List.mem_flatMap.mp hv
    obtain ⟨himem, hne⟩ := Distinct.mem_erase.mp hi
    exact Or.inr ⟨interface, hi, mem_checkInterface_withoutType hne hf (h.2 interface himem) hv⟩

/-- What becomes wrong with the fields and the interfaces of a type that stays spoils the
schema. -/
theorem spoiled_of_mem_checkFields {d : TypeDefinition} {interfaces : Distinct Name}
    {fields : Table Name Field}
    (hbody : d.body = .object interfaces fields ∨ d.body = .interface interfaces fields)
    (hk : d.body.Keyed)
    (hd : (s.withoutType gone).types.get? d.name = some (d.withoutType gone))
    (h : s.checkFields d.kind d.name interfaces fields = []) {v : Violation}
    (hv : v ∈ (s.withoutType gone).checkFields d.kind d.name (interfaces.erase gone)
      (remainingFields fields gone)) : (s.withoutType gone).Spoiled gone v := by
  have hkeyed : fields.Keyed Field.name ∧ ∀ f ∈ fields.values, f.Keyed := by
    rcases hbody with hbody | hbody <;> rw [hbody] at hk <;> exact hk
  have hbody' : (d.withoutType gone).body
        = .object (interfaces.erase gone) (remainingFields fields gone) ∨
      (d.withoutType gone).body
        = .interface (interfaces.erase gone) (remainingFields fields gone) := by
    unfold TypeDefinition.withoutType
    rcases hbody with hbody | hbody <;> rw [hbody]
    · exact Or.inl rfl
    · exact Or.inr rfl
  rcases mem_checkFields_withoutType hkeyed.1 hkeyed.2 h hv with ⟨hempty, rfl⟩ | hmissing
  · rw [show d.kind = (d.withoutType gone).kind from (TypeBody.withoutType_kind d.body gone).symm]
    refine Spoiled.hollow (Table.mem_values_of_get? hd) ?_
    rcases hbody' with hbody' | hbody' <;> rw [hbody'] <;> exact hempty
  · obtain ⟨interface, hi, e, field, he, hfield, hnot, rfl⟩ := hmissing
    refine Spoiled.unfulfilled hd ?_ he hfield ?_
    · unfold TypeDefinition.implements
      rcases hbody' with hbody' | hbody' <;> rw [hbody'] <;> exact decide_eq_true hi
    · unfold TypeDefinition.hasField
      rcases hbody' with hbody' | hbody' <;> rw [hbody'] <;>
        exact fun hf => hnot (Table.contains_iff.mp hf)

theorem checkMember_withoutType {union member : Name} (h : member ≠ gone) :
    (s.withoutType gone).checkMember union member = s.checkMember union member := by
  unfold checkMember
  rw [kind?_withoutType h]

theorem checkRoot_withoutType {r : RootOperation × Name} (h : r.2 ≠ gone) :
    (s.withoutType gone).checkRoot r = s.checkRoot r := by
  unfold checkRoot
  rw [kind?_withoutType h]

/-- What becomes wrong with a type that stays spoils the schema. -/
theorem spoiled_of_mem_checkType {d : TypeDefinition} (hk : d.body.Keyed)
    (hd : (s.withoutType gone).types.get? d.name = some (d.withoutType gone))
    (h : s.checkType d = []) {v : Violation}
    (hv : v ∈ (s.withoutType gone).checkType (d.withoutType gone)) :
    (s.withoutType gone).Spoiled gone v := by
  have hmem : d.withoutType gone ∈ (s.withoutType gone).types.values := Table.mem_values_of_get? hd
  obtain ⟨name, description, directives, body⟩ := d
  cases body with
  | scalar => cases hv
  | enum values =>
    -- values refer to no type, so the check of an enum stays what it was
    have hsame : (s.withoutType gone).checkType
        (TypeDefinition.withoutType ⟨name, description, directives, .enum values⟩ gone)
        = s.checkType ⟨name, description, directives, .enum values⟩ := rfl
    rw [hsame, h] at hv
    cases hv
  | object interfaces fields => exact spoiled_of_mem_checkFields (Or.inl rfl) hk hd h hv
  | interface interfaces fields => exact spoiled_of_mem_checkFields (Or.inr rfl) hk hd h hv
  | union members =>
    have hmembers := List.flatMap_eq_nil_iff.mp (List.append_eq_nil_iff.mp h).2
    rcases List.mem_append.mp hv with hv | hv
    · obtain ⟨hempty, rfl⟩ := mem_checkParts.mp hv
      exact Spoiled.hollow hmem (List.isEmpty_iff.mp hempty)
    · obtain ⟨member, hm, hv⟩ := List.mem_flatMap.mp hv
      obtain ⟨hm, hne⟩ := Distinct.mem_erase.mp hm
      rw [checkMember_withoutType hne] at hv
      have hnone : s.checkMember name member = [] := hmembers member hm
      change v ∈ s.checkMember name member at hv
      rw [hnone] at hv
      cases hv
  | inputObject fields =>
    have hkeyed : (fields.filter fun _ f => !f.type.refersTo gone).Keyed InputValue.name :=
      Table.Keyed.filter hk _
    rcases List.mem_append.mp hv with hv | hv
    · have hnone : repeatedFields name _ = [] := repeatedFields_values hkeyed
      change v ∈ repeatedFields name _ at hv
      rw [hnone] at hv
      cases hv
    · obtain ⟨hempty, rfl⟩ := mem_checkParts.mp hv
      refine Spoiled.hollow hmem ?_
      show Table.keys _ = []
      rw [Table.keys, List.isEmpty_iff.mp hempty]
      rfl

/-! ## Directives and entry points -/

/-- What becomes wrong with a reference of a directive is that its type is gone. -/
theorem spoiled_of_mem_directive {d : DirectiveDefinition}
    (hd : d ∈ s.directiveDefinitions.values) (h : ∀ r ∈ d.references, s.checkReference r = [])
    {r : Reference} (hr : r ∈ (d.withoutType gone).references) {v : Violation}
    (hv : v ∈ (s.withoutType gone).checkReference r) : (s.withoutType gone).Spoiled gone v := by
  obtain ⟨a, ha, rfl⟩ := List.mem_map.mp hr
  obtain ⟨ha', hstays⟩ := DirectiveDefinition.mem_withoutType_arguments.mp ha
  have hchecked := h _ (List.mem_map_of_mem ha')
  by_cases hne : a.type.innerName = gone
  · have hnull : a.type.isNonNull = true := hstays.resolve_right fun h => h hne
    have hd' : d.withoutType gone ∈ (s.withoutType gone).directiveDefinitions.values := by
      obtain ⟨n, hn⟩ := Table.mem_values_iff.mp hd
      refine Table.mem_values_iff.mpr ⟨n, ?_⟩
      show (s.directiveDefinitions.map fun _ d => d.withoutType gone).get? n = _
      rw [Table.get?_map, hn]
      rfl
    unfold checkReference at hv
    dsimp only at hv
    rw [hne, kind?_withoutType_self] at hv
    split at hv
    · next hnone =>
      have hscalar : ¬ isBuiltInScalar gone.text := by
        intro hs
        rw [if_pos hs] at hnone
        cases hnone
      rw [List.mem_singleton.mp hv]
      exact Spoiled.dangling hscalar hd' ha hnull hne
    · next kind hkind =>
      -- a built-in scalar stands in for the type, and scalars may be arguments
      split at hkind
      · cases hkind
        cases hv
      · cases hkind
  · -- the type of the argument stays, and so does what the check says of it
    rw [checkReference_withoutType hne] at hv
    have hnone : s.checkReference ⟨.directiveArgument d.name a.name, a.type, .input⟩ = [] :=
      hchecked
    change v ∈ s.checkReference ⟨.directiveArgument d.name a.name, a.type, .input⟩ at hv
    rw [hnone] at hv
    cases hv

theorem mem_roots_withoutType {r : RootOperation × Name}
    (h : r ∈ (s.withoutType gone).roots.toList) : r ∈ s.roots.toList ∧ r.2 ≠ gone := by
  obtain ⟨op, n⟩ := r
  have hget : (s.roots.filter fun n => n ≠ gone).get op = some n := RootOperations.mem_toList.mp h
  rw [RootOperations.get_filter, Option.filter_eq_some_iff] at hget
  exact ⟨RootOperations.mem_toList.mpr hget.1, by simpa using hget.2⟩

/-! ## All violations -/

theorem mem_types_withoutType {d' : TypeDefinition} :
    d' ∈ (s.withoutType gone).types.values ↔
      ∃ n d, n ≠ gone ∧ s.types.get? n = some d ∧ d' = d.withoutType gone := by
  rw [Table.mem_values_iff]
  simp only [get?_withoutType_eq_some]
  constructor
  · rintro ⟨n, hne, d, hd, he⟩
    exact ⟨n, d, hne, hd, he⟩
  · rintro ⟨n, d, hne, hd, he⟩
    exact ⟨n, hne, d, hd, he⟩

theorem mem_directives_withoutType {d' : DirectiveDefinition} :
    d' ∈ (s.withoutType gone).directiveDefinitions.values ↔
      ∃ d ∈ s.directiveDefinitions.values, d' = d.withoutType gone := by
  show d' ∈ (s.directiveDefinitions.map fun _ d => d.withoutType gone).values ↔ _
  rw [Table.values_map, List.mem_map]
  simp only [eq_comm]

/-- Every violation after the removal of a type is one of the three that it can cause. -/
theorem spoiled_of_mem_violations (hk : s.Keyed) (hs : s.violations = []) {v : Violation}
    (hv : v ∈ (s.withoutType gone).violations) : (s.withoutType gone).Spoiled gone v := by
  obtain ⟨hrefs, htypes, hroots⟩ := violations_eq_nil_iff.mp hs
  rcases mem_violations.mp hv with ⟨r, hr, hv⟩ | ⟨d', hd', hv⟩ | ⟨r, hr, hv⟩
  · -- references of types go with the type, those of directives may stay
    rcases List.mem_append.mp hr with hr | hr
    · obtain ⟨d', hd', hr⟩ := List.mem_flatMap.mp hr
      obtain ⟨n, d, -, hd, rfl⟩ := mem_types_withoutType.mp hd'
      obtain ⟨hr, hne⟩ := TypeDefinition.mem_references_withoutType hr
      have hmem : r ∈ s.references := List.mem_append_left _
        (List.mem_flatMap.mpr ⟨d, Table.mem_values_of_get? hd, hr⟩)
      rw [checkReference_withoutType hne, hrefs r hmem] at hv
      cases hv
    · obtain ⟨d', hd', hr⟩ := List.mem_flatMap.mp hr
      obtain ⟨d, hd, rfl⟩ := mem_directives_withoutType.mp hd'
      refine spoiled_of_mem_directive hd (fun r hr => hrefs r ?_) hr hv
      exact List.mem_append_right _ (List.mem_flatMap.mpr ⟨d, hd, hr⟩)
  · obtain ⟨n, d, hne, hd, rfl⟩ := mem_types_withoutType.mp hd'
    have hmem := Table.mem_values_of_get? hd
    refine spoiled_of_mem_checkType (hk.bodies d hmem) ?_ (htypes d hmem) hv
    have hname : d.name = n := hk.types.name_eq hd
    rw [hname]
    exact get?_withoutType_eq_some.mpr ⟨hne, d, hd, rfl⟩
  · obtain ⟨hr, hne⟩ := mem_roots_withoutType hr
    rw [checkRoot_withoutType hne, hroots r hr] at hv
    cases hv

end Schema

end SchemaWeave
