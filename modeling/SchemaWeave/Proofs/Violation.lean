import SchemaWeave.Proofs.Keyed.Basic
import SchemaWeave.Schema.Violation

/-!
# What the check asks for

The check lists violations place by place. Here is what it takes for each place to have none, and
what follows for a schema that has none at all: whatever is implemented is an interface, and its
contract is kept.
-/

namespace SchemaWeave

namespace Schema

variable {s : Schema}

/-! ## Places -/

theorem mem_violations {v : Violation} :
    v ∈ s.violations ↔
      (∃ r ∈ s.references, v ∈ s.checkReference r) ∨
      (∃ d ∈ s.types.values, v ∈ s.checkType d) ∨
      ∃ r ∈ s.roots.toList, v ∈ s.checkRoot r := by
  simp only [violations, List.mem_append, List.mem_flatMap, or_assoc]

theorem violations_eq_nil_iff :
    s.violations = [] ↔
      (∀ r ∈ s.references, s.checkReference r = []) ∧
      (∀ d ∈ s.types.values, s.checkType d = []) ∧
      ∀ r ∈ s.roots.toList, s.checkRoot r = [] := by
  simp only [violations, List.append_eq_nil_iff, List.flatMap_eq_nil_iff, and_assoc]

theorem validate_eq_ok_iff : s.validate = .ok () ↔ s.violations = [] := by
  unfold validate
  split
  · next h => exact iff_of_true rfl (List.isEmpty_iff.mp h)
  · next h => exact iff_of_false (fun he => by cases he) fun hnil => h (List.isEmpty_iff.mpr hnil)

theorem checkRoot_eq_nil_iff {r : RootOperation × Name} :
    s.checkRoot r = [] ↔ s.kind? r.2 = some .object := by
  unfold checkRoot
  cases s.kind? r.2 with
  | none => simp
  | some k => cases k <;> simp

theorem kind?_eq_none_iff {n : Name} :
    s.kind? n = none ↔ n ∉ s.types.keys ∧ isBuiltInScalar n.text = false := by
  unfold kind? type?
  cases hd : s.types.get? n with
  | none => simp [Table.get?_eq_none_iff.mp hd]
  | some d => simp [Table.mem_keys_of_get? hd]

/-! ## Subtypes -/

/-- The layers around a type are compared one by one, so the types inside them are subtypes. -/
theorem isNamedSubtype_of_isSubtype {t u : TypeRef} (h : s.isSubtype t u = true) :
    s.isNamedSubtype t.innerName u.innerName = true := by
  fun_induction isSubtype s t u with
  | case1 m n => exact h
  | case2 m n => exact h
  | case3 m n => exact h
  | case4 t u ih => exact ih h
  | case5 t u ih => exact ih h
  | case6 t u ih => exact ih h
  | case7 t u => cases h

/-- Schemas with the same subtypes among their named types have the same subtypes. -/
theorem isSubtype_congr {s' : Schema} (h : ∀ m n, s'.isNamedSubtype m n = s.isNamedSubtype m n)
    (t u : TypeRef) : s'.isSubtype t u = s.isSubtype t u := by
  fun_induction isSubtype s t u with
  | case1 m n => exact h m n
  | case2 m n => exact h m n
  | case3 m n => exact h m n
  | case4 t u ih => exact ih
  | case5 t u ih => exact ih
  | case6 t u ih => exact ih
  | case7 t u h1 h2 h3 h4 h5 h6 => rw [isSubtype] <;> assumption

/-! ## Schemas with the same types

The check looks up types and nothing else, so what it says of a place depends on them alone. -/

section SameTypes

variable {s' : Schema} (h : s'.types = s.types)
include h

theorem kind?_congr (n : Name) : s'.kind? n = s.kind? n := by
  unfold kind? type?
  rw [h]

theorem checkReference_congr (r : Reference) : s'.checkReference r = s.checkReference r := by
  unfold checkReference
  rw [kind?_congr h]

theorem checkRoot_congr (r : RootOperation × Name) : s'.checkRoot r = s.checkRoot r := by
  unfold checkRoot
  rw [kind?_congr h]

theorem checkType_congr (d : TypeDefinition) : s'.checkType d = s.checkType d := by
  have htype (n : Name) : s'.type? n = s.type? n := by rw [type?, type?, h]
  have hsubtype (t u : TypeRef) : s'.isSubtype t u = s.isSubtype t u :=
    isSubtype_congr (fun m n => by simp only [isNamedSubtype, htype]) t u
  have hinterface (type : Name) (interfaces : Distinct Name) (fields : Table Name Field) :
      s'.checkInterface type interfaces fields = s.checkInterface type interfaces fields := by
    funext interface
    simp only [checkInterface, checkContract, checkField, htype, hsubtype]
  have hmember (union : Name) : s'.checkMember union = s.checkMember union := by
    funext member
    simp only [checkMember, kind?_congr h]
  simp only [checkType, checkFields, hinterface, hmember]

/-- The name, the description and the applied directives of a schema are not looked at. -/
theorem violations_congr (hd : s'.directiveDefinitions = s.directiveDefinitions)
    (hr : s'.roots = s.roots) : s'.violations = s.violations := by
  rw [violations, violations, references, references, h, hd, hr,
    funext (checkReference_congr h), funext (checkType_congr h), funext (checkRoot_congr h)]

end SameTypes

/-! ## Parts of a type -/

theorem repeatedFields_eq_nil {type : Name} {names : List Name} (h : names.Nodup) :
    repeatedFields type names = [] := by
  -- over the names that have been seen, none of which comes again
  have hgo : ∀ (names seen : List Name), names.Nodup → (∀ n ∈ names, n ∉ seen) →
      repeatedFields.go type seen names = [] := by
    intro names
    induction names with
    | nil => exact fun _ _ _ => rfl
    | cons n names ih =>
      intro seen hnd hseen
      have hnd := List.nodup_cons.mp hnd
      rw [repeatedFields.go, if_neg (hseen n (by simp))]
      refine ih (n :: seen) hnd.2 fun m hm hmem => ?_
      rcases List.mem_cons.mp hmem with rfl | hmem
      · exact hnd.1 hm
      · exact hseen m (by simp [hm]) hmem
  exact hgo names [] h (by simp)

theorem repeatedFields_values {α : Type} {type : Name} {name : α → Name} {t : Table Name α}
    (h : t.Keyed name) : repeatedFields type (t.values.map name) = [] := by
  rw [h.map_name_values]
  exact repeatedFields_eq_nil t.keys_nodup

theorem mem_checkParts {kind : TypeKind} {type : Name} {none : Bool} {v : Violation} :
    v ∈ checkParts kind type none ↔ none = true ∧ v = .nothingInside kind type := by
  unfold checkParts
  cases none <;> simp

/-! ## Contracts -/

/-- What it takes for a field to implement an interface field. -/
theorem checkField_eq_nil_iff {type interface name : Name} {f wanted : Field} (hf : f.Keyed) :
    s.checkField type interface name f wanted = [] ↔
      s.isSubtype f.type wanted.type = true ∧
      (∀ n b, wanted.arguments.get? n = some b →
        ∃ a, f.arguments.get? n = some a ∧ a.type = b.type) ∧
      ∀ n a, f.arguments.get? n = some a → a.type.isNonNull = true → a.default.isNone = true →
        n ∈ wanted.arguments.keys := by
  unfold checkField
  rw [List.append_eq_nil_iff, List.append_eq_nil_iff, List.flatMap_eq_nil_iff,
    List.map_eq_nil_iff, List.filter_eq_nil_iff, and_assoc]
  refine and_congr ?_ (and_congr ?_ ?_)
  · by_cases h : s.isSubtype f.type wanted.type = true <;> simp [h]
  · have hentry (n : Name) (b : InputValue) :
        (if (f.arguments.get? n).any (fun a => a.type = b.type) then []
          else [Violation.argumentMissing type interface name n b.type]) = [] ↔
        ∃ a, f.arguments.get? n = some a ∧ a.type = b.type := by
      cases f.arguments.get? n with
      | none => simp
      | some a => by_cases h : a.type = b.type <;> simp [h]
    constructor
    · intro h n b hb
      exact (hentry n b).mp (h (n, b) (Table.get?_eq_some_iff.mp hb))
    · intro h e he
      exact (hentry e.1 e.2).mpr (h e.1 e.2 (Table.get?_eq_some_iff.mpr he))
  · simp only [Bool.and_eq_true, Bool.not_eq_true', not_and, Bool.not_eq_false,
      Table.contains_iff]
    constructor
    · intro h n a ha hnull hdefault
      rw [← hf.of_get? ha]
      exact h a (Table.mem_values_of_get? ha) ⟨hnull, hdefault⟩
    · intro h a ha hreq
      exact h a.name a (hf.get?_name ha) hreq.1 hreq.2

theorem checkInterface_eq_nil_iff {type interface : Name} {interfaces : Distinct Name}
    {fields : Table Name Field} :
    s.checkInterface type interfaces fields interface = [] ↔
      ∃ e inherited wanted, s.types.get? interface = some e ∧
        e.body = .interface inherited wanted ∧
        (∀ n ∈ inherited.toList, n ∈ interfaces.toList) ∧
        s.checkContract type interface fields wanted = [] := by
  unfold checkInterface type?
  cases s.types.get? interface with
  | none => simp
  | some e =>
    obtain ⟨name, description, directives, body⟩ := e
    cases body <;> simp [Distinct.contains]

/-- A type that implements another has an object type's or an interface's body. -/
theorem exists_interfaces_of_implements {d : TypeDefinition} {interface : Name}
    (h : d.implements interface) :
    ∃ interfaces fields, interface ∈ interfaces.toList ∧
      (d.body = .object interfaces fields ∨ d.body = .interface interfaces fields) := by
  obtain ⟨name, description, directives, body⟩ := d
  cases body with
  | object interfaces fields => exact ⟨interfaces, fields, of_decide_eq_true h, Or.inl rfl⟩
  | interface interfaces fields => exact ⟨interfaces, fields, of_decide_eq_true h, Or.inr rfl⟩
  | scalar => cases h
  | union _ => cases h
  | enum _ => cases h
  | inputObject _ => cases h

theorem checkInterface_subset_checkType {d : TypeDefinition} {interfaces : Distinct Name}
    {fields : Table Name Field} {interface : Name} (hi : interface ∈ interfaces.toList)
    (hbody : d.body = .object interfaces fields ∨ d.body = .interface interfaces fields) :
    s.checkInterface d.name interfaces fields interface ⊆ s.checkType d := by
  intro v hv
  unfold checkType
  rcases hbody with hbody | hbody <;> rw [hbody]
  · exact List.mem_append_right _ (List.mem_flatMap.mpr ⟨interface, hi, hv⟩)
  · exact List.mem_append_right _ (List.mem_flatMap.mpr ⟨interface, hi, hv⟩)

/-- In a schema without violations nothing is wrong with what a type implements. -/
theorem exists_checkInterface_of_implements (hs : s.violations = []) {n interface : Name}
    {d : TypeDefinition} (hd : s.types.get? n = some d) (h : d.implements interface) :
    ∃ interfaces fields,
      (d.body = .object interfaces fields ∨ d.body = .interface interfaces fields) ∧
      s.checkInterface d.name interfaces fields interface = [] := by
  obtain ⟨interfaces, fields, hi, hbody⟩ := exists_interfaces_of_implements h
  have hnone := (violations_eq_nil_iff.mp hs).2.1 d (Table.mem_values_of_get? hd)
  exact ⟨interfaces, fields, hbody,
    List.eq_nil_of_subset_nil (hnone ▸ checkInterface_subset_checkType hi hbody)⟩

/-- In a schema without violations a type keeps the contract of everything it implements. -/
theorem exists_contract_of_implements (hs : s.violations = []) {n interface : Name}
    {d : TypeDefinition} (hd : s.types.get? n = some d) (h : d.implements interface) :
    ∃ fields e inherited wanted, d.body.fields? = some fields ∧
      s.types.get? interface = some e ∧ e.body = .interface inherited wanted ∧
      s.checkContract d.name interface fields wanted = [] := by
  obtain ⟨interfaces, fields, hbody, hcheck⟩ := exists_checkInterface_of_implements hs hd h
  obtain ⟨e, inherited, wanted, he, hebody, -, hcontract⟩ := checkInterface_eq_nil_iff.mp hcheck
  refine ⟨fields, e, inherited, wanted, ?_, he, hebody, hcontract⟩
  rcases hbody with hbody | hbody <;> rw [hbody] <;> rfl

/-- In a schema without violations whatever is implemented is an interface. -/
theorem exists_interface_of_implements (hs : s.violations = []) {n interface : Name}
    {d : TypeDefinition} (hd : s.types.get? n = some d) (h : d.implements interface) :
    ∃ e inherited wanted, s.types.get? interface = some e ∧
      e.body = .interface inherited wanted := by
  obtain ⟨-, e, inherited, wanted, -, he, hbody, -⟩ := exists_contract_of_implements hs hd h
  exact ⟨e, inherited, wanted, he, hbody⟩

end Schema

end SchemaWeave
