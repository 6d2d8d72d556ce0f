import SchemaWeave.Proofs.Rewrite.Renaming

/-!
# Violations under a renaming

The check asks which names are equal, which types they name and of what kind those are. A
renaming to a name that is free changes none of the answers. So the violations after it are those
before it, in their order, with the type under its new name.

## Places

A violation tells the place of an element by the name of its type, and that of an entry point by
a fixed word. A renaming changes the former and not the latter, even for a type that has the
word as its name. Therefore the violations of entry points are kept apart.
-/

namespace SchemaWeave

variable {old new : Name}

/-! ## Renamed violations -/

namespace Coordinate

/-- The place of the same element when a type is renamed. -/
def renameType (old new : Name) : Coordinate → Coordinate
  | type n => type (renamed old new n)
  | member o n => member (renamed old new o) n
  | argument o f n => argument (renamed old new o) f n
  | directiveArgument d n => directiveArgument d n

end Coordinate

namespace Reference

def renameType (old new : Name) (r : Reference) : Reference :=
  ⟨r.coordinate.renameType old new, r.type.rename old new, r.position⟩

end Reference

namespace Violation

/-- The same violation of a type, a reference or a contract when a type is renamed. -/
def renameType (old new : Name) : Violation → Violation
  | unknownType place t => unknownType (place.renameType old new) (renamed old new t)
  | wrongPosition place t expected found =>
    wrongPosition (place.renameType old new) (renamed old new t) expected found
  | notAnInterface t i => notAnInterface (renamed old new t) (renamed old new i)
  | wrongMember u m => wrongMember (renamed old new u) (renamed old new m)
  | wrongRoot op t => wrongRoot op (renamed old new t)
  | fieldMissing t i f => fieldMissing (renamed old new t) (renamed old new i) f
  | fieldDiffers t i f expected found =>
    fieldDiffers (renamed old new t) (renamed old new i) f (expected.rename old new)
      (found.rename old new)
  | argumentMissing t i f a expected =>
    argumentMissing (renamed old new t) (renamed old new i) f a (expected.rename old new)
  | argumentRequired t i f a => argumentRequired (renamed old new t) (renamed old new i) f a
  | interfaceMissing t i inherited =>
    interfaceMissing (renamed old new t) (renamed old new i) (renamed old new inherited)
  | fieldRepeated t f => fieldRepeated (renamed old new t) f
  | nothingInside kind t => nothingInside kind (renamed old new t)

/-- The same violation of an entry point when a type is renamed. -/
def renameRoot (old new : Name) : Violation → Violation
  | unknownType place t => unknownType place (renamed old new t)
  | wrongRoot op t => wrongRoot op (renamed old new t)
  | v => v

end Violation

namespace Schema

/-- What is wrong with references and types. -/
def elementViolations (s : Schema) : List Violation :=
  s.references.flatMap s.checkReference ++ s.types.values.flatMap s.checkType

/-- What is wrong with entry points. -/
def rootViolations (s : Schema) : List Violation := s.roots.toList.flatMap s.checkRoot

theorem violations_eq_append (s : Schema) :
    s.violations = s.elementViolations ++ s.rootViolations := rfl

/-- The violations of a schema with a type under another name. -/
def renamedViolations (s : Schema) (old new : Name) : List Violation :=
  s.elementViolations.map (Violation.renameType old new)
    ++ s.rootViolations.map (Violation.renameRoot old new)

/-- What it takes for a type to get a new name: it is there, and the new name is free. No type
has it, and nothing refers to it. -/
structure Renamable (s : Schema) (old new : Name) : Prop where
  keyed : s.TypesKeyed
  there : old ∈ s.types.keys
  free : new ∉ s.types.keys
  avoids : s.Avoids new

variable {s : Schema}

/-! ## Kinds -/

theorem kind?_renameType (h : s.Renamable old new) {n : Name} (hn : n ≠ new) :
    (s.renameType old new).kind? (renamed old new n) = s.kind? n := by
  unfold kind? type?
  rw [get?_renameType h.keyed h.free hn]
  cases hg : s.types.get? n with
  | some d => exact congrArg some (TypeBody.renameType_kind d.body old new)
  | none =>
    -- a built-in scalar without a definition keeps its name
    have hne : n ≠ old := fun hno => Table.get?_eq_none_iff.mp hg (hno ▸ h.there)
    rw [renamed_of_ne hne]
    rfl

theorem checkReference_renameType (h : s.Renamable old new) {r : Reference}
    (hr : r.type.innerName ≠ new) :
    (s.renameType old new).checkReference (r.renameType old new)
      = (s.checkReference r).map (Violation.renameType old new) := by
  unfold checkReference Reference.renameType
  dsimp only
  rw [TypeRef.innerName_rename, kind?_renameType h hr]
  cases s.kind? r.type.innerName with
  | none => rfl
  | some kind =>
    dsimp only
    split <;> rfl

theorem checkMember_renameType (h : s.Renamable old new) {union member : Name}
    (hm : member ≠ new) :
    (s.renameType old new).checkMember (renamed old new union) (renamed old new member)
      = (s.checkMember union member).map (Violation.renameType old new) := by
  unfold checkMember
  rw [kind?_renameType h hm]
  cases s.kind? member with
  | none => rfl
  | some kind => cases kind <;> rfl

theorem checkRoot_renameType (h : s.Renamable old new) {r : RootOperation × Name}
    (hr : r.2 ≠ new) :
    (s.renameType old new).checkRoot (r.1, renamed old new r.2)
      = (s.checkRoot r).map (Violation.renameRoot old new) := by
  unfold checkRoot
  dsimp only
  rw [kind?_renameType h hr]
  cases s.kind? r.2 with
  | none => rfl
  | some kind => cases kind <;> rfl

/-! ## Subtypes -/

/-- A type implements an interface under their new names as before. -/
theorem implements_renameType {d : TypeDefinition} (hd : d.body.Avoids new) {n : Name}
    (hn : n ≠ new) : (d.renameType old new).implements (renamed old new n) = d.implements n := by
  obtain ⟨name, description, directives, body⟩ := d
  cases body with
  | object interfaces fields => exact Distinct.contains_map_renamed hd.1 hn
  | interface interfaces fields => exact Distinct.contains_map_renamed hd.1 hn
  | _ => rfl

theorem isNamedSubtype_renameType (h : s.Renamable old new) {sub sup : Name} (hsub : sub ≠ new)
    (hsup : sup ≠ new) :
    (s.renameType old new).isNamedSubtype (renamed old new sub) (renamed old new sup)
      = s.isNamedSubtype sub sup := by
  have hsame : decide (renamed old new sub = renamed old new sup) = decide (sub = sup) :=
    decide_eq_decide.mpr (renamed_inj hsub hsup)
  have himplements : ((s.renameType old new).type? (renamed old new sub)).any
      (·.implements (renamed old new sup)) = (s.type? sub).any (·.implements sup) := by
    rw [type?, get?_renameType h.keyed h.free hsub, type?]
    cases hd : s.types.get? sub with
    | none => rfl
    | some d =>
      exact implements_renameType (h.avoids.bodies d (Table.mem_values_of_get? hd)) hsup
  unfold isNamedSubtype
  rw [hsame, himplements]
  congr 1
  unfold type?
  rw [get?_renameType h.keyed h.free hsup]
  cases he : s.types.get? sup with
  | none => rfl
  | some e =>
    have havoids := h.avoids.bodies e (Table.mem_values_of_get? he)
    obtain ⟨name, description, directives, body⟩ := e
    cases body with
    | union members => exact Distinct.contains_map_renamed havoids hsub
    | _ => rfl

theorem isSubtype_renameType (h : s.Renamable old new) {sub sup : TypeRef}
    (hsub : sub.innerName ≠ new) (hsup : sup.innerName ≠ new) :
    (s.renameType old new).isSubtype (sub.rename old new) (sup.rename old new)
      = s.isSubtype sub sup := by
  fun_induction isSubtype s sub sup with
  | case1 m n => exact isNamedSubtype_renameType h hsub hsup
  | case2 m n => exact isNamedSubtype_renameType h hsub hsup
  | case3 m n => exact isNamedSubtype_renameType h hsub hsup
  | case4 t u ih => exact ih hsub hsup
  | case5 t u ih => exact ih hsub hsup
  | case6 t u ih => exact ih hsub hsup
  | case7 t u h1 h2 h3 h4 h5 h6 =>
    -- the layers of the two references stay as they are
    cases t <;> cases u <;> simp_all [TypeRef.rename, isSubtype]

/-! ## Contracts -/

theorem contains_renameInputs (t : Table Name InputValue) (n : Name) :
    (renameInputs t old new).contains n = t.contains n := by
  unfold Table.contains renameInputs
  rw [Table.get?_map, Option.isSome_map]

/-- An argument has the type that is asked for under the new name as before. -/
theorem any_type_renameInputs {t : Table Name InputValue} (ht : ∀ a ∈ t.values,
    a.type.innerName ≠ new) {u : TypeRef} (hu : u.innerName ≠ new) (n : Name) :
    ((renameInputs t old new).get? n).any (fun a => a.type = u.rename old new)
      = (t.get? n).any (fun a => a.type = u) := by
  unfold renameInputs
  rw [Table.get?_map]
  cases ha : t.get? n with
  | none => rfl
  | some a =>
    exact decide_eq_decide.mpr (TypeRef.rename_inj (ht a (Table.mem_values_of_get? ha)) hu)

theorem checkField_renameType (h : s.Renamable old new) {type interface name : Name}
    {f wanted : Field} (hf : f.Avoids new) (hw : wanted.Avoids new) :
    (s.renameType old new).checkField (renamed old new type) (renamed old new interface) name
        (f.renameType old new) (wanted.renameType old new)
      = (s.checkField type interface name f wanted).map (Violation.renameType old new) := by
  unfold checkField
  rw [List.map_append, List.map_append]
  congr 1
  · congr 1
    · show (if (s.renameType old new).isSubtype (f.type.rename old new)
        (wanted.type.rename old new) then _ else _) = _
      rw [isSubtype_renameType h hf.1 hw.1]
      split <;> rfl
    · show (wanted.arguments.entries.map fun e => (e.1, e.2.renameType old new)).flatMap _ = _
      rw [List.flatMap_map, List.map_flatMap]
      refine List.flatMap_congr fun e he => ?_
      have htype := hw.2 e.2 (Table.mem_values_of_mem he)
      show (if ((renameInputs f.arguments old new).get? e.1).any
        (fun a => a.type = e.2.type.rename old new) then _ else _) = _
      rw [any_type_renameInputs hf.2 htype]
      split <;> rfl
  · show ((renameInputs f.arguments old new).values.filter _).map _ = _
    rw [renameInputs, Table.values_map, List.filter_map, List.map_map, List.map_map]
    have hsame : ((fun a : InputValue => a.type.isNonNull && a.default.isNone
        && !(wanted.renameType old new).arguments.contains a.name)
          ∘ fun a : InputValue => a.renameType old new)
        = fun a : InputValue =>
          a.type.isNonNull && a.default.isNone && !wanted.arguments.contains a.name := by
      funext a
      show ((a.type.rename old new).isNonNull && a.default.isNone
        && !(renameInputs wanted.arguments old new).contains a.name) = _
      rw [TypeRef.isNonNull_rename, contains_renameInputs]
    rw [hsame]
    rfl

theorem checkContract_renameType (h : s.Renamable old new) {type interface : Name}
    {fields wanted : Table Name Field} (hf : ∀ f ∈ fields.values, f.Avoids new)
    (hw : ∀ f ∈ wanted.values, f.Avoids new) :
    (s.renameType old new).checkContract (renamed old new type) (renamed old new interface)
        (fields.map fun _ f => f.renameType old new) (wanted.map fun _ f => f.renameType old new)
      = (s.checkContract type interface fields wanted).map (Violation.renameType old new) := by
  unfold checkContract
  show (wanted.entries.map fun e => (e.1, e.2.renameType old new)).flatMap _ = _
  rw [List.flatMap_map, List.map_flatMap]
  refine List.flatMap_congr fun e he => ?_
  rw [Table.get?_map]
  cases hg : fields.get? e.1 with
  | none => rfl
  | some f =>
    exact checkField_renameType h (hf f (Table.mem_values_of_get? hg))
      (hw e.2 (Table.mem_values_of_mem he))

theorem checkInterface_renameType (h : s.Renamable old new) {type interface : Name}
    {interfaces : Distinct Name} {fields : Table Name Field} (hi : interface ≠ new)
    (his : new ∉ interfaces.toList) (hf : ∀ f ∈ fields.values, f.Avoids new) :
    (s.renameType old new).checkInterface (renamed old new type)
        (interfaces.map (renamed old new)) (fields.map fun _ f => f.renameType old new)
        (renamed old new interface)
      = (s.checkInterface type interfaces fields interface).map
        (Violation.renameType old new) := by
  unfold checkInterface type?
  rw [get?_renameType h.keyed h.free hi]
  cases he : s.types.get? interface with
  | none => rfl
  | some e =>
    have havoids := h.avoids.bodies e (Table.mem_values_of_get? he)
    obtain ⟨name, description, directives, body⟩ := e
    cases body with
    | interface inherited wanted =>
      show ((inherited.map (renamed old new)).toList.filter _).map _ ++ _ = _
      rw [Option.map_some, List.map_append, Distinct.toList_map_renamed havoids.1,
        List.filter_map, List.map_map, List.map_map]
      congr 1
      · refine congrArg₂ List.map rfl (List.filter_congr fun n hn => ?_)
        rw [Function.comp_apply,
          Distinct.contains_map_renamed his (ne_of_mem_of_not_mem hn havoids.1)]
      · exact checkContract_renameType h hf havoids.2
    | _ => rfl

/-! ## Types -/

theorem repeatedFields_renameType (type : Name) (names : List Name) :
    repeatedFields (renamed old new type) names
      = (repeatedFields type names).map (Violation.renameType old new) := by
  -- over the names that have been seen
  suffices hgo : ∀ names seen, repeatedFields.go (renamed old new type) seen names
      = (repeatedFields.go type seen names).map (Violation.renameType old new) from hgo names []
  intro names
  induction names with
  | nil => exact fun _ => rfl
  | cons n names ih =>
    intro seen
    rw [repeatedFields.go, repeatedFields.go]
    split
    · rw [List.map_cons, ih]
      rfl
    · exact ih (n :: seen)

theorem checkParts_renameType (kind : TypeKind) (type : Name) (none : Bool) :
    checkParts kind (renamed old new type) none
      = (checkParts kind type none).map (Violation.renameType old new) := by
  unfold checkParts
  split <;> rfl

theorem checkFields_renameType (h : s.Renamable old new) {kind : TypeKind} {type : Name}
    {interfaces : Distinct Name} {fields : Table Name Field} (his : new ∉ interfaces.toList)
    (hf : ∀ f ∈ fields.values, f.Avoids new) :
    (s.renameType old new).checkFields kind (renamed old new type)
        (interfaces.map (renamed old new)) (fields.map fun _ f => f.renameType old new)
      = (s.checkFields kind type interfaces fields).map (Violation.renameType old new) := by
  unfold checkFields
  have hnames : (fields.map fun _ f => f.renameType old new).values.map Field.name
      = fields.values.map Field.name := by
    rw [Table.values_map, List.map_map]
    rfl
  rw [hnames, Table.isEmpty_map, repeatedFields_renameType, checkParts_renameType, List.map_append,
    List.map_append, Distinct.toList_map_renamed his, List.flatMap_map, List.map_flatMap]
  congr 1
  exact List.flatMap_congr fun n hn =>
    checkInterface_renameType h (ne_of_mem_of_not_mem hn his) his hf

theorem checkType_renameType (h : s.Renamable old new) {d : TypeDefinition}
    (hd : d.body.Avoids new) :
    (s.renameType old new).checkType (d.renameType old new)
      = (s.checkType d).map (Violation.renameType old new) := by
  obtain ⟨name, description, directives, body⟩ := d
  cases body with
  | scalar => rfl
  | enum values => exact checkParts_renameType .enum name values.isEmpty
  | object interfaces fields => exact checkFields_renameType h hd.1 hd.2
  | interface interfaces fields => exact checkFields_renameType h hd.1 hd.2
  | union members =>
    show checkParts .union (renamed old new name) (members.map (renamed old new)).isEmpty
      ++ (members.map (renamed old new)).toList.flatMap _ = List.map _ (_ ++ _)
    have hempty : (members.map (renamed old new)).isEmpty = members.isEmpty := by
      unfold Distinct.isEmpty
      rw [Distinct.toList_map_renamed hd, List.isEmpty_map]
    rw [hempty, checkParts_renameType, Distinct.toList_map_renamed hd, List.map_append,
      List.flatMap_map, List.map_flatMap]
    congr 1
    exact List.flatMap_congr fun n hn => checkMember_renameType h (ne_of_mem_of_not_mem hn hd)
  | inputObject fields =>
    show repeatedFields (renamed old new name) ((renameInputs fields old new).values.map _)
      ++ checkParts .inputObject (renamed old new name) (renameInputs fields old new).isEmpty
      = List.map _ (_ ++ _)
    have hnames : (renameInputs fields old new).values.map InputValue.name
        = fields.values.map InputValue.name := by
      rw [renameInputs, Table.values_map, List.map_map]
      rfl
    rw [hnames, renameInputs, Table.isEmpty_map, repeatedFields_renameType, checkParts_renameType,
      List.map_append]

/-! ## References -/

theorem fieldReferences_renameType (owner : Name) (fields : Table Name Field) :
    fieldReferences (renamed old new owner) (fields.map fun _ f => f.renameType old new)
      = (fieldReferences owner fields).map (Reference.renameType old new) := by
  unfold fieldReferences
  rw [Table.values_map, List.flatMap_map, List.map_flatMap]
  refine List.flatMap_congr fun f _ => ?_
  show _ :: (renameInputs f.arguments old new).values.map _ = _
  rw [renameInputs, Table.values_map, List.map_map, List.map_cons, List.map_map]
  rfl

theorem references_renameType_type (d : TypeDefinition) :
    (d.renameType old new).references = d.references.map (Reference.renameType old new) := by
  obtain ⟨name, description, directives, body⟩ := d
  cases body with
  | object interfaces fields => exact fieldReferences_renameType name fields
  | interface interfaces fields => exact fieldReferences_renameType name fields
  | inputObject fields =>
    show (renameInputs fields old new).values.map _ = (fields.values.map _).map _
    rw [renameInputs, Table.values_map, List.map_map, List.map_map]
    rfl
  | _ => rfl

theorem references_renameType_directive (d : DirectiveDefinition) :
    (d.renameType old new).references = d.references.map (Reference.renameType old new) := by
  show (renameInputs d.arguments old new).values.map _ = (d.arguments.values.map _).map _
  rw [renameInputs, Table.values_map, List.map_map, List.map_map]
  rfl

theorem references_renameType (hk : s.TypesKeyed) (hfree : new ∉ s.types.keys) :
    (s.renameType old new).references = s.references.map (Reference.renameType old new) := by
  unfold references
  rw [values_renameType hk fun h => absurd h hfree, directiveDefinitions_renameType,
    Table.values_map, List.map_append, List.flatMap_map, List.flatMap_map, List.map_flatMap,
    List.map_flatMap]
  congr 1
  · exact List.flatMap_congr fun d _ => references_renameType_type d
  · exact List.flatMap_congr fun d _ => references_renameType_directive d

/-! ## All violations -/

theorem elementViolations_renameType (h : s.Renamable old new) :
    (s.renameType old new).elementViolations
      = s.elementViolations.map (Violation.renameType old new) := by
  unfold elementViolations
  rw [references_renameType h.keyed h.free, values_renameType h.keyed fun hn => absurd hn h.free,
    List.map_append, List.flatMap_map, List.flatMap_map, List.map_flatMap, List.map_flatMap]
  congr 1
  · exact List.flatMap_congr fun r hr => checkReference_renameType h (h.avoids.references r hr)
  · exact List.flatMap_congr fun d hd => checkType_renameType h (h.avoids.bodies d hd)

theorem rootViolations_renameType (h : s.Renamable old new) :
    (s.renameType old new).rootViolations
      = s.rootViolations.map (Violation.renameRoot old new) := by
  unfold rootViolations
  rw [roots_renameType, RootOperations.toList_map, List.flatMap_map, List.map_flatMap]
  refine List.flatMap_congr fun r hr => checkRoot_renameType h fun hn => ?_
  exact h.avoids.roots r.1 (RootOperations.mem_toList.mp (hn ▸ hr))

/-- The violations after a renaming are those before it, under the new name. -/
theorem violations_renameType (h : s.Renamable old new) :
    (s.renameType old new).violations = s.renamedViolations old new := by
  rw [violations_eq_append, elementViolations_renameType h, rootViolations_renameType h,
    renamedViolations]

/-! ## The way back -/

/-- A renaming leaves the old name free, so that it can be undone. -/
theorem Renamable.symm (h : s.Renamable old new) : (s.renameType old new).Renamable new old := by
  have hne : old ≠ new := ne_of_mem_of_not_mem h.there h.free
  have hfree : new ∈ s.types.keys → new = old := fun hn => absurd hn h.free
  have hkeys := keys_renameType h.keyed hfree
  refine ⟨renameType_typesKeyed h.keyed hfree, ?_, ?_, s.renameType_avoids hne⟩
  · rw [hkeys]
    exact List.mem_map.mpr ⟨old, h.there, renamed_old old new⟩
  · rw [hkeys]
    intro hm
    obtain ⟨n, -, hn⟩ := List.mem_map.mp hm
    exact renamed_ne_old hne n hn

theorem Renamable.renameType_back (h : s.Renamable old new) :
    (s.renameType old new).renameType new old = s := by
  rw [renameType_renameType h.keyed h.free h.avoids fun _ => rfl, renameType_self h.keyed]

end Schema

end SchemaWeave
