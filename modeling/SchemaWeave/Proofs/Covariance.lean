import SchemaWeave.Proofs.WellFormed

/-!
# Covariance as a preorder

The check compares named types by a look at one definition of each side: it asks for the interfaces
that a type declares and the members that a union lists, and does not follow either any further.
That this is enough rests on the rest of the check. A type has to declare what its interfaces
declare, so there is nothing left to follow, and members of a union are object types, which nothing
else stands for. So in a schema without violations subtyping is reflexive and transitive, through
all layers, and nothing but what the rules of covariance give.
-/

namespace SchemaWeave

/-! ## Outlines -/

namespace TypeDefinition

variable {d : TypeDefinition} {n : Name}

theorem kind_of_mem_members (h : n ∈ d.outline.members) : d.outline.kind = .union := by
  obtain ⟨name, description, directives, body⟩ := d
  cases body with
  | union members => rfl
  | _ => cases h

theorem kind_ne_union_of_mem_interfaces (h : n ∈ d.outline.interfaces) :
    d.outline.kind ≠ .union := by
  obtain ⟨name, description, directives, body⟩ := d
  cases body with
  | union members => cases h
  | _ => exact nofun

end TypeDefinition

namespace Schema

variable {s : Schema}

theorem kind?_of_outline? {n : Name} {o : Outline} (h : s.outline? n = some o) :
    s.kind? n = some o.kind := by
  rw [kind?_eq_outline, h]
  rfl

/-! ## What the check says of outlines -/

/-- A type declares what its interfaces declare. -/
theorem interfaces_subset (hs : s.violations = []) {m n : Name} {o o' : Outline}
    (hm : s.outline? m = some o) (hmn : n ∈ o.interfaces) (hn : s.outline? n = some o') :
    o'.interfaces ⊆ o.interfaces := by
  obtain ⟨d, hd, rfl⟩ := outline?_eq_some_iff.mp hm
  obtain ⟨e, he, rfl⟩ := outline?_eq_some_iff.mp hn
  obtain ⟨interfaces, fields, hbody, hcheck⟩ :=
    exists_checkInterface_of_implements hs hd (TypeDefinition.implements_iff.mpr hmn)
  obtain ⟨e', inherited, wanted, he', hebody, hinherited, -⟩ := checkInterface_eq_nil_iff.mp hcheck
  cases he.symm.trans he'
  have hdeclared : d.outline.interfaces = interfaces.toList := by
    rcases hbody with hbody | hbody <;> rw [TypeDefinition.outline, hbody] <;> rfl
  rw [hdeclared, TypeDefinition.outline, hebody]
  exact hinherited

/-- The members of a union are object types. -/
theorem kind?_of_mem_members (hs : s.violations = []) {n m : Name} {o : Outline}
    (hn : s.outline? n = some o) (hm : m ∈ o.members) : s.kind? m = some .object := by
  obtain ⟨⟨name, description, directives, body⟩, hd, rfl⟩ := outline?_eq_some_iff.mp hn
  have hnone := (violations_eq_nil_iff.mp hs).2.1 _ (Table.mem_values_of_get? hd)
  cases body with
  | union members =>
    have hmembers := List.flatMap_eq_nil_iff.mp (List.append_eq_nil_iff.mp hnone).2
    exact checkMember_eq_nil_iff.mp (hmembers m hm)
  | _ => cases hm

/-! ## Named types -/

/-- Of three different types in a row, the one in the middle is an interface that declares the third
one, and the first declares both. -/
theorem isNamedSubtype_trans (hs : s.violations = []) {l m n : Name}
    (hlm : s.isNamedSubtype l m = true) (hmn : s.isNamedSubtype m n = true) :
    s.isNamedSubtype l n = true := by
  rw [isNamedSubtype_iff] at hlm hmn ⊢
  obtain rfl | ⟨om, hm, hlm⟩ := hlm
  · exact hmn
  obtain rfl | ⟨on, hn, hmn⟩ := hmn
  · exact .inr ⟨om, hm, hlm⟩
  obtain ⟨e, -, rfl⟩ := outline?_eq_some_iff.mp hm
  obtain ⟨hkind, om, hm', hmn⟩ | hmn := hmn
  · -- the type in the middle declares an interface, so it is no union
    cases hm.symm.trans hm'
    obtain ⟨-, ol, hl, hlm⟩ | hlm := hlm
    · exact .inr ⟨on, hn, .inl ⟨hkind, ol, hl, interfaces_subset hs hl hlm hm hmn⟩⟩
    · exact absurd (TypeDefinition.kind_of_mem_members hlm)
        (TypeDefinition.kind_ne_union_of_mem_interfaces hmn)
  · -- the type in the middle is an object type, and no other type stands for one
    have hobject : e.outline.kind = .object :=
      Option.some.inj ((kind?_of_outline? hm).symm.trans (kind?_of_mem_members hs hn hmn))
    obtain ⟨hkind, -⟩ | hlm := hlm
    · rw [hobject] at hkind
      cases hkind
    · rw [TypeDefinition.kind_of_mem_members hlm] at hobject
      cases hobject

/-! ## Layers -/

theorem isSubtype_trans (hs : s.violations = []) {t u v : TypeRef} (htu : s.isSubtype t u = true)
    (huv : s.isSubtype u v = true) : s.isSubtype t v = true := by
  -- the layers of the first two types decide which layers the third one may have
  fun_induction isSubtype s t u generalizing v with
  | case1 l m =>
    cases v with
    | named n => exact isNamedSubtype_trans hs htu huv
    | nonNullNamed n => exact isNamedSubtype_trans hs htu huv
    | _ => cases huv
  | case2 l m =>
    cases v with
    | named n => exact isNamedSubtype_trans hs htu huv
    | _ => cases huv
  | case3 l m =>
    cases v with
    | named n => exact isNamedSubtype_trans hs htu huv
    | _ => cases huv
  | case4 t u ih =>
    cases v with
    | list v => exact ih htu huv
    | nonNullList v => exact ih htu huv
    | _ => cases huv
  | case5 t u ih =>
    cases v with
    | list v => exact ih htu huv
    | _ => cases huv
  | case6 t u ih =>
    cases v with
    | list v => exact ih htu huv
    | _ => cases huv
  | case7 t u => cases htu

/-- In a schema without violations subtyping is a preorder on types of any layers, whether or not
the schema has the types that they name. -/
theorem isSubtype_preorder (hs : s.violations = []) :
    (∀ t, s.isSubtype t t = true) ∧
      ∀ t u v, s.isSubtype t u = true → s.isSubtype u v = true → s.isSubtype t v = true :=
  ⟨isSubtype_refl, fun _ _ _ => isSubtype_trans hs⟩

end Schema

/-- A marina with sailboats, where sloops say what they are. -/
def sloopMarina (declared : List Name) : Schema :=
  let watercraft : Name := ⟨"Watercraft", by decide⟩
  let sailboat : Name := ⟨"Sailboat", by decide⟩
  let sloop : Name := ⟨"Sloop", by decide⟩
  let moored : Name := ⟨"moored", by decide⟩
  let fields : Table Name Field := .ofList [(moored, .ofType moored (.named sloop))]
  { Schema.empty "marina" with
    types := .ofList [
      (watercraft, ⟨watercraft, none, [], .interface .empty fields⟩),
      (sailboat, ⟨sailboat, none, [], .interface (.ofList [watercraft]) fields⟩),
      (sloop, ⟨sloop, none, [], .object (.ofList declared) fields⟩)] }

/-- Sloops are sailboats and therefore watercraft, also in lists. -/
theorem isSubtype_preorder_sloopMarina :
    let watercraft : Name := ⟨"Watercraft", by decide⟩
    let sailboat : Name := ⟨"Sailboat", by decide⟩
    let sloop : Name := ⟨"Sloop", by decide⟩
    let s := sloopMarina [sailboat, watercraft]
    s.violations = [] ∧
      s.isSubtype (.nonNullList (.nonNullNamed sloop)) (.list (.nonNullNamed sailboat)) = true ∧
      s.isSubtype (.list (.nonNullNamed sailboat)) (.list (.named watercraft)) = true ∧
      s.isSubtype (.nonNullList (.nonNullNamed sloop)) (.list (.named watercraft)) = true := by
  intro watercraft sailboat sloop s
  have hs : s.violations = [] := by decide
  have hsloop : s.isSubtype (.nonNullList (.nonNullNamed sloop)) (.list (.nonNullNamed sailboat))
      = true := by decide
  have hsailboat : s.isSubtype (.list (.nonNullNamed sailboat)) (.list (.named watercraft))
      = true := by decide
  exact ⟨hs, hsloop, hsailboat, (Schema.isSubtype_preorder hs).2 _ _ _ hsloop hsailboat⟩

/-- Sloops that do not declare what sailboats declare are sailboats and no watercraft. The check
reports them. -/
example :
    let watercraft : Name := ⟨"Watercraft", by decide⟩
    let sailboat : Name := ⟨"Sailboat", by decide⟩
    let sloop : Name := ⟨"Sloop", by decide⟩
    let s := sloopMarina [sailboat]
    s.isNamedSubtype sloop sailboat = true ∧ s.isNamedSubtype sailboat watercraft = true ∧
      s.isNamedSubtype sloop watercraft = false ∧
      s.violations = [.interfaceMissing sloop sailboat watercraft] := by
  decide

/-! ## The rules of covariance -/

namespace Schema

variable {s : Schema}

/-- What the rules of covariance give: a type may be named for one that it implements or is a member
of, and null may be ruled out, in any layer and any number of times. -/
inductive Covariant (s : Schema) : TypeRef → TypeRef → Prop where
  | refl (t : TypeRef) : s.Covariant t t
  | trans {t u v : TypeRef} (h : s.Covariant t u) (h' : s.Covariant u v) : s.Covariant t v
  | implements {m n : Name} {d : TypeDefinition} (hd : s.types.get? m = some d)
      (h : n ∈ d.body.interfaceNames) : s.Covariant (.named m) (.named n)
  | member {m n : Name} {d : TypeDefinition} (hd : s.types.get? n = some d)
      (h : m ∈ d.body.memberNames) : s.Covariant (.named m) (.named n)
  | nonNull (n : Name) : s.Covariant (.nonNullNamed n) (.named n)
  | nonNullLayer (t : TypeRef) : s.Covariant (.nonNullList t) (.list t)
  | underNonNull {m n : Name} (h : s.Covariant (.named m) (.named n)) :
      s.Covariant (.nonNullNamed m) (.nonNullNamed n)
  | underList {t u : TypeRef} (h : s.Covariant t u) : s.Covariant (.list t) (.list u)
  | underNonNullList {t u : TypeRef} (h : s.Covariant t u) :
      s.Covariant (.nonNullList t) (.nonNullList u)

theorem Covariant.of_isNamedSubtype {m n : Name} (h : s.isNamedSubtype m n = true) :
    s.Covariant (.named m) (.named n) := by
  obtain rfl | ⟨o, ho, h⟩ := isNamedSubtype_iff.mp h
  · exact .refl _
  obtain ⟨-, o', ho', h⟩ | h := h
  · obtain ⟨d, hd, rfl⟩ := outline?_eq_some_iff.mp ho'
    exact .implements hd h
  · obtain ⟨d, hd, rfl⟩ := outline?_eq_some_iff.mp ho
    exact .member hd h

/-- The check allows only what the rules give, in any schema. -/
theorem Covariant.of_isSubtype {t u : TypeRef} (h : s.isSubtype t u = true) : s.Covariant t u := by
  fun_induction isSubtype s t u with
  | case1 m n => exact .underNonNull (.of_isNamedSubtype h)
  | case2 m n => exact .trans (.nonNull m) (.of_isNamedSubtype h)
  | case3 m n => exact .of_isNamedSubtype h
  | case4 t u ih => exact .underNonNullList (ih h)
  | case5 t u ih => exact .trans (.nonNullLayer t) (.underList (ih h))
  | case6 t u ih => exact .underList (ih h)
  | case7 t u => cases h

/-- In a schema without violations the check allows what the rules give, and nothing else. -/
theorem isSubtype_iff_covariant (hs : s.violations = []) {t u : TypeRef} :
    s.isSubtype t u = true ↔ s.Covariant t u := by
  refine ⟨.of_isSubtype, fun h => ?_⟩
  induction h with
  | refl t => exact isSubtype_refl t
  | trans _ _ ih ih' => exact isSubtype_trans hs ih ih'
  | @implements m n d hd h =>
    obtain ⟨e, inherited, wanted, he, hbody⟩ :=
      exists_interface_of_implements hs hd (TypeDefinition.implements_iff.mpr h)
    have hkind : e.outline.kind = .interface := by
      rw [TypeDefinition.outline, TypeDefinition.kind, hbody]
      rfl
    exact isNamedSubtype_iff.mpr (.inr ⟨_, outline?_eq_some_iff.mpr ⟨e, he, rfl⟩,
      .inl ⟨hkind, _, outline?_eq_some_iff.mpr ⟨d, hd, rfl⟩, h⟩⟩)
  | @member m n d hd h =>
    exact isNamedSubtype_iff.mpr (.inr ⟨_, outline?_eq_some_iff.mpr ⟨d, hd, rfl⟩, .inr h⟩)
  | nonNull n => exact isSubtype_refl (.named n)
  | nonNullLayer t => exact isSubtype_refl t
  | underNonNull _ ih => exact ih
  | underList _ ih => exact ih
  | underNonNullList _ ih => exact ih

end Schema

end SchemaWeave
