import SchemaWeave.Proofs.Violation

/-!
# Implementing types stand in for interfaces

A query that is written for an interface is a path of fields: each step takes a field of an object
type or an interface and goes on at the innermost type of the field. In a schema without violations
every path from an interface is a path from each type that implements it, and what it leads to from
there stands for what it leads to from the interface.

## Mechanism

One step keeps the invariant that the one type stands for the other. The types of two fields are
compared by the check through their layers of lists and non-null, so the innermost types are
subtypes by name. A subtype by name is the same type, an implementing type, whose contract gives the
next field, or a member of a union, from which no path goes on.
-/

namespace SchemaWeave

namespace Schema

/-! ## Paths -/

/-- The innermost type of a field of an object type or an interface. -/
def fieldType? (s : Schema) (type field : Name) : Option Name := do
  let d ← s.type? type
  let fields ← d.body.fields?
  let f ← fields.get? field
  return f.type.innerName

/-- The type to which a path of fields leads. -/
def typeAt? (s : Schema) (type : Name) (path : List Name) : Option Name :=
  path.foldlM s.fieldType? type

/-- Whether values of the one type may stand where the other is asked for: it is the same type,
implements the other, or is a member of it. -/
inductive StandsFor (s : Schema) : Name → Name → Prop where
  | same (type : Name) : s.StandsFor type type
  | implementing {type interface : Name} {d : TypeDefinition} (hd : s.type? type = some d)
    (hi : d.implements interface) : s.StandsFor type interface
  | member {type union : Name} {d : TypeDefinition} {members : Distinct Name}
    (hd : s.type? union = some d) (hbody : d.body = .union members)
    (hm : type ∈ members.toList) : s.StandsFor type union

variable {s : Schema}

theorem fieldType?_eq_some_iff {type field target : Name} :
    s.fieldType? type field = some target ↔
      ∃ d fields f, s.type? type = some d ∧ d.body.fields? = some fields ∧
        fields.get? field = some f ∧ f.type.innerName = target := by
  simp only [fieldType?, bind, pure, Option.bind_eq_some_iff, Option.some.injEq]
  constructor
  · rintro ⟨d, hd, fields, hfields, f, hf, ht⟩
    exact ⟨d, fields, f, hd, hfields, hf, ht⟩
  · rintro ⟨d, fields, f, hd, hfields, hf, ht⟩
    exact ⟨d, hd, fields, hfields, f, hf, ht⟩

theorem typeAt?_cons (type field : Name) (path : List Name) :
    s.typeAt? type (field :: path) = (s.fieldType? type field).bind fun t => s.typeAt? t path :=
  List.foldlM_cons

/-! ## Subtypes -/

theorem standsFor_of_isNamedSubtype {sub sup : Name} (h : s.isNamedSubtype sub sup = true) :
    s.StandsFor sub sup := by
  unfold isNamedSubtype at h
  rcases Bool.or_eq_true_iff.mp h with heq | hsub
  · rw [of_decide_eq_true heq]
    exact StandsFor.same sup
  · split at hsub
    · obtain ⟨d, hd, hi⟩ := (Option.any_eq_true _ _).mp hsub
      exact StandsFor.implementing hd hi
    · next members hbody =>
      obtain ⟨d, hd, hbody⟩ := Option.map_eq_some_iff.mp hbody
      exact StandsFor.member hd hbody (of_decide_eq_true hsub)
    · cases hsub

/-! ## Contracts -/

/-- A contract that is kept gives each field of the interface a field whose type stands for its
type. -/
theorem exists_field_of_checkContract {type interface field : Name}
    {fields wanted : Table Name Field}
    (h : s.checkContract type interface fields wanted = []) {w : Field}
    (hw : wanted.get? field = some w) :
    ∃ f, fields.get? field = some f ∧ s.StandsFor f.type.innerName w.type.innerName := by
  have hfield := List.flatMap_eq_nil_iff.mp h (field, w) (Table.get?_eq_some_iff.mp hw)
  dsimp only at hfield
  cases hf : fields.get? field with
  | none =>
    rw [hf] at hfield
    cases hfield
  | some f =>
    rw [hf] at hfield
    have htype := (List.append_eq_nil_iff.mp (List.append_eq_nil_iff.mp hfield).1).1
    refine ⟨f, rfl, standsFor_of_isNamedSubtype (isNamedSubtype_of_isSubtype ?_)⟩
    by_contra hnot
    rw [if_neg hnot] at htype
    cases htype

/-! ## Steps -/

/-- A step from a type is a step from whatever stands for it, to something that stands for its
end. -/
theorem StandsFor.exists_fieldType? (hs : s.violations = []) {sub sup field target : Name}
    (h : s.StandsFor sub sup) (hf : s.fieldType? sup field = some target) :
    ∃ reached, s.fieldType? sub field = some reached ∧ s.StandsFor reached target := by
  cases h with
  | same => exact ⟨target, hf, StandsFor.same target⟩
  | implementing hd hi =>
    obtain ⟨fields, e, inherited, wanted, hfields, he, hbody, hcontract⟩ :=
      exists_contract_of_implements hs hd hi
    obtain ⟨e', wanted', w, he', hwanted, hw, rfl⟩ := fieldType?_eq_some_iff.mp hf
    -- the type that is asked for is the interface whose contract is kept
    obtain rfl : e = e' := Option.some.inj (he.symm.trans he')
    rw [hbody] at hwanted
    cases hwanted
    obtain ⟨f, hget, hstands⟩ := exists_field_of_checkContract hcontract hw
    exact ⟨_, fieldType?_eq_some_iff.mpr ⟨_, fields, f, hd, hfields, hget, rfl⟩, hstands⟩
  | member hd hbody hm =>
    obtain ⟨e, fields, f, he, hfields, -⟩ := fieldType?_eq_some_iff.mp hf
    rw [hd] at he
    cases he
    rw [hbody] at hfields
    cases hfields

/-- A path from a type is a path from whatever stands for it. -/
theorem StandsFor.exists_typeAt? (hs : s.violations = []) {sub sup target : Name}
    (h : s.StandsFor sub sup) {path : List Name} (hp : s.typeAt? sup path = some target) :
    ∃ reached, s.typeAt? sub path = some reached ∧ s.StandsFor reached target := by
  induction path generalizing sub sup with
  | nil =>
    cases hp
    exact ⟨sub, rfl, h⟩
  | cons field path ih =>
    rw [typeAt?_cons] at hp
    obtain ⟨next, hnext, hp⟩ := Option.bind_eq_some_iff.mp hp
    obtain ⟨reached, hreached, hstands⟩ := h.exists_fieldType? hs hnext
    rw [typeAt?_cons, hreached, Option.bind_some]
    exact ih hstands hp

/-- In a schema without violations every path from an interface is a path from each type that
implements it, and leads to a type that stands for the one it leads to from the interface. -/
theorem exists_typeAt?_of_implements (hs : s.violations = []) {type interface : Name}
    {d : TypeDefinition} (hd : s.type? type = some d) (hi : d.implements interface)
    {path : List Name} {target : Name} (hp : s.typeAt? interface path = some target) :
    ∃ reached, s.typeAt? type path = some reached ∧ s.StandsFor reached target :=
  (StandsFor.implementing hd hi).exists_typeAt? hs hp

end Schema

/-- Books are lent to readers, and whatever is lent has a holder and something that is lent
next. -/
def library : Schema :=
  let lendable : Name := ⟨"Lendable", by decide⟩
  let holder : Name := ⟨"holder", by decide⟩
  let next : Name := ⟨"next", by decide⟩
  let party : Name := ⟨"Party", by decide⟩
  let reader : Name := ⟨"Reader", by decide⟩
  let book : Name := ⟨"Book", by decide⟩
  let lent : Name := ⟨"lent", by decide⟩
  let fields (types : List (Name × TypeRef)) : Table Name Field :=
    .ofList (types.map fun e => (e.1, .ofType e.1 e.2))
  { Schema.empty "library" with
    types := .ofList [
      (lendable, ⟨lendable, none, [], .interface .empty
        (fields [(holder, .named party), (next, .list (.named lendable))])⟩),
      (party, ⟨party, none, [], .union (.ofList [reader])⟩),
      (reader, ⟨reader, none, [], .object .empty
        (fields [(lent, .list (.named book))])⟩),
      (book, ⟨book, none, [], .object (.ofList [lendable])
        (fields [(holder, .nonNullNamed reader), (next, .nonNullList (.named book))])⟩)] }

/-- The holder of the thing after the next is a party, and that of the book after the next is a
reader. -/
theorem exists_typeAt?_of_implements_library :
    let lendable : Name := ⟨"Lendable", by decide⟩
    let book : Name := ⟨"Book", by decide⟩
    let party : Name := ⟨"Party", by decide⟩
    let path : List Name := [⟨"next", by decide⟩, ⟨"next", by decide⟩, ⟨"holder", by decide⟩]
    library.violations = [] ∧
      ∃ d, library.type? book = some d ∧ d.implements lendable = true ∧
        library.typeAt? lendable path = some party ∧
        ∃ reached, library.typeAt? book path = some reached ∧ library.StandsFor reached party := by
  intro lendable book party path
  have hs : library.violations = [] := by decide
  have hp : library.typeAt? lendable path = some party := by decide
  obtain ⟨d, hd, hi⟩ : ∃ d, library.type? book = some d ∧ d.implements lendable = true :=
    ⟨_, rfl, by decide⟩
  exact ⟨hs, d, hd, hi, hp, Schema.exists_typeAt?_of_implements hs hd hi hp⟩

end SchemaWeave
