import SchemaWeave.Proofs.Extension.Growth
import SchemaWeave.Proofs.Keyed.Basic

/-!
# Documents keep schemas keyed

A document stores what it defines under the names it gives, and an `extend` form adds to the
type that it names. So a schema that is read from a document is keyed, and a keyed schema stays
keyed under every extension, whether or not there are faults.
-/

namespace SchemaWeave

open Sdl

/-! ## Tables from lists -/

section AddEntries

variable {α β : Type} {key : α → Name} {fault : α → DocumentFault} {convert : α → Faulty β}
  {t : Table Name β}

theorem addEntries_keyed {name : β → Name} {l : List α} (ht : t.Keyed name)
    (h : ∀ a ∈ l, name (convert a).1 = key a) :
    (addEntries key fault convert t l).1.Keyed name := by
  induction l generalizing t with
  | nil => exact ht
  | cons a l ih =>
    have hl : ∀ b ∈ l, name (convert b).1 = key b := fun b hb => h b (by simp [hb])
    unfold addEntries
    split
    · exact ih ht hl
    · exact ih (ht.insert (h a (by simp))) hl

theorem forall_values_addEntries {P : β → Prop} {l : List α} (ht : ∀ b ∈ t.values, P b)
    (h : ∀ a ∈ l, P (convert a).1) : ∀ b ∈ (addEntries key fault convert t l).1.values, P b := by
  induction l generalizing t with
  | nil => exact ht
  | cons a l ih =>
    have hl : ∀ b ∈ l, P (convert b).1 := fun b hb => h b (by simp [hb])
    unfold addEntries
    split
    · exact ih ht hl
    · exact ih (Table.forall_values_insert ht _ (h a (by simp))) hl

end AddEntries

theorem argumentTable_keyed (owner : ArgumentOwner) (args : List InputValue) :
    (argumentTable owner args).1.Keyed InputValue.name :=
  addEntries_keyed Table.Keyed.empty fun _ _ => rfl

theorem fieldTable_keyed (type : Name) (nodes : List FieldNode) :
    (fieldTable type nodes).1.Keyed Field.name
      ∧ ∀ f ∈ (fieldTable type nodes).1.values, f.Keyed :=
  ⟨addEntries_keyed Table.Keyed.empty fun _ _ => rfl,
    forall_values_addEntries (fun _ h => by cases h) fun _ _ => argumentTable_keyed _ _⟩

theorem inputFieldTable_keyed (type : Name) (fields : List InputValue) :
    (inputFieldTable type fields).1.Keyed InputValue.name :=
  addEntries_keyed Table.Keyed.empty fun _ _ => rfl

theorem enumValueTable_keyed (type : Name) (values : List EnumValue) :
    (enumValueTable type values).1.Keyed EnumValue.name :=
  addEntries_keyed Table.Keyed.empty fun _ _ => rfl

theorem addTable_keyed {α : Type} {name : α → Name} {fault : Name → DocumentFault}
    {t added : Table Name α} (ht : t.Keyed name) (ha : added.Keyed name) :
    (addTable fault t added).1.Keyed name :=
  addEntries_keyed ht ha

theorem forall_values_addTable {α : Type} {P : α → Prop} {fault : Name → DocumentFault}
    {t added : Table Name α} (ht : ∀ a ∈ t.values, P a) (ha : ∀ a ∈ added.values, P a) :
    ∀ a ∈ (addTable fault t added).1.values, P a :=
  forall_values_addEntries ht fun e he => ha e.2 (List.mem_map.mpr ⟨e, he, rfl⟩)

/-! ## Definitions -/

theorem bodyOfNode_keyed (type : Name) (b : Body) : (bodyOfNode type b).1.Keyed := by
  cases b with
  | scalar => trivial
  | object _ nodes => exact fieldTable_keyed type nodes
  | interface _ nodes => exact fieldTable_keyed type nodes
  | union _ => trivial
  | enum values => exact enumValueTable_keyed type values
  | inputObject fields => exact inputFieldTable_keyed type fields

theorem Schema.define_typesKeyed {s : Schema} (h : s.TypesKeyed) (x : Definition) :
    (s.define x).1.TypesKeyed := by
  cases x with
  | type node =>
    unfold Schema.define
    simp only
    split
    · exact h
    · exact Table.Keyed.insert h rfl
  | directive node =>
    unfold Schema.define
    simp only
    split <;> exact h
  | executable => exact h
  | schema _ => exact h
  | extendSchema _ => exact h
  | extendType _ => exact h

theorem Schema.define_keyed {s : Schema} (h : s.Keyed) (x : Definition) : (s.define x).1.Keyed := by
  cases x with
  | executable => exact h
  | schema node => exact ⟨h.types, h.bodies, h.directives, h.arguments⟩
  | extendSchema _ => exact h
  | extendType _ => exact h
  | directive node =>
    unfold Schema.define
    simp only
    split
    · exact h
    · exact ⟨h.types, h.bodies, h.directives.insert rfl,
        Table.forall_values_insert h.arguments _ (argumentTable_keyed _ _)⟩
  | type node =>
    unfold Schema.define
    simp only
    split
    · exact h
    · exact ⟨Table.Keyed.insert h.types rfl,
        Table.forall_values_insert h.bodies _ (bodyOfNode_keyed _ _), h.directives, h.arguments⟩

/-! ## Extensions -/

/-- Whether the parts that an `extend` form adds are stored under their names. -/
def Addition.Keyed : Addition → Prop
  | .scalar => True
  | .object _ fields => fields.Keyed Field.name ∧ ∀ f ∈ fields.values, f.Keyed
  | .interface _ fields => fields.Keyed Field.name ∧ ∀ f ∈ fields.values, f.Keyed
  | .union _ => True
  | .enum values => values.Keyed EnumValue.name
  | .inputObject fields => fields.Keyed InputValue.name

theorem Addition.ofBody_keyed (type : Name) (b : Body) : (Addition.ofBody type b).1.Keyed := by
  cases b with
  | scalar => trivial
  | object _ nodes => exact fieldTable_keyed type nodes
  | interface _ nodes => exact fieldTable_keyed type nodes
  | union _ => trivial
  | enum values => exact enumValueTable_keyed type values
  | inputObject fields => exact inputFieldTable_keyed type fields

theorem TypeBody.add_keyed (type : Name) {b : TypeBody} {a : Addition} (hb : b.Keyed)
    (ha : a.Keyed) : (b.add type a).1.Keyed := by
  cases b <;> cases a <;> try exact hb
  case object.object =>
    exact ⟨addTable_keyed hb.1 ha.1, forall_values_addTable hb.2 ha.2⟩
  case interface.interface =>
    exact ⟨addTable_keyed hb.1 ha.1, forall_values_addTable hb.2 ha.2⟩
  case enum.enum => exact addTable_keyed hb ha
  case inputObject.inputObject => exact addTable_keyed hb ha

theorem Schema.extend_typesKeyed {s : Schema} (h : s.TypesKeyed) (x : Definition) :
    (s.extend x).1.TypesKeyed := by
  cases x with
  | extendType e =>
    show (s.extendType e).1.TypesKeyed
    unfold Schema.extendType
    simp only
    split
    · exact h
    · next d hd =>
      split
      · have hname : d.name = e.name := h.name_eq hd
        exact Table.Keyed.insert h hname
      · exact h
  | extendSchema _ => exact h
  | executable => exact h
  | schema _ => exact h
  | directive _ => exact h
  | type _ => exact h

theorem Schema.extendType_keyed {s : Schema} (h : s.Keyed) (e : TypeExtension) :
    (s.extendType e).1.Keyed := by
  unfold Schema.extendType
  simp only
  split
  · exact h
  · next d hd =>
    split
    · have hbody := TypeBody.add_keyed (d.nameInFaults e.name)
        (h.bodies d (Table.mem_values_of_get? hd)) (Addition.ofBody_keyed e.name e.body)
      have hname : d.name = e.name := h.types.name_eq hd
      exact ⟨Table.Keyed.insert h.types hname,
        Table.forall_values_insert h.bodies _ hbody, h.directives, h.arguments⟩
    · exact h

theorem Schema.extend_keyed {s : Schema} (h : s.Keyed) (x : Definition) :
    (s.extend x).1.Keyed := by
  cases x with
  | extendSchema e => exact ⟨h.types, h.bodies, h.directives, h.arguments⟩
  | extendType e => exact Schema.extendType_keyed h e
  | executable => exact h
  | schema _ => exact h
  | directive _ => exact h
  | type _ => exact h

/-! ## Documents -/

theorem Schema.addDocument_keyed {s : Schema} (h : s.Keyed) (d : Document) :
    (s.addDocument d).1.Keyed :=
  collect_induct (P := Schema.Keyed) (fun _ x hs => extend_keyed hs x) _
    (collect_induct (P := Schema.Keyed) (fun _ x hs => define_keyed hs x) _ h)

theorem Schema.extendBy_keyed {s s' : Schema} {ds : List Document} (hs : s.Keyed)
    (h : s.extendBy ds = .ok s') : s'.Keyed := by
  rw [← (extendBy_eq_ok h).1]
  exact collect_induct (P := Schema.Keyed) (fun _ d hs => addDocument_keyed hs d) _ hs

/-- Whether the types are stored under their names does not depend on their contents. -/
theorem Schema.extendBy_typesKeyed {s s' : Schema} {ds : List Document} (hs : s.TypesKeyed)
    (h : s.extendBy ds = .ok s') : s'.TypesKeyed := by
  rw [← (extendBy_eq_ok h).1]
  refine collect_induct (P := Schema.TypesKeyed) (fun s d hs => ?_) _ hs
  exact collect_induct (P := Schema.TypesKeyed) (fun _ x hs => extend_typesKeyed hs x) _
    (collect_induct (P := Schema.TypesKeyed) (fun _ x hs => define_typesKeyed hs x) _ hs)

theorem Schema.inferRoots_keyed {s : Schema} (h : s.Keyed) : s.inferRoots.Keyed :=
  ⟨h.types, h.bodies, h.directives, h.arguments⟩

/-- A schema that is read from a document is keyed. -/
theorem Schema.ofDocument_keyed {name : String} {d : Document} {s : Schema}
    (h : ofDocument name d = .ok s) : s.Keyed := by
  unfold ofDocument at h
  cases he : (empty name).extendBy [d] with
  | error _ => rw [he] at h; cases h
  | ok s' =>
    rw [he] at h
    have hs' := extendBy_keyed (Keyed.empty name) he
    have hs : s = s' ∨ s = s'.inferRoots := by
      simp only [bind, Except.bind, pure, Except.pure, Except.ok.injEq] at h
      split at h
      · exact Or.inl h.symm
      · exact Or.inr h.symm
    rcases hs with rfl | rfl
    · exact hs'
    · exact inferRoots_keyed hs'

end SchemaWeave
