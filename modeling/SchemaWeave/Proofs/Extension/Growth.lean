import SchemaWeave.Proofs.Distinct
import SchemaWeave.Proofs.Table
import SchemaWeave.Schema.Extension

/-!
# Extensions only add

A schema grows when everything in it stays as it is and where it is, and new elements stand
after the old ones. Every step through a document makes a schema grow, so what documents
extend is a beginning of what they give.

The description of the schema is left out: a `schema` definition may give another one.
-/

namespace SchemaWeave

open Sdl

/-! ## Growth -/

/-- Whether a body has all parts of another of its kind, unchanged and in front. -/
def TypeBody.GrowsTo : TypeBody → TypeBody → Prop
  | .scalar, .scalar => True
  | .object is fs, .object js gs => is.toList <+: js.toList ∧ fs.entries <+: gs.entries
  | .interface is fs, .interface js gs => is.toList <+: js.toList ∧ fs.entries <+: gs.entries
  | .union ms, .union ns => ms.toList <+: ns.toList
  | .enum vs, .enum ws => vs.entries <+: ws.entries
  | .inputObject fs, .inputObject gs => fs.entries <+: gs.entries
  | _, _ => False

/-- Whether a type is another one with parts and directives added at the end. -/
structure TypeDefinition.GrowsTo (d d' : TypeDefinition) : Prop where
  name : d'.name = d.name
  description : d'.description = d.description
  directives : d.directives <+: d'.directives
  body : d.body.GrowsTo d'.body

/-- Whether a schema has everything of another one, in front and at most extended. -/
structure Schema.GrowsTo (s s' : Schema) : Prop where
  name : s'.name = s.name
  directives : s.directives <+: s'.directives
  roots : ∀ op n, s.roots.get op = some n → s'.roots.get op = some n
  keys : s.types.keys <+: s'.types.keys
  types : ∀ n d, s.types.get? n = some d → ∃ d', s'.types.get? n = some d' ∧ d.GrowsTo d'
  directiveDefinitions : s.directiveDefinitions.entries <+: s'.directiveDefinitions.entries

namespace TypeBody.GrowsTo

theorem refl (b : TypeBody) : b.GrowsTo b := by
  cases b with
  | scalar => trivial
  | object _ _ => exact ⟨List.prefix_rfl, List.prefix_rfl⟩
  | interface _ _ => exact ⟨List.prefix_rfl, List.prefix_rfl⟩
  | union _ => exact List.prefix_rfl
  | enum _ => exact List.prefix_rfl
  | inputObject _ => exact List.prefix_rfl

theorem trans {a b c : TypeBody} (h : a.GrowsTo b) (h' : b.GrowsTo c) : a.GrowsTo c := by
  cases a <;> cases b <;> try exact h.elim
  all_goals cases c <;> try exact h'.elim
  case scalar.scalar.scalar => trivial
  case object.object.object => exact ⟨h.1.trans h'.1, h.2.trans h'.2⟩
  case interface.interface.interface => exact ⟨h.1.trans h'.1, h.2.trans h'.2⟩
  case union.union.union => exact List.IsPrefix.trans h h'
  case enum.enum.enum => exact List.IsPrefix.trans h h'
  case inputObject.inputObject.inputObject => exact List.IsPrefix.trans h h'

theorem fieldNames {a b : TypeBody} (h : a.GrowsTo b) : a.fieldNames <+: b.fieldNames := by
  cases a <;> cases b <;> try exact h.elim
  case scalar.scalar => exact List.prefix_rfl
  case object.object => exact h.2.map Prod.fst
  case interface.interface => exact h.2.map Prod.fst
  case union.union => exact List.prefix_rfl
  case enum.enum => exact List.prefix_rfl
  case inputObject.inputObject => exact List.IsPrefix.map Prod.fst h

end TypeBody.GrowsTo

namespace TypeDefinition.GrowsTo

theorem refl (d : TypeDefinition) : d.GrowsTo d :=
  ⟨rfl, rfl, List.prefix_rfl, TypeBody.GrowsTo.refl d.body⟩

theorem trans {a b c : TypeDefinition} (h : a.GrowsTo b) (h' : b.GrowsTo c) : a.GrowsTo c :=
  ⟨h'.name.trans h.name, h'.description.trans h.description, h.directives.trans h'.directives,
    h.body.trans h'.body⟩

end TypeDefinition.GrowsTo

namespace Schema.GrowsTo

theorem refl (s : Schema) : s.GrowsTo s :=
  ⟨rfl, List.prefix_rfl, fun _ _ h => h, List.prefix_rfl,
    fun _ d h => ⟨d, h, TypeDefinition.GrowsTo.refl d⟩, List.prefix_rfl⟩

theorem trans {a b c : Schema} (h : a.GrowsTo b) (h' : b.GrowsTo c) : a.GrowsTo c where
  name := h'.name.trans h.name
  directives := h.directives.trans h'.directives
  roots := fun op n ho => h'.roots op n (h.roots op n ho)
  keys := h.keys.trans h'.keys
  types := by
    intro n d hd
    obtain ⟨d', hd', hg⟩ := h.types n d hd
    obtain ⟨d'', hd'', hg'⟩ := h'.types n d' hd'
    exact ⟨d'', hd'', hg.trans hg'⟩
  directiveDefinitions := h.directiveDefinitions.trans h'.directiveDefinitions

end Schema.GrowsTo

/-! ## Tables and lists -/

theorem prefix_entries_addEntries {α β : Type} (key : α → Name) (fault : α → DocumentFault)
    (convert : α → Faulty β) (t : Table Name β) (l : List α) :
    t.entries <+: (addEntries key fault convert t l).1.entries := by
  induction l generalizing t with
  | nil => exact List.prefix_rfl
  | cons a l ih =>
    unfold addEntries
    split
    · exact ih t
    · next h =>
      rw [Table.contains_iff] at h
      refine List.IsPrefix.trans ?_ (ih _)
      rw [Table.entries_insert_of_not_mem _ h]
      exact List.prefix_append _ _

theorem prefix_toList_insert (s : Distinct Name) (n : Name) :
    s.toList <+: (s.insert n).toList := by
  by_cases h : n ∈ s.toList
  · simp only [Distinct.insert_of_mem h, List.prefix_rfl]
  · rw [Distinct.toList_insert_of_not_mem h]
    exact List.prefix_append _ _

theorem prefix_toList_addElements (fault : Name → DocumentFault) (s : Distinct Name)
    (ns : List Name) : s.toList <+: (addElements fault s ns).1.toList := by
  induction ns generalizing s with
  | nil => exact List.prefix_rfl
  | cons n ns ih => exact (prefix_toList_insert s n).trans (ih _)

theorem addRoots_get (r : RootOperations) (l : List (RootOperation × Name)) {op : RootOperation}
    {n : Name} (h : r.get op = some n) : (addRoots r l).1.get op = some n := by
  induction l generalizing r with
  | nil => exact h
  | cons e l ih =>
    unfold addRoots
    split
    · exact ih r h
    · next hnone =>
      -- only an entry point without a type is set, so it is another one
      refine ih _ ?_
      rw [RootOperations.get_set_of_ne _ _ fun he => ?_]
      · exact h
      · rw [he, hnone] at h
        cases h

/-! ## Steps through a document -/

namespace Schema

/-- A new entry in the table of types makes a schema grow. -/
theorem growsTo_insert_type (s : Schema) (d : TypeDefinition) (h : d.name ∉ s.types.keys) :
    s.GrowsTo { s with types := s.types.insert d.name d } where
  name := rfl
  directives := List.prefix_rfl
  roots := fun _ _ h => h
  keys := by
    show s.types.keys <+: (s.types.insert d.name d).keys
    rw [Table.keys_insert_of_not_mem _ h]
    exact List.prefix_append _ _
  types := by
    intro n d' hd'
    have hne : n ≠ d.name := by
      rintro rfl
      exact h (Table.mem_keys_of_get? hd')
    refine ⟨d', ?_, TypeDefinition.GrowsTo.refl d'⟩
    show (s.types.insert d.name d).get? n = some d'
    rw [Table.get?_insert, if_neg hne, hd']
  directiveDefinitions := List.prefix_rfl

theorem define_growsTo (s : Schema) (x : Definition) : s.GrowsTo (s.define x).1 := by
  cases x with
  | executable => exact GrowsTo.refl s
  | extendSchema _ => exact GrowsTo.refl s
  | extendType _ => exact GrowsTo.refl s
  | schema node =>
    exact { GrowsTo.refl s with
      directives := List.prefix_append _ _
      roots := fun _ _ h => addRoots_get _ _ h }
  | directive node =>
    unfold define
    simp only
    split
    · exact GrowsTo.refl s
    · next h =>
      rw [Table.contains_iff] at h
      refine { GrowsTo.refl s with directiveDefinitions := ?_ }
      show _ <+: (s.directiveDefinitions.insert _ _).entries
      rw [Table.entries_insert_of_not_mem _ h]
      exact List.prefix_append _ _
  | type node =>
    unfold define
    simp only
    split
    · exact GrowsTo.refl s
    · next h =>
      rw [Table.contains_iff] at h
      exact growsTo_insert_type s _ h

end Schema

theorem TypeBody.add_growsTo (type : Name) (b : TypeBody) (a : Addition) :
    b.GrowsTo (b.add type a).1 := by
  cases b <;> cases a <;> try exact TypeBody.GrowsTo.refl _
  case object.object => exact ⟨prefix_toList_addElements _ _ _, prefix_entries_addEntries _ _ _ _ _⟩
  case interface.interface =>
    exact ⟨prefix_toList_addElements _ _ _, prefix_entries_addEntries _ _ _ _ _⟩
  case union.union => exact prefix_toList_addElements _ _ _
  case enum.enum => exact prefix_entries_addEntries _ _ _ _ _
  case inputObject.inputObject => exact prefix_entries_addEntries _ _ _ _ _

namespace Schema

/-- Replacing a type by what it has grown to makes a schema grow. -/
theorem growsTo_replace_type {s : Schema} {n : Name} {d d' : TypeDefinition}
    (hd : s.types.get? n = some d) (hg : d.GrowsTo d') :
    s.GrowsTo { s with types := s.types.insert n d' } where
  name := rfl
  directives := List.prefix_rfl
  roots := fun _ _ h => h
  keys := by
    show s.types.keys <+: (s.types.insert n d').keys
    simp only [Table.keys_insert_of_mem _ (Table.mem_keys_of_get? hd), List.prefix_rfl]
  types := by
    intro m e he
    show ∃ e', (s.types.insert n d').get? m = some e' ∧ e.GrowsTo e'
    rw [Table.get?_insert]
    by_cases hm : m = n
    · rw [hm, hd] at he
      cases he
      exact ⟨d', by rw [if_pos hm], hg⟩
    · exact ⟨e, by rw [if_neg hm, he], TypeDefinition.GrowsTo.refl e⟩
  directiveDefinitions := List.prefix_rfl

theorem extendType_growsTo (s : Schema) (e : TypeExtension) : s.GrowsTo (s.extendType e).1 := by
  unfold extendType
  simp only
  split
  · exact GrowsTo.refl s
  · next d hd =>
    split
    · exact growsTo_replace_type hd
        ⟨rfl, rfl, List.prefix_append _ _, TypeBody.add_growsTo _ _ _⟩
    · exact GrowsTo.refl s

theorem extend_growsTo (s : Schema) (x : Definition) : s.GrowsTo (s.extend x).1 := by
  cases x with
  | extendSchema e =>
    exact { GrowsTo.refl s with
      directives := List.prefix_append _ _
      roots := fun _ _ h => addRoots_get _ _ h }
  | extendType e => exact extendType_growsTo s e
  | executable => exact GrowsTo.refl s
  | schema _ => exact GrowsTo.refl s
  | directive _ => exact GrowsTo.refl s
  | type _ => exact GrowsTo.refl s

/-! ## Documents -/

/-- What the steps of a list preserve holds at the end of all of them. -/
theorem collect_induct_of_mem {α : Type} {step : Schema → α → Faulty Schema} {P : Schema → Prop}
    {l : List α} (hstep : ∀ s, ∀ a ∈ l, P s → P (step s a).1) {s : Schema} (h : P s) :
    P (collect step s l).1 := by
  induction l generalizing s with
  | nil => exact h
  | cons a l ih =>
    exact ih (fun s b hb => hstep s b (List.mem_cons_of_mem a hb)) (hstep s a List.mem_cons_self h)

/-- What every step preserves holds at the end of all steps. -/
theorem collect_induct {α : Type} {step : Schema → α → Faulty Schema} {P : Schema → Prop}
    (hstep : ∀ s a, P s → P (step s a).1) {s : Schema} (l : List α) (h : P s) :
    P (collect step s l).1 :=
  collect_induct_of_mem (fun s a _ => hstep s a) h

theorem collect_growsTo {α : Type} {step : Schema → α → Faulty Schema}
    (hstep : ∀ (s : Schema) a, s.GrowsTo (step s a).1) (s : Schema) (l : List α) :
    s.GrowsTo (collect step s l).1 :=
  collect_induct (P := s.GrowsTo) (fun s' a h => h.trans (hstep s' a)) l (GrowsTo.refl s)

theorem addDocument_growsTo (s : Schema) (d : Document) : s.GrowsTo (s.addDocument d).1 :=
  (collect_growsTo define_growsTo s d.definitions).trans
    (collect_growsTo extend_growsTo _ d.definitions)

/-- A schema that documents extend is the result of adding them one after another. -/
theorem extendBy_eq_ok {s s' : Schema} {ds : List Document} (h : s.extendBy ds = .ok s') :
    (collect addDocument s ds).1 = s' ∧ (collect addDocument s ds).2 = [] := by
  unfold extendBy at h
  simp only at h
  split at h
  · next hf =>
    cases h
    exact ⟨rfl, List.isEmpty_iff.mp hf⟩
  · cases h

/-- What documents extend is a beginning of what they give. -/
theorem extendBy_growsTo {s s' : Schema} {ds : List Document} (h : s.extendBy ds = .ok s') :
    s.GrowsTo s' := by
  rw [← (extendBy_eq_ok h).1]
  exact collect_growsTo addDocument_growsTo s ds

/-- A schema that is read has the name it was read under. -/
theorem ofDocument_name {name : String} {d : Document} {s : Schema}
    (h : ofDocument name d = .ok s) : s.name = name := by
  unfold ofDocument at h
  cases he : (empty name).extendBy [d] with
  | error _ => rw [he] at h; cases h
  | ok s' =>
    rw [he] at h
    have hs' : s'.name = name := (extendBy_growsTo he).name
    simp only [bind, Except.bind, pure, Except.pure, Except.ok.injEq] at h
    split at h
    · rw [← h]; exact hs'
    · rw [← h]; exact hs'

end Schema

end SchemaWeave
