import SchemaWeave.Proofs.Table
import SchemaWeave.Schema.Basic

/-!
# Keys that are names

In a keyed schema every element is stored under its own name: types, fields, arguments, enum
values, directives and the arguments of directives. Whatever is looked up by a name is then the
element that carries the name.
-/

namespace SchemaWeave

/-! ## Tables -/

namespace Table

variable {κ α β : Type}

/-- Whether every entry is stored under its own name. -/
def Keyed (name : α → κ) (t : Table κ α) : Prop := ∀ e ∈ t.entries, name e.2 = e.1

instance [DecidableEq κ] (name : α → κ) (t : Table κ α) : Decidable (t.Keyed name) :=
  inferInstanceAs (Decidable (∀ e ∈ t.entries, name e.2 = e.1))

namespace Keyed

variable {name : α → κ} {t : Table κ α}

theorem empty : (Table.empty : Table κ α).Keyed name := by
  intro e he
  cases he

theorem map_name_values (h : t.Keyed name) : t.values.map name = t.keys := by
  unfold values keys
  rw [List.map_map]
  exact List.map_congr_left h

theorem map {name' : β → κ} {f : κ → α → β} (h : t.Keyed name)
    (hf : ∀ k a, name' (f k a) = name a) : (t.map f).Keyed name' := by
  rintro ⟨k, b⟩ hb
  obtain ⟨a, ha, rfl⟩ := mem_entries_map.mp hb
  exact (hf k a).trans (h (k, a) ha)

theorem filter (h : t.Keyed name) (p : κ → α → Bool) : (t.filter p).Keyed name :=
  fun e he => h e (List.mem_of_mem_filter he)

variable [DecidableEq κ]

theorem of_get? (h : t.Keyed name) {k : κ} {a : α} (ha : t.get? k = some a) : name a = k :=
  h (k, a) (get?_eq_some_iff.mp ha)

theorem get?_name (h : t.Keyed name) {a : α} (ha : a ∈ t.values) : t.get? (name a) = some a := by
  obtain ⟨k, hk⟩ := mem_values_iff.mp ha
  rw [h.of_get? hk, hk]

theorem insert {k : κ} {a : α} (h : t.Keyed name) (ha : name a = k) :
    (t.insert k a).Keyed name := by
  rintro ⟨k', b⟩ hb
  rw [← get?_eq_some_iff, get?_insert] at hb
  split at hb
  · next hk =>
    cases hb
    exact ha.trans hk.symm
  · exact h.of_get? hb

theorem erase (h : t.Keyed name) (k : κ) : (t.erase k).Keyed name := h.filter _

theorem ofList {l : List (κ × α)} (h : ∀ e ∈ l, name e.2 = e.1) : (ofList l).Keyed name := by
  suffices hl : ∀ t : Table κ α, t.Keyed name →
      (l.foldl (fun t e => t.insert e.1 e.2) t).Keyed name from hl Table.empty empty
  induction l with
  | nil => exact fun _ ht => ht
  | cons e rest ih =>
    exact fun t ht => ih (fun e' he' => h e' (by simp [he'])) _ (ht.insert (h e (by simp)))

/-- A keyed table is the table of its entries under their names. -/
theorem ofList_values (h : t.Keyed name) : Table.ofList (t.values.map fun a => (name a, a)) = t := by
  have hentries : (t.values.map fun a => (name a, a)) = t.entries := by
    rw [values, List.map_map]
    conv_rhs => rw [← List.map_id t.entries]
    exact List.map_congr_left fun e he => Prod.ext (h e he) rfl
  rw [hentries]
  exact Table.ext (entries_ofList_of_nodup t.nodup)

theorem ext_values (h : t.Keyed name) {u : Table κ α} (hu : u.Keyed name)
    (hvalues : t.values = u.values) : t = u := by
  rw [← h.ofList_values, ← hu.ofList_values, hvalues]

theorem modify (h : t.Keyed name) (k : κ) {f : α → α} (hf : ∀ a, name (f a) = name a) :
    (t.modify k f).Keyed name := by
  refine h.map fun k' a => ?_
  split
  · exact hf a
  · rfl

/-- Moving an entry keeps the others under their names and puts the moved one under its own. -/
theorem rekey {k k' : κ} {f : α → α} (h : t.Keyed name) (hf : ∀ a, name (f a) = k') :
    (t.rekey k k' f).Keyed name := by
  refine ofList fun e he => ?_
  obtain ⟨e', he', rfl⟩ := List.mem_map.mp he
  split
  · exact hf e'.2
  · exact h e' he'

end Keyed

/-! ## What holds of all entries -/

section Values

variable {P : α → Prop} {t : Table κ α}

theorem forall_values_filter (h : ∀ a ∈ t.values, P a) (p : κ → α → Bool) :
    ∀ b ∈ (t.filter p).values, P b := by
  intro b hb
  obtain ⟨e, he, rfl⟩ := List.mem_map.mp hb
  exact h e.2 (List.mem_map.mpr ⟨e, List.mem_of_mem_filter he, rfl⟩)

variable [DecidableEq κ]

theorem forall_values_insert (h : ∀ a ∈ t.values, P a) (k : κ) {a : α} (ha : P a) :
    ∀ b ∈ (t.insert k a).values, P b := by
  intro b hb
  obtain ⟨k', hk'⟩ := mem_values_iff.mp hb
  rw [get?_insert] at hk'
  split at hk'
  · cases hk'
    exact ha
  · exact h b (mem_values_of_get? hk')

theorem forall_values_map {Q : β → Prop} {f : κ → α → β} (h : ∀ a ∈ t.values, P a)
    (hf : ∀ k a, P a → Q (f k a)) : ∀ b ∈ (t.map f).values, Q b := by
  intro b hb
  obtain ⟨k, hk⟩ := mem_values_iff.mp hb
  rw [get?_map] at hk
  obtain ⟨a, ha, rfl⟩ := Option.map_eq_some_iff.mp hk
  exact hf k a (h a (mem_values_of_get? ha))

theorem forall_values_ofList {l : List (κ × α)} (h : ∀ e ∈ l, P e.2) :
    ∀ b ∈ (ofList l).values, P b := by
  suffices hl : ∀ t : Table κ α, (∀ a ∈ t.values, P a) →
      ∀ b ∈ (l.foldl (fun t e => t.insert e.1 e.2) t).values, P b from
    hl Table.empty fun _ ha => by cases ha
  induction l with
  | nil => exact fun _ ht => ht
  | cons e rest ih =>
    exact fun t ht => ih (fun e' he' => h e' (by simp [he'])) _
      (forall_values_insert ht e.1 (h e (by simp)))

end Values

end Table

/-! ## Definitions -/

/-- Whether the arguments of a field are stored under their names. -/
def Field.Keyed (f : Field) : Prop := f.arguments.Keyed InputValue.name

/-- Whether the parts of a type are stored under their names. -/
def TypeBody.Keyed : TypeBody → Prop
  | .scalar => True
  | .object _ fields => fields.Keyed Field.name ∧ ∀ f ∈ fields.values, f.Keyed
  | .interface _ fields => fields.Keyed Field.name ∧ ∀ f ∈ fields.values, f.Keyed
  | .union _ => True
  | .enum values => values.Keyed EnumValue.name
  | .inputObject fields => fields.Keyed InputValue.name

/-- Whether the arguments of a directive are stored under their names. -/
def DirectiveDefinition.Keyed (d : DirectiveDefinition) : Prop :=
  d.arguments.Keyed InputValue.name

instance (f : Field) : Decidable f.Keyed :=
  inferInstanceAs (Decidable (f.arguments.Keyed InputValue.name))

instance : (b : TypeBody) → Decidable b.Keyed
  | .scalar => inferInstanceAs (Decidable True)
  | .object _ fields =>
    inferInstanceAs (Decidable (fields.Keyed Field.name ∧ ∀ f ∈ fields.values, f.Keyed))
  | .interface _ fields =>
    inferInstanceAs (Decidable (fields.Keyed Field.name ∧ ∀ f ∈ fields.values, f.Keyed))
  | .union _ => inferInstanceAs (Decidable True)
  | .enum values => inferInstanceAs (Decidable (values.Keyed EnumValue.name))
  | .inputObject fields => inferInstanceAs (Decidable (fields.Keyed InputValue.name))

instance (d : DirectiveDefinition) : Decidable d.Keyed :=
  inferInstanceAs (Decidable (d.arguments.Keyed InputValue.name))

/-! ## Schemas -/

namespace Schema

/-- Whether every type is stored under its own name. -/
def TypesKeyed (s : Schema) : Prop := s.types.Keyed TypeDefinition.name

instance (s : Schema) : Decidable s.TypesKeyed :=
  inferInstanceAs (Decidable (s.types.Keyed TypeDefinition.name))

/-- Whether every element is stored under its own name. -/
structure Keyed (s : Schema) : Prop where
  types : s.TypesKeyed
  bodies : ∀ d ∈ s.types.values, d.body.Keyed
  directives : s.directiveDefinitions.Keyed DirectiveDefinition.name
  arguments : ∀ d ∈ s.directiveDefinitions.values, d.Keyed

instance (s : Schema) : Decidable s.Keyed :=
  decidable_of_iff (s.TypesKeyed ∧ (∀ d ∈ s.types.values, d.body.Keyed)
      ∧ s.directiveDefinitions.Keyed DirectiveDefinition.name
      ∧ ∀ d ∈ s.directiveDefinitions.values, d.Keyed)
    ⟨fun h => ⟨h.1, h.2.1, h.2.2.1, h.2.2.2⟩,
      fun h => ⟨h.types, h.bodies, h.directives, h.arguments⟩⟩

theorem Keyed.empty (name : String) : (Schema.empty name).Keyed where
  types := Table.Keyed.empty
  bodies := fun _ h => by cases h
  directives := Table.Keyed.empty
  arguments := fun _ h => by cases h

theorem TypesKeyed.name_eq {s : Schema} (h : s.TypesKeyed) {n : Name} {d : TypeDefinition}
    (hd : s.types.get? n = some d) : d.name = n :=
  Table.Keyed.of_get? h hd

end Schema

end SchemaWeave
