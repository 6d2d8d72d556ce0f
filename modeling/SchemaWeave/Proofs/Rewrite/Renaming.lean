import SchemaWeave.Proofs.Parts
import SchemaWeave.Proofs.Rewrite.Breakage

/-!
# Renaming as a change of names

The renaming of a type gives every entry of the schema its place and changes the names in it.
Two renamings in a row are one, and a renaming to the old name is none, so what one renaming
does, another takes back.

## Names that are avoided

A schema avoids a name when nothing in it refers to a type of the name. As long as the new name
is avoided and names no type, a renaming mixes up no two names: on all others it is one to one.
-/

namespace SchemaWeave

variable {old new : Name}

/-! ## Names -/

@[simp] theorem renamed_old (old new : Name) : renamed old new old = new := by
  rw [renamed, if_pos rfl]

theorem renamed_of_ne {n : Name} (h : n ≠ old) : renamed old new n = n := by
  rw [renamed, if_neg h]

@[simp] theorem renamed_self (old n : Name) : renamed old old n = n := by
  by_cases h : n = old
  · rw [h, renamed_old]
  · exact renamed_of_ne h

theorem renamed_ne_old (h : old ≠ new) (n : Name) : renamed old new n ≠ old := by
  by_cases hn : n = old
  · rw [hn, renamed_old]
    exact h.symm
  · rw [renamed_of_ne hn]
    exact hn

theorem renamed_inj {m n : Name} (hm : m ≠ new) (hn : n ≠ new) :
    renamed old new m = renamed old new n ↔ m = n := by
  refine ⟨fun h => ?_, fun h => by rw [h]⟩
  unfold renamed at h
  split at h
  · next hmo =>
    split at h
    · next hno => rw [hmo, hno]
    · exact absurd h.symm hn
  · split at h
    · exact absurd h hm
    · exact h

/-- Two renamings of one name are one. -/
theorem renamed_renamed {n : Name} (h : n ≠ new) (c : Name) :
    renamed new c (renamed old new n) = renamed old c n := by
  by_cases hn : n = old
  · rw [hn, renamed_old, renamed_old, renamed_old]
  · rw [renamed_of_ne hn, renamed_of_ne hn, renamed_of_ne h]

namespace Distinct

theorem toList_map_renamed {s : Distinct Name} (h : new ∉ s.toList) :
    (s.map (renamed old new)).toList = s.toList.map (renamed old new) :=
  toList_map fun _ ha _ hb => (renamed_inj (ne_of_mem_of_not_mem ha h)
    (ne_of_mem_of_not_mem hb h)).mp

theorem contains_map_renamed {s : Distinct Name} (h : new ∉ s.toList) {n : Name} (hn : n ≠ new) :
    (s.map (renamed old new)).contains (renamed old new n) = s.contains n := by
  refine decide_eq_decide.mpr ?_
  rw [mem_map]
  constructor
  · rintro ⟨m, hm, heq⟩
    rwa [← (renamed_inj (ne_of_mem_of_not_mem hm h) hn).mp heq]
  · exact fun hm => ⟨n, hm, rfl⟩

theorem map_renamed_map_renamed {s : Distinct Name} (h : new ∉ s.toList) (c : Name) :
    (s.map (renamed old new)).map (renamed new c) = s.map (renamed old c) := by
  rw [map, toList_map_renamed h, List.map_map, map]
  congr 1
  exact List.map_congr_left fun n hn => renamed_renamed (ne_of_mem_of_not_mem hn h) c

theorem map_renamed_self (s : Distinct Name) : s.map (renamed old old) = s := by
  have hid : renamed old old = id := funext (renamed_self old)
  rw [map, hid, List.map_id, ofList_toList]

end Distinct

/-! ## Type references -/

namespace TypeRef

theorem innerName_rename (t : TypeRef) (old new : Name) :
    (t.rename old new).innerName = renamed old new t.innerName := by
  induction t with
  | named n => rfl
  | nonNullNamed n => rfl
  | list t ih => exact ih
  | nonNullList t ih => exact ih

@[simp] theorem isNonNull_rename (t : TypeRef) (old new : Name) :
    (t.rename old new).isNonNull = t.isNonNull := by
  cases t <;> rfl

theorem rename_rename {t : TypeRef} (h : t.innerName ≠ new) (c : Name) :
    (t.rename old new).rename new c = t.rename old c := by
  induction t with
  | named n => exact congrArg named (renamed_renamed h c)
  | nonNullNamed n => exact congrArg nonNullNamed (renamed_renamed h c)
  | list t ih => exact congrArg list (ih h)
  | nonNullList t ih => exact congrArg nonNullList (ih h)

@[simp] theorem rename_self (t : TypeRef) (old : Name) : t.rename old old = t := by
  induction t with
  | named n => exact congrArg named (renamed_self old n)
  | nonNullNamed n => exact congrArg nonNullNamed (renamed_self old n)
  | list t ih => exact congrArg list ih
  | nonNullList t ih => exact congrArg nonNullList ih

theorem rename_of_ne {t : TypeRef} (h : t.innerName ≠ old) : t.rename old new = t := by
  induction t with
  | named n => exact congrArg named (renamed_of_ne h)
  | nonNullNamed n => exact congrArg nonNullNamed (renamed_of_ne h)
  | list t ih => exact congrArg list (ih h)
  | nonNullList t ih => exact congrArg nonNullList (ih h)

/-- References that differ stay different. -/
theorem rename_inj {t u : TypeRef} (ht : t.innerName ≠ new) (hu : u.innerName ≠ new) :
    t.rename old new = u.rename old new ↔ t = u := by
  refine ⟨fun h => ?_, fun h => by rw [h]⟩
  -- renaming the new name to the old one on either side gives back the references
  have hback := congrArg (TypeRef.rename new old) h
  rwa [rename_rename ht, rename_rename hu, rename_self, rename_self] at hback

end TypeRef

/-! ## Avoided names -/

/-- Whether neither the field nor an argument of it is of a type. -/
def Field.Avoids (f : Field) (n : Name) : Prop :=
  f.type.innerName ≠ n ∧ ∀ a ∈ f.arguments.values, a.type.innerName ≠ n

/-- Whether nothing in a body refers to a type. -/
def TypeBody.Avoids (b : TypeBody) (n : Name) : Prop :=
  match b with
  | .object interfaces fields => n ∉ interfaces.toList ∧ ∀ f ∈ fields.values, f.Avoids n
  | .interface interfaces fields => n ∉ interfaces.toList ∧ ∀ f ∈ fields.values, f.Avoids n
  | .union members => n ∉ members.toList
  | .inputObject fields => ∀ f ∈ fields.values, f.type.innerName ≠ n
  | .scalar => True
  | .enum _ => True

/-- Whether nothing in a schema refers to a type: no field, argument or input field, no argument
of a directive, no `implements` clause, no union and no entry point. -/
structure Schema.Avoids (s : Schema) (n : Name) : Prop where
  bodies : ∀ d ∈ s.types.values, d.body.Avoids n
  directives : ∀ d ∈ s.directiveDefinitions.values, ∀ a ∈ d.arguments.values,
    a.type.innerName ≠ n
  roots : ∀ op, s.roots.get op ≠ some n

instance (f : Field) (n : Name) : Decidable (f.Avoids n) :=
  inferInstanceAs (Decidable (f.type.innerName ≠ n ∧ ∀ a ∈ f.arguments.values,
    a.type.innerName ≠ n))

instance (b : TypeBody) (n : Name) : Decidable (b.Avoids n) :=
  match b with
  | .object interfaces fields =>
    inferInstanceAs (Decidable (n ∉ interfaces.toList ∧ ∀ f ∈ fields.values, f.Avoids n))
  | .interface interfaces fields =>
    inferInstanceAs (Decidable (n ∉ interfaces.toList ∧ ∀ f ∈ fields.values, f.Avoids n))
  | .union members => inferInstanceAs (Decidable (n ∉ members.toList))
  | .inputObject fields =>
    inferInstanceAs (Decidable (∀ f ∈ fields.values, f.type.innerName ≠ n))
  | .scalar => inferInstanceAs (Decidable True)
  | .enum _ => inferInstanceAs (Decidable True)

instance (s : Schema) (n : Name) : Decidable (s.Avoids n) :=
  decidable_of_iff ((∀ d ∈ s.types.values, d.body.Avoids n) ∧
      (∀ d ∈ s.directiveDefinitions.values, ∀ a ∈ d.arguments.values, a.type.innerName ≠ n) ∧
      ∀ op ∈ RootOperation.all, s.roots.get op ≠ some n)
    ⟨fun h => ⟨h.1, h.2.1, fun op => h.2.2 op (by cases op <;> decide)⟩,
      fun h => ⟨h.bodies, h.directives, fun op _ => h.roots op⟩⟩

/-! ### After a renaming

Nothing refers to the old name any more. -/

theorem renameInputs_avoids (h : old ≠ new) (t : Table Name InputValue) :
    ∀ v ∈ (renameInputs t old new).values, v.type.innerName ≠ old := by
  refine Table.forall_values_map (P := fun _ => True) (fun _ _ => trivial) fun _ v _ => ?_
  rw [InputValue.renameType, TypeRef.innerName_rename]
  exact renamed_ne_old h _

theorem Field.renameType_avoids (h : old ≠ new) (f : Field) :
    (f.renameType old new).Avoids old := by
  refine ⟨?_, renameInputs_avoids h f.arguments⟩
  rw [renameType, TypeRef.innerName_rename]
  exact renamed_ne_old h _

theorem Distinct.old_not_mem_map_renamed (h : old ≠ new) (s : Distinct Name) :
    old ∉ (s.map (renamed old new)).toList := by
  rw [mem_map]
  rintro ⟨n, -, hn⟩
  exact renamed_ne_old h n hn

theorem TypeBody.renameType_avoids (h : old ≠ new) (b : TypeBody) :
    (b.renameType old new).Avoids old := by
  have hfields (fields : Table Name Field) :
      ∀ f ∈ (fields.map fun _ f => f.renameType old new).values, f.Avoids old :=
    Table.forall_values_map (P := fun _ => True) (fun _ _ => trivial)
      fun _ f _ => f.renameType_avoids h
  cases b with
  | scalar => trivial
  | enum values => trivial
  | object interfaces fields => exact ⟨interfaces.old_not_mem_map_renamed h, hfields fields⟩
  | interface interfaces fields => exact ⟨interfaces.old_not_mem_map_renamed h, hfields fields⟩
  | union members => exact members.old_not_mem_map_renamed h
  | inputObject fields => exact renameInputs_avoids h fields

theorem Schema.renameType_avoids (h : old ≠ new) (s : Schema) :
    (s.renameType old new).Avoids old where
  bodies := Table.forall_values_map (P := fun _ => True) (fun _ _ => trivial)
    fun _ d _ => d.body.renameType_avoids h
  directives := Table.forall_values_map (P := fun _ => True) (fun _ _ => trivial)
    fun _ d _ => renameInputs_avoids h d.arguments
  roots := by
    intro op
    show (s.roots.map (renamed old new)).get op ≠ some old
    rw [RootOperations.get_map, ne_eq, Option.map_eq_some_iff]
    rintro ⟨n, -, hn⟩
    exact renamed_ne_old h n hn

/-! ### References -/

/-- A type avoids a name when none of its references, interfaces and members is of the name. -/
theorem TypeDefinition.avoids_iff {d : TypeDefinition} {n : Name} :
    d.body.Avoids n ↔ (∀ r ∈ d.references, r.type.innerName ≠ n) ∧
      n ∉ d.body.interfaceNames ∧ n ∉ d.body.memberNames := by
  obtain ⟨name, description, directives, body⟩ := d
  cases body with
  | object interfaces fields =>
    show _ ∧ _ ↔ (∀ r ∈ fields.values.flatMap fun f => f.references name, _) ∧ _
    rw [forall_fieldReferences (p := fun t => t.innerName ≠ n)]
    simp [TypeBody.interfaceNames, TypeBody.memberNames, Field.Avoids, and_comm]
  | interface interfaces fields =>
    show _ ∧ _ ↔ (∀ r ∈ fields.values.flatMap fun f => f.references name, _) ∧ _
    rw [forall_fieldReferences (p := fun t => t.innerName ≠ n)]
    simp [TypeBody.interfaceNames, TypeBody.memberNames, Field.Avoids, and_comm]
  | inputObject fields =>
    simp [TypeBody.Avoids, references, TypeBody.interfaceNames, TypeBody.memberNames]
  | union members =>
    simp [TypeBody.Avoids, references, TypeBody.interfaceNames, TypeBody.memberNames]
  | scalar => simp [TypeBody.Avoids, references, TypeBody.interfaceNames, TypeBody.memberNames]
  | enum values => simp [TypeBody.Avoids, references, TypeBody.interfaceNames, TypeBody.memberNames]

theorem Schema.Avoids.references {s : Schema} {n : Name} (h : s.Avoids n) :
    ∀ r ∈ s.references, r.type.innerName ≠ n := by
  intro r hr
  rcases List.mem_append.mp hr with hr | hr
  · obtain ⟨d, hd, hr⟩ := List.mem_flatMap.mp hr
    exact (TypeDefinition.avoids_iff.mp (h.bodies d hd)).1 r hr
  · obtain ⟨d, hd, hr⟩ := List.mem_flatMap.mp hr
    obtain ⟨a, ha, rfl⟩ := List.mem_map.mp hr
    exact h.directives d hd a ha

/-! ### Parts of a type -/

@[simp] theorem TypeBody.renameType_kind (b : TypeBody) (old new : Name) :
    (b.renameType old new).kind = b.kind := by
  cases b <;> rfl

/-- A renaming of types changes no name of a field. -/
@[simp] theorem TypeBody.renameType_fieldNames (b : TypeBody) (old new : Name) :
    (b.renameType old new).fieldNames = b.fieldNames := by
  cases b with
  | object interfaces fields => exact Table.keys_map fields _
  | interface interfaces fields => exact Table.keys_map fields _
  | inputObject fields => exact Table.keys_map fields _
  | _ => rfl

theorem TypeBody.renameType_interfaceNames {b : TypeBody} (h : b.Avoids new) :
    (b.renameType old new).interfaceNames = b.interfaceNames.map (renamed old new) := by
  cases b with
  | object interfaces fields => exact Distinct.toList_map_renamed h.1
  | interface interfaces fields => exact Distinct.toList_map_renamed h.1
  | _ => rfl

theorem TypeBody.renameType_memberNames {b : TypeBody} (h : b.Avoids new) :
    (b.renameType old new).memberNames = b.memberNames.map (renamed old new) := by
  cases b with
  | union members => exact Distinct.toList_map_renamed h
  | _ => rfl

/-! ## Two renamings -/

theorem InputValue.renameType_renameType {v : InputValue} (h : v.type.innerName ≠ new) (c : Name) :
    (v.renameType old new).renameType new c = v.renameType old c := by
  unfold renameType
  rw [TypeRef.rename_rename h]

theorem renameInputs_renameInputs {t : Table Name InputValue}
    (h : ∀ v ∈ t.values, v.type.innerName ≠ new) (c : Name) :
    renameInputs (renameInputs t old new) new c = renameInputs t old c := by
  unfold renameInputs
  rw [Table.map_map]
  exact Table.map_congr fun _ v hv =>
    InputValue.renameType_renameType (h v (Table.mem_values_of_mem hv)) c

theorem Field.renameType_renameType {f : Field} (h : f.Avoids new) (c : Name) :
    (f.renameType old new).renameType new c = f.renameType old c := by
  unfold renameType
  rw [TypeRef.rename_rename h.1, renameInputs_renameInputs h.2]

theorem renameFields_renameFields {fields : Table Name Field}
    (h : ∀ f ∈ fields.values, f.Avoids new) (c : Name) :
    (fields.map fun _ f => f.renameType old new).map (fun _ f => f.renameType new c)
      = fields.map fun _ f => f.renameType old c := by
  rw [Table.map_map]
  exact Table.map_congr fun _ f hf =>
    Field.renameType_renameType (h f (Table.mem_values_of_mem hf)) c

theorem TypeBody.renameType_renameType {b : TypeBody} (h : b.Avoids new) (c : Name) :
    (b.renameType old new).renameType new c = b.renameType old c := by
  cases b with
  | scalar => rfl
  | enum values => rfl
  | object interfaces fields =>
    exact congrArg₂ object (Distinct.map_renamed_map_renamed h.1 c)
      (renameFields_renameFields h.2 c)
  | interface interfaces fields =>
    exact congrArg₂ interface (Distinct.map_renamed_map_renamed h.1 c)
      (renameFields_renameFields h.2 c)
  | union members => exact congrArg union (Distinct.map_renamed_map_renamed h c)
  | inputObject fields => exact congrArg inputObject (renameInputs_renameInputs h c)

theorem DirectiveDefinition.renameType_renameType {d : DirectiveDefinition}
    (h : ∀ a ∈ d.arguments.values, a.type.innerName ≠ new) (c : Name) :
    (d.renameType old new).renameType new c = d.renameType old c := by
  unfold renameType
  rw [renameInputs_renameInputs h]

/-! ## No renaming -/

theorem renameInputs_self (t : Table Name InputValue) (old : Name) : renameInputs t old old = t :=
  Table.map_eq_self fun _ v _ => by rw [InputValue.renameType, TypeRef.rename_self]

theorem Field.renameType_self (f : Field) (old : Name) : f.renameType old old = f := by
  rw [renameType, TypeRef.rename_self, renameInputs_self]

theorem renameFields_self (fields : Table Name Field) (old : Name) :
    (fields.map fun _ f => f.renameType old old) = fields :=
  Table.map_eq_self fun _ f _ => f.renameType_self old

theorem TypeBody.renameType_self (b : TypeBody) (old : Name) : b.renameType old old = b := by
  cases b with
  | scalar => rfl
  | enum values => rfl
  | object interfaces fields =>
    exact congrArg₂ object (Distinct.map_renamed_self interfaces) (renameFields_self fields old)
  | interface interfaces fields =>
    exact congrArg₂ interface (Distinct.map_renamed_self interfaces) (renameFields_self fields old)
  | union members => exact congrArg union (Distinct.map_renamed_self members)
  | inputObject fields => exact congrArg inputObject (renameInputs_self fields old)

theorem DirectiveDefinition.renameType_self (d : DirectiveDefinition) (old : Name) :
    d.renameType old old = d := by
  rw [renameType, renameInputs_self]

/-! ## Types of the schema -/

/-- A definition with its name and its references renamed. -/
def TypeDefinition.renameType (d : TypeDefinition) (old new : Name) : TypeDefinition :=
  { d with name := renamed old new d.name, body := d.body.renameType old new }

namespace Schema

variable {s : Schema}

theorem directiveDefinitions_renameType (s : Schema) (old new : Name) :
    (s.renameType old new).directiveDefinitions
      = s.directiveDefinitions.map fun _ d => d.renameType old new := rfl

theorem roots_renameType (s : Schema) (old new : Name) :
    (s.renameType old new).roots = s.roots.map (renamed old new) := rfl

/-- Renamings change the types, the directives and the entry points, and nothing else. -/
theorem ext_parts {s t : Schema}
    (hrest : (s.name, s.description, s.directives) = (t.name, t.description, t.directives))
    (htypes : s.types = t.types) (hdirectives : s.directiveDefinitions = t.directiveDefinitions)
    (hroots : s.roots = t.roots) : s = t := by
  obtain ⟨name, description, directives, roots, types, definitions⟩ := s
  cases hrest
  cases htypes
  cases hdirectives
  cases hroots
  rfl

/-- The renamed type stays where it was, and so do all others. -/
theorem entries_renameType (hk : s.TypesKeyed) (hfree : new ∈ s.types.keys → new = old) :
    (s.renameType old new).types.entries
      = s.types.entries.map fun e => (renamed old new e.1, e.2.renameType old new) := by
  show List.map _ (s.types.rekey old new _).entries = _
  rw [Table.entries_rekey hfree, List.map_map]
  refine List.map_congr_left fun e he => ?_
  have hname : e.2.name = e.1 := hk e he
  rw [Function.comp_apply]
  by_cases h : e.1 = old
  · rw [if_pos h, h, renamed_old, TypeDefinition.renameType, hname, h, renamed_old]
  · rw [if_neg h, renamed_of_ne h, TypeDefinition.renameType, hname, renamed_of_ne h, ← hname]

theorem keys_renameType (hk : s.TypesKeyed) (hfree : new ∈ s.types.keys → new = old) :
    (s.renameType old new).types.keys = s.types.keys.map (renamed old new) := by
  rw [Table.keys, entries_renameType hk hfree, List.map_map, Table.keys, List.map_map]
  rfl

theorem values_renameType (hk : s.TypesKeyed) (hfree : new ∈ s.types.keys → new = old) :
    (s.renameType old new).types.values = s.types.values.map (·.renameType old new) := by
  rw [Table.values, entries_renameType hk hfree, List.map_map, Table.values, List.map_map]
  rfl

/-- A type is found under its new name. -/
theorem get?_renameType (hk : s.TypesKeyed) (hfree : new ∉ s.types.keys) {n : Name}
    (hn : n ≠ new) :
    (s.renameType old new).types.get? (renamed old new n)
      = (s.types.get? n).map (·.renameType old new) := by
  ext d
  rw [Table.get?_eq_some_iff, entries_renameType hk fun h => absurd h hfree,
    Option.map_eq_some_iff, List.mem_map]
  constructor
  · rintro ⟨e, he, heq⟩
    obtain ⟨hkey, rfl⟩ := Prod.mk.injEq .. ▸ heq
    have hkn : e.1 ≠ new := fun h => hfree (h ▸ Table.mem_keys_of_mem he)
    obtain rfl := (renamed_inj hkn hn).mp hkey
    exact ⟨e.2, Table.get?_eq_some_iff.mpr he, rfl⟩
  · rintro ⟨d, hd, rfl⟩
    exact ⟨(n, d), Table.get?_eq_some_iff.mp hd, rfl⟩

theorem renameType_typesKeyed (hk : s.TypesKeyed) (hfree : new ∈ s.types.keys → new = old) :
    (s.renameType old new).TypesKeyed := by
  intro e' he'
  rw [entries_renameType hk hfree] at he'
  obtain ⟨e, he, rfl⟩ := List.mem_map.mp he'
  exact congrArg (renamed old new) (hk e he)

/-- A schema that avoids the new name is renamed twice as it is renamed once. -/
theorem renameType_renameType (hk : s.TypesKeyed) (hfree : new ∉ s.types.keys)
    (h : s.Avoids new) {c : Name} (hc : c ∈ s.types.keys → c = old) :
    (s.renameType old new).renameType new c = s.renameType old c := by
  have hk' : (s.renameType old new).TypesKeyed :=
    renameType_typesKeyed hk fun h => absurd h hfree
  have hc' : c ∈ (s.renameType old new).types.keys → c = new := by
    rw [keys_renameType hk fun h => absurd h hfree]
    intro hm
    obtain ⟨n, hn, rfl⟩ := List.mem_map.mp hm
    by_cases hno : n = old
    · rw [hno, renamed_old]
    · rw [renamed_of_ne hno] at hc
      exact absurd (hc hn) hno
  have htypes : ((s.renameType old new).renameType new c).types = (s.renameType old c).types := by
    refine Table.ext ?_
    rw [entries_renameType hk' hc', entries_renameType hk fun h => absurd h hfree,
      entries_renameType hk hc, List.map_map]
    refine List.map_congr_left fun e he => ?_
    have hne : e.1 ≠ new := fun h => hfree (h ▸ Table.mem_keys_of_mem he)
    have hname : e.2.name ≠ new := by rw [hk e he]; exact hne
    rw [Function.comp_apply, renamed_renamed hne, TypeDefinition.renameType]
    unfold TypeDefinition.renameType
    rw [renamed_renamed hname,
      TypeBody.renameType_renameType (h.bodies e.2 (Table.mem_values_of_mem he))]
  have hdirectives : ((s.renameType old new).renameType new c).directiveDefinitions
      = (s.renameType old c).directiveDefinitions := by
    rw [directiveDefinitions_renameType, directiveDefinitions_renameType,
      directiveDefinitions_renameType, Table.map_map]
    exact Table.map_congr fun _ d hd =>
      DirectiveDefinition.renameType_renameType (h.directives d (Table.mem_values_of_mem hd)) c
  have hroots : ((s.renameType old new).renameType new c).roots = (s.renameType old c).roots := by
    rw [roots_renameType, roots_renameType, roots_renameType, RootOperations.map_map]
    refine RootOperations.map_congr fun op n hn => renamed_renamed (fun hnew => ?_) c
    exact h.roots op (hnew ▸ hn)
  exact ext_parts rfl htypes hdirectives hroots

theorem renameType_self (hk : s.TypesKeyed) (old : Name) : s.renameType old old = s := by
  have htypes : (s.renameType old old).types = s.types := by
    refine Table.ext ?_
    rw [entries_renameType hk fun _ => rfl]
    refine (List.map_congr_left (g := id) fun e _ => ?_).trans (List.map_id _)
    rw [renamed_self, TypeDefinition.renameType, renamed_self, TypeBody.renameType_self]
    rfl
  have hdirectives : (s.renameType old old).directiveDefinitions = s.directiveDefinitions :=
    (directiveDefinitions_renameType s old old).trans
      (Table.map_eq_self fun _ d _ => d.renameType_self old)
  have hroots : (s.renameType old old).roots = s.roots := by
    have hid : renamed old old = id := funext (renamed_self old)
    rw [roots_renameType, hid, RootOperations.map_id]
  exact ext_parts rfl htypes hdirectives hroots

end Schema

end SchemaWeave
