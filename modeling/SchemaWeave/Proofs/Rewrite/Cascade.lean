import Mathlib.Data.List.Perm.Basic
import SchemaWeave.Proofs.EntryPoints
import SchemaWeave.Proofs.Rewrite.Removal
import SchemaWeave.Proofs.Rewrite.Rule

/-!
# What a removal leaves

The result of removing a type, described part by part and without saying how it is made: of every
table, which entries are left, that they keep their order, and what each of them has become. The
description fits one schema only, so it determines the removal.

References are read in two ways. Whether something refers to a type is a matter of the innermost
name, and whether an argument is required of the outermost layer.
-/

namespace SchemaWeave

/-! ## Tables -/

/-- Sublists of a list without repetition are told apart by their elements. -/
theorem eq_of_sublist_of_mem_iff {α : Type} {l u v : List α} (hl : l.Nodup) (hu : u.Sublist l)
    (hv : v.Sublist l) (h : ∀ a, a ∈ u ↔ a ∈ v) : u = v := by
  classical
  have hkept {u : List α} (hu : u.Sublist l) : u = l.filter (· ∈ u) := by
    have hself : u.filter (· ∈ u) = u := List.filter_eq_self.mpr fun a ha => decide_eq_true ha
    have hsub : u.Sublist (l.filter (· ∈ u)) := by
      have hfilter := hu.filter (· ∈ u)
      rwa [hself] at hfilter
    have hmem (a : α) : a ∈ u ↔ a ∈ l.filter (· ∈ u) := by
      simpa using fun ha => hu.subset ha
    exact hsub.eq_of_length
      ((List.perm_ext_iff_of_nodup (hu.nodup hl) (hl.filter _)).mpr hmem).length_eq
  rw [hkept hu, hkept hv]
  exact List.filter_congr fun a _ => decide_eq_decide.mpr (h a)

namespace Table

variable {α : Type}

/-- Whether a table has exactly those entries of another that stay, in their order, each changed
in a given way. -/
structure Retains (t t' : Table Name α) (stays : Name → α → Prop) (becomes : α → α → Prop) :
    Prop where
  order : t'.keys.Sublist t.keys
  left : ∀ n, n ∈ t'.keys ↔ ∃ a, t.get? n = some a ∧ stays n a
  entry : ∀ n a a', t.get? n = some a → t'.get? n = some a' → becomes a a'

namespace Retains

variable {t t' u : Table Name α} {stays : Name → α → Prop} {becomes : α → α → Prop}

/-- What stays, and what it becomes, determines the table. -/
theorem unique (h : t.Retains t' stays becomes) (h' : t.Retains u stays becomes)
    (hbecomes : ∀ a b c, becomes a b → becomes a c → b = c) : t' = u := by
  have hkeys : t'.keys = u.keys := eq_of_sublist_of_mem_iff t.keys_nodup h.order h'.order
    fun n => (h.left n).trans (h'.left n).symm
  refine ext_get? hkeys fun n hn => ?_
  obtain ⟨a, ha, -⟩ := (h.left n).mp hn
  obtain ⟨b, hb⟩ := exists_get?_of_mem_keys hn
  obtain ⟨c, hc⟩ := exists_get?_of_mem_keys (hkeys ▸ hn)
  rw [hb, hc, hbecomes a b c (h.entry n a b ha hb) (h'.entry n a c ha hc)]

theorem self (t : Table Name α) : t.Retains t (fun _ _ => True) Eq where
  order := .refl _
  left n := by
    simp only [and_true]
    constructor
    · exact exists_get?_of_mem_keys
    · rintro ⟨a, ha⟩
      exact mem_keys_of_get? ha
  entry n a a' ha ha' := Option.some.inj (ha.symm.trans ha')

theorem filter (t : Table Name α) (p : Name → α → Bool) :
    t.Retains (t.filter p) (fun n a => p n a = true) Eq where
  order := List.filter_sublist.map _
  left n := by
    rw [mem_keys]
    simp only [mem_entries_filter, get?_eq_some_iff]
  entry n a a' ha ha' := by
    rw [get?_filter, Option.filter_eq_some_iff, ha] at ha'
    exact Option.some.inj ha'.1

theorem map (h : t.Retains t' stays Eq) (f : α → α) (hf : ∀ a, becomes a (f a)) :
    t.Retains (t'.map fun _ a => f a) stays becomes where
  order := by
    rw [keys_map]
    exact h.order
  left n := by
    rw [keys_map]
    exact h.left n
  entry n a a' ha ha' := by
    rw [get?_map] at ha'
    obtain ⟨b, hb, rfl⟩ := Option.map_eq_some_iff.mp ha'
    rw [← h.entry n a b ha hb]
    exact hf a

theorem congr {stays' : Name → α → Prop} (h : t.Retains t' stays becomes)
    (hstays : ∀ n a, stays n a ↔ stays' n a) : t.Retains t' stays' becomes :=
  ⟨h.order, by simpa only [hstays] using h.left, h.entry⟩

end Retains

end Table

/-! ## Parts of a schema -/

/-- Whether a list has lost an element and nothing else. -/
def Distinct.Loses (s s' : Distinct Name) (gone : Name) : Prop :=
  s'.toList.Sublist s.toList ∧ ∀ n, n ∈ s'.toList ↔ n ∈ s.toList ∧ n ≠ gone

theorem Distinct.Loses.unique {s s' u : Distinct Name} {gone : Name} (h : s.Loses s' gone)
    (h' : s.Loses u gone) : s' = u :=
  ext (eq_of_sublist_of_mem_iff s.nodup h.1 h'.1 fun n => (h.2 n).trans (h'.2 n).symm)

theorem Distinct.loses_erase (s : Distinct Name) (gone : Name) : s.Loses (s.erase gone) gone :=
  ⟨List.filter_sublist, fun _ => mem_erase⟩

namespace Field

/-- Whether a field stays when a type goes: it does not return the type, and no required argument
is of the type. -/
def Stays (f : Field) (gone : Name) : Prop :=
  f.type.innerName ≠ gone ∧
    ∀ n a, f.arguments.get? n = some a → a.type.isNonNull = true → a.type.innerName ≠ gone

/-- Whether a field is another one without its arguments of a type. -/
structure Trimmed (gone : Name) (f f' : Field) : Prop where
  name : f'.name = f.name
  description : f'.description = f.description
  type : f'.type = f.type
  directives : f'.directives = f.directives
  arguments : f.arguments.Retains f'.arguments (fun _ a => a.type.innerName ≠ gone) Eq

end Field

/-- Whether a body is another one without what refers to a type. -/
inductive TypeBody.Trimmed (gone : Name) : TypeBody → TypeBody → Prop where
  | scalar : Trimmed gone .scalar .scalar
  | object {is is' : Distinct Name} {fs fs' : Table Name Field} (interfaces : is.Loses is' gone)
    (fields : fs.Retains fs' (fun _ f => f.Stays gone) (Field.Trimmed gone)) :
    Trimmed gone (.object is fs) (.object is' fs')
  | interface {is is' : Distinct Name} {fs fs' : Table Name Field} (interfaces : is.Loses is' gone)
    (fields : fs.Retains fs' (fun _ f => f.Stays gone) (Field.Trimmed gone)) :
    Trimmed gone (.interface is fs) (.interface is' fs')
  | union {ms ms' : Distinct Name} (members : ms.Loses ms' gone) :
    Trimmed gone (.union ms) (.union ms')
  | enum (values : Table Name EnumValue) : Trimmed gone (.enum values) (.enum values)
  | inputObject {fs fs' : Table Name InputValue}
    (fields : fs.Retains fs' (fun _ v => v.type.innerName ≠ gone) Eq) :
    Trimmed gone (.inputObject fs) (.inputObject fs')

/-- Whether a definition is another one without what refers to a type. -/
structure TypeDefinition.Trimmed (gone : Name) (d d' : TypeDefinition) : Prop where
  name : d'.name = d.name
  description : d'.description = d.description
  directives : d'.directives = d.directives
  body : d.body.Trimmed gone d'.body

/-- Whether a directive definition is another one without its arguments of a type, except for
required ones. -/
structure DirectiveDefinition.Trimmed (gone : Name) (d d' : DirectiveDefinition) : Prop where
  name : d'.name = d.name
  description : d'.description = d.description
  repeatable : d'.repeatable = d.repeatable
  locations : d'.locations = d.locations
  arguments : d.arguments.Retains d'.arguments
    (fun _ a => a.type.isNonNull = true ∨ a.type.innerName ≠ gone) Eq

/-- Whether a schema is another one without a type and what cannot stay without it. -/
structure Schema.Trimmed (gone : Name) (s s' : Schema) : Prop where
  name : s'.name = s.name
  description : s'.description = s.description
  directives : s'.directives = s.directives
  roots : ∀ op n, s'.roots.get op = some n ↔ s.roots.get op = some n ∧ n ≠ gone
  types : s.types.Retains s'.types (fun n _ => n ≠ gone) (TypeDefinition.Trimmed gone)
  directiveDefinitions : s.directiveDefinitions.Retains s'.directiveDefinitions (fun _ _ => True)
    (DirectiveDefinition.Trimmed gone)

/-! ## The removal -/

section Removal

variable (gone : Name)

theorem Field.stays_iff {f : Field} : f.Stays gone ↔ f.survives gone = true := by
  rw [survives_iff, Stays]
  refine and_congr_right fun _ => ?_
  simp only [Table.mem_values_iff, forall_exists_index]
  exact forall_comm

theorem Field.dropArguments_trimmed (f : Field) : f.Trimmed gone (f.dropArguments gone) where
  name := rfl
  description := rfl
  type := rfl
  directives := rfl
  arguments := (Table.Retains.filter f.arguments fun _ a => !a.type.refersTo gone).congr
    fun _ _ => by simp [TypeRef.refersTo]

theorem remainingFields_retains (fs : Table Name Field) :
    fs.Retains (remainingFields fs gone) (fun _ f => f.Stays gone) (Field.Trimmed gone) :=
  ((Table.Retains.filter fs _).map _ (Field.dropArguments_trimmed gone)).congr fun _ _ =>
    (Field.stays_iff gone).symm

theorem TypeBody.withoutType_trimmed (b : TypeBody) : b.Trimmed gone (b.withoutType gone) := by
  cases b with
  | scalar => exact .scalar
  | object is fs => exact .object (is.loses_erase gone) (remainingFields_retains gone fs)
  | interface is fs => exact .interface (is.loses_erase gone) (remainingFields_retains gone fs)
  | union ms => exact .union (ms.loses_erase gone)
  | enum values => exact .enum values
  | inputObject fs =>
    exact .inputObject ((Table.Retains.filter fs _).congr fun _ _ => by simp [TypeRef.refersTo])

theorem TypeDefinition.withoutType_trimmed (d : TypeDefinition) :
    d.Trimmed gone (d.withoutType gone) :=
  ⟨rfl, rfl, rfl, d.body.withoutType_trimmed gone⟩

theorem DirectiveDefinition.withoutType_trimmed (d : DirectiveDefinition) :
    d.Trimmed gone (d.withoutType gone) where
  name := rfl
  description := rfl
  repeatable := rfl
  locations := rfl
  arguments := (Table.Retains.filter d.arguments
    fun _ a => a.type.isNonNull || !a.type.refersTo gone).congr
    fun _ _ => by simp [TypeRef.refersTo]

theorem Schema.withoutType_trimmed (s : Schema) : s.Trimmed gone (s.withoutType gone) where
  name := rfl
  description := rfl
  directives := rfl
  roots op n := by
    have hroots : (s.withoutType gone).roots.get op = (s.roots.get op).filter (· ≠ gone) := by
      cases op <;> rfl
    rw [hroots, Option.filter_eq_some_iff, decide_eq_true_iff]
  types := ((Table.Retains.filter s.types _).map _ (TypeDefinition.withoutType_trimmed gone)).congr
    fun _ _ => decide_eq_true_iff
  directiveDefinitions :=
    (Table.Retains.self s.directiveDefinitions).map _ (DirectiveDefinition.withoutType_trimmed gone)

end Removal

/-! ## One result -/

section Unique

variable {gone : Name}

theorem Field.Trimmed.unique {f g h : Field} (hg : f.Trimmed gone g) (hh : f.Trimmed gone h) :
    g = h := by
  cases g
  cases h
  rw [mk.injEq]
  exact ⟨hg.name.trans hh.name.symm, hg.description.trans hh.description.symm,
    hg.arguments.unique hh.arguments fun _ _ _ hb hc => hb.symm.trans hc,
    hg.type.trans hh.type.symm, hg.directives.trans hh.directives.symm⟩

theorem TypeBody.Trimmed.unique {b c d : TypeBody} (hc : b.Trimmed gone c)
    (hd : b.Trimmed gone d) : c = d := by
  have hfields {fs fs' fs'' : Table Name Field}
      (h : fs.Retains fs' (fun _ f => f.Stays gone) (Field.Trimmed gone))
      (h' : fs.Retains fs'' (fun _ f => f.Stays gone) (Field.Trimmed gone)) : fs' = fs'' :=
    h.unique h' fun _ _ _ => Field.Trimmed.unique
  cases hc with
  | scalar => cases hd; rfl
  | object is fs =>
    cases hd with
    | object is' fs' => rw [is.unique is', hfields fs fs']
  | interface is fs =>
    cases hd with
    | interface is' fs' => rw [is.unique is', hfields fs fs']
  | union ms =>
    cases hd with
    | union ms' => rw [ms.unique ms']
  | enum values => cases hd; rfl
  | inputObject fs =>
    cases hd with
    | inputObject fs' => rw [fs.unique fs' fun _ _ _ hb hc => hb.symm.trans hc]

theorem TypeDefinition.Trimmed.unique {d e e' : TypeDefinition} (h : d.Trimmed gone e)
    (h' : d.Trimmed gone e') : e = e' := by
  cases e
  cases e'
  rw [mk.injEq]
  exact ⟨h.name.trans h'.name.symm, h.description.trans h'.description.symm,
    h.directives.trans h'.directives.symm, h.body.unique h'.body⟩

theorem DirectiveDefinition.Trimmed.unique {d e e' : DirectiveDefinition} (h : d.Trimmed gone e)
    (h' : d.Trimmed gone e') : e = e' := by
  cases e
  cases e'
  rw [mk.injEq]
  exact ⟨h.name.trans h'.name.symm, h.description.trans h'.description.symm,
    h.arguments.unique h'.arguments fun _ _ _ hb hc => hb.symm.trans hc,
    h.repeatable.trans h'.repeatable.symm, h.locations.trans h'.locations.symm⟩

theorem Schema.Trimmed.unique {s t u : Schema} (ht : s.Trimmed gone t) (hu : s.Trimmed gone u) :
    t = u := by
  have hroots : t.roots = u.roots := RootOperations.ext_get fun op =>
    Option.ext fun n => (ht.roots op n).trans (hu.roots op n).symm
  cases t
  cases u
  rw [mk.injEq]
  exact ⟨ht.name.trans hu.name.symm, ht.description.trans hu.description.symm,
    ht.directives.trans hu.directives.symm, hroots,
    ht.types.unique hu.types fun _ _ _ => TypeDefinition.Trimmed.unique,
    ht.directiveDefinitions.unique hu.directiveDefinitions fun _ _ _ =>
      DirectiveDefinition.Trimmed.unique⟩

end Unique

/-- The removal of a type, before it is looked at what it breaks, is possible where the type is
there, and leaves the schema without the type and what cannot stay without it. -/
theorem Rule.removeType_transform_iff (s : Schema) (type : Name) :
    ((∃ s', (Rule.removeType type).transform s = .ok s') ↔ type ∈ s.types.keys) ∧
      ∀ s', (Rule.removeType type).transform s = .ok s' ↔
        type ∈ s.types.keys ∧ s.Trimmed type s' := by
  have htransform (s' : Schema) : (Rule.removeType type).transform s = .ok s' ↔
      type ∈ s.types.keys ∧ s' = s.withoutType type := by
    rw [Rule.transform_eq_ok_iff]
    constructor
    · intro h
      cases h with
      | removeType ht => exact ⟨ht, rfl⟩
    · rintro ⟨ht, rfl⟩
      exact .removeType ht
  refine ⟨?_, fun s' => ?_⟩
  · simp only [htransform, exists_and_left, exists_eq, and_true]
  · rw [htransform]
    refine and_congr_right fun _ => ⟨?_, fun h => h.unique (s.withoutType_trimmed type)⟩
    rintro rfl
    exact s.withoutType_trimmed type

end SchemaWeave
