import SchemaWeave.Proofs.Rewrite.RemoveType
import SchemaWeave.Proofs.Rewrite.RenameType

/-!
# A type that is renamed and then removed

What refers to a type refers to it under the new name after a renaming, and nothing else does as
long as the new name was free. So the removal of the type takes the same with it, before the
renaming and after it, and what it leaves mentions neither name.

The exception are the arguments of directives that require the type. They stay, and mention a
type that is gone: one name or the other, so that what is left is not the same. But then neither
removal succeeds.
-/

namespace SchemaWeave

variable {old new : Name}

/-! ## References -/

theorem renamed_eq_new_iff {n : Name} (h : n ≠ new) : renamed old new n = new ↔ n = old := by
  by_cases hn : n = old
  · simp [hn]
  · rw [renamed_of_ne hn]
    exact iff_of_false h hn

theorem TypeRef.refersTo_rename {t : TypeRef} (h : t.innerName ≠ new) :
    (t.rename old new).refersTo new = t.refersTo old := by
  rw [refersTo, innerName_rename, refersTo]
  exact decide_eq_decide.mpr (renamed_eq_new_iff h)

theorem TypeRef.rename_of_not_refersTo {t : TypeRef} (h : t.refersTo old = false) :
    t.rename old new = t :=
  rename_of_ne (of_decide_eq_false h)

/-! ## Fields and arguments -/

/-- Arguments and input fields are kept alike when the references among them that are kept are to
other types. -/
theorem filter_renameInputs {t : Table Name InputValue} {p q : InputValue → Bool}
    (hp : ∀ v ∈ t.values, p (v.renameType old new) = q v)
    (hq : ∀ v ∈ t.values, q v = true → v.type.refersTo old = false) :
    ((renameInputs t old new).filter fun _ v => p v) = t.filter fun _ v => q v := by
  refine Table.filter_map_eq (fun _ v hv => hp v (Table.mem_values_of_mem hv)) fun _ v hv hqv => ?_
  rw [InputValue.renameType, TypeRef.rename_of_not_refersTo (hq v (Table.mem_values_of_mem hv) hqv)]

theorem filter_refersTo_renameInputs {t : Table Name InputValue}
    (h : ∀ v ∈ t.values, v.type.innerName ≠ new) :
    ((renameInputs t old new).filter fun _ v => !v.type.refersTo new)
      = t.filter fun _ v => !v.type.refersTo old := by
  refine filter_renameInputs (fun v hv => ?_) fun v _ hq => by simpa using hq
  rw [InputValue.renameType, TypeRef.refersTo_rename (h v hv)]

namespace Field

variable {f : Field}

theorem survives_renameType (h : f.Avoids new) :
    (f.renameType old new).survives new = f.survives old := by
  have harguments : (f.renameType old new).arguments.values
      = f.arguments.values.map (·.renameType old new) := Table.values_map _ _
  rw [Bool.eq_iff_iff, survives_iff, survives_iff, harguments, List.forall_mem_map]
  refine and_congr ?_ (forall₂_congr fun a ha => ?_)
  · rw [renameType, TypeRef.innerName_rename]
    exact not_congr (renamed_eq_new_iff h.1)
  · rw [InputValue.renameType, TypeRef.isNonNull_rename, TypeRef.innerName_rename]
    exact imp_congr_right fun _ => not_congr (renamed_eq_new_iff (h.2 a ha))

theorem dropArguments_renameType (h : f.Avoids new) (hs : f.survives old = true) :
    (f.renameType old new).dropArguments new = f.dropArguments old := by
  have htype : f.type.rename old new = f.type := TypeRef.rename_of_ne (survives_iff.mp hs).1
  rw [dropArguments, dropArguments, renameType, htype, filter_refersTo_renameInputs h.2]

end Field

theorem remainingFields_renameType {fields : Table Name Field}
    (h : ∀ f ∈ fields.values, f.Avoids new) :
    remainingFields (fields.map fun _ f => f.renameType old new) new
      = remainingFields fields old := by
  refine Table.map_filter_map (fun _ f hf => ?_) fun _ f hf hs => ?_
  · exact Field.survives_renameType (h f (Table.mem_values_of_mem hf))
  · exact Field.dropArguments_renameType (h f (Table.mem_values_of_mem hf)) hs

/-! ## Types -/

theorem Distinct.erase_map_renamed {s : Distinct Name} (h : new ∉ s.toList) :
    (s.map (renamed old new)).erase new = s.erase old := by
  refine ext ?_
  show (s.map (renamed old new)).toList.filter (· ≠ new) = s.toList.filter (· ≠ old)
  have hkept : s.toList.filter ((fun n => decide (n ≠ new)) ∘ renamed old new)
      = s.toList.filter fun n => decide (n ≠ old) := by
    refine List.filter_congr fun n hn => ?_
    exact decide_eq_decide.mpr (not_congr (renamed_eq_new_iff (ne_of_mem_of_not_mem hn h)))
  rw [toList_map_renamed h, List.filter_map, hkept]
  refine (List.map_congr_left (g := id) fun n hn => ?_).trans (List.map_id _)
  exact renamed_of_ne (of_decide_eq_true (List.mem_filter.mp hn).2)

theorem TypeBody.withoutType_renameType {b : TypeBody} (h : b.Avoids new) :
    (b.renameType old new).withoutType new = b.withoutType old := by
  cases b with
  | scalar => rfl
  | enum values => rfl
  | object interfaces fields =>
    rw [renameType, withoutType, withoutType, Distinct.erase_map_renamed h.1,
      remainingFields_renameType h.2]
  | interface interfaces fields =>
    rw [renameType, withoutType, withoutType, Distinct.erase_map_renamed h.1,
      remainingFields_renameType h.2]
  | union members => rw [renameType, withoutType, withoutType, Distinct.erase_map_renamed h]
  | inputObject fields =>
    rw [renameType, withoutType, withoutType, filter_refersTo_renameInputs h]

theorem TypeDefinition.withoutType_renameType {d : TypeDefinition} (h : d.body.Avoids new)
    (hname : d.name ≠ old) : (d.renameType old new).withoutType new = d.withoutType old := by
  rw [withoutType, withoutType, renameType, renamed_of_ne hname,
    TypeBody.withoutType_renameType h]

/-! ## Directives -/

/-- Whether a directive has a required argument of a type. -/
def DirectiveDefinition.Requires (d : DirectiveDefinition) (n : Name) : Prop :=
  ∃ a ∈ d.arguments.values, a.type.isNonNull = true ∧ a.type.innerName = n

theorem DirectiveDefinition.withoutType_renameType {d : DirectiveDefinition}
    (h : ∀ a ∈ d.arguments.values, a.type.innerName ≠ new) (hd : ¬ d.Requires old) :
    (d.renameType old new).withoutType new = d.withoutType old := by
  rw [withoutType, withoutType, renameType]
  have hkept : ((renameInputs d.arguments old new).filter
      fun _ a => a.type.isNonNull || !a.type.refersTo new)
      = d.arguments.filter fun _ a => a.type.isNonNull || !a.type.refersTo old := by
    refine filter_renameInputs (fun a ha => ?_) fun a ha hq => ?_
    · rw [InputValue.renameType, TypeRef.isNonNull_rename, TypeRef.refersTo_rename (h a ha)]
    · by_contra hrefers
      have hname : a.type.innerName = old := by simpa [TypeRef.refersTo] using hrefers
      have hnull : a.type.isNonNull = true := by simpa [TypeRef.refersTo, hname] using hq
      exact hd ⟨a, ha, hnull, hname⟩
  rw [hkept]

/-! ## Schemas -/

namespace Schema

variable {s : Schema}

/-- What a removal leaves of a schema in which no directive requires the type does not depend on
the name of the type. -/
theorem Renamable.withoutType_renameType (h : s.Renamable old new)
    (hd : ∀ d ∈ s.directiveDefinitions.values, ¬ d.Requires old) :
    (s.renameType old new).withoutType new = s.withoutType old := by
  have htypes : ((s.renameType old new).withoutType new).types = (s.withoutType old).types := by
    refine Table.ext ?_
    show (((s.renameType old new).types.entries.filter fun e => decide (e.1 ≠ new)).map
        fun e => (e.1, e.2.withoutType new))
      = (s.types.entries.filter fun e => decide (e.1 ≠ old)).map fun e => (e.1, e.2.withoutType old)
    have hkept : s.types.entries.filter
        ((fun e => decide (e.1 ≠ new)) ∘ fun e => (renamed old new e.1, e.2.renameType old new))
        = s.types.entries.filter fun e => decide (e.1 ≠ old) := by
      refine List.filter_congr fun e he => ?_
      have hne : e.1 ≠ new := fun hn => h.free (hn ▸ Table.mem_keys_of_mem he)
      exact decide_eq_decide.mpr (not_congr (renamed_eq_new_iff hne))
    rw [entries_renameType h.keyed fun hn => absurd hn h.free, List.filter_map, List.map_map, hkept]
    refine List.map_congr_left fun e he => ?_
    obtain ⟨he, hne⟩ := List.mem_filter.mp he
    have hne : e.1 ≠ old := of_decide_eq_true hne
    have hname : e.2.name ≠ old := by rwa [h.keyed e he]
    rw [Function.comp_apply, renamed_of_ne hne, TypeDefinition.withoutType_renameType
      (h.avoids.bodies e.2 (Table.mem_values_of_mem he)) hname]
  have hdirectives : ((s.renameType old new).withoutType new).directiveDefinitions
      = (s.withoutType old).directiveDefinitions := by
    show ((s.directiveDefinitions.map fun _ d => d.renameType old new).map
      fun _ d => d.withoutType new) = s.directiveDefinitions.map fun _ d => d.withoutType old
    rw [Table.map_map]
    refine Table.map_congr fun _ d hmem => ?_
    have hmem : d ∈ s.directiveDefinitions.values := Table.mem_values_of_mem hmem
    exact DirectiveDefinition.withoutType_renameType (h.avoids.directives d hmem) (hd d hmem)
  have hroots : ((s.renameType old new).withoutType new).roots = (s.withoutType old).roots := by
    refine RootOperations.ext_get fun op => ?_
    show ((s.roots.map (renamed old new)).filter fun n => n ≠ new).get op
      = (s.roots.filter fun n => n ≠ old).get op
    rw [RootOperations.get_filter, RootOperations.get_map, RootOperations.get_filter]
    cases hn : s.roots.get op with
    | none => rfl
    | some n =>
      have hne : n ≠ new := fun heq => h.avoids.roots op (heq ▸ hn)
      by_cases ho : n = old
      · simp [ho, Option.filter_some]
      · simp [renamed_of_ne ho, ho, hne, Option.filter_some]
  exact ext_parts rfl htypes hdirectives hroots

/-- A type that is not built in cannot go when a directive requires it. -/
theorem violations_withoutType_ne_nil (hk : s.Keyed) (hs : s.violations = []) {gone : Name}
    (hscalar : isBuiltInScalar gone.text = false) {d : DirectiveDefinition}
    (hd : d ∈ s.directiveDefinitions.values) (hrequires : d.Requires gone) :
    (s.withoutType gone).violations ≠ [] := by
  obtain ⟨a, ha, hnull, hname⟩ := hrequires
  have hgone : ¬ isBuiltInScalar gone.text = true := Bool.eq_false_iff.mp hscalar
  have hd' : d.withoutType gone ∈ (s.withoutType gone).directiveDefinitions.values :=
    mem_directives_withoutType.mpr ⟨d, hd, rfl⟩
  have ha' : a ∈ (d.withoutType gone).arguments.values :=
    DirectiveDefinition.mem_withoutType_arguments.mpr ⟨ha, Or.inl hnull⟩
  exact List.ne_nil_of_mem
    (mem_violations_of_spoiled hk hs (.dangling hgone hd' ha' hnull hname))

end Schema

/-! ## The rules -/

namespace Rule

variable {s s' : Schema}

/-- What a removal gives in a schema without violations. -/
theorem removeType_apply_eq_ok_iff (hs : s.violations = []) {type : Name}
    (ht : type ∈ s.types.keys) :
    (Rule.removeType type).apply s = .ok s' ↔
      s' = s.withoutType type ∧ (s.withoutType type).violations = [] :=
  apply_eq_ok_iff_of_changes hs (.removeType ht)

/-- In a schema without violations a type can be given a free name, and then its removal fails or
gives the same as under its old name. -/
theorem removeType_renameType (hk : s.Keyed) (hs : s.violations = []) (hold : old ∈ s.types.keys)
    (hbuiltIn : isBuiltInScalar old.text = false) (hfree : new ∉ s.types.keys)
    (hscalar : isBuiltInScalar new.text = false) :
    ∃ renamed, (Rule.renameType old new).apply s = .ok renamed ∧
      ∀ s', (Rule.removeType new).apply renamed = .ok s' ↔
        (Rule.removeType old).apply s = .ok s' := by
  have hr := Schema.renamable_of_violations_eq_nil hk.types hs hold hfree hscalar
  have hs' := hr.violations_eq_nil hs
  refine ⟨s.renameType old new,
    (renameType_apply_eq_ok_iff hk.types hs hold).mpr ⟨hfree, hscalar, rfl⟩, fun s' => ?_⟩
  rw [removeType_apply_eq_ok_iff hs' hr.symm.there, removeType_apply_eq_ok_iff hs hold]
  by_cases hd : ∀ d ∈ s.directiveDefinitions.values, ¬ d.Requires old
  · rw [hr.withoutType_renameType hd]
  · push Not at hd
    obtain ⟨d, hd, hrequires⟩ := hd
    -- both removals leave the argument without its type
    have hrequires' : (d.renameType old new).Requires new := by
      obtain ⟨a, ha, hnull, hname⟩ := hrequires
      refine ⟨a.renameType old new, ?_, ?_, ?_⟩
      · rw [DirectiveDefinition.renameType, renameInputs, Table.values_map]
        exact List.mem_map_of_mem ha
      · rw [InputValue.renameType, TypeRef.isNonNull_rename, hnull]
      · rw [InputValue.renameType, TypeRef.innerName_rename, hname, renamed_old]
    have hd' : d.renameType old new ∈ (s.renameType old new).directiveDefinitions.values := by
      rw [Schema.directiveDefinitions_renameType, Table.values_map]
      exact List.mem_map_of_mem hd
    refine iff_of_false (fun h => ?_) fun h => ?_
    · exact Schema.violations_withoutType_ne_nil (Schema.renameType_keyed hk old new) hs' hscalar
        hd' hrequires' h.2
    · exact Schema.violations_withoutType_ne_nil hk hs hbuiltIn hd hrequires h.2

end Rule

/-- An input object type that a field requires, and an argument of a directive of that type. -/
def shadedRoom (argument : Name → TypeRef) : Schema :=
  let query := RootOperation.query.canonicalName
  let shade : Name := ⟨"Shade", by decide⟩
  let room : Name := ⟨"room", by decide⟩
  let dark : Name := ⟨"dark", by decide⟩
  let dim : Name := ⟨"dim", by decide⟩
  let lining : Name := ⟨"lining", by decide⟩
  let takes (t : TypeRef) : Table Name InputValue := .ofList [(lining, .ofType lining t)]
  { Schema.empty "house" with
    roots := ⟨some query, none, none⟩
    types := .ofList [
      (query, ⟨query, none, [], .object .empty (.ofList [
        (room, ⟨room, none, takes (.nonNullNamed shade), .named query, []⟩),
        (dark, .ofType dark (.named query))])⟩),
      (shade, ⟨shade, none, [], .inputObject (takes (.named shade))⟩)]
    directiveDefinitions := .ofList [(dim, ⟨dim, none, takes (argument shade), false, [.field]⟩)] }

/-- The removal succeeds under either name where the directive can do without the type, and fails
under either name where it cannot. -/
theorem removeType_renameType_shadedRoom :
    let shade : Name := ⟨"Shade", by decide⟩
    let tint : Name := ⟨"Tint", by decide⟩
    let optional := shadedRoom .named
    let required := shadedRoom .nonNullNamed
    (∀ s ∈ [optional, required],
      s.Keyed ∧ s.violations = [] ∧ shade ∈ s.types.keys ∧ tint ∉ s.types.keys) ∧
    (∃ renamed s', (Rule.renameType shade tint).apply optional = .ok renamed ∧
      (Rule.removeType tint).apply renamed = .ok s' ∧
      (Rule.removeType shade).apply optional = .ok s') ∧
    ∃ renamed, (Rule.renameType shade tint).apply required = .ok renamed ∧
      ¬ ∃ s', (Rule.removeType tint).apply renamed = .ok s' := by
  intro shade tint optional required
  have hvalid : ∀ s ∈ [optional, required],
      s.Keyed ∧ s.violations = [] ∧ shade ∈ s.types.keys ∧ tint ∉ s.types.keys := by decide
  have hsame (s : Schema) (hs : s ∈ [optional, required]) :
      ∃ renamed, (Rule.renameType shade tint).apply s = .ok renamed ∧
        ∀ s', (Rule.removeType tint).apply renamed = .ok s' ↔
          (Rule.removeType shade).apply s = .ok s' := by
    obtain ⟨hk, hnone, hold, hfree⟩ := hvalid s hs
    exact Rule.removeType_renameType hk hnone hold (by decide) hfree (by decide)
  have hgives (s : Schema) (hs : s ∈ [optional, required]) (s' : Schema) :
      (Rule.removeType shade).apply s = .ok s' ↔
        s' = s.withoutType shade ∧ (s.withoutType shade).violations = [] :=
    Rule.removeType_apply_eq_ok_iff (hvalid s hs).2.1 (hvalid s hs).2.2.1
  refine ⟨hvalid, ?_, ?_⟩
  · obtain ⟨renamed, hrenamed, hiff⟩ := hsame optional (by simp)
    have happly := (hgives optional (by simp) _).mpr ⟨rfl, by decide⟩
    exact ⟨renamed, _, hrenamed, (hiff _).mpr happly, happly⟩
  · obtain ⟨renamed, hrenamed, hiff⟩ := hsame required (by simp)
    refine ⟨renamed, hrenamed, fun ⟨s', h⟩ => ?_⟩
    have hnone : (required.withoutType shade).violations = [] :=
      ((hgives required (by simp) s').mp ((hiff s').mp h)).2
    exact absurd hnone (by decide)

end SchemaWeave
