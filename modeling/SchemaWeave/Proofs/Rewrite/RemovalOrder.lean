import Mathlib.Data.List.Perm.Basic
import SchemaWeave.Proofs.EntryPoints
import SchemaWeave.Proofs.Rewrite.Independence
import SchemaWeave.Proofs.Rewrite.Renaming

/-!
# Removals in any order

A removal takes away what refers to a type, and changes no reference of what it leaves. So what a
second removal takes is the same before the first one and after it, and removals give the same in
any order, whether anything is wrong with the schema or not.

What a removal breaks does depend on the order: it is held against the schema that the removals
before it have left. The removal of the root types is held against the schema that it starts from,
all types at once. Where each type can go by itself, nothing is wrong after the last removal that
was not wrong before it, and so back to the first.
-/

namespace SchemaWeave

variable {a b : Name}

/-! ## Two removals -/

theorem Distinct.erase_erase (s : Distinct Name) (a b : Name) :
    (s.erase a).erase b = (s.erase b).erase a :=
  ext (List.filter_comm _ _ _)

namespace Field

/-- The arguments that go with one type do not decide whether a field goes with another. -/
theorem survives_dropArguments {f : Field} (h : f.survives a = true) :
    (f.dropArguments a).survives b = f.survives b := by
  rw [Bool.eq_iff_iff, survives_iff, survives_iff]
  refine and_congr_right fun _ => ⟨fun hb v hv hnull => ?_, fun hb v hv => ?_⟩
  · -- a required argument is not of the first type, so it is still there
    exact hb v (mem_dropArguments.mpr ⟨hv, (survives_iff.mp h).2 v hv hnull⟩) hnull
  · exact hb v (mem_dropArguments.mp hv).1

theorem dropArguments_dropArguments (f : Field) (a b : Name) :
    (f.dropArguments a).dropArguments b = (f.dropArguments b).dropArguments a := by
  simp only [dropArguments]
  rw [Table.filter_comm]

end Field

/-- What two removals leave of fields, at once. -/
theorem remainingFields_remainingFields (fields : Table Name Field) (a b : Name) :
    remainingFields (remainingFields fields a) b
      = ((fields.filter fun _ f => f.survives a).filter fun _ f => f.survives b).map
        fun _ f => (f.dropArguments a).dropArguments b :=
  Table.map_filter_map
    (fun _ _ hf => Field.survives_dropArguments (Table.mem_entries_filter.mp hf).2)
    fun _ _ _ _ => rfl

theorem remainingFields_comm (fields : Table Name Field) (a b : Name) :
    remainingFields (remainingFields fields a) b
      = remainingFields (remainingFields fields b) a := by
  rw [remainingFields_remainingFields, remainingFields_remainingFields, Table.filter_comm]
  exact Table.map_congr fun _ f _ => f.dropArguments_dropArguments a b

theorem TypeBody.withoutType_comm (t : TypeBody) (a b : Name) :
    (t.withoutType a).withoutType b = (t.withoutType b).withoutType a := by
  cases t with
  | scalar => rfl
  | enum values => rfl
  | object interfaces fields =>
    exact congrArg₂ object (interfaces.erase_erase a b) (remainingFields_comm fields a b)
  | interface interfaces fields =>
    exact congrArg₂ interface (interfaces.erase_erase a b) (remainingFields_comm fields a b)
  | union members => exact congrArg union (members.erase_erase a b)
  | inputObject fields => exact congrArg inputObject (Table.filter_comm _ _ _)

theorem DirectiveDefinition.withoutType_comm (d : DirectiveDefinition) (a b : Name) :
    (d.withoutType a).withoutType b = (d.withoutType b).withoutType a := by
  simp only [withoutType]
  rw [Table.filter_comm]

namespace Schema

theorem withoutType_comm (s : Schema) (a b : Name) :
    (s.withoutType a).withoutType b = (s.withoutType b).withoutType a := by
  have htwice (a b : Name) : ((s.withoutType a).withoutType b).types
      = ((s.types.erase a).erase b).map fun _ d => (d.withoutType a).withoutType b := by
    show (((s.types.erase a).map fun _ d => d.withoutType a).filter fun n _ => n ≠ b).map
      (fun _ d => d.withoutType b) = _
    exact Table.map_filter_map (fun _ _ _ => rfl) fun _ _ _ _ => rfl
  have htypes :
      ((s.withoutType a).withoutType b).types = ((s.withoutType b).withoutType a).types := by
    rw [htwice, htwice, Table.erase, Table.erase, Table.filter_comm]
    refine Table.map_congr fun _ d _ => ?_
    exact congrArg (fun body => { d with body := body }) (d.body.withoutType_comm a b)
  have hdirectives : ((s.withoutType a).withoutType b).directiveDefinitions
      = ((s.withoutType b).withoutType a).directiveDefinitions := by
    show ((s.directiveDefinitions.map fun _ d => d.withoutType a).map fun _ d => d.withoutType b)
      = (s.directiveDefinitions.map fun _ d => d.withoutType b).map fun _ d => d.withoutType a
    rw [Table.map_map, Table.map_map]
    exact Table.map_congr fun _ d _ => d.withoutType_comm a b
  have hroots :
      ((s.withoutType a).withoutType b).roots = ((s.withoutType b).withoutType a).roots := by
    refine RootOperations.ext_get fun op => ?_
    show ((s.roots.filter fun n => n ≠ a).filter fun n => n ≠ b).get op
      = ((s.roots.filter fun n => n ≠ b).filter fun n => n ≠ a).get op
    simp only [RootOperations.get_filter, Option.filter_filter, Bool.and_comm]
  exact ext_parts rfl htypes hdirectives hroots

instance : RightCommutative withoutType := ⟨withoutType_comm⟩

end Schema

/-! ## Many rules -/

namespace Rule

variable {s t : Schema}

/-- The schema after rules in a row, each of which has to apply. -/
def applyAll (rules : List Rule) (s : Schema) : Except (List RewriteError) Schema :=
  rules.foldlM (fun s rule => rule.apply s) s

theorem applyAll_cons_eq_ok_iff {rule : Rule} {rules : List Rule} :
    applyAll (rule :: rules) s = .ok t ↔
      ∃ s', rule.apply s = .ok s' ∧ applyAll rules s' = .ok t := by
  rw [applyAll, List.foldlM_cons, bind_eq_ok_iff]
  rfl

/-- Rules in a row add no violation. -/
theorem violations_subset_of_applyAll {rules : List Rule} (h : applyAll rules s = .ok t) :
    t.violations ⊆ s.violations := by
  induction rules generalizing s with
  | nil =>
    cases h
    exact List.Subset.refl _
  | cons rule rules ih =>
    obtain ⟨s', hrule, h⟩ := applyAll_cons_eq_ok_iff.mp h
    exact List.Subset.trans (ih h) (violations_subset_of_outcome (apply_eq_ok_iff.mp hrule))

/-- What removals in a row give, when all of them apply. -/
theorem eq_of_applyAll_removeType {gone : List Name}
    (h : applyAll (gone.map removeType) s = .ok t) : t = gone.foldl Schema.withoutType s := by
  induction gone generalizing s with
  | nil =>
    cases h
    rfl
  | cons n gone ih =>
    obtain ⟨s', hrule, h⟩ := applyAll_cons_eq_ok_iff.mp h
    have htransform := (outcome_eq_ok_iff.mp (apply_eq_ok_iff.mp hrule)).1
    cases transform_eq_ok_iff.mp htransform with
    | removeType _ => exact ih h

/-- Removals give the same in every order in which all of them apply. Where the types behind the
entry points can be removed in some order, one by one, the removal of the root types applies and
gives the same. -/
theorem applyAll_removeType_perm {gone : List Name}
    (h : applyAll (gone.map removeType) s = .ok t) :
    (∀ gone' t', gone.Perm gone' → applyAll (gone'.map removeType) s = .ok t' → t' = t) ∧
    (gone.Nodup → (∀ n, n ∈ gone ↔ ∃ op, s.roots.get op = some n) →
      removeRootTypes.apply s = .ok t) := by
  have ht := eq_of_applyAll_removeType h
  refine ⟨fun gone' t' hperm h' => ?_, fun hnodup hroots => ?_⟩
  · rw [ht, eq_of_applyAll_removeType h', hperm.foldl_eq]
  · have hperm : gone.Perm (Distinct.ofList (s.roots.toList.map Prod.snd)).toList := by
      refine (List.perm_ext_iff_of_nodup hnodup (Distinct.nodup _)).mpr fun n => ?_
      rw [hroots, Distinct.mem_ofList, List.mem_map]
      simp only [Prod.exists, RootOperations.mem_toList, exists_eq_right]
    have hsame : s.withoutRootTypes = t := by
      rw [Schema.withoutRootTypes, ht, hperm.foldl_eq]
    rw [apply_eq_ok_iff, outcome_eq_ok_iff, newViolations, List.filter_eq_nil_iff]
    refine ⟨congrArg Except.ok hsame, fun v hv => ?_⟩
    simpa using violations_subset_of_applyAll h hv

end Rule

/-- An orchard with two entry points, where trees and fruit are referred to in every way, and one
field is of a type that is not there. -/
def orchard : Schema :=
  let query := RootOperation.query.canonicalName
  let mutation := RootOperation.mutation.canonicalName
  let tree : Name := ⟨"Tree", by decide⟩
  let fruit : Name := ⟨"Fruit", by decide⟩
  let weather : Name := ⟨"Weather", by decide⟩
  let harvest : Name := ⟨"harvest", by decide⟩
  let stray : Name := ⟨"stray", by decide⟩
  let graft : Name := ⟨"graft", by decide⟩
  let pruned : Name := ⟨"pruned", by decide⟩
  let bears : Name := ⟨"bears", by decide⟩
  let kind : Name := ⟨"kind", by decide⟩
  let takes (t : TypeRef) : Table Name InputValue := .ofList [(kind, .ofType kind t)]
  let values (n : Name) : TypeBody := .enum (.ofList [(n, ⟨n, none, []⟩)])
  { Schema.empty "orchard" with
    roots := ⟨some query, some mutation, none⟩
    types := .ofList [
      (query, ⟨query, none, [], .object .empty (.ofList [
        (harvest, ⟨harvest, none, takes (.named fruit), .list (.named tree), []⟩),
        (stray, .ofType stray (.named ⟨"Stump", by decide⟩))])⟩),
      (mutation, ⟨mutation, none, [], .object .empty (.ofList [
        (graft, ⟨graft, none, takes (.nonNullNamed fruit), .named tree, []⟩),
        (pruned, .ofType pruned (.named weather))])⟩),
      (tree, ⟨tree, none, [], .object .empty (.ofList [
        (bears, .ofType bears (.named fruit)), (pruned, .ofType pruned (.named weather))])⟩),
      (fruit, ⟨fruit, none, [], values ⟨"PLUM", by decide⟩⟩),
      (weather, ⟨weather, none, [], values ⟨"RAIN", by decide⟩⟩)] }

theorem applyAll_removeType_perm_orchard :
    let tree : Name := ⟨"Tree", by decide⟩
    let fruit : Name := ⟨"Fruit", by decide⟩
    let query := RootOperation.query.canonicalName
    let mutation := RootOperation.mutation.canonicalName
    orchard.violations ≠ [] ∧
      (∃ t, Rule.applyAll [.removeType tree, .removeType fruit] orchard = .ok t ∧
        Rule.applyAll [.removeType fruit, .removeType tree] orchard = .ok t) ∧
      ∃ t, Rule.applyAll [.removeType mutation, .removeType query] orchard = .ok t ∧
        Rule.removeRootTypes.apply orchard = .ok t := by
  intro tree fruit query mutation
  let without (gone : List Name) : Schema := gone.foldl Schema.withoutType orchard
  have htree : Rule.applyAll ([tree, fruit].map .removeType) orchard
      = .ok (without [tree, fruit]) := by decide
  have hfruit : Rule.applyAll ([fruit, tree].map .removeType) orchard
      = .ok (without [fruit, tree]) := by decide
  have hsame := (Rule.applyAll_removeType_perm htree).1 _ _ (.swap fruit tree []) hfruit
  have hmutation : Rule.applyAll ([mutation, query].map .removeType) orchard
      = .ok (without [mutation, query]) := by decide
  have hroots : ∀ n, n ∈ [mutation, query] ↔ ∃ op, orchard.roots.get op = some n := by
    intro n
    constructor
    · intro hn
      rcases List.mem_pair.mp hn with rfl | rfl
      · exact ⟨.mutation, rfl⟩
      · exact ⟨.query, rfl⟩
    · rintro ⟨op, hop⟩
      cases op <;> cases hop <;> decide
  exact ⟨by decide, ⟨_, htree, hsame ▸ hfruit⟩, _, hmutation,
    (Rule.applyAll_removeType_perm hmutation).2 (by decide) hroots⟩

end SchemaWeave
