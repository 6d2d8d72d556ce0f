import SchemaWeave.Proofs.Table
import SchemaWeave.Rewrite.Run

/-!
# What a rule gives

A rule makes its change where what it asks for is there and nothing is in its way, and gives the
changed schema when nothing new is wrong with it. `Rule.Changes` says this without the order in
which the rule looks.
-/

namespace SchemaWeave

namespace Rule

/-! ## The change -/

/-- The change of each rule, with what it asks of the schema. -/
inductive Changes (s : Schema) : Rule → Schema → Prop where
  | removeType {t : Name} (ht : t ∈ s.types.keys) : Changes s (.removeType t) (s.withoutType t)
  | removeField {r : FieldReference} {d : TypeDefinition} (hd : s.types.get? r.type = some d)
      (hf : d.hasField r.field = true) : Changes s (.removeField r) (s.withoutField r.type r.field)
  | removeRootTypes : Changes s .removeRootTypes s.withoutRootTypes
  | renameType {old new : Name} (hold : old ∈ s.types.keys) (hnew : new ∉ s.types.keys)
      (hscalar : isBuiltInScalar new.text = false) :
      Changes s (.renameType old new) (s.renameType old new)
  | renameField {r : FieldReference} {new : Name} {d : TypeDefinition}
      (hd : s.types.get? r.type = some d) (hf : d.hasField r.field = true)
      (hnew : d.hasField new = false) :
      Changes s (.renameField r new) (s.renameField r.type r.field new)

/-- A rule that makes a change makes its own. -/
theorem changes_of_transform {rule : Rule} {s s' : Schema} (h : rule.transform s = .ok s') :
    Changes s rule s' := by
  cases rule with
  | removeType t =>
    simp only [transform] at h
    split at h
    · next ht =>
      cases h
      exact .removeType (Table.contains_iff.mp ht)
    · cases h
  | removeField r =>
    simp only [transform] at h
    split at h
    · cases h
    · next d hd =>
      split at h
      · next hf =>
        cases h
        exact .removeField hd hf
      · cases h
  | removeRootTypes =>
    cases h
    exact .removeRootTypes
  | renameType old new =>
    simp only [transform] at h
    split at h
    · cases h
    · next hold =>
      split at h
      · cases h
      · next hnew =>
        cases h
        rw [Bool.not_eq_true, Bool.not_eq_false', Table.contains_iff] at hold
        rw [Bool.not_eq_true, Bool.or_eq_false_iff, Table.contains_eq_false_iff] at hnew
        exact .renameType hold hnew.1 hnew.2
  | renameField r new =>
    simp only [transform] at h
    split at h
    · cases h
    · next d hd =>
      split at h
      · cases h
      · next hf =>
        split at h
        · cases h
        · next hnew =>
          cases h
          exact .renameField hd (by simpa using hf) (by simpa using hnew)

/-- A rule makes its change exactly when the schema has what the rule asks for. -/
theorem transform_eq_ok_iff {rule : Rule} {s s' : Schema} :
    rule.transform s = .ok s' ↔ Changes s rule s' := by
  refine ⟨changes_of_transform, fun h => ?_⟩
  cases h with
  | removeType ht => rw [transform, if_pos (Table.contains_iff.mpr ht)]
  | removeField hd hf =>
    simp only [transform, hd]
    rw [if_pos hf]
  | removeRootTypes => rfl
  | renameType hold hnew hscalar =>
    simp [transform, Table.contains_iff.mpr hold, Table.contains_eq_false_iff.mpr hnew, hscalar]
  | renameField hd hf hnew => simp [transform, hd, hf, hnew]

/-! ## The target -/

/-- Whether a schema has the type or the field that a rule is about. -/
def hasTarget (rule : Rule) (s : Schema) : Bool :=
  match rule with
  | removeType t | renameType t _ => s.types.contains t
  | removeField r | renameField r _ => (s.types.get? r.type).any (·.hasField r.field)
  | removeRootTypes => true

/-- A rule finds its target missing exactly when the schema does not have it. -/
theorem transform_targetMissing_iff {rule : Rule} {s : Schema} :
    (∃ fault, rule.transform s = .error (.targetMissing fault)) ↔ rule.hasTarget s = false := by
  cases rule with
  | removeType t => cases h : s.types.contains t <;> simp [transform, hasTarget, h]
  | removeField r =>
    cases hd : s.types.get? r.type with
    | none => simp [transform, hasTarget, hd]
    | some d => cases hf : d.hasField r.field <;> simp [transform, hasTarget, hd, hf]
  | removeRootTypes => simp [transform, hasTarget]
  | renameType old new =>
    cases h : s.types.contains old with
    | false => simp [transform, hasTarget, h]
    | true =>
      simp only [transform, hasTarget, h, Bool.not_true, Bool.false_eq_true, if_false]
      split <;> simp
  | renameField r new =>
    cases hd : s.types.get? r.type with
    | none => simp [transform, hasTarget, hd]
    | some d =>
      cases hf : d.hasField r.field with
      | false => simp [transform, hasTarget, hd, hf]
      | true =>
        simp only [transform, hasTarget, hd, hf, Option.any_some, Bool.not_true,
          Bool.false_eq_true, if_false]
        split <;> simp

/-! ## The outcome -/

/-- Where nothing was wrong, all that is wrong is new. -/
theorem newViolations_of_violations_eq_nil {before : Schema} (h : before.violations = [])
    (after : Schema) : newViolations before after = after.violations := by
  rw [newViolations, h, List.filter_eq_self]
  exact fun _ _ => rfl

/-- A rule gives the schema that it changes, when nothing new is wrong with it. -/
theorem outcome_eq_ok_iff {rule : Rule} {s s' : Schema} :
    rule.outcome s = .ok s' ↔ rule.transform s = .ok s' ∧ newViolations s s' = [] := by
  unfold outcome
  cases ht : rule.transform s with
  | error e => simp [bind, Except.bind]
  | ok after =>
    simp only [bind, Except.bind, Except.ok.injEq]
    constructor
    · intro h
      split at h
      · next hb =>
        cases h
        exact ⟨rfl, List.isEmpty_iff.mp hb⟩
      · cases h
    · rintro ⟨rfl, hb⟩
      rw [hb]
      rfl

/-- What a change breaks is no missing target. -/
theorem outcome_targetMissing_iff {rule : Rule} {s : Schema} :
    (∃ fault, rule.outcome s = .error (.targetMissing fault)) ↔ rule.hasTarget s = false := by
  rw [← transform_targetMissing_iff]
  refine exists_congr fun fault => ?_
  unfold outcome
  cases rule.transform s with
  | error e => simp [bind, Except.bind]
  | ok after =>
    simp only [bind, Except.bind]
    split <;> simp

theorem apply_eq_ok_iff {rule : Rule} {s s' : Schema} :
    rule.apply s = .ok s' ↔ rule.outcome s = .ok s' := by
  unfold apply
  cases rule.outcome s with
  | ok after => simp
  | error r => cases r <;> simp

/-- Where nothing is wrong, a rule gives the schema that it changes when nothing is wrong then. -/
theorem apply_eq_ok_iff_changes {rule : Rule} {s s' : Schema} (hs : s.violations = []) :
    rule.apply s = .ok s' ↔ Changes s rule s' ∧ s'.violations = [] := by
  rw [apply_eq_ok_iff, outcome_eq_ok_iff, transform_eq_ok_iff,
    newViolations_of_violations_eq_nil hs]

/-- A rule that has what it asks for gives its change or nothing. -/
theorem apply_eq_ok_iff_of_changes {rule : Rule} {s s' t : Schema} (hs : s.violations = [])
    (h : Changes s rule t) : rule.apply s = .ok s' ↔ s' = t ∧ t.violations = [] := by
  rw [apply_eq_ok_iff_changes hs, ← transform_eq_ok_iff, transform_eq_ok_iff.mpr h,
    Except.ok.injEq]
  constructor
  · rintro ⟨rfl, hnone⟩
    exact ⟨rfl, hnone⟩
  · rintro ⟨rfl, hnone⟩
    exact ⟨rfl, hnone⟩

/-- A rule that fails says why. -/
theorem apply_ne_error_nil (rule : Rule) (s : Schema) : rule.apply s ≠ .error [] := by
  have htransform : rule.transform s ≠ .error (.failed []) := by
    cases rule <;> simp only [transform, ne_eq] <;> repeat' split
    all_goals simp
  have houtcome : rule.outcome s ≠ .error (.failed []) := by
    unfold outcome
    cases ht : rule.transform s with
    | error e =>
      rw [ht] at htransform
      exact htransform
    | ok after =>
      simp only [bind, Except.bind]
      split
      · simp
      · next hb => simpa using hb
  unfold apply
  split
  · simp
  · simp
  · next faults ho =>
    rw [ho] at houtcome
    simpa using houtcome

/-- A rule that makes its change fails with the violations that are new after it. -/
theorem exists_breaks_of_apply {rule : Rule} {s s' : Schema}
    (ht : rule.transform s = .ok s') {errors : List RewriteError}
    (h : rule.apply s = .error errors) {e : RewriteError} (he : e ∈ errors) :
    ∃ v ∈ newViolations s s', e = .failed s.name rule (.breaks v) := by
  unfold apply outcome at h
  rw [ht] at h
  simp only [bind, Except.bind] at h
  by_cases hnone : (newViolations s s').isEmpty = true
  · rw [if_pos hnone] at h
    cases h
  · rw [if_neg hnone] at h
    cases h
    obtain ⟨fault, hf, rfl⟩ := List.mem_map.mp he
    obtain ⟨v, hv, rfl⟩ := List.mem_map.mp hf
    exact ⟨v, hv, rfl⟩

end Rule

end SchemaWeave
