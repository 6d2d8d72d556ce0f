import SchemaWeave.Proofs.Rewrite.Independence
import SchemaWeave.Proofs.Rewrite.Renaming

/-!
# Removing a type under its former name

A renaming leaves no type of the old name, and no rule but another renaming brings one back. So a
removal that comes later finds nothing under the old name in any schema that the renaming was for,
whether the renaming has changed the schema or passed it by.

For one schema that is an error at once. For every schema the removal is passed by in each, and what
is wrong shows only after the last one: the rule has found its target nowhere.
-/

namespace SchemaWeave

variable {s s' : Schema} {old new : Name}

/-! ## Names of types -/

/-- The names after a renaming, whether types are stored under their names or not. -/
theorem Schema.mem_keys_renameType {n : Name} :
    n ∈ (s.renameType old new).types.keys ↔ ∃ m ∈ s.types.keys, renamed old new m = n := by
  rw [Schema.renameType, Schema.renameReferences, Table.keys_map, Table.rekey,
    Table.mem_keys_ofList, List.map_map, List.mem_map]
  have hkey (e : Name × TypeDefinition) : (Prod.fst ∘ fun e : Name × TypeDefinition =>
      if e.1 = old then (new, { e.2 with name := new }) else e) e = renamed old new e.1 := by
    rw [Function.comp_apply, renamed]
    split <;> rfl
  constructor
  · rintro ⟨e, he, rfl⟩
    exact ⟨e.1, Table.mem_keys_of_mem he, (hkey e).symm⟩
  · rintro ⟨m, hm, rfl⟩
    obtain ⟨d, hd⟩ := Table.mem_keys.mp hm
    exact ⟨(m, d), hd, hkey (m, d)⟩

theorem Schema.mem_keys_of_withoutRootTypes {n : Name} (h : n ∈ s.withoutRootTypes.types.keys) :
    n ∈ s.types.keys := by
  unfold Schema.withoutRootTypes at h
  generalize (Distinct.ofList (s.roots.toList.map Prod.snd)).toList = gone at h
  induction gone generalizing s with
  | nil => exact h
  | cons m gone ih =>
    obtain ⟨d, hd⟩ := Table.exists_get?_of_mem_keys (ih h)
    obtain ⟨-, e, he, -⟩ := get?_withoutType_eq_some.mp hd
    exact Table.mem_keys_of_get? he

namespace Rule

/-- No rule gives a schema a type of a new name, except for a renaming to that name. -/
theorem mem_keys_of_transform {rule : Rule} (h : rule.transform s = .ok s') {n : Name}
    (hn : n ∈ s'.types.keys) : n ∈ s.types.keys ∨ ∃ m, rule = .renameType m n := by
  cases transform_eq_ok_iff.mp h with
  | removeType _ =>
    obtain ⟨d, hd⟩ := Table.exists_get?_of_mem_keys hn
    obtain ⟨-, e, he, -⟩ := Schema.get?_withoutType_eq_some.mp hd
    exact Or.inl (Table.mem_keys_of_get? he)
  | removeField _ _ => exact Or.inl (Table.keys_map s.types _ ▸ hn)
  | removeRootTypes => exact Or.inl (Schema.mem_keys_of_withoutRootTypes hn)
  | @renameType old new _ _ _ =>
    obtain ⟨m, hm, rfl⟩ := Schema.mem_keys_renameType.mp hn
    by_cases h : m = old
    · exact Or.inr ⟨old, by rw [h, renamed_old]⟩
    · exact Or.inl (by rwa [renamed_of_ne h])
  | renameField _ _ _ => exact Or.inl (Table.keys_map s.types _ ▸ hn)

/-- A renaming leaves no type of the old name. -/
theorem old_not_mem_keys_of_outcome (h : (renameType old new).outcome s = .ok s') :
    old ∉ s'.types.keys := by
  cases transform_eq_ok_iff.mp (outcome_eq_ok_iff.mp h).1 with
  | renameType hold hfree _ =>
    intro hmem
    obtain ⟨m, -, hm⟩ := Schema.mem_keys_renameType.mp hmem
    exact renamed_ne_old (ne_of_mem_of_not_mem hold hfree) m hm

end Rule

/-! ## Errors of rules -/

/-- The rule that an error is about. -/
def RewriteError.rule : RewriteError → Rule
  | failed _ rule _ => rule
  | unmatched rule => rule

/-- A rule that does not apply gives errors, all of them about itself. -/
theorem Rule.exists_mem_errors {rule : Rule} (h : ¬ ∃ s', rule.outcome s = .ok s') :
    ∃ e ∈ rule.errors s, e.rule = rule := by
  have hrule : ∀ e ∈ rule.errors s, e.rule = rule := by
    intro e he
    unfold errors apply at he
    split at he
    · cases he
    · next es hes =>
      split at hes
      · cases hes
      · cases hes
        rw [List.mem_singleton.mp he]
        rfl
      · cases hes
        obtain ⟨fault, -, rfl⟩ := List.mem_map.mp he
        rfl
  have hne : rule.errors s ≠ [] := by
    unfold errors
    split
    · next s' hs' => exact absurd ⟨s', apply_eq_ok_iff.mp hs'⟩ h
    · next es hes => exact fun hnil => apply_ne_error_nil rule s (hnil ▸ hes)
  obtain ⟨e, he⟩ := List.exists_mem_of_ne_nil _ hne
  exact ⟨e, he, hrule e he⟩

/-! ## A rule in its place -/

namespace Passage

theorem run_name (s : Schema) (rs : List Rewriter) : (run s rs).schema.name = s.name :=
  run_induct (P := fun t => t.name = s.name) (fun _ _ _ ho ht => (Rule.outcome_name ho).trans ht) rs
    rfl

theorem length_matched_run (s : Schema) (rs : List Rewriter) :
    (run s rs).matched.length = rs.length := by
  induction rs generalizing s with
  | nil => rfl
  | cons r rs ih =>
    rw [run_cons]
    split
    · exact congrArg Nat.succ (ih _)
    · exact congrArg Nat.succ (ih s)

/-- A passage and one that takes up where it ends. -/
def followedBy (p q : Passage) : Passage := ⟨q.schema, p.matched ++ q.matched, p.errors ++ q.errors⟩

theorem run_append (s : Schema) (rs rs' : List Rewriter) :
    run s (rs ++ rs') = (run s rs).followedBy (run (run s rs).schema rs') := by
  induction rs generalizing s with
  | nil => rfl
  | cons r rs ih =>
    rw [List.cons_append, run_cons, run_cons]
    split
    · rw [ih, note, note, followedBy, followedBy, List.append_assoc]
      rfl
    · rw [ih]
      rfl

variable {s : Schema} {before after : List Rewriter} {r : Rewriter}

/-- What goes wrong with a rule whose turn comes goes wrong with the passage. -/
theorem mem_errors_run {e : RewriteError} (hpart : r.takesPart (run s before).schema = true)
    (he : e ∈ r.rule.errors (run s before).schema) : e ∈ (run s (before ++ r :: after)).errors := by
  rw [run_append, run_cons, if_pos hpart]
  exact List.mem_append_right _ (List.mem_append_left _ he)

/-- A rule is noted as one that has found its target just when it takes part. -/
theorem matched_run (s : Schema) (before after : List Rewriter) (r : Rewriter) :
    (run s (before ++ r :: after)).matched.getD before.length false
      = r.takesPart (run s before).schema := by
  have hlength := length_matched_run s before
  rw [run_append, followedBy, List.getD_eq_getElem?_getD,
    List.getElem?_append_right (Nat.le_of_eq hlength), hlength, Nat.sub_self, run_cons]
  split
  · next hpart => exact hpart.symm
  · next hpart => exact (Bool.eq_false_iff.mpr hpart).symm

end Passage

/-- A rule that takes part in no schema is unmatched. -/
theorem mem_unmatchedRules {ss : List Schema} {before : List Rewriter} {r : Rewriter}
    (after : List Rewriter)
    (h : ∀ s ∈ ss, r.takesPart (Passage.run s before).schema = false) :
    .unmatched r.rule ∈ unmatchedRules (ss.map (Passage.run · (before ++ r :: after)))
      (before ++ r :: after) := by
  refine List.mem_map.mpr ⟨(r, before.length), List.mem_filter.mpr ⟨?_, ?_⟩, rfl⟩
  · rw [List.mk_mem_zipIdx_iff_getElem?]
    simp
  · rw [Bool.not_eq_true', List.any_eq_false]
    intro p hp
    obtain ⟨s, hs, rfl⟩ := List.mem_map.mp hp
    rw [Passage.matched_run, h s hs]
    exact Bool.false_ne_true

/-- The rewriting fails with everything that goes wrong in a passage and every unmatched rule. -/
theorem rewriteAll_eq_error_of_mem {ss : List Schema} {rs : List Rewriter} {e : RewriteError}
    (h : (∃ s ∈ ss, e ∈ (Passage.run s rs).errors) ∨
      e ∈ unmatchedRules (ss.map (Passage.run · rs)) rs) :
    ∃ errors, rewriteAll ss rs = .error errors ∧ e ∈ errors := by
  have hmem : e ∈ (ss.map (Passage.run · rs)).flatMap Passage.allErrors
      ++ unmatchedRules (ss.map (Passage.run · rs)) rs := by
    rcases h with ⟨s, hs, he⟩ | he
    · refine List.mem_append_left _ (List.mem_flatMap.mpr ⟨_, List.mem_map_of_mem hs, ?_⟩)
      exact List.mem_append_left _ he
    · exact List.mem_append_right _ he
  refine ⟨_, if_neg fun hempty => ?_, hmem⟩
  rw [List.isEmpty_iff.mp hempty] at hmem
  cases hmem

/-! ## The old name -/

/-- Whether no rule of a list renames a type to a name. -/
def KeepsFree (rs : List Rewriter) (n : Name) : Prop := ∀ r ∈ rs, ∀ m, r.rule ≠ .renameType m n

/-- Rules that rename no type to a name bring up none of that name. -/
theorem Passage.not_mem_keys_run {rs : List Rewriter} {n : Name} (hrs : KeepsFree rs n)
    (hn : n ∉ s.types.keys) : n ∉ (run s rs).schema.types.keys := by
  refine run_induct_of_mem (P := fun t => n ∉ t.types.keys) (fun r hr t t' ho ht hmem => ?_) hn
  rcases Rule.mem_keys_of_transform (Rule.outcome_eq_ok_iff.mp ho).1 hmem with hmem | ⟨m, hm⟩
  · exact ht hmem
  · exact hrs r hr m hm

/-- A rule that is registered for a schema and takes no part in its rewriting misses its target. -/
theorem Rewriter.hasTarget_of_not_takesPart {r : Rewriter} (hscope : r.scope.includes s.name = true)
    (h : r.takesPart s = false) : r.rule.hasTarget s = false := by
  rw [takesPart, hscope, Bool.true_and, Bool.or_eq_false_iff] at h
  exact h.2

section Pair

variable {scope : Scope} {before between : List Rewriter}

/-- Between a renaming and what follows, no type has the old name, unless the renaming fails. -/
theorem Passage.not_mem_keys_or_error (hscope : scope.includes s.name = true)
    (hbetween : KeepsFree between old) (rest : List Rewriter) :
    old ∉ (run s (before ++ ⟨scope, .renameType old new⟩ :: between)).schema.types.keys ∨
      ∃ e ∈ (run s (before ++ ⟨scope, .renameType old new⟩ :: rest)).errors,
        e.rule = .renameType old new := by
  have hname : scope.includes (run s before).schema.name = true := by rwa [run_name]
  rw [run_append s before (_ :: between), run_cons]
  split
  · next hpart =>
    by_cases happlies : ∃ s', (Rule.renameType old new).outcome (run s before).schema = .ok s'
    · obtain ⟨s', hs'⟩ := happlies
      refine Or.inl (not_mem_keys_run hbetween ?_)
      rw [Rule.after, Rule.apply_eq_ok_iff.mpr hs']
      exact Rule.old_not_mem_keys_of_outcome hs'
    · obtain ⟨e, he, hrule⟩ := Rule.exists_mem_errors happlies
      exact Or.inr ⟨e, mem_errors_run hpart he, hrule⟩
  · next hpart =>
    have htarget := Rewriter.hasTarget_of_not_takesPart hname (Bool.eq_false_iff.mpr hpart)
    exact Or.inl (not_mem_keys_run hbetween (Table.contains_eq_false_iff.mp htarget))

/-- In each schema a removal under the old name is passed by, unless it or the renaming fails. -/
theorem Passage.not_takesPart_or_error (hbetween : KeepsFree between old) (after : List Rewriter) :
    (Rewriter.mk scope (.removeType old)).takesPart
        (run s (before ++ ⟨scope, .renameType old new⟩ :: between)).schema = false ∨
      ∃ e ∈ (run s ((before ++ ⟨scope, .renameType old new⟩ :: between)
          ++ ⟨scope, .removeType old⟩ :: after)).errors,
        e.rule = .renameType old new ∨ e.rule = .removeType old := by
  by_cases hpart : (Rewriter.mk scope (.removeType old)).takesPart
      (run s (before ++ ⟨scope, .renameType old new⟩ :: between)).schema = true
  · have hscope : scope.includes s.name = true := by
      rw [Rewriter.takesPart, Bool.and_eq_true, run_name] at hpart
      exact hpart.1
    refine Or.inr ?_
    rcases not_mem_keys_or_error hscope hbetween (between ++ ⟨scope, .removeType old⟩ :: after) with
      hgone | ⟨e, he, hrule⟩
    · have hfails : ¬ ∃ s', (Rule.removeType old).outcome
          (run s (before ++ ⟨scope, .renameType old new⟩ :: between)).schema = .ok s' := by
        rintro ⟨s', h⟩
        cases Rule.transform_eq_ok_iff.mp (Rule.outcome_eq_ok_iff.mp h).1 with
        | removeType ht => exact hgone ht
      obtain ⟨e, he, hrule⟩ := Rule.exists_mem_errors hfails
      exact ⟨e, mem_errors_run hpart he, Or.inr hrule⟩
    · rw [List.append_assoc, List.cons_append]
      exact ⟨e, he, Or.inl hrule⟩
  · exact Or.inl (Bool.eq_false_iff.mpr hpart)

/-- Where a type is renamed and later removed under its old name, both for every schema or both for
one, the rewriting fails, unless a rule in between gives the name to a type again. One of the two
rules is among the errors. -/
theorem rewriteAll_removeType_of_renameType (ss : List Schema) (hbetween : KeepsFree between old)
    (after : List Rewriter) :
    ∃ errors, rewriteAll ss (before ++ ⟨scope, .renameType old new⟩ ::
        (between ++ ⟨scope, .removeType old⟩ :: after)) = .error errors ∧
      ∃ e ∈ errors, e.rule = .renameType old new ∨ e.rule = .removeType old := by
  rw [← List.cons_append, ← List.append_assoc]
  by_cases herror : ∃ s ∈ ss, ∃ e ∈ (Passage.run s ((before ++ ⟨scope, .renameType old new⟩ ::
      between) ++ ⟨scope, .removeType old⟩ :: after)).errors,
      e.rule = .renameType old new ∨ e.rule = .removeType old
  · obtain ⟨s, hs, e, he, hrule⟩ := herror
    obtain ⟨errors, herrors, hmem⟩ := rewriteAll_eq_error_of_mem (Or.inl ⟨s, hs, he⟩)
    exact ⟨errors, herrors, e, hmem, hrule⟩
  · -- the removal is passed by everywhere, so it is unmatched
    have hunmatched := mem_unmatchedRules after fun s hs =>
      (Passage.not_takesPart_or_error hbetween after).resolve_right fun h => herror ⟨s, hs, h⟩
    obtain ⟨errors, herrors, hmem⟩ := rewriteAll_eq_error_of_mem (Or.inr hunmatched)
    exact ⟨errors, herrors, _, hmem, Or.inr rfl⟩

end Pair

/-- The removal is unmatched when it is for every schema, and fails at its schema when it is for
one. The rule in between gives away another name. -/
theorem rewriteAll_removeType_of_renameType_yards :
    let pond : Name := ⟨"Pond", by decide⟩
    let barn : Name := ⟨"Barn", by decide⟩
    let loft : Name := ⟨"Loft", by decide⟩
    let between : List Rewriter := [⟨.everywhere, .renameType pond ⟨"Well", by decide⟩⟩]
    let ss := [yard "north" [pond, barn], yard "south" [pond]]
    let rules (scope : Scope) : List Rewriter :=
      ⟨scope, .renameType barn loft⟩ :: (between ++ [⟨scope, .removeType barn⟩])
    KeepsFree between barn ∧
      (∀ scope, ∃ errors, rewriteAll ss (rules scope) = .error errors) ∧
      rewriteAll ss (rules .everywhere) = .error [.unmatched (.removeType barn)] ∧
      rewriteAll ss (rules (.only "north"))
        = .error [.failed "north" (.removeType barn) (.typeMissing barn)] := by
  intro pond barn loft between ss rules
  have hbetween : KeepsFree between barn := by
    intro r hr m hrule
    rw [List.mem_singleton.mp hr] at hrule
    exact absurd (Rule.renameType.inj hrule).2 (by decide)
  refine ⟨hbetween, fun scope => ?_, by decide, by decide⟩
  obtain ⟨errors, herrors, -⟩ :=
    @rewriteAll_removeType_of_renameType barn loft scope [] between ss hbetween []
  exact ⟨errors, herrors⟩

end SchemaWeave
