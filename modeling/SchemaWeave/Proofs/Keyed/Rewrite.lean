import SchemaWeave.Proofs.Keyed.Basic
import SchemaWeave.Proofs.Results
import SchemaWeave.Proofs.Rewrite.Rule

/-!
# Rules keep schemas keyed

Every rule takes a keyed schema to a keyed schema of the same name, and so do a passage through
many rules and the renaming of the entry points at its end.
-/

namespace SchemaWeave

/-! ## Removal -/

theorem remainingFields_keyed {fields : Table Name Field} (gone : Name)
    (h : fields.Keyed Field.name) (h' : ∀ f ∈ fields.values, f.Keyed) :
    (remainingFields fields gone).Keyed Field.name
      ∧ ∀ f ∈ (remainingFields fields gone).values, f.Keyed := by
  constructor
  · exact (h.filter _).map fun _ _ => rfl
  · exact Table.forall_values_map (Table.forall_values_filter h' _)
      fun _ f hf => Table.Keyed.filter hf _

theorem TypeBody.withoutType_keyed {b : TypeBody} (gone : Name) (h : b.Keyed) :
    (b.withoutType gone).Keyed := by
  cases b with
  | scalar => trivial
  | object _ fields => exact remainingFields_keyed gone h.1 h.2
  | interface _ fields => exact remainingFields_keyed gone h.1 h.2
  | union _ => trivial
  | enum values => exact h
  | inputObject fields => exact Table.Keyed.filter h _

theorem DirectiveDefinition.withoutType_keyed {d : DirectiveDefinition} (gone : Name)
    (h : d.Keyed) : (d.withoutType gone).Keyed :=
  Table.Keyed.filter h _

theorem TypeBody.withoutField_keyed {b : TypeBody} (field : Name) (h : b.Keyed) :
    (b.withoutField field).Keyed := by
  cases b with
  | object _ fields => exact ⟨h.1.erase field, Table.forall_values_filter h.2 _⟩
  | interface _ fields => exact ⟨h.1.erase field, Table.forall_values_filter h.2 _⟩
  | inputObject fields => exact Table.Keyed.erase h field
  | _ => exact h

namespace Schema

/-- Changing the bodies of all types keeps a schema keyed if it keeps bodies keyed. -/
theorem Keyed.map_bodies {s : Schema} (h : s.Keyed) {f : TypeBody → TypeBody}
    (hf : ∀ b : TypeBody, b.Keyed → (f b).Keyed) :
    { s with types := s.types.map fun _ d => { d with body := f d.body } }.Keyed where
  types := Table.Keyed.map h.types fun _ _ => rfl
  bodies := Table.forall_values_map h.bodies fun _ d hd => hf d.body hd
  directives := h.directives
  arguments := h.arguments

/-- Changing the directives keeps a schema keyed if it keeps their names and arguments. -/
theorem Keyed.map_directives {s : Schema} (h : s.Keyed)
    {f : DirectiveDefinition → DirectiveDefinition} (hn : ∀ d, (f d).name = d.name)
    (hf : ∀ d : DirectiveDefinition, d.Keyed → (f d).Keyed) :
    { s with directiveDefinitions := s.directiveDefinitions.map fun _ d => f d }.Keyed where
  types := h.types
  bodies := h.bodies
  directives := h.directives.map fun _ d => hn d
  arguments := Table.forall_values_map h.arguments fun _ d hd => hf d hd

theorem Keyed.with_roots {s : Schema} (h : s.Keyed) (r : RootOperations) :
    { s with roots := r }.Keyed :=
  ⟨h.types, h.bodies, h.directives, h.arguments⟩

theorem withoutDependents_keyed {s : Schema} (h : s.Keyed) (gone : Name) :
    (s.withoutDependents gone).Keyed :=
  ((h.map_bodies fun _ hb => TypeBody.withoutType_keyed gone hb).map_directives
    (f := (·.withoutType gone)) (fun _ => rfl)
    fun _ hd => DirectiveDefinition.withoutType_keyed gone hd).with_roots _

theorem withoutType_keyed {s : Schema} (h : s.Keyed) (gone : Name) :
    (s.withoutType gone).Keyed := by
  have hrest : { s with types := s.types.erase gone }.Keyed :=
    ⟨Table.Keyed.erase h.types gone, Table.forall_values_filter h.bodies _, h.directives,
      h.arguments⟩
  exact withoutDependents_keyed hrest gone

theorem withoutRootTypes_keyed {s : Schema} (h : s.Keyed) : s.withoutRootTypes.Keyed := by
  unfold withoutRootTypes
  -- the types are read off the schema once, before the first of them goes
  generalize (Distinct.ofList (s.roots.toList.map Prod.snd)).toList = gone
  induction gone generalizing s with
  | nil => exact h
  | cons n gone ih => exact ih (withoutType_keyed h n)

/-- Changing the body of one type keeps a schema keyed if it keeps bodies keyed. -/
theorem Keyed.modify_body {s : Schema} (h : s.Keyed) (type : Name) {f : TypeBody → TypeBody}
    (hf : ∀ b : TypeBody, b.Keyed → (f b).Keyed) :
    { s with types := s.types.modify type fun d => { d with body := f d.body } }.Keyed where
  types := Table.Keyed.modify h.types type fun _ => rfl
  bodies := by
    refine Table.forall_values_map h.bodies fun _ d hd => ?_
    split
    · exact hf d.body hd
    · exact hd
  directives := h.directives
  arguments := h.arguments

theorem withoutField_keyed {s : Schema} (h : s.Keyed) (type field : Name) :
    (s.withoutField type field).Keyed :=
  h.modify_body type fun _ hb => TypeBody.withoutField_keyed field hb

end Schema

/-! ## Renaming -/

theorem renameInputs_keyed {t : Table Name InputValue} (old new : Name)
    (h : t.Keyed InputValue.name) : (renameInputs t old new).Keyed InputValue.name :=
  h.map fun _ _ => rfl

theorem DirectiveDefinition.renameType_keyed {d : DirectiveDefinition} (old new : Name)
    (h : d.Keyed) : (d.renameType old new).Keyed :=
  renameInputs_keyed old new h

theorem renameFields_keyed {fields : Table Name Field} (old new : Name)
    (h : fields.Keyed Field.name) (h' : ∀ f ∈ fields.values, f.Keyed) :
    (fields.map fun _ f => f.renameType old new).Keyed Field.name
      ∧ ∀ f ∈ (fields.map fun _ f => f.renameType old new).values, f.Keyed :=
  ⟨h.map fun _ _ => rfl,
    Table.forall_values_map h' fun _ _ hf => renameInputs_keyed old new hf⟩

theorem TypeBody.renameType_keyed {b : TypeBody} (old new : Name) (h : b.Keyed) :
    (b.renameType old new).Keyed := by
  cases b with
  | scalar => trivial
  | object _ fields => exact renameFields_keyed old new h.1 h.2
  | interface _ fields => exact renameFields_keyed old new h.1 h.2
  | union _ => trivial
  | enum values => exact h
  | inputObject fields => exact renameInputs_keyed old new h

theorem rekey_fields_keyed {fields : Table Name Field} (old new : Name)
    (h : fields.Keyed Field.name) (h' : ∀ f ∈ fields.values, f.Keyed) :
    (fields.rekey old new fun f => { f with name := new }).Keyed Field.name
      ∧ ∀ f ∈ (fields.rekey old new fun f => { f with name := new }).values, f.Keyed := by
  refine ⟨h.rekey fun _ => rfl, Table.forall_values_ofList fun e he => ?_⟩
  obtain ⟨e', he', rfl⟩ := List.mem_map.mp he
  have hf : e'.2.Keyed := h' e'.2 (List.mem_map.mpr ⟨e', he', rfl⟩)
  split
  · exact hf
  · exact hf

theorem TypeBody.renameField_keyed {b : TypeBody} (old new : Name) (h : b.Keyed) :
    (b.renameField old new).Keyed := by
  cases b with
  | object _ fields => exact rekey_fields_keyed old new h.1 h.2
  | interface _ fields => exact rekey_fields_keyed old new h.1 h.2
  | inputObject fields => exact Table.Keyed.rekey h fun _ => rfl
  | _ => exact h

namespace Schema

theorem renameReferences_keyed {s : Schema} (h : s.Keyed) (old new : Name) :
    (s.renameReferences old new).Keyed :=
  ((h.map_bodies fun _ hb => TypeBody.renameType_keyed old new hb).map_directives
    (f := (·.renameType old new)) (fun _ => rfl)
    fun _ hd => DirectiveDefinition.renameType_keyed old new hd).with_roots _

theorem renameType_keyed {s : Schema} (h : s.Keyed) (old new : Name) :
    (s.renameType old new).Keyed := by
  have hrekeyed :
      { s with types := s.types.rekey old new fun d => { d with name := new } }.Keyed := by
    refine ⟨Table.Keyed.rekey h.types fun _ => rfl, Table.forall_values_ofList fun e he => ?_,
      h.directives, h.arguments⟩
    obtain ⟨e', he', rfl⟩ := List.mem_map.mp he
    have hb : e'.2.body.Keyed := h.bodies e'.2 (List.mem_map.mpr ⟨e', he', rfl⟩)
    split
    · exact hb
    · exact hb
  exact renameReferences_keyed hrekeyed old new

theorem renameField_keyed {s : Schema} (h : s.Keyed) (type old new : Name) :
    (s.renameField type old new).Keyed :=
  h.modify_body type fun _ hb => TypeBody.renameField_keyed old new hb

end Schema

/-! ## One rule -/

namespace Rule

theorem transform_keyed {rule : Rule} {s s' : Schema} (hs : s.Keyed)
    (h : rule.transform s = .ok s') : s'.Keyed := by
  cases transform_eq_ok_iff.mp h with
  | removeType _ => exact Schema.withoutType_keyed hs _
  | removeField _ _ => exact Schema.withoutField_keyed hs _ _
  | removeRootTypes => exact Schema.withoutRootTypes_keyed hs
  | renameType _ _ _ => exact Schema.renameType_keyed hs _ _
  | renameField _ _ _ => exact Schema.renameField_keyed hs _ _ _

theorem withoutRootTypes_name (s : Schema) : s.withoutRootTypes.name = s.name := by
  unfold Schema.withoutRootTypes
  generalize (Distinct.ofList (s.roots.toList.map Prod.snd)).toList = gone
  induction gone generalizing s with
  | nil => rfl
  | cons n gone ih => exact ih (s.withoutType n)

theorem transform_name {rule : Rule} {s s' : Schema} (h : rule.transform s = .ok s') :
    s'.name = s.name := by
  cases transform_eq_ok_iff.mp h with
  | removeRootTypes => exact withoutRootTypes_name s
  | _ => rfl

theorem outcome_keyed {rule : Rule} {s s' : Schema} (hs : s.Keyed) (h : rule.outcome s = .ok s') :
    s'.Keyed :=
  transform_keyed hs (outcome_eq_ok_iff.mp h).1

theorem outcome_name {rule : Rule} {s s' : Schema} (h : rule.outcome s = .ok s') :
    s'.name = s.name :=
  transform_name (outcome_eq_ok_iff.mp h).1

end Rule

/-! ## Entry points -/

namespace Schema

/-- What a renaming of one entry point preserves, the renaming of all preserves. -/
theorem normalizeRoots_induct {P : Schema → Prop}
    (hstep : ∀ (s s' : Schema) (old new : Name),
      (Rule.renameType old new).outcome s = .ok s' → P s → P s')
    {s s' : Schema} (h : s.normalizeRoots = .ok s') (hs : P s) : P s' := by
  unfold normalizeRoots at h
  generalize RootOperation.all = ops at h
  induction ops generalizing s with
  | nil =>
    cases h
    exact hs
  | cons op ops ih =>
    rw [List.foldlM_cons] at h
    cases hop : s.normalizeRoot op with
    | error _ => rw [hop] at h; cases h
    | ok s₁ =>
      rw [hop] at h
      refine ih ?_ h
      unfold normalizeRoot at hop
      split at hop
      · cases hop
        exact hs
      · split at hop
        · cases hop
          exact hs
        · exact hstep s s₁ _ _ (Rule.apply_eq_ok_iff.mp hop) hs

theorem normalizeRoots_ne_error_nil (s : Schema) : s.normalizeRoots ≠ .error [] := by
  unfold normalizeRoots
  generalize RootOperation.all = ops
  induction ops generalizing s with
  | nil => simp [pure, Except.pure]
  | cons op ops ih =>
    rw [List.foldlM_cons]
    cases hop : s.normalizeRoot op with
    | ok s₁ => exact ih s₁
    | error es =>
      intro h
      cases h
      unfold normalizeRoot at hop
      split at hop
      · cases hop
      · split at hop
        · cases hop
        · exact Rule.apply_ne_error_nil _ s hop

end Schema

/-! ## Many rules -/

namespace Passage

/-- What each of the rules preserves, a passage preserves. -/
theorem run_induct_of_mem {P : Schema → Prop} {s : Schema} {rs : List Rewriter}
    (hstep : ∀ r ∈ rs, ∀ s s', r.rule.outcome s = .ok s' → P s → P s') (hs : P s) :
    P (run s rs).schema := by
  induction rs generalizing s with
  | nil => exact hs
  | cons r rs ih =>
    have ih {s : Schema} (hs : P s) : P (run s rs).schema :=
      ih (fun r hr => hstep r (List.mem_cons_of_mem _ hr)) hs
    unfold run
    split
    · split
      · next after ho => exact ih (hstep r List.mem_cons_self s after ho hs)
      · split
        · exact ih hs
        · exact ih hs
      · exact ih hs
    · exact ih hs

/-- What every rule preserves, a passage preserves. -/
theorem run_induct {P : Schema → Prop}
    (hstep : ∀ (rule : Rule) (s s' : Schema), rule.outcome s = .ok s' → P s → P s')
    {s : Schema} (rs : List Rewriter) (hs : P s) : P (run s rs).schema :=
  run_induct_of_mem (fun r _ => hstep r.rule) hs

theorem finish_induct {P : Schema → Prop}
    (hstep : ∀ (rule : Rule) (s s' : Schema), rule.outcome s = .ok s' → P s → P s')
    {s s' : Schema} {rs : List Rewriter} (h : (run s rs).finish = .ok s') (hs : P s) : P s' :=
  Schema.normalizeRoots_induct (fun s s' old new ho => hstep (.renameType old new) s s' ho) h
    (run_induct hstep rs hs)

end Passage

namespace Passage

theorem allErrors_eq_nil_iff {p : Passage} :
    p.allErrors = [] ↔ p.errors = [] ∧ ∃ s', p.finish = .ok s' := by
  unfold allErrors
  rw [List.append_eq_nil_iff]
  refine and_congr_right fun _ => ?_
  cases hf : p.finish with
  | ok s' => simp
  | error es =>
    simp only [reduceCtorEq, exists_false, iff_false]
    rintro rfl
    exact Schema.normalizeRoots_ne_error_nil _ hf

theorem finish_name {s s' : Schema} {rs : List Rewriter} (h : (run s rs).finish = .ok s') :
    s'.name = s.name :=
  finish_induct (P := fun t => t.name = s.name)
    (fun _ _ _ ho ht => (Rule.outcome_name ho).trans ht) h rfl

/-- A passage without errors has a schema at its end. -/
theorem results_eq_iff (ps : List Passage) (ss' : List Schema) :
    (ps.flatMap allErrors = [] ∧ ps.filterMap (·.finish.toOption) = ss') ↔
      List.Forall₂ (fun p s' => p.errors = [] ∧ p.finish = .ok s') ps ss' := by
  induction ps generalizing ss' with
  | nil => simp [eq_comm]
  | cons p ps ih =>
    rw [List.flatMap_cons, List.append_eq_nil_iff, allErrors_eq_nil_iff,
      List.forall₂_cons_left_iff, List.filterMap_cons]
    constructor
    · rintro ⟨⟨⟨he, s', hf⟩, hrest⟩, rfl⟩
      exact ⟨s', _, ⟨he, hf⟩, (ih _).mp ⟨hrest, rfl⟩, by rw [hf]; rfl⟩
    · rintro ⟨s', ss', ⟨he, hf⟩, hps, rfl⟩
      obtain ⟨hrest, rfl⟩ := (ih _).mpr hps
      exact ⟨⟨⟨he, s', hf⟩, hrest⟩, by rw [hf]; rfl⟩

end Passage

/-- The rewriting succeeds exactly when no rule fails on a schema, each schema has its entry
points normalized, and every rule has found its target. -/
theorem rewriteAll_eq_ok_iff {ss ss' : List Schema} {rs : List Rewriter} :
    rewriteAll ss rs = .ok ss' ↔
      List.Forall₂ (fun s s' => (Passage.run s rs).errors = [] ∧
        (Passage.run s rs).finish = .ok s') ss ss' ∧
      unmatchedRules (ss.map (Passage.run · rs)) rs = [] := by
  have hresults := Passage.results_eq_iff (ss.map (Passage.run · rs)) ss'
  rw [List.forall₂_map_left_iff] at hresults
  rw [← hresults]
  unfold rewriteAll
  simp only [List.isEmpty_iff]
  split
  · next he =>
    obtain ⟨hnil, hmatched⟩ := List.append_eq_nil_iff.mp he
    simp [hnil, hmatched]
  · next he =>
    refine iff_of_false (by simp) fun h => he ?_
    rw [h.1.1, h.2, List.append_nil]

/-- When no stage of the rewriting fails, each schema has a passage to its end. -/
theorem rewriteAll_eq_ok {ss ss' : List Schema} {rs : List Rewriter}
    (h : rewriteAll ss rs = .ok ss') :
    List.Forall₂ (fun s s' => (Passage.run s rs).finish = .ok s') ss ss' :=
  (rewriteAll_eq_ok_iff.mp h).1.imp fun _ _ => And.right

theorem rewriteAll_names {ss ss' : List Schema} {rs : List Rewriter}
    (h : rewriteAll ss rs = .ok ss') : ss'.map Schema.name = ss.map Schema.name :=
  map_eq_map_of_forall₂ (rewriteAll_eq_ok h) fun _ _ hf => Passage.finish_name hf

theorem rewriteAll_keyed {ss ss' : List Schema} {rs : List Rewriter}
    (h : rewriteAll ss rs = .ok ss') (hs : ∀ s ∈ ss, s.Keyed) : ∀ s ∈ ss', s.Keyed :=
  forall_of_forall₂ (rewriteAll_eq_ok h) hs fun _ _ hf hk =>
    Passage.finish_induct (P := Schema.Keyed) (fun _ _ _ ho hs => Rule.outcome_keyed hs ho) hf hk

end SchemaWeave
