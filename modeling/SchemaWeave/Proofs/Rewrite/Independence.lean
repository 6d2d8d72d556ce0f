import SchemaWeave.Proofs.Keyed.Rewrite

/-!
# Schemas are rewritten by themselves

The rules run on many schemas at once, and a rule for every schema may miss some of them. What a
schema becomes does not depend on the others: it is what the schema becomes alone, by the rules
that are registered for it, less those for every schema that do not find their target in it when
their turn comes.

Rules and the renaming of the entry points only make changes that cause no new violation, so
none comes in on the way.
-/

namespace SchemaWeave

/-! ## One rule -/

namespace Rule

/-- The schema that a rule leaves behind. -/
def after (rule : Rule) (s : Schema) : Schema :=
  match rule.apply s with
  | .ok s' => s'
  | .error _ => s

/-- What goes wrong with a rule. -/
def errors (rule : Rule) (s : Schema) : List RewriteError :=
  match rule.apply s with
  | .ok _ => []
  | .error es => es

/-- A rule causes no violation that was not there before it. -/
theorem violations_subset_of_outcome {rule : Rule} {s s' : Schema} (h : rule.outcome s = .ok s') :
    s'.violations ⊆ s.violations := by
  have hnew := (outcome_eq_ok_iff.mp h).2
  rw [newViolations, List.filter_eq_nil_iff] at hnew
  intro v hv
  simpa using hnew v hv

end Rule

/-- Whether a rule takes part in the rewriting of a schema: it is registered for the schema, and
if it is registered for every schema, the schema has its target. -/
def Rewriter.takesPart (r : Rewriter) (s : Schema) : Bool :=
  r.scope.includes s.name && (r.scope ≠ .everywhere || r.rule.hasTarget s)

/-- The rules that take part in the rewriting of a schema, each when its turn comes. -/
def Schema.participants : Schema → List Rewriter → List Rewriter
  | _, [] => []
  | s, r :: rs =>
    if r.takesPart s then r :: (r.rule.after s).participants rs else s.participants rs

/-! ## One schema -/

namespace Passage

/-- A passage is one over the rules that take part. -/
theorem run_cons (s : Schema) (r : Rewriter) (rs : List Rewriter) :
    run s (r :: rs) =
      if r.takesPart s then (run (r.rule.after s) rs).note true (r.rule.errors s)
      else (run s rs).note false [] := by
  cases hincludes : r.scope.includes s.name with
  | false => simp [run, Rewriter.takesPart, hincludes]
  | true =>
    cases htarget : r.rule.hasTarget s with
    | false =>
      obtain ⟨fault, houtcome⟩ := Rule.outcome_targetMissing_iff.mpr htarget
      cases hscope : r.scope with
      | everywhere => simp [run, Rewriter.takesPart, hscope, Scope.includes, houtcome, htarget]
      | only _ =>
        rw [hscope] at hincludes
        simp [run, Rewriter.takesPart, Rule.after, Rule.errors, Rule.apply, hscope, hincludes,
          houtcome]
    | true =>
      have hfound (fault : RuleFault) : r.rule.outcome s ≠ .error (.targetMissing fault) := by
        intro hmissing
        rw [Rule.outcome_targetMissing_iff.mp ⟨fault, hmissing⟩] at htarget
        cases htarget
      have hpart : r.takesPart s = true := by simp [Rewriter.takesPart, hincludes, htarget]
      rw [if_pos hpart, run, if_pos hincludes]
      unfold Rule.after Rule.errors Rule.apply
      cases houtcome : r.rule.outcome s with
      | ok s' => rfl
      | error e =>
        cases e with
        | targetMissing fault => exact absurd houtcome (hfound fault)
        | failed faults => rfl

/-- The rules that do not take part change nothing, and those that take part all find their
target. -/
theorem run_participants (s : Schema) (rs : List Rewriter) :
    run s (s.participants rs) =
      ⟨(run s rs).schema, (s.participants rs).map fun _ => true, (run s rs).errors⟩ := by
  induction rs generalizing s with
  | nil => rfl
  | cons r rs ih =>
    rw [run_cons, Schema.participants]
    cases hpart : r.takesPart s with
    | false => exact ih s
    | true =>
      rw [if_pos rfl, if_pos rfl, run_cons, if_pos hpart, ih]
      rfl

/-- No stage of a passage adds a violation. -/
theorem violations_subset_of_finish {s s' : Schema} {rs : List Rewriter}
    (h : (run s rs).finish = .ok s') : s'.violations ⊆ s.violations :=
  finish_induct (P := fun t => t.violations ⊆ s.violations)
    (fun _ _ _ ho ht => List.Subset.trans (Rule.violations_subset_of_outcome ho) ht) h
    (List.Subset.refl _)

end Passage

/-- Where every rule has found its target in one schema, none is unmatched. -/
theorem unmatchedRules_eq_nil {p : Passage} {rs : List Rewriter}
    (h : p.matched = rs.map fun _ => true) : unmatchedRules [p] rs = [] := by
  unfold unmatchedRules
  rw [List.map_eq_nil_iff, List.filter_eq_nil_iff]
  rintro ⟨r, i⟩ hr
  have hi : i < rs.length := by
    have := List.mem_zipIdx hr
    omega
  simp [h, hi]

/-- Alone, a schema becomes by the rules that take part what its passage gives. -/
theorem rewriteAll_participants_iff {s s' : Schema} {rs : List Rewriter} :
    rewriteAll [s] (s.participants rs) = .ok [s'] ↔
      (Passage.run s rs).errors = [] ∧ (Passage.run s rs).finish = .ok s' := by
  have hrun := Passage.run_participants s rs
  have hmatched : unmatchedRules ([s].map (Passage.run · (s.participants rs)))
      (s.participants rs) = [] :=
    unmatchedRules_eq_nil (congrArg Passage.matched hrun)
  rw [rewriteAll_eq_ok_iff, and_iff_left hmatched, List.forall₂_cons,
    and_iff_left List.Forall₂.nil, hrun]
  rfl

/-! ## Many schemas -/

/-- The rewriting succeeds exactly when each schema alone can be rewritten by the rules that take
part, and every rule finds its target somewhere. -/
theorem rewriteAll_eq_ok_iff_alone {ss ss' : List Schema} {rs : List Rewriter} :
    rewriteAll ss rs = .ok ss' ↔
      List.Forall₂ (fun s s' => rewriteAll [s] (s.participants rs) = .ok [s']) ss ss' ∧
      unmatchedRules (ss.map (Passage.run · rs)) rs = [] := by
  simp only [rewriteAll_participants_iff]
  exact rewriteAll_eq_ok_iff

/-- When the rewriting succeeds, it gives one schema for each, of the same name and in the same
order: what the schema becomes alone, by the rules that take part, without new violations. So
any other rewriting by the same rules gives the same for it. -/
theorem rewriteAll_alone {ss ss' : List Schema} {rs : List Rewriter}
    (h : rewriteAll ss rs = .ok ss') :
    List.Forall₂ (fun s s' => s'.name = s.name ∧
      rewriteAll [s] (s.participants rs) = .ok [s'] ∧ s'.violations ⊆ s.violations) ss ss' ∧
    ∀ ts ts', rewriteAll ts rs = .ok ts' → ∀ s s' t', (s, s') ∈ ss.zip ss' →
      (s, t') ∈ ts.zip ts' → t' = s' := by
  refine ⟨?_, fun ts ts' hts s s' t' hs ht => ?_⟩
  · exact (rewriteAll_eq_ok_iff.mp h).1.imp fun s s' hrun => ⟨Passage.finish_name hrun.2,
      rewriteAll_participants_iff.mpr hrun, Passage.violations_subset_of_finish hrun.2⟩
  · have halone := List.forall₂_iff_zip.mp (rewriteAll_eq_ok_iff_alone.mp h).1
    have halone' := List.forall₂_iff_zip.mp (rewriteAll_eq_ok_iff_alone.mp hts).1
    have heq := (halone'.2 ht).symm.trans (halone.2 hs)
    simpa using heq

/-- A yard with types that have one field each, the first of them behind the entry point. -/
def yard (name : String) (types : List Name) : Schema :=
  let kept : Name := ⟨"kept", by decide⟩
  let object (n : Name) : TypeDefinition :=
    ⟨n, none, [], .object .empty (.ofList [(kept, .ofType kept (.named n))])⟩
  { Schema.empty name with
    roots := ⟨types.head?, none, none⟩
    types := .ofList (types.map fun n => (n, object n)) }

/-- A rule for every schema takes part where its type is, and there only until an earlier rule
has renamed the type. -/
theorem rewriteAll_alone_yards :
    let shed : Name := ⟨"Shed", by decide⟩
    let gate : Name := ⟨"Gate", by decide⟩
    let query := RootOperation.query.canonicalName
    let hut : Name := ⟨"Hut", by decide⟩
    let rename : Rewriter := ⟨.only "north", .renameType shed hut⟩
    let remove : Rewriter := ⟨.everywhere, .removeType shed⟩
    let north := yard "north" [gate, shed]
    let south := yard "south" [gate, shed]
    rewriteAll [north, south] [rename, remove]
        = .ok [yard "north" [query, hut], yard "south" [query]] ∧
      north.participants [rename, remove] = [rename] ∧
      south.participants [rename, remove] = [remove] ∧
      rewriteAll [south] [remove] = .ok [yard "south" [query]] := by
  intro shed gate query hut rename remove north south
  have h : rewriteAll [north, south] [rename, remove]
      = .ok [yard "north" [query, hut], yard "south" [query]] := by decide
  have hsouth : south.participants [rename, remove] = [remove] := by decide
  refine ⟨h, by decide, hsouth, ?_⟩
  have halone := (rewriteAll_alone h).1
  rw [List.forall₂_cons, List.forall₂_cons, hsouth] at halone
  exact halone.2.1.2.1

end SchemaWeave
