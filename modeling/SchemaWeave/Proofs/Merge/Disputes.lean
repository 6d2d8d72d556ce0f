import Mathlib.Data.Finset.Dedup
import Mathlib.Data.Finset.Empty
import SchemaWeave.Proofs.Merge.Agreement
import SchemaWeave.Proofs.Merge.Output

/-!
# What definitions dispute

The built-in handlers stop at, or collect, what the definitions of a type do not agree on. Each of
these disputes is between any two of the definitions, so it does not matter which of them comes
first, and a merge of the type reports exactly the disputes there are.

The order of the definitions does show in a conflict: in the order in which the schemas are listed
with their kinds and signatures. A summary leaves that out.
-/

namespace SchemaWeave

/-! ## Summaries -/

/-- The sorts of conflicts. -/
inductive ConflictSort where
  | kindsDiffer
  | fieldDiffers
  | notIdentical (kind : TypeKind)
  | directiveDiffers
  | rejected
  | breach
  | several
deriving DecidableEq

/-- What a conflict is about and which schemas take part in it. -/
structure ConflictSummary where
  sort : ConflictSort
  /-- The type, or the directive. -/
  subject : Option Name
  field : Option Name
  schemas : Finset String
deriving DecidableEq

namespace Conflict

def summary : Conflict → ConflictSummary
  | kindsDiffer type kinds => ⟨.kindsDiffer, type, none, (kinds.map Prod.fst).toFinset⟩
  | fieldDiffers type field signatures =>
    ⟨.fieldDiffers, type, field, signatures.keys.toFinset⟩
  | notIdentical kind type schemas => ⟨.notIdentical kind, type, none, schemas.toList.toFinset⟩
  | directiveDiffers directive schemas =>
    ⟨.directiveDiffers, directive, none, schemas.toList.toFinset⟩
  | rejected type schemas _ => ⟨.rejected, type, none, schemas.toList.toFinset⟩
  | breach type _ => ⟨.breach, type, none, ∅⟩
  | several _ => ⟨.several, none, none, ∅⟩

end Conflict

namespace Candidate

/-- The schemas that give some definitions. -/
def sources (cs : List Candidate) : Finset String := (cs.map Candidate.schema).toFinset

variable {type : Name} {cs : List Candidate}

theorem summary_kindsDiffer (type : Name) (cs : List Candidate) :
    (kindsDiffer type cs).summary = ⟨.kindsDiffer, type, none, sources cs⟩ := by
  simp [kindsDiffer, Conflict.summary, sources, List.map_map, Function.comp_def]

theorem summary_notIdentical (type : Name) (cs : List Candidate) :
    (Conflict.notIdentical .scalar type (schemas cs)).summary
      = ⟨.notIdentical .scalar, type, none, sources cs⟩ := by
  have hschemas : (schemas cs).toList.toFinset = sources cs := by
    ext a
    rw [List.mem_toFinset, schemas, Distinct.mem_ofList, sources, List.mem_toFinset]
  rw [Conflict.summary, hschemas]

theorem summary_fieldConflict (type : Name) (cs : List Candidate) (field : Name) :
    (Handler.fieldConflict type cs field).summary
      = ⟨.fieldDiffers, type, field, sources (cs.filter (·.definition.hasField field))⟩ := by
  have hgiven (c : Candidate) : (c.definition.body.signatureOf field).isSome
      = c.definition.hasField field := TypeBody.signatureOf_isSome
  have hsources : (Table.ofList (cs.filterMap fun c =>
      (c.definition.body.signatureOf field).map (c.schema, ·))).keys.toFinset
      = sources (cs.filter (·.definition.hasField field)) := by
    ext a
    simp only [sources, List.mem_toFinset, Table.mem_keys_ofList, List.mem_map,
      List.mem_filterMap, List.mem_filter, ← hgiven, Option.isSome_iff_exists]
    constructor
    · rintro ⟨e, ⟨c, hc, he⟩, rfl⟩
      obtain ⟨signature, hs, rfl⟩ := Option.map_eq_some_iff.mp he
      exact ⟨c, ⟨hc, signature, hs⟩, rfl⟩
    · rintro ⟨c, ⟨hc, signature, hs⟩, rfl⟩
      exact ⟨(c.schema, signature), ⟨c, hc, by rw [hs]; rfl⟩, rfl⟩
  rw [Handler.fieldConflict, Conflict.summary, hsources]

/-- Definitions of a kind without fields contest none. -/
theorem not_contested {k : TypeKind} (hf : ¬ k.HasFields) (hk : ∀ c ∈ cs, c.definition.kind = k)
    (n : Name) : ¬ TypeBody.Contested (cs.map (·.definition.body)) n := by
  refine TypeBody.not_contested_of_not_hasFields fun b hb => ?_
  obtain ⟨c, hc, rfl⟩ := List.mem_map.mp hb
  have hkind : c.definition.body.kind = k := hk c hc
  rwa [hkind]

end Candidate

/-! ## Handlers -/

/-- The conflicts that an outcome adds to the errors of a merge. -/
def conflictsOf {α : Type} : Except Conflict α → List Conflict
  | .ok _ => []
  | .error conflict => conflict.flatten

theorem typeConflicts_eq_conflictsOf (registry : Registry) (schemas : List Schema) (type : Name) :
    typeConflicts registry schemas type = conflictsOf (mergedType registry schemas type) := by
  unfold typeConflicts
  cases mergedType registry schemas type <;> rfl

namespace Handler

variable {type : Name} {all cs : List Candidate} {d : TypeDefinition} {x : Conflict}

/-! ### Fields -/

/-- A union of fields reports each field once on which it found a difference before or the bodies
to come are not of one mind. -/
theorem exists_conflictsOf_uniteFields (type : Name) (all : List Candidate)
    (differing : List Name) (hd : d.kind.HasFields) (hk : ∀ c ∈ cs, c.definition.kind = d.kind) :
    ∃ ns : Distinct Name,
      conflictsOf (uniteFields type all d differing cs) = ns.toList.map (fieldConflict type all) ∧
      ∀ n, n ∈ ns.toList ↔
        n ∈ differing ∨ TypeBody.Contested (d.body :: cs.map (·.definition.body)) n := by
  induction cs generalizing d differing with
  | nil =>
    refine ⟨.ofList differing, ?_, fun n => by simp [TypeBody.not_contested_singleton]⟩
    rw [uniteFields]
    split
    · next h => rw [List.isEmpty_iff.mp h]; rfl
    · refine Conflict.flatten_ofList_of_single fun c hc => ?_
      obtain ⟨n, -, rfl⟩ := List.mem_map.mp hc
      trivial
  | cons c cs ih =>
    have hc : c.definition.kind = d.kind := hk c (by simp)
    obtain ⟨body, more, hu⟩ := TypeBody.exists_unite? hd hc
    have hbody : body.kind = d.kind := (TypeBody.unite?_kind hu).2
    have hkind : TypeDefinition.kind { d.absorb c.definition with body := body } = d.kind := hbody
    obtain ⟨ns, hns, hmem⟩ := ih (differing ++ more) (hkind.symm ▸ hd) fun e he =>
      (hk e (by simp [he])).trans hkind.symm
    refine ⟨ns, by rw [uniteFields, hu]; exact hns, fun n => ?_⟩
    rw [hmem, List.mem_append, or_assoc, List.map_cons, TypeBody.contested_cons_iff hu]

/-- A union of fields reports each contested field once. -/
theorem exists_conflictsOf_fieldUnion (type : Name) {k : TypeKind} (hf : k.HasFields)
    (hne : cs ≠ []) (hk : ∀ c ∈ cs, c.definition.kind = k) :
    ∃ ns : Distinct Name,
      conflictsOf (fieldUnion type cs) = ns.toList.map (fieldConflict type cs) ∧
      ∀ n, n ∈ ns.toList ↔ TypeBody.Contested (cs.map (·.definition.body)) n := by
  cases cs with
  | nil => exact absurd rfl hne
  | cons c cs =>
    have hc : c.definition.kind = k := hk c (by simp)
    have hcs : ∀ e ∈ cs, e.definition.kind = c.definition.kind :=
      fun e he => (hk e (by simp [he])).trans hc.symm
    obtain ⟨ns, hns, hmem⟩ := exists_conflictsOf_uniteFields type (c :: cs) [] (hc.symm ▸ hf) hcs
    exact ⟨ns, hns, by simpa using hmem⟩

theorem mem_conflictsOf_fieldUnion {k : TypeKind} (hf : k.HasFields) (hne : cs ≠ [])
    (hk : ∀ c ∈ cs, c.definition.kind = k) :
    x ∈ conflictsOf (fieldUnion type cs) ↔
      ∃ n, TypeBody.Contested (cs.map (·.definition.body)) n ∧ x = fieldConflict type cs n := by
  obtain ⟨ns, hns, hmem⟩ := exists_conflictsOf_fieldUnion type hf hne hk
  rw [hns, List.mem_map]
  exact exists_congr fun n => and_congr (hmem n) eq_comm

/-! ### Other kinds -/

/-- Enums and unions can always be combined with one another. -/
theorem exists_combine? {d e : TypeDefinition} (hkind : e.kind = d.kind)
    (h : d.kind = .enum ∨ d.kind = .union) : ∃ r, d.combine? e = some r := by
  have hs : d.kind ≠ .scalar := by
    rcases h with h | h <;> rw [h] <;> decide
  rw [TypeDefinition.combine?_of_ne_scalar hs]
  rcases h with h | h
  · obtain ⟨vs, hvs⟩ := TypeBody.exists_eq_enum h
    obtain ⟨ws, hws⟩ := TypeBody.exists_eq_enum (hkind.trans h)
    rw [hvs, hws]
    exact ⟨_, rfl⟩
  · obtain ⟨ms, hms⟩ := TypeBody.exists_eq_union h
    obtain ⟨ns, hns⟩ := TypeBody.exists_eq_union (hkind.trans h)
    rw [hms, hns]
    exact ⟨_, rfl⟩

theorem exists_combineAll? {k : TypeKind} (h : k = .enum ∨ k = .union) {ds : List TypeDefinition}
    (hne : ds ≠ []) (hk : ∀ d ∈ ds, d.kind = k) :
    ∃ r, TypeDefinition.combineAll? ds = some r := by
  cases ds with
  | nil => exact absurd rfl hne
  | cons d ds =>
    show ∃ r, ds.foldlM TypeDefinition.combine? d = some r
    clear hne
    induction ds generalizing d with
    | nil => exact ⟨d, rfl⟩
    | cons e ds ih =>
      have hd : d.kind = k := hk d (by simp)
      obtain ⟨u, hu⟩ := exists_combine? ((hk e (by simp)).trans hd.symm) (hd.symm ▸ h)
      obtain ⟨r, hr⟩ := ih u fun x hx => by
        rcases List.mem_cons.mp hx with rfl | hx
        · exact (TypeDefinition.combine?_kind hu).2.trans hd
        · exact hk x (by simp [hx])
      exact ⟨r, by rw [List.foldlM_cons, hu]; exact hr⟩

/-- The handlers of enums and unions never fail. -/
theorem conflictsOf_builtIn_eq_nil {k : TypeKind} (h : k = .enum ∨ k = .union) {handler : Handler}
    (hh : Registry.builtIn.handlerFor k = some handler) (hne : cs ≠ [])
    (hk : ∀ c ∈ cs, c.definition.kind = k) : conflictsOf (handler type cs) = [] := by
  obtain ⟨handler', hh', hok, -⟩ := handlerFor_builtIn type hk
  rw [hh] at hh'
  cases hh'
  have hkinds : ∀ d ∈ cs.map Candidate.definition, d.kind = k := by simpa using hk
  obtain ⟨r, hr⟩ := exists_combineAll? h (by simpa using hne) hkinds
  rw [(hok r).mpr hr]
  rfl

/-- A walk from scalar to scalar that keeps the first directives and stops where there are others
fails when any two of the scalars have different ones. -/
theorem mem_conflictsOf_foldCandidates {conflict : Conflict}
    {step : TypeDefinition → TypeDefinition → Except Conflict TypeDefinition}
    (hsame : ∀ d e, d.kind = .scalar → e.kind = .scalar → d.directives = e.directives →
      ∃ r, step d e = .ok r ∧ r.kind = .scalar ∧ r.directives = d.directives)
    (hother : ∀ d e, d.directives ≠ e.directives → conflictsOf (step d e) = [conflict])
    (hne : cs ≠ []) (hk : ∀ c ∈ cs, c.definition.kind = .scalar) :
    x ∈ conflictsOf (foldCandidates step type cs) ↔
      (∃ c ∈ cs, ∃ e ∈ cs, c.definition.directives ≠ e.definition.directives) ∧ x = conflict := by
  have hwalk : ∀ (cs : List Candidate) (d : TypeDefinition), d.kind = .scalar →
      (∀ c ∈ cs, c.definition.kind = .scalar) →
      (x ∈ conflictsOf (cs.foldlM (fun d c => step d c.definition) d) ↔
        (∃ c ∈ cs, d.directives ≠ c.definition.directives) ∧ x = conflict) := by
    intro cs
    induction cs with
    | nil => simp [conflictsOf, pure, Except.pure]
    | cons c cs ih =>
      intro d hd hk
      rw [List.foldlM_cons]
      by_cases h : d.directives = c.definition.directives
      · obtain ⟨r, hr, hkind, hdirectives⟩ := hsame d c.definition hd (hk c (by simp)) h
        rw [hr]
        refine (ih r hkind fun e he => hk e (by simp [he])).trans ?_
        simp [hdirectives, h]
      · have hstop := hother d c.definition h
        cases hs : step d c.definition with
        | ok r =>
          rw [hs] at hstop
          cases hstop
        | error e =>
          rw [hs] at hstop
          replace hstop : e.flatten = [conflict] := hstop
          show x ∈ e.flatten ↔ _
          rw [hstop]
          simp [h]
  cases cs with
  | nil => exact absurd rfl hne
  | cons c cs =>
    refine (hwalk cs c.definition (hk c (by simp)) fun e he => hk e (by simp [he])).trans ?_
    refine and_congr_left fun _ => ⟨?_, ?_⟩
    · rintro ⟨e, he, h⟩
      exact ⟨c, by simp, e, by simp [he], h⟩
    · rintro ⟨a, ha, e, he, h⟩
      by_contra hnone
      have hfirst : ∀ e ∈ c :: cs, c.definition.directives = e.definition.directives := by
        intro e he
        rcases List.mem_cons.mp he with rfl | he
        · rfl
        · exact not_not.mp fun hne => hnone ⟨e, he, hne⟩
      exact h ((hfirst a ha).symm.trans (hfirst e he))

theorem mem_conflictsOf_identicalScalar (hne : cs ≠ [])
    (hk : ∀ c ∈ cs, c.definition.kind = .scalar) :
    x ∈ conflictsOf (identicalScalar type cs) ↔
      (∃ c ∈ cs, ∃ e ∈ cs, c.definition.directives ≠ e.definition.directives) ∧
        x = .notIdentical .scalar type (Candidate.schemas cs) := by
  refine mem_conflictsOf_foldCandidates (fun d e hd he h => ?_) (fun d e h => ?_) hne hk
  · refine ⟨_, if_pos ?_, hd, rfl⟩
    rw [TypeBody.eq_scalar hd, TypeBody.eq_scalar he, h]
    simp
  · rw [if_neg (by simp [h])]
    rfl

/-- What the built-in handler for a kind reports. -/
theorem mem_conflictsOf_builtIn {k : TypeKind} {handler : Handler}
    (hh : Registry.builtIn.handlerFor k = some handler) (hne : cs ≠ [])
    (hk : ∀ c ∈ cs, c.definition.kind = k) :
    x ∈ conflictsOf (handler type cs) ↔
      (∃ n, TypeBody.Contested (cs.map (·.definition.body)) n ∧ x = fieldConflict type cs n) ∨
      (k = .scalar ∧ (∃ c ∈ cs, ∃ e ∈ cs, c.definition.directives ≠ e.definition.directives) ∧
        x = .notIdentical .scalar type (Candidate.schemas cs)) := by
  have hnone (hf : ¬ k.HasFields) := Candidate.not_contested hf hk
  cases k with
  | object =>
    cases hh
    rw [mem_conflictsOf_fieldUnion (Or.inl rfl) hne hk]
    simp
  | interface =>
    cases hh
    rw [mem_conflictsOf_fieldUnion (Or.inr (Or.inl rfl)) hne hk]
    simp
  | inputObject =>
    cases hh
    rw [mem_conflictsOf_fieldUnion (Or.inr (Or.inr rfl)) hne hk]
    simp
  | enum =>
    rw [conflictsOf_builtIn_eq_nil (Or.inl rfl) hh hne hk]
    simp [hnone (by simp [TypeKind.HasFields])]
  | union =>
    rw [conflictsOf_builtIn_eq_nil (Or.inr rfl) hh hne hk]
    simp [hnone (by simp [TypeKind.HasFields])]
  | scalar =>
    cases hh
    rw [mem_conflictsOf_identicalScalar hne hk]
    simp [hnone (by simp [TypeKind.HasFields])]

/-- What a built-in handler returns is accepted. -/
theorem conflictsOf_checkResult {k : TypeKind} {handler : Handler}
    (hh : Registry.builtIn.handlerFor k = some handler)
    (hn : ∀ c ∈ cs, c.definition.name = type) (hk : ∀ c ∈ cs, c.definition.kind = k)
    (hne : cs ≠ []) :
    conflictsOf ((handler type cs).bind (checkResult type k)) = conflictsOf (handler type cs) := by
  obtain ⟨handler', hh', hok, -⟩ := handlerFor_builtIn type hk
  rw [hh] at hh'
  cases hh'
  cases hr : handler type cs with
  | error conflict => rfl
  | ok d =>
    have hd := (hok d).mp hr
    have hname : d.name = type := TypeDefinition.combineAll?_name hd (by simpa using hn)
    obtain ⟨c, hc⟩ := List.exists_mem_of_ne_nil cs hne
    have hkind : d.kind = k :=
      (TypeDefinition.combineAll?_kind hd _ (List.mem_map_of_mem hc)).symm.trans (hk c hc)
    show conflictsOf (checkResult type k d) = _
    rw [checkResult_eq_ok_iff.mpr ⟨rfl, hname, hkind⟩]

end Handler

/-! ## Types -/

/-- What the definitions of a type, which may be the type behind an entry point, do not agree
on. -/
inductive Dispute (isRoot : Bool) (type : Name) (cs : List Candidate) : ConflictSummary → Prop where
  | kinds {c e : Candidate} (hc : c ∈ cs) (he : e ∈ cs)
    (h : c.definition.kind ≠ e.definition.kind) :
    Dispute isRoot type cs ⟨.kindsDiffer, type, none, Candidate.sources cs⟩
  | root {c : Candidate} (hroot : isRoot = true) (hmany : 2 ≤ cs.length) (hc : c ∈ cs)
    (h : ¬ c.definition.kind.HasFields) :
    Dispute isRoot type cs ⟨.kindsDiffer, type, none, Candidate.sources cs⟩
  | field {n : Name} (hk : ∀ c ∈ cs, ∀ e ∈ cs, c.definition.kind = e.definition.kind)
    (h : TypeBody.Contested (cs.map (·.definition.body)) n) :
    Dispute isRoot type cs ⟨.fieldDiffers, type, n,
      Candidate.sources (cs.filter (·.definition.hasField n))⟩
  | scalar {c e : Candidate} (hroot : isRoot = false)
    (hk : ∀ c ∈ cs, c.definition.kind = .scalar) (hc : c ∈ cs) (he : e ∈ cs)
    (h : c.definition.directives ≠ e.definition.directives) :
    Dispute isRoot type cs ⟨.notIdentical .scalar, type, none, Candidate.sources cs⟩

section Dispute

variable {frame : Schema} {isRoot : Bool} {type : Name} {cs : List Candidate} {y : ConflictSummary}

/-- The disputes when all definitions are of one kind. -/
theorem dispute_iff {k : TypeKind} (hk : ∀ c ∈ cs, c.definition.kind = k) (hmany : 2 ≤ cs.length) :
    Dispute isRoot type cs y ↔
      (∃ n, TypeBody.Contested (cs.map (·.definition.body)) n ∧
        y = (Handler.fieldConflict type cs n).summary) ∨
      (isRoot = true ∧ ¬ k.HasFields ∧ y = (Candidate.kindsDiffer type cs).summary) ∨
      (isRoot = false ∧ k = .scalar ∧
        (∃ c ∈ cs, ∃ e ∈ cs, c.definition.directives ≠ e.definition.directives) ∧
        y = (Conflict.notIdentical .scalar type (Candidate.schemas cs)).summary) := by
  have hne : cs ≠ [] := List.ne_nil_of_length_pos (by omega)
  obtain ⟨c₀, hc₀⟩ := List.exists_mem_of_ne_nil cs hne
  simp only [Candidate.summary_fieldConflict, Candidate.summary_kindsDiffer,
    Candidate.summary_notIdentical]
  constructor
  · intro h
    cases h with
    | kinds hc he h => exact absurd ((hk _ hc).trans (hk _ he).symm) h
    | root hroot _ hc h => exact Or.inr (Or.inl ⟨hroot, hk _ hc ▸ h, rfl⟩)
    | field _ h => exact Or.inl ⟨_, h, rfl⟩
    | scalar hroot hs hc he h =>
      exact Or.inr (Or.inr ⟨hroot, (hk _ hc₀).symm.trans (hs _ hc₀), ⟨_, hc, _, he, h⟩, rfl⟩)
  · rintro (⟨n, h, rfl⟩ | ⟨hroot, hf, rfl⟩ | ⟨hroot, rfl, ⟨c, hc, e, he, h⟩, rfl⟩)
    · exact .field (fun c hc e he => (hk c hc).trans (hk e he).symm) h
    · exact .root hroot hmany hc₀ ((hk c₀ hc₀).symm ▸ hf)
    · exact .scalar hroot hk hc he h

theorem dispute_iff_of_kinds {c e : Candidate} (hc : c ∈ cs) (he : e ∈ cs)
    (h : c.definition.kind ≠ e.definition.kind) :
    Dispute isRoot type cs y ↔ y = (Candidate.kindsDiffer type cs).summary := by
  rw [Candidate.summary_kindsDiffer]
  constructor
  · intro hy
    cases hy with
    | kinds _ _ _ => rfl
    | root _ _ _ _ => rfl
    | field hk _ => exact absurd (hk c hc e he) h
    | scalar _ hk _ _ _ => exact absurd ((hk c hc).trans (hk e he).symm) h
  · rintro rfl
    exact .kinds hc he h

theorem not_dispute_singleton (c : Candidate) : ¬ Dispute isRoot type [c] y := by
  intro h
  cases h with
  | kinds hc he h => exact h (by rw [List.mem_singleton.mp hc, List.mem_singleton.mp he])
  | root _ hmany _ _ => exact absurd hmany (by simp)
  | field _ h => exact TypeBody.not_contested_singleton _ _ h
  | scalar _ _ hc he h => exact h (by rw [List.mem_singleton.mp hc, List.mem_singleton.mp he])

/-- The conflicts of a type are summed up by the disputes about it. -/
theorem mem_summary_mergeType_iff (hn : ∀ c ∈ cs, c.definition.name = type) (hne : cs ≠ []) :
    y ∈ (conflictsOf (mergeType .builtIn frame type cs)).map Conflict.summary ↔
      Dispute (frame.isRootType type) type cs y := by
  match cs with
  | [] => exact absurd rfl hne
  | [single] => exact iff_of_false (by simp [mergeType, conflictsOf]) (not_dispute_singleton single)
  | first :: second :: rest =>
    have hmany : 2 ≤ (first :: second :: rest).length := by simp
    rw [mergeType]
    generalize hcs : first :: second :: rest = cs at hn hne hmany ⊢
    have hfirst : first ∈ cs := by simp [← hcs]
    split
    · next hany =>
      obtain ⟨c, hc, hkind⟩ := List.any_eq_true.mp hany
      rw [dispute_iff_of_kinds hc hfirst (of_decide_eq_true hkind)]
      simp [conflictsOf, Candidate.kindsDiffer, Conflict.flatten]
    · next hany =>
      have hk : ∀ c ∈ cs, c.definition.kind = first.definition.kind := by
        simpa using hany
      have hsummary {P : Conflict → Prop} {conflicts : List Conflict}
          (h : ∀ x, x ∈ conflicts ↔ P x) :
          y ∈ conflicts.map Conflict.summary ↔ ∃ x, P x ∧ y = x.summary := by
        simp only [List.mem_map, h, eq_comm]
      rw [dispute_iff hk hmany]
      split
      · next hroot =>
        by_cases hf : first.definition.kind.HasFields
        · rw [hsummary fun x => Handler.mem_conflictsOf_fieldUnion hf hne hk]
          simp [hroot, hf]
        · have hnone := Candidate.not_contested hf hk
          rw [← hcs, Handler.fieldUnion_of_not_hasFields hf, hcs]
          simp [hroot, hf, hnone, conflictsOf, Candidate.kindsDiffer, Conflict.flatten]
      · next hroot =>
        obtain ⟨handler, hh, -⟩ := handlerFor_builtIn type hk
        rw [hh]
        dsimp only
        rw [Handler.conflictsOf_checkResult hh hn hk hne,
          hsummary fun x => Handler.mem_conflictsOf_builtIn hh hne hk]
        simp [hroot, or_and_right, exists_or, and_assoc]

end Dispute

end SchemaWeave
