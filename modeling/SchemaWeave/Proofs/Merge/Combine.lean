import SchemaWeave.Proofs.Distinct
import SchemaWeave.Proofs.Results
import SchemaWeave.Proofs.Table
import SchemaWeave.Merge.Run

/-!
# Combining definitions two at a time

The built-in handlers go through the candidates and keep the definition so far. `combine?` is
one step of that, the same for every kind of type, and `combineAll?` is the walk. A handler
that succeeds gives what the walk gives, and it fails where the walk stops.

Which definitions are put together first does not matter to a walk, so everything that is said
about the order of a merge is said about `combineAll?`.
-/

namespace SchemaWeave

/-! ## Conflicts -/

namespace Conflict

/-- Whether a conflict lists nothing: it fails a handler and leaves no trace in the errors. -/
def IsSilent (c : Conflict) : Prop := c.flatten = []

instance (c : Conflict) : Decidable c.IsSilent :=
  decidable_of_iff (c.flatten.isEmpty = true) List.isEmpty_iff

/-- Whether a conflict is no list of others. -/
def IsSingle : Conflict → Prop
  | several _ => False
  | _ => True

theorem IsSingle.flatten_eq {c : Conflict} (h : c.IsSingle) : c.flatten = [c] := by
  cases c with
  | several _ => exact h.elim
  | _ => rfl

theorem IsSingle.ofList_eq {c : Conflict} (h : c.IsSingle) : ofList [c] = c := by
  rw [ofList, List.flatMap_singleton, h.flatten_eq]

theorem flatMap_flatten_of_single {cs : List Conflict} (h : ∀ c ∈ cs, c.IsSingle) :
    cs.flatMap flatten = cs := by
  rw [List.flatMap_congr fun c hc => (h c hc).flatten_eq, List.flatMap_singleton']

/-- An aggregate of conflicts whose parts are single lists those parts. -/
theorem flatten_ofList {cs : List Conflict} (h : ∀ c ∈ cs.flatMap flatten, c.IsSingle) :
    (ofList cs).flatten = cs.flatMap flatten := by
  unfold ofList
  split
  · next c hc => rw [hc, (h c (by simp [hc])).flatten_eq]
  · rfl

/-- Single conflicts are listed as they are. -/
theorem flatten_ofList_of_single {cs : List Conflict} (h : ∀ c ∈ cs, c.IsSingle) :
    (ofList cs).flatten = cs := by
  rw [flatten_ofList (by rwa [flatMap_flatten_of_single h]), flatMap_flatten_of_single h]

/-- Whether a conflict is made of single ones, of which there is at least one. -/
def IsReport (c : Conflict) : Prop := ∃ cs ≠ [], (∀ x ∈ cs, x.IsSingle) ∧ c = ofList cs

theorem IsReport.of_single {c : Conflict} (h : c.IsSingle) : c.IsReport :=
  ⟨[c], List.cons_ne_nil _ _, by simpa using h, h.ofList_eq.symm⟩

theorem IsReport.not_isSilent {c : Conflict} (h : c.IsReport) : ¬ c.IsSilent := by
  obtain ⟨cs, hne, hsingle, rfl⟩ := h
  rwa [IsSilent, flatten_ofList_of_single hsingle]

end Conflict

/-! ## One step -/

/-- The body with everything that either of two bodies has, when they do not disagree. -/
def TypeBody.combine? : TypeBody → TypeBody → Option TypeBody
  | .scalar, .scalar => some .scalar
  | .enum vs, .enum ws => some (.enum (uniteTables vs ws))
  | .union ms, .union ns => some (.union (ms.append ns.toList))
  | b, c => (b.unite? c).bind fun u => if u.2.isEmpty then some u.1 else none

namespace TypeDefinition

/-- The definition that the built-in handlers make of two, if they combine them. Scalars have
to agree in their directives. -/
def combine? (d e : TypeDefinition) : Option TypeDefinition :=
  if d.body = .scalar ∧ d.directives ≠ e.directives then none
  else (d.body.combine? e.body).map fun body => { d.absorb e with body := body }

/-- The definition that the built-in handlers make of several, if they combine them. -/
def combineAll? : List TypeDefinition → Option TypeDefinition
  | [] => none
  | d :: ds => ds.foldlM combine? d

/-- A walk may be interrupted and taken up again from the definition so far. -/
theorem combineAll?_append {ds : List TypeDefinition} (h : ds ≠ []) (es : List TypeDefinition) :
    combineAll? (ds ++ es) = (combineAll? ds).bind fun d => combineAll? (d :: es) := by
  cases ds with
  | nil => exact absurd rfl h
  | cons d ds => exact List.foldlM_append

end TypeDefinition

/-! ## What a step keeps -/

theorem TypeBody.unite?_kind {b c r : TypeBody} {differing : List Name}
    (h : b.unite? c = some (r, differing)) : c.kind = b.kind ∧ r.kind = b.kind := by
  cases b <;> cases c <;> simp only [unite?, reduceCtorEq, Option.some.injEq, Prod.mk.injEq] at h
  all_goals
    obtain ⟨rfl, -⟩ := h
    exact ⟨rfl, rfl⟩

theorem TypeBody.combine?_kind {b c r : TypeBody} (h : b.combine? c = some r) :
    c.kind = b.kind ∧ r.kind = b.kind := by
  unfold combine? at h
  split at h
  · cases h
    exact ⟨rfl, rfl⟩
  · cases h
    exact ⟨rfl, rfl⟩
  · cases h
    exact ⟨rfl, rfl⟩
  · obtain ⟨⟨body, differing⟩, hu, h⟩ := Option.bind_eq_some_iff.mp h
    split at h
    · cases h
      exact TypeBody.unite?_kind hu
    · cases h

/-- The keys of a union of two tables, whether or not the tables agree. -/
theorem mem_keys_uniteEntries {α : Type} {same : α → α → Bool} {t : Table Name α}
    {l : List (Name × α)} {n : Name} :
    n ∈ (uniteEntries same t l).1.keys ↔ n ∈ t.keys ∨ n ∈ l.map Prod.fst := by
  induction l generalizing t with
  | nil => simp [uniteEntries]
  | cons e l ih =>
    rw [uniteEntries, List.map_cons, List.mem_cons]
    split
    · rw [ih, Table.mem_keys_insert, or_assoc]
    · next b hb =>
      have he : e.1 ∈ t.keys := Table.mem_keys_of_get? hb
      show n ∈ (uniteEntries same t l).1.keys ↔ _
      rw [ih]
      constructor
      · rintro (h | h)
        · exact Or.inl h
        · exact Or.inr (Or.inr h)
      · rintro (h | rfl | h)
        · exact Or.inl h
        · exact Or.inl he
        · exact Or.inr h

theorem TypeBody.hasField_unite?_iff {b c r : TypeBody} {differing : List Name}
    (h : b.unite? c = some (r, differing)) {f : Name} :
    r.hasField f ↔ b.hasField f ∨ c.hasField f := by
  cases b <;> cases c <;> simp only [unite?, reduceCtorEq, Option.some.injEq, Prod.mk.injEq] at h
  all_goals
    obtain ⟨rfl, -⟩ := h
    simp only [hasField, Table.contains_iff]
    exact mem_keys_uniteEntries

theorem TypeBody.hasField_combine?_iff {b c r : TypeBody} (h : b.combine? c = some r) {f : Name} :
    r.hasField f ↔ b.hasField f ∨ c.hasField f := by
  unfold combine? at h
  split at h
  · cases h
    simp [hasField]
  · cases h
    simp [hasField]
  · cases h
    simp [hasField]
  · obtain ⟨⟨body, differing⟩, hu, h⟩ := Option.bind_eq_some_iff.mp h
    split at h
    · cases h
      exact TypeBody.hasField_unite?_iff hu
    · cases h

namespace TypeDefinition

theorem combine?_eq_some {d e r : TypeDefinition} (h : d.combine? e = some r) :
    ∃ body, d.body.combine? e.body = some body ∧ r = { d.absorb e with body := body } := by
  unfold combine? at h
  split at h
  · cases h
  · obtain ⟨body, hb, rfl⟩ := Option.map_eq_some_iff.mp h
    exact ⟨body, hb, rfl⟩

theorem combine?_name {d e r : TypeDefinition} (h : d.combine? e = some r) : r.name = d.name := by
  obtain ⟨body, -, rfl⟩ := combine?_eq_some h
  rfl

theorem combine?_kind {d e r : TypeDefinition} (h : d.combine? e = some r) :
    e.kind = d.kind ∧ r.kind = d.kind := by
  obtain ⟨body, hb, rfl⟩ := combine?_eq_some h
  exact TypeBody.combine?_kind hb

/-- A step gives the fields that either definition has. -/
theorem hasField_combine?_iff {d e r : TypeDefinition} (h : d.combine? e = some r) {f : Name} :
    r.hasField f ↔ d.hasField f ∨ e.hasField f := by
  obtain ⟨body, hb, rfl⟩ := combine?_eq_some h
  exact TypeBody.hasField_combine?_iff hb

/-- What holds of one definition, and of a walk when it holds of the walk after its first step,
holds of every walk. -/
theorem combineAll?_induct {P : List TypeDefinition → TypeDefinition → Prop}
    (hone : ∀ d, P [d] d)
    (hstep : ∀ d e u es r, d.combine? e = some u → P (u :: es) r → P (d :: e :: es) r)
    {ds : List TypeDefinition} {r : TypeDefinition} (h : combineAll? ds = some r) : P ds r := by
  cases ds with
  | nil => cases h
  | cons d ds =>
    replace h : ds.foldlM combine? d = some r := h
    induction ds generalizing d with
    | nil =>
      cases h
      exact hone r
    | cons e es ih =>
      rw [List.foldlM_cons] at h
      obtain ⟨u, hu, h⟩ := Option.bind_eq_some_iff.mp h
      exact hstep d e u es r hu (ih u h)

/-- What is combined has the fields that any of the definitions has. -/
theorem hasField_combineAll?_iff {ds : List TypeDefinition} {r : TypeDefinition}
    (h : combineAll? ds = some r) {f : Name} : r.hasField f ↔ ∃ d ∈ ds, d.hasField f := by
  refine combineAll?_induct (P := fun ds r => r.hasField f ↔ ∃ d ∈ ds, d.hasField f)
    (fun d => by simp) (fun d e u es r hu ih => ?_) h
  rw [ih]
  simp only [List.exists_mem_cons_iff, hasField_combine?_iff hu, or_assoc]

theorem combineAll?_name {ds : List TypeDefinition} {r : TypeDefinition} {n : Name}
    (h : combineAll? ds = some r) (hn : ∀ d ∈ ds, d.name = n) : r.name = n := by
  revert hn
  refine combineAll?_induct (P := fun ds r => (∀ d ∈ ds, d.name = n) → r.name = n)
    (fun d hn => hn d (by simp)) (fun d e u es r hu ih hn => ih ?_) h
  intro x hx
  rcases List.mem_cons.mp hx with rfl | hx
  · exact (combine?_name hu).trans (hn d (by simp))
  · exact hn x (by simp [hx])

theorem combineAll?_kind {ds : List TypeDefinition} {r : TypeDefinition}
    (h : combineAll? ds = some r) : ∀ d ∈ ds, d.kind = r.kind := by
  refine combineAll?_induct (P := fun ds r => ∀ d ∈ ds, d.kind = r.kind)
    (fun d d' hd' => by rw [List.mem_singleton.mp hd']) (fun d e u es r hu ih => ?_) h
  obtain ⟨he, hud⟩ := combine?_kind hu
  have hd : d.kind = r.kind := hud.symm.trans (ih u (by simp))
  intro x hx
  rcases List.mem_cons.mp hx with rfl | hx
  · exact hd
  · rcases List.mem_cons.mp hx with rfl | hx
    · exact he.trans hd
    · exact ih x (by simp [hx])

end TypeDefinition

/-! ## Shapes of bodies -/

theorem TypeBody.eq_scalar {b : TypeBody} (h : b.kind = .scalar) : b = .scalar := by
  cases b <;> first | rfl | cases h

theorem TypeBody.exists_eq_enum {b : TypeBody} (h : b.kind = .enum) : ∃ vs, b = .enum vs := by
  cases b <;> first | exact ⟨_, rfl⟩ | cases h

theorem TypeBody.exists_eq_union {b : TypeBody} (h : b.kind = .union) : ∃ ms, b = .union ms := by
  cases b <;> first | exact ⟨_, rfl⟩ | cases h

theorem TypeDefinition.combine?_of_ne_scalar {d : TypeDefinition} (h : d.kind ≠ .scalar)
    (e : TypeDefinition) :
    d.combine? e = (d.body.combine? e.body).map fun body => { d.absorb e with body := body } := by
  rw [combine?, if_neg fun hs => h (by rw [kind, hs.1]; rfl)]

theorem appendDirectives_of_subset {ds more : List Directive} (h : ∀ x ∈ more, x ∈ ds) :
    appendDirectives ds more = ds := by
  induction more with
  | nil => rfl
  | cons x more ih =>
    unfold appendDirectives at ih ⊢
    rw [List.foldl_cons, if_pos (List.contains_iff_mem.mpr (h x (by simp)))]
    exact ih fun y hy => h y (by simp [hy])

/-- Scalars have nothing to unite: the first definition stays, with a description if it had
none. -/
theorem TypeDefinition.combine?_of_scalar {d : TypeDefinition} (h : d.body = .scalar)
    (e : TypeDefinition) :
    d.combine? e = if d.body = e.body ∧ d.directives = e.directives then
      some { d with
        description := if d.description.isNone then e.description else d.description }
    else none := by
  unfold combine?
  by_cases hdir : d.directives = e.directives
  · have hnot : ¬ (d.body = .scalar ∧ d.directives ≠ e.directives) := fun h' => h'.2 hdir
    rw [if_neg hnot, h, absorb, ← hdir, appendDirectives_of_subset fun _ hx => hx]
    cases e.body <;> simp [TypeBody.combine?, TypeBody.unite?]
  · rw [if_pos ⟨h, hdir⟩, if_neg fun h' => hdir h'.2]

/-! ## The handlers -/

/-- The kinds whose types have fields. -/
def TypeKind.HasFields (k : TypeKind) : Prop := k = .object ∨ k = .interface ∨ k = .inputObject

theorem TypeDefinition.combine?_of_hasFields {d : TypeDefinition} (hd : d.kind.HasFields)
    (e : TypeDefinition) :
    d.combine? e = (d.body.unite? e.body).bind fun u =>
      if u.2.isEmpty then some { d.absorb e with body := u.1 } else none := by
  have hs : d.kind ≠ .scalar := by
    intro hs
    rw [hs] at hd
    rcases hd with h | h | h <;> cases h
  have hb : d.body.combine? e.body =
      (d.body.unite? e.body).bind fun u => if u.2.isEmpty then some u.1 else none := by
    unfold kind at hd
    revert hd
    cases d.body <;> intro hd
    case object => cases e.body <;> rfl
    case interface => cases e.body <;> rfl
    case inputObject => cases e.body <;> rfl
    all_goals rcases hd with h | h | h <;> cases h
  rw [combine?_of_ne_scalar hs, hb, Option.map_bind]
  refine Option.bind_congr fun u _ => ?_
  rw [Function.comp_apply]
  split <;> rfl

theorem TypeBody.exists_unite? {b c : TypeBody} (hb : b.kind.HasFields) (hc : c.kind = b.kind) :
    ∃ r differing, b.unite? c = some (r, differing) := by
  cases b with
  | object is fields =>
    cases c with
    | object js added => exact ⟨_, _, rfl⟩
    | _ => cases hc
  | interface is fields =>
    cases c with
    | interface js added => exact ⟨_, _, rfl⟩
    | _ => cases hc
  | inputObject fields =>
    cases c with
    | inputObject added => exact ⟨_, _, rfl⟩
    | _ => cases hc
  | _ => rcases hb with h | h | h <;> cases h

theorem TypeBody.unite?_eq_none {b : TypeBody} (hb : ¬ b.kind.HasFields) (c : TypeBody) :
    b.unite? c = none := by
  cases b with
  | object is fields => exact absurd (Or.inl rfl) hb
  | interface is fields => exact absurd (Or.inr (Or.inl rfl)) hb
  | inputObject fields => exact absurd (Or.inr (Or.inr rfl)) hb
  | _ => rfl

namespace Handler

variable {type : Name} {all cs : List Candidate} {c : Candidate} {d r : TypeDefinition}

theorem uniteFields_eq_ok_iff {differing : List Name} (hd : d.kind.HasFields) :
    uniteFields type all d differing cs = .ok r ↔
      differing = [] ∧ (cs.map Candidate.definition).foldlM TypeDefinition.combine? d = some r := by
  induction cs generalizing d differing with
  | nil =>
    have hempty : (Distinct.ofList differing).toList.isEmpty = true ↔ differing = [] := by
      rw [← Distinct.ofList_eq_empty_iff, List.isEmpty_iff]
      exact ⟨fun h => Distinct.ext h, fun h => by rw [h]; rfl⟩
    rw [uniteFields]
    by_cases hdiff : differing = []
    · rw [if_pos (hempty.mpr hdiff)]
      simp [hdiff]
    · rw [if_neg fun h => hdiff (hempty.mp h)]
      simp [hdiff]
  | cons c cs ih =>
    rw [uniteFields, List.map_cons, List.foldlM_cons, TypeDefinition.combine?_of_hasFields hd]
    split
    · next hu => simp [hu]
    · next body more hu =>
      -- a difference stays in the list to the end, so both sides ask for `more = []` here
      have hk : body.kind = d.kind := (TypeBody.unite?_kind hu).2
      rw [ih (by show body.kind.HasFields; rw [hk]; exact hd), hu]
      cases more with
      | nil => simp
      | cons f fs => simp

/-- Whatever the kinds are, uniting fields keeps the name of the first definition. -/
theorem uniteFields_name {differing : List Name}
    (h : uniteFields type all d differing cs = .ok r) : r.name = d.name := by
  induction cs generalizing d differing with
  | nil =>
    unfold uniteFields at h
    dsimp only at h
    split at h
    · cases h
      rfl
    · cases h
  | cons c cs ih =>
    unfold uniteFields at h
    split at h
    · cases h
    · have hr := ih h
      exact hr

theorem fieldUnion_name {n : Name} (h : fieldUnion type cs = .ok r)
    (hn : ∀ c ∈ cs, c.definition.name = n) : r.name = n := by
  cases cs with
  | nil => cases h
  | cons c cs => exact (uniteFields_name h).trans (hn c (by simp))

theorem fieldUnion_eq_ok_iff (hk : ∀ c ∈ cs, c.definition.kind.HasFields) :
    fieldUnion type cs = .ok r ↔
      TypeDefinition.combineAll? (cs.map Candidate.definition) = some r := by
  cases cs with
  | nil => simp [fieldUnion, TypeDefinition.combineAll?]
  | cons c cs =>
    rw [fieldUnion, uniteFields_eq_ok_iff (hk c (by simp))]
    exact and_iff_right rfl

/-- There is nothing to unite in types without fields, unless there is just one of them. -/
theorem fieldUnion_of_not_hasFields {c e : Candidate} (h : ¬ c.definition.kind.HasFields)
    (cs : List Candidate) :
    fieldUnion type (c :: e :: cs) = .error (Candidate.kindsDiffer type (c :: e :: cs)) := by
  rw [fieldUnion, uniteFields, TypeBody.unite?_eq_none h]

/-- Whatever the kinds are, fields are united to what combining the definitions gives. -/
theorem combineAll?_of_fieldUnion (h : fieldUnion type cs = .ok r) :
    TypeDefinition.combineAll? (cs.map Candidate.definition) = some r := by
  match cs with
  | [] => cases h
  | [c] => cases h; rfl
  | c :: e :: cs =>
    by_cases hf : c.definition.kind.HasFields
    · exact ((uniteFields_eq_ok_iff hf).mp h).2
    · rw [fieldUnion_of_not_hasFields hf] at h
      cases h

/-- A handler that goes from candidate to candidate gives what the walk gives, if it does so in
each step from a definition of its kind. -/
theorem foldCandidates_eq_ok_iff {k : TypeKind}
    {step : TypeDefinition → TypeDefinition → Except Conflict TypeDefinition}
    (hstep : ∀ d e r, d.kind = k → (step d e = .ok r ↔ d.combine? e = some r))
    (hk : ∀ c ∈ cs, c.definition.kind = k) :
    foldCandidates step type cs = .ok r ↔
      TypeDefinition.combineAll? (cs.map Candidate.definition) = some r := by
  cases cs with
  | nil => simp [foldCandidates, TypeDefinition.combineAll?]
  | cons c cs =>
    show cs.foldlM (fun d c => step d c.definition) c.definition = .ok r ↔
      (cs.map Candidate.definition).foldlM TypeDefinition.combine? c.definition = some r
    have hc : c.definition.kind = k := hk c (by simp)
    generalize c.definition = d at hc
    clear hk
    induction cs generalizing d with
    | nil =>
      simp [pure, Except.pure]
    | cons c cs ih =>
      rw [List.foldlM_cons, List.map_cons, List.foldlM_cons, bind_eq_ok_iff]
      simp only [bind, Option.bind_eq_some_iff, hstep _ _ _ hc]
      refine exists_congr fun u => and_congr_right fun hu => ih u ?_
      exact (TypeDefinition.combine?_kind hu).2.trans hc

/-! ### Kind by kind -/

theorem enumValueUnion_eq_ok_iff (hk : ∀ c ∈ cs, c.definition.kind = .enum) :
    enumValueUnion type cs = .ok r ↔
      TypeDefinition.combineAll? (cs.map Candidate.definition) = some r := by
  refine foldCandidates_eq_ok_iff (fun d e r hd => ?_) hk
  obtain ⟨vs, hvs⟩ := TypeBody.exists_eq_enum hd
  rw [TypeDefinition.combine?_of_ne_scalar (by rw [hd]; decide), hvs]
  cases e.body <;> simp [TypeBody.combine?, TypeBody.unite?]

theorem memberUnion_eq_ok_iff (hk : ∀ c ∈ cs, c.definition.kind = .union) :
    memberUnion type cs = .ok r ↔
      TypeDefinition.combineAll? (cs.map Candidate.definition) = some r := by
  refine foldCandidates_eq_ok_iff (fun d e r hd => ?_) hk
  obtain ⟨ms, hms⟩ := TypeBody.exists_eq_union hd
  rw [TypeDefinition.combine?_of_ne_scalar (by rw [hd]; decide), hms]
  cases e.body <;> simp [TypeBody.combine?, TypeBody.unite?]

theorem identicalScalar_eq_ok_iff (hk : ∀ c ∈ cs, c.definition.kind = .scalar) :
    identicalScalar type cs = .ok r ↔
      TypeDefinition.combineAll? (cs.map Candidate.definition) = some r := by
  refine foldCandidates_eq_ok_iff (fun d e r hd => ?_) hk
  rw [TypeDefinition.combine?_of_scalar (TypeBody.eq_scalar hd)]
  by_cases h : d.body = e.body ∧ d.directives = e.directives <;> simp [h]

/-! ### Failures

A built-in handler that fails says why. -/

theorem uniteFields_reports {differing : List Name} {conflict : Conflict}
    (h : uniteFields type all d differing cs = .error conflict) : conflict.IsReport := by
  induction cs generalizing d differing with
  | nil =>
    unfold uniteFields at h
    dsimp only at h
    split at h
    · cases h
    · next hne =>
      cases h
      refine ⟨_, fun hnil => ?_, fun c hc => ?_, rfl⟩
      · rw [List.map_eq_nil_iff] at hnil
        exact hne (by rw [hnil]; rfl)
      · obtain ⟨f, -, rfl⟩ := List.mem_map.mp hc
        trivial
  | cons c cs ih =>
    unfold uniteFields at h
    split at h
    · cases h
      exact .of_single trivial
    · exact ih h

theorem fieldUnion_reports {conflict : Conflict} (h : fieldUnion type cs = .error conflict) :
    conflict.IsReport := by
  cases cs with
  | nil =>
    cases h
    exact .of_single trivial
  | cons c cs => exact uniteFields_reports h

theorem foldCandidates_reports
    {step : TypeDefinition → TypeDefinition → Except Conflict TypeDefinition}
    (hstep : ∀ d e conflict, step d e = .error conflict → conflict.IsReport)
    {conflict : Conflict} (h : foldCandidates step type cs = .error conflict) :
    conflict.IsReport := by
  cases cs with
  | nil =>
    cases h
    exact .of_single trivial
  | cons c cs =>
    replace h : cs.foldlM (fun d c => step d c.definition) c.definition = .error conflict := h
    generalize c.definition = d at h
    induction cs generalizing d with
    | nil => cases h
    | cons c cs ih =>
      rw [List.foldlM_cons] at h
      cases hs : step d c.definition with
      | error e =>
        rw [hs] at h
        cases h
        exact hstep d c.definition conflict hs
      | ok u =>
        rw [hs] at h
        exact ih u h

theorem enumValueUnion_reports {conflict : Conflict}
    (h : enumValueUnion type cs = .error conflict) : conflict.IsReport := by
  refine foldCandidates_reports (fun d e conflict hs => ?_) h
  split at hs
  · cases hs
  · cases hs
    exact .of_single trivial

theorem memberUnion_reports {conflict : Conflict} (h : memberUnion type cs = .error conflict) :
    conflict.IsReport := by
  refine foldCandidates_reports (fun d e conflict hs => ?_) h
  split at hs
  · cases hs
  · cases hs
    exact .of_single trivial

theorem identicalScalar_reports {conflict : Conflict}
    (h : identicalScalar type cs = .error conflict) : conflict.IsReport := by
  refine foldCandidates_reports (fun d e conflict hs => ?_) h
  split at hs
  · cases hs
  · cases hs
    exact .of_single trivial

end Handler

end SchemaWeave
