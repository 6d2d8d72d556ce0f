import SchemaWeave.Proofs.Keyed.Rewrite
import SchemaWeave.Proofs.Rewrite.Renaming

/-!
# Canonical names of entry points

The types behind the entry points get their canonical names one after another. A renaming
changes the name behind every entry point that has it, so two entry points with one type have one
type to the end, and only one of them can have its canonical name then.

As long as no two have one type, a renaming changes the entry point that it is for and no other.
So the only thing that can still go wrong is that the canonical name of one is what a later one
is called already, of a type that is not there.
-/

namespace SchemaWeave

theorem RootOperation.canonicalName_inj {a b : RootOperation}
    (h : a.canonicalName = b.canonicalName) : a = b := by
  revert h
  cases a <;> cases b <;> decide

namespace RootOperations

variable {r : RootOperations} {op : RootOperation}

/-! ## One entry point -/

/-- The entry points when the type behind one of them has got its canonical name. -/
def settle (r : RootOperations) (op : RootOperation) : RootOperations :=
  match r.get op with
  | Option.none => r
  | some n => r.map (renamed n op.canonicalName)

theorem settle_of_none (h : r.get op = Option.none) : r.settle op = r := by
  rw [settle, h]

theorem settle_of_some {n : Name} (h : r.get op = some n) :
    r.settle op = r.map (renamed n op.canonicalName) := by
  rw [settle, h]

/-- Whether no two entry points have the same type. -/
def Apart (r : RootOperations) : Prop := ∀ a b n, r.get a = some n → r.get b = some n → a = b

/-- Entry points with one type keep one type. -/
theorem apart_of_settle (h : (r.settle op).Apart) : r.Apart := by
  intro a b n ha hb
  cases hop : r.get op with
  | none => exact h a b n (by rwa [settle_of_none hop]) (by rwa [settle_of_none hop])
  | some m =>
    rw [settle_of_some hop] at h
    refine h a b (renamed m op.canonicalName n) ?_ ?_
    · rw [get_map, ha, Option.map_some]
    · rw [get_map, hb, Option.map_some]

theorem get_settle_self_iff {n : Name} :
    (r.settle op).get op = some n ↔ r.get op ≠ Option.none ∧ n = op.canonicalName := by
  cases hop : r.get op with
  | none => simp [settle_of_none hop, hop]
  | some m => simp [settle_of_some hop, hop, eq_comm]

theorem get_settle_of_ne (h : r.Apart) {a : RootOperation} (ha : a ≠ op) :
    (r.settle op).get a = r.get a := by
  cases hop : r.get op with
  | none => rw [settle_of_none hop]
  | some n =>
    rw [settle_of_some hop, get_map]
    cases hm : r.get a with
    | none => rfl
    | some m =>
      have hne : m ≠ n := fun hmn => ha (h a op n (hmn ▸ hm) hop)
      rw [Option.map_some, renamed_of_ne hne]

/-- Entry points that are apart stay so when the canonical name of one is not what another is
called. -/
theorem apart_settle_iff (h : r.Apart) :
    (r.settle op).Apart ↔
      ∀ b, b ≠ op → r.get op ≠ Option.none → r.get b ≠ some op.canonicalName := by
  constructor
  · intro hs b hb hset htaken
    refine hb (hs b op op.canonicalName ?_ (get_settle_self_iff.mpr ⟨hset, rfl⟩))
    rw [get_settle_of_ne h hb, htaken]
  · intro huntaken a b n ha hb
    by_cases haop : a = op <;> by_cases hbop : b = op
    · rw [haop, hbop]
    · rw [get_settle_of_ne h hbop] at hb
      obtain ⟨hset, rfl⟩ := get_settle_self_iff.mp (haop ▸ ha)
      exact absurd hb (huntaken b hbop hset)
    · rw [get_settle_of_ne h haop] at ha
      obtain ⟨hset, rfl⟩ := get_settle_self_iff.mp (hbop ▸ hb)
      exact absurd ha (huntaken a haop hset)
    · rw [get_settle_of_ne h haop] at ha
      rw [get_settle_of_ne h hbop] at hb
      exact h a b n ha hb

/-! ## All entry points -/

theorem apart_of_isCanonical (h : r.isCanonical = true) : r.Apart := by
  intro a b n ha hb
  rw [isCanonical_iff] at h
  exact RootOperation.canonicalName_inj ((h a n ha).symm.trans (h b n hb))

theorem apart_of_foldl_settle {ops : List RootOperation} (h : (ops.foldl settle r).Apart) :
    r.Apart := by
  induction ops generalizing r with
  | nil => exact h
  | cons op ops ih => exact apart_of_settle (ih h)

/-- Whether no entry point has already the canonical name that another one before it gets. -/
def Untaken (r : RootOperations) (ops : List RootOperation) : Prop :=
  ops.Pairwise fun a b => r.get a ≠ Option.none → r.get b ≠ some a.canonicalName

/-- The entry points that are still to come are not touched by one that gets its name. -/
theorem untaken_settle_iff (h : r.Apart) {ops : List RootOperation} (hop : op ∉ ops) :
    (r.settle op).Untaken ops ↔ r.Untaken ops := by
  refine List.Pairwise.iff_of_mem fun {a b} ha hb => ?_
  rw [get_settle_of_ne h (ne_of_mem_of_not_mem ha hop),
    get_settle_of_ne h (ne_of_mem_of_not_mem hb hop)]

/-- After some entry points have their canonical names, the others get theirs exactly when no
two have one type and no name is taken. -/
theorem isCanonical_foldl_settle_iff {ops : List RootOperation} (hnd : ops.Nodup)
    (hdone : ∀ a, a ∉ ops → ∀ n, r.get a = some n → n = a.canonicalName) :
    (ops.foldl settle r).isCanonical = true ↔ r.Apart ∧ r.Untaken ops := by
  induction ops generalizing r with
  | nil =>
    have hcanonical : r.isCanonical = true :=
      isCanonical_iff.mpr fun op => hdone op List.not_mem_nil
    exact iff_of_true hcanonical ⟨apart_of_isCanonical hcanonical, .nil⟩
  | cons op ops ih =>
    obtain ⟨hop, hnd⟩ := List.nodup_cons.mp hnd
    by_cases h : r.Apart
    · have hdone' (a : RootOperation) (ha : a ∉ ops) (n : Name)
          (hn : (r.settle op).get a = some n) : n = a.canonicalName := by
        by_cases haop : a = op
        · subst haop
          exact (get_settle_self_iff.mp hn).2
        · rw [get_settle_of_ne h haop] at hn
          exact hdone a (List.not_mem_cons_of_ne_of_not_mem haop ha) n hn
      have hfirst : (r.settle op).Apart ↔
          ∀ b ∈ ops, r.get op ≠ Option.none → r.get b ≠ some op.canonicalName := by
        rw [apart_settle_iff h]
        refine ⟨fun hu b hb => hu b (ne_of_mem_of_not_mem hb hop), fun hu b hb hset htaken => ?_⟩
        by_cases hmem : b ∈ ops
        · exact hu b hmem hset htaken
        · -- an entry point that is done has a canonical name, which is its own
          have hname := hdone b (List.not_mem_cons_of_ne_of_not_mem hb hmem) _ htaken
          exact hb (RootOperation.canonicalName_inj hname).symm
      rw [List.foldl_cons, ih hnd hdone', hfirst, untaken_settle_iff h hop, Untaken, Untaken,
        List.pairwise_cons, and_iff_right h]
    · refine iff_of_false (fun hcanonical => h ?_) fun hr => h hr.1
      exact apart_of_settle (apart_of_foldl_settle (apart_of_isCanonical hcanonical))

/-- Whether no two entry points have one type, and none is called by the canonical name of one
before it. -/
structure Separate (r : RootOperations) : Prop where
  apart : r.Apart
  untaken : r.Untaken RootOperation.all

theorem isCanonical_settled_iff (r : RootOperations) :
    (RootOperation.all.foldl settle r).isCanonical = true ↔ r.Separate := by
  rw [isCanonical_foldl_settle_iff (by decide) fun a ha => absurd (by cases a <;> decide) ha]
  exact ⟨fun h => ⟨h.1, h.2⟩, fun h => ⟨h.apart, h.untaken⟩⟩

end RootOperations

/-! ## Schemas -/

namespace Schema

theorem normalizeRoot_roots {s s' : Schema} {op : RootOperation}
    (h : s.normalizeRoot op = .ok s') : s'.roots = s.roots.settle op := by
  unfold normalizeRoot at h
  split at h
  · next hnone =>
    cases h
    rw [RootOperations.settle_of_none hnone]
  · next n hn =>
    rw [RootOperations.settle_of_some hn]
    split at h
    · next hcanonical =>
      cases h
      have hid : renamed n op.canonicalName = id := hcanonical ▸ funext (renamed_self n)
      rw [hid, RootOperations.map_id]
    · obtain ⟨ht, -⟩ := Rule.outcome_eq_ok_iff.mp (Rule.apply_eq_ok_iff.mp h)
      cases Rule.transform_eq_ok_iff.mp ht with
      | renameType _ _ _ => exact roots_renameType s n op.canonicalName

/-- What the entry points become does not depend on the rest of the schema. -/
theorem normalizeRoots_roots {s s' : Schema} (h : s.normalizeRoots = .ok s') :
    s'.roots = RootOperation.all.foldl RootOperations.settle s.roots := by
  unfold normalizeRoots at h
  generalize RootOperation.all = ops at h ⊢
  induction ops generalizing s with
  | nil =>
    cases h
    rfl
  | cons op ops ih =>
    rw [List.foldlM_cons] at h
    obtain ⟨s₁, hop, h⟩ := bind_eq_ok_iff.mp h
    rw [List.foldl_cons, ← normalizeRoot_roots hop]
    exact ih h

end Schema

/-- When the rewriting succeeds, the entry points of a schema have their canonical names exactly
when the rules have left them separate. -/
theorem rewriteAll_isCanonical_iff {ss ss' : List Schema} {rs : List Rewriter}
    (h : rewriteAll ss rs = .ok ss') :
    List.Forall₂ (fun s s' => s'.roots.isCanonical = true ↔
      (Passage.run s rs).schema.roots.Separate) ss ss' := by
  refine (rewriteAll_eq_ok h).imp fun s s' hf => ?_
  rw [Schema.normalizeRoots_roots hf, RootOperations.isCanonical_settled_iff]

/-- A schema with one type and the given entry points. -/
def withRootType (n : Name) (roots : RootOperations) : Schema :=
  let ready : Name := ⟨"ready", by decide⟩
  let fields : Table Name Field := .ofList [(ready, .ofType ready (.named ⟨"Boolean", by decide⟩))]
  { Schema.empty "A" with
    roots := roots
    types := .ofList [(n, ⟨n, none, [], .object .empty fields⟩)] }

theorem rewriteAll_isCanonical_iff_root :
    let start : Name := ⟨"Start", by decide⟩
    let query := RootOperation.query.canonicalName
    let before := withRootType start ⟨some start, none, none⟩
    let after := withRootType query ⟨some query, none, none⟩
    rewriteAll [before] [] = .ok [after] ∧ before.roots.Separate := by
  intro start query before after
  have h : rewriteAll [before] [] = .ok [after] := by decide
  exact ⟨h, (List.forall₂_cons.mp (rewriteAll_isCanonical_iff h)).1.mp (by decide)⟩

/-- A type behind two entry points gets the canonical name of the later one. -/
theorem rewriteAll_not_isCanonical_shared :
    let query := RootOperation.query.canonicalName
    let mutation := RootOperation.mutation.canonicalName
    let before := withRootType query ⟨some query, some query, none⟩
    let after := withRootType mutation ⟨some mutation, some mutation, none⟩
    rewriteAll [before] [] = .ok [after] ∧ after.roots.isCanonical = false := by
  decide

end SchemaWeave
