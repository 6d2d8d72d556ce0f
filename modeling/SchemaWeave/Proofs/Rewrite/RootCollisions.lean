import SchemaWeave.Proofs.Rewrite.RenameType
import SchemaWeave.Proofs.Rewrite.RootNames

/-!
# Canonical names that are taken

The types behind the entry points get their canonical names one after another, each by a renaming,
which asks for a free name. The name of an ordinary type is never free. The name of a type behind
another entry point is free when that type has been renamed before, and is not when its turn is
still to come. So the renaming can collide with a type that is about to give up its name.

Nothing else can go wrong in a schema without violations: each renaming leaves another such schema.
-/

namespace SchemaWeave

namespace Schema

variable {s : Schema} {op : RootOperation} {ops : List RootOperation} {n : Name}

/-! ## One entry point -/

/-- In a schema without violations the entry points are behind types that are there. -/
theorem mem_keys_of_root (hs : s.violations = []) (h : s.roots.get op = some n) :
    n ∈ s.types.keys := by
  have hkind : s.kind? n = some .object := checkRoot_eq_nil_iff.mp
    ((violations_eq_nil_iff.mp hs).2.2 (op, n) (RootOperations.mem_toList.mpr h))
  by_contra hn
  have hnone : s.type? n = none := Table.get?_eq_none_iff.mpr hn
  simp [kind?, hnone] at hkind

theorem isBuiltInScalar_canonicalName (op : RootOperation) :
    isBuiltInScalar op.canonicalName.text = false := by
  cases op <;> decide

theorem normalizeRoot_of_canonical (h : ∀ n, s.roots.get op = some n → n = op.canonicalName) :
    s.normalizeRoot op = .ok s := by
  unfold normalizeRoot
  cases hop : s.roots.get op with
  | none => rfl
  | some n => exact if_pos (h n hop)

/-- Another name than the canonical one is changed where the canonical name is free. -/
theorem normalizeRoot_of_free (hk : s.TypesKeyed) (hs : s.violations = [])
    (hop : s.roots.get op = some n) (hn : n ≠ op.canonicalName)
    (hfree : op.canonicalName ∉ s.types.keys) :
    s.normalizeRoot op = .ok (s.renameType n op.canonicalName) := by
  rw [normalizeRoot, hop]
  refine (if_neg hn).trans ?_
  exact (Rule.renameType_apply_eq_ok_iff hk hs (mem_keys_of_root hs hop)).mpr
    ⟨hfree, isBuiltInScalar_canonicalName op, rfl⟩

theorem normalizeRoot_of_taken (hs : s.violations = []) (hop : s.roots.get op = some n)
    (hn : n ≠ op.canonicalName) (htaken : op.canonicalName ∈ s.types.keys) :
    s.normalizeRoot op = .error [.failed s.name (.renameType n op.canonicalName)
      (.typeExists op.canonicalName)] := by
  have hthere : s.types.contains n = true := Table.contains_iff.mpr (mem_keys_of_root hs hop)
  have houtcome : (Rule.renameType n op.canonicalName).outcome s
      = .error (.failed [.typeExists op.canonicalName]) := by
    rw [Rule.outcome, Rule.transform, hthere, Table.contains_iff.mpr htaken]
    rfl
  rw [normalizeRoot, hop]
  refine (if_neg hn).trans ?_
  rw [Rule.apply, houtcome]
  rfl

/-! ## The entry points that are still to come -/

/-- What holds when some entry points are still to get their canonical names: the schema has no
violations, no two entry points have one type, and all others have their canonical names. -/
structure Pending (s : Schema) (ops : List RootOperation) : Prop where
  keyed : s.TypesKeyed
  valid : s.violations = []
  apart : s.roots.Apart
  nodup : ops.Nodup
  done : ∀ a, a ∉ ops → ∀ n, s.roots.get a = some n → n = a.canonicalName

/-- Whether no ordinary type has the canonical name of one of the entry points: only a type behind
an entry point may have it. -/
def CanonicalFree (s : Schema) (ops : List RootOperation) : Prop :=
  ∀ op ∈ ops, s.roots.get op ≠ none → op.canonicalName ∈ s.types.keys →
    ∃ a, s.roots.get a = some op.canonicalName

namespace Pending

theorem of_canonical (h : s.Pending (op :: ops))
    (hop : ∀ n, s.roots.get op = some n → n = op.canonicalName) : s.Pending ops := by
  refine ⟨h.keyed, h.valid, h.apart, (List.nodup_cons.mp h.nodup).2, fun a ha => ?_⟩
  by_cases haop : a = op
  · rw [haop]
    exact hop
  · exact h.done a (List.not_mem_cons_of_ne_of_not_mem haop ha)

theorem canonicalFree_of_canonical (hop : ∀ n, s.roots.get op = some n → n = op.canonicalName) :
    s.CanonicalFree (op :: ops) ↔ s.CanonicalFree ops := by
  rw [CanonicalFree, List.forall_mem_cons]
  refine and_iff_right fun hset _ => ?_
  obtain ⟨n, hn⟩ := Option.ne_none_iff_exists'.mp hset
  exact ⟨op, hop n hn ▸ hn⟩

/-- The type that stands in the way is behind an entry point which is still to come: neither this
one nor one that has its canonical name is called so. -/
theorem exists_root_of_taken (h : s.Pending (op :: ops)) (hop : s.roots.get op = some n)
    (hn : n ≠ op.canonicalName) (hfree : s.CanonicalFree (op :: ops))
    (htaken : op.canonicalName ∈ s.types.keys) :
    ∃ a ∈ ops, s.roots.get a = some op.canonicalName := by
  obtain ⟨a, ha⟩ := hfree op List.mem_cons_self (by simp [hop]) htaken
  refine ⟨a, ?_, ha⟩
  by_contra hmem
  have haop : a ≠ op := by
    rintro rfl
    exact hn (Option.some.inj (hop.symm.trans ha))
  have hname := h.done a (List.not_mem_cons_of_ne_of_not_mem haop hmem) _ ha
  exact haop (RootOperation.canonicalName_inj hname).symm

variable (h : s.Pending (op :: ops)) (hop : s.roots.get op = some n)
  (hfree : op.canonicalName ∉ s.types.keys)
include h hop hfree

theorem renamable : s.Renamable n op.canonicalName :=
  renamable_of_violations_eq_nil h.keyed h.valid (mem_keys_of_root h.valid hop) hfree
    (isBuiltInScalar_canonicalName op)

omit h hfree in
theorem roots_renameType_eq : (s.renameType n op.canonicalName).roots = s.roots.settle op :=
  (roots_renameType s n op.canonicalName).trans (RootOperations.settle_of_some hop).symm

theorem renameType : (s.renameType n op.canonicalName).Pending ops := by
  have hr := h.renamable hop hfree
  have hroots := roots_renameType_eq hop
  refine ⟨hr.symm.keyed, hr.violations_eq_nil h.valid, ?_, (List.nodup_cons.mp h.nodup).2, ?_⟩
  · rw [hroots, RootOperations.apart_settle_iff h.apart]
    intro b _ _ hb
    exact hfree (mem_keys_of_root h.valid hb)
  · intro a ha m hm
    rw [hroots] at hm
    by_cases haop : a = op
    · subst haop
      exact (RootOperations.get_settle_self_iff.mp hm).2
    · rw [RootOperations.get_settle_of_ne h.apart haop] at hm
      exact h.done a (List.not_mem_cons_of_ne_of_not_mem haop ha) m hm

omit hop in
/-- The name of another entry point is there after the renaming when it was there before it and has
not just been given up. -/
theorem canonicalName_mem_keys_iff {a : RootOperation} (ha : a ≠ op) :
    a.canonicalName ∈ (s.renameType n op.canonicalName).types.keys ↔
      a.canonicalName ∈ s.types.keys ∧ a.canonicalName ≠ n := by
  have hne : a.canonicalName ≠ op.canonicalName :=
    fun heq => ha (RootOperation.canonicalName_inj heq)
  rw [keys_renameType h.keyed fun hm => absurd hm hfree, List.mem_map]
  constructor
  · rintro ⟨m, hm, heq⟩
    by_cases hmn : m = n
    · rw [hmn, renamed_old] at heq
      exact absurd heq.symm hne
    · rw [renamed_of_ne hmn] at heq
      exact heq ▸ ⟨hm, hmn⟩
  · rintro ⟨hm, hmn⟩
    exact ⟨_, hm, renamed_of_ne hmn⟩

theorem canonicalFree_renameType_iff :
    (s.renameType n op.canonicalName).CanonicalFree ops ↔ s.CanonicalFree (op :: ops) := by
  have hopOps := (List.nodup_cons.mp h.nodup).1
  have hroots := roots_renameType_eq hop
  have hfirst : s.roots.get op ≠ none → op.canonicalName ∈ s.types.keys →
      ∃ a, s.roots.get a = some op.canonicalName := fun _ htaken => absurd htaken hfree
  rw [CanonicalFree, CanonicalFree, List.forall_mem_cons, and_iff_right hfirst]
  refine forall₂_congr fun b hb => ?_
  have hbop : b ≠ op := ne_of_mem_of_not_mem hb hopOps
  rw [hroots, RootOperations.get_settle_of_ne h.apart hbop,
    h.canonicalName_mem_keys_iff hfree hbop]
  refine forall_congr' fun _ => ?_
  have hne : b.canonicalName ≠ op.canonicalName :=
    fun heq => hbop (RootOperation.canonicalName_inj heq)
  constructor
  · intro hroot hm
    by_cases hbn : b.canonicalName = n
    · exact ⟨op, hbn ▸ hop⟩
    · obtain ⟨a, ha⟩ := hroot ⟨hm, hbn⟩
      have haop : a ≠ op := by
        rintro rfl
        exact hne (RootOperations.get_settle_self_iff.mp ha).2
      exact ⟨a, RootOperations.get_settle_of_ne h.apart haop ▸ ha⟩
  · rintro hroot ⟨hm, hbn⟩
    obtain ⟨a, ha⟩ := hroot hm
    have haop : a ≠ op := by
      rintro rfl
      exact hbn (Option.some.inj (ha.symm.trans hop))
    exact ⟨a, (RootOperations.get_settle_of_ne h.apart haop).trans ha⟩

end Pending

/-! ## All entry points -/

/-- The entry points that are still to come get their canonical names exactly when no ordinary type
has one of the names, and no entry point is called by the name of one before it. -/
theorem Pending.exists_foldlM_normalizeRoot_iff (h : s.Pending ops) :
    (∃ s', ops.foldlM normalizeRoot s = .ok s') ↔
      s.CanonicalFree ops ∧ s.roots.Untaken ops := by
  induction ops generalizing s with
  | nil => exact iff_of_true ⟨s, rfl⟩ ⟨fun _ hop => absurd hop List.not_mem_nil, .nil⟩
  | cons op ops ih =>
    have hopOps := (List.nodup_cons.mp h.nodup).1
    rw [List.foldlM_cons, RootOperations.Untaken, List.pairwise_cons, ← RootOperations.Untaken]
    by_cases hcanonical : ∀ n, s.roots.get op = some n → n = op.canonicalName
    · -- nothing is to be done, and no other entry point has the type
      have huntaken : ∀ b ∈ ops, s.roots.get op ≠ none →
          s.roots.get b ≠ some op.canonicalName := by
        intro b hb hset htaken
        obtain ⟨n, hn⟩ := Option.ne_none_iff_exists'.mp hset
        exact hopOps (h.apart op b n hn (hcanonical n hn ▸ htaken) ▸ hb)
      rw [normalizeRoot_of_canonical hcanonical, Pending.canonicalFree_of_canonical hcanonical,
        and_iff_right huntaken]
      exact ih (h.of_canonical hcanonical)
    · push Not at hcanonical
      obtain ⟨n, hop, hn⟩ := hcanonical
      by_cases htaken : op.canonicalName ∈ s.types.keys
      · refine iff_of_false ?_ ?_
        · rw [normalizeRoot_of_taken h.valid hop hn htaken]
          rintro ⟨s', hs'⟩
          cases hs'
        · rintro ⟨hfree, huntaken, -⟩
          obtain ⟨a, hmem, ha⟩ := h.exists_root_of_taken hop hn hfree htaken
          exact huntaken a hmem (by simp [hop]) ha
      · have huntaken : ∀ b ∈ ops, s.roots.get op ≠ none →
            s.roots.get b ≠ some op.canonicalName :=
          fun b _ _ hb => htaken (mem_keys_of_root h.valid hb)
        rw [normalizeRoot_of_free h.keyed h.valid hop hn htaken, and_iff_right huntaken,
          ← h.canonicalFree_renameType_iff hop htaken,
          ← RootOperations.untaken_settle_iff h.apart hopOps, ← Pending.roots_renameType_eq hop]
        exact ih (h.renameType hop htaken)

/-- What can go wrong is that the canonical name of an entry point is the name of a type. -/
theorem Pending.collision_of_foldlM_normalizeRoot (h : s.Pending ops) {errors : List RewriteError}
    (herrors : ops.foldlM normalizeRoot s = .error errors) :
    ∃ op n, s.roots.get op = some n ∧ n ≠ op.canonicalName ∧
      op.canonicalName ∈ s.types.keys ∧
      errors = [.failed s.name (.renameType n op.canonicalName)
        (.typeExists op.canonicalName)] := by
  induction ops generalizing s with
  | nil => cases herrors
  | cons op ops ih =>
    rw [List.foldlM_cons] at herrors
    by_cases hcanonical : ∀ n, s.roots.get op = some n → n = op.canonicalName
    · rw [normalizeRoot_of_canonical hcanonical] at herrors
      exact ih (h.of_canonical hcanonical) herrors
    · push Not at hcanonical
      obtain ⟨n, hop, hn⟩ := hcanonical
      by_cases htaken : op.canonicalName ∈ s.types.keys
      · rw [normalizeRoot_of_taken h.valid hop hn htaken] at herrors
        cases herrors
        exact ⟨op, n, hop, hn, htaken, rfl⟩
      · rw [normalizeRoot_of_free h.keyed h.valid hop hn htaken] at herrors
        obtain ⟨a, m, ha, hm, hthere, herrors⟩ := ih (h.renameType hop htaken) herrors
        rw [Pending.roots_renameType_eq hop] at ha
        have haop : a ≠ op := by
          rintro rfl
          exact hm (RootOperations.get_settle_self_iff.mp ha).2
        rw [RootOperations.get_settle_of_ne h.apart haop] at ha
        exact ⟨a, m, ha, hm, ((h.canonicalName_mem_keys_iff htaken haop).mp hthere).1,
          herrors⟩

/-- In a schema without violations whose entry points have different types, the types get their
canonical names exactly when no ordinary type has the canonical name of an entry point that is set,
and no entry point is called by the canonical name of one before it. What fails is a renaming to the
name of a type that is there. -/
theorem normalizeRoots_iff (hk : s.TypesKeyed) (hs : s.violations = []) (h : s.roots.Apart) :
    ((∃ s', s.normalizeRoots = .ok s') ↔
      s.CanonicalFree RootOperation.all ∧ s.roots.Untaken RootOperation.all) ∧
    ∀ errors, s.normalizeRoots = .error errors → ∃ op n, s.roots.get op = some n ∧
      n ≠ op.canonicalName ∧ op.canonicalName ∈ s.types.keys ∧
      errors = [.failed s.name (.renameType n op.canonicalName)
        (.typeExists op.canonicalName)] := by
  have hpending : s.Pending RootOperation.all :=
    ⟨hk, hs, h, by decide, fun a ha => absurd (by cases a <;> decide) ha⟩
  exact ⟨hpending.exists_foldlM_normalizeRoot_iff, fun errors herrors =>
    hpending.collision_of_foldlM_normalizeRoot herrors⟩

end Schema

/-- A schema with two entry points that have types of their own. -/
def twoDoors (query mutation : Name) : Schema :=
  let knock : Name := ⟨"knock", by decide⟩
  let door (n : Name) : TypeDefinition :=
    ⟨n, none, [], .object .empty (.ofList [(knock, .ofType knock (.named n))])⟩
  { Schema.empty "house" with
    roots := ⟨some query, some mutation, none⟩
    types := .ofList [(query, door query), (mutation, door mutation)] }

theorem apart_twoDoors {query mutation : Name} (h : query ≠ mutation) :
    (twoDoors query mutation).roots.Apart := by
  intro a b n ha hb
  cases a <;> cases b <;> simp_all [twoDoors, RootOperations.get]

/-- The first entry point gives up the canonical name of the second one in time. -/
theorem normalizeRoots_twoDoors :
    let mutation := RootOperation.mutation.canonicalName
    let porch : Name := ⟨"Porch", by decide⟩
    let s := twoDoors mutation porch
    s.TypesKeyed ∧ s.violations = [] ∧ s.roots.Apart ∧ mutation ∈ s.types.keys ∧
      ∃ s', s.normalizeRoots = .ok s' := by
  intro mutation porch s
  have hk : s.TypesKeyed := by decide
  have hs : s.violations = [] := by decide
  have happart : s.roots.Apart := apart_twoDoors (by decide)
  have hfree : s.CanonicalFree RootOperation.all := by
    intro op _ _ hm
    cases op with
    | query => exact absurd hm (by decide)
    | mutation => exact ⟨.query, rfl⟩
    | subscription => exact absurd hm (by decide)
  have huntaken : s.roots.Untaken RootOperation.all := by
    unfold RootOperations.Untaken
    decide
  exact ⟨hk, hs, happart, by decide,
    (Schema.normalizeRoots_iff hk hs happart).1.mpr ⟨hfree, huntaken⟩⟩

/-- The second entry point is called by the canonical name of the first one, which therefore does
not get it although the name would be given up right after. -/
theorem not_normalizeRoots_twoDoors :
    let query := RootOperation.query.canonicalName
    let attic : Name := ⟨"Attic", by decide⟩
    let s := twoDoors attic query
    s.Keyed ∧ s.violations = [] ∧ s.roots.Apart ∧ s.CanonicalFree RootOperation.all ∧
      ¬ ∃ s', s.normalizeRoots = .ok s' := by
  intro query attic s
  refine ⟨by decide, by decide, apart_twoDoors (by decide), ?_, ?_⟩
  · intro op _ _ hm
    cases op with
    | query => exact ⟨.mutation, rfl⟩
    | mutation => exact absurd hm (by decide)
    | subscription => exact absurd hm (by decide)
  · rintro ⟨s', hs'⟩
    have herror : s.normalizeRoots = .error [.failed s.name (.renameType attic query)
      (.typeExists query)] := by decide
    cases herror.symm.trans hs'

end SchemaWeave
