import Mathlib.Data.List.Perm.Subperm
import SchemaWeave.Proofs.Merge.Gathering

/-!
# Agreement on fields

Definitions are compared with the first one that has a field. What is compared is the shape of
the field, so that agreement with the first is agreement of any two: a field is contested when two
definitions give it different shapes, whichever they are. A walk reports the contested fields and
no others.
-/

namespace SchemaWeave

/-! ## Shapes -/

/-- Whether two tables list the same keys and agree under each of them in what is read from the
entries. -/
theorem Table.size_eq_and_all_iff {κ α β : Type} [DecidableEq κ] [DecidableEq β] {s t : Table κ α}
    (read : α → β) :
    (s.size = t.size ∧ ∀ e ∈ s.entries, (t.get? e.1).any fun a => read a = read e.2) ↔
      ∀ k, (s.get? k).map read = (t.get? k).map read := by
  have hlength (t : Table κ α) : t.size = t.keys.length := (List.length_map _).symm
  constructor
  · rintro ⟨hsize, hentries⟩
    have hget {k : κ} {a : α} (ha : s.get? k = some a) :
        ∃ b, t.get? k = some b ∧ read b = read a := by
      obtain ⟨b, hb, hr⟩ := (Option.any_eq_true _ _).mp (hentries (k, a) (get?_eq_some_iff.mp ha))
      exact ⟨b, hb, of_decide_eq_true hr⟩
    have hsub : s.keys ⊆ t.keys := by
      intro k hk
      obtain ⟨a, ha⟩ := exists_get?_of_mem_keys hk
      obtain ⟨b, hb, -⟩ := hget ha
      exact mem_keys_of_get? hb
    -- no key occurs twice, so there is no room for further keys
    have hperm : s.keys.Perm t.keys := by
      refine (s.keys_nodup.subperm hsub).perm_of_length_le ?_
      rw [← hlength, ← hlength]
      exact Nat.le_of_eq hsize.symm
    intro k
    cases hs : s.get? k with
    | some a =>
      obtain ⟨b, hb, hr⟩ := hget hs
      rw [hb, Option.map_some, Option.map_some, hr]
    | none =>
      rw [get?_eq_none_iff.mpr fun hk => get?_eq_none_iff.mp hs (hperm.mem_iff.mpr hk)]
  · intro h
    have hkeys (k : κ) : k ∈ s.keys ↔ k ∈ t.keys := by
      rw [← contains_iff, ← contains_iff, contains, contains, ← Option.isSome_map, h,
        Option.isSome_map]
    refine ⟨?_, fun e he => ?_⟩
    · rw [hlength, hlength]
      exact ((List.perm_ext_iff_of_nodup s.keys_nodup t.keys_nodup).mpr hkeys).length_eq
    · have hmap := h e.1
      rw [get?_eq_some_iff.mpr he] at hmap
      obtain ⟨b, hb, hr⟩ := Option.map_eq_some_iff.mp hmap.symm
      rw [hb]
      exact decide_eq_true hr

/-- What definitions of a field have to agree on. -/
inductive FieldShape where
  | output (name : Name) (type : TypeRef) (arguments : Name → Option TypeRef)
  | input (type : TypeRef)

/-- A field's name, its type and the types of its arguments. -/
def Field.shape (f : Field) : FieldShape :=
  .output f.name f.type fun n => (f.arguments.get? n).map InputValue.type

/-- Two fields have the same signature when they have the same shape. -/
theorem Field.sameSignature_iff {f g : Field} : f.sameSignature g = true ↔ f.shape = g.shape := by
  have harguments := Table.size_eq_and_all_iff (s := f.arguments) (t := g.arguments) InputValue.type
  unfold sameSignature shape
  rw [Bool.and_eq_true, Bool.and_eq_true, Bool.and_eq_true, List.all_eq_true, decide_eq_true_iff,
    decide_eq_true_iff, decide_eq_true_iff, and_assoc, harguments, FieldShape.output.injEq,
    funext_iff, and_assoc]

namespace TypeBody

/-- The shape of a field, of whichever sort. -/
def shape? (b : TypeBody) (n : Name) : Option FieldShape :=
  ((b.field? n).map Field.shape).or ((b.inputField? n).map fun v => .input v.type)

theorem shape?_of_field? {b : TypeBody} {n : Name} {f : Field} (h : b.field? n = some f) :
    b.shape? n = some f.shape := by
  rw [shape?, h, Option.map_some, Option.some_or]

theorem shape?_of_inputField? {b : TypeBody} {n : Name} {v : InputValue}
    (h : b.inputField? n = some v) : b.shape? n = some (.input v.type) := by
  cases b with
  | inputObject fields =>
    rw [shape?, h]
    rfl
  | _ => cases h

/-- Whether two of several bodies give a field different shapes. -/
def Contested (bs : List TypeBody) (n : Name) : Prop :=
  ∃ x y, x ≠ y ∧ (∃ b ∈ bs, b.shape? n = some x) ∧ ∃ b ∈ bs, b.shape? n = some y

theorem hasField_eq {b : TypeBody} {n : Name} : b.hasField n = (b.shape? n).isSome := by
  cases b <;> simp [hasField, shape?, Table.contains]

theorem signatureOf_isSome {b : TypeBody} {n : Name} : (b.signatureOf n).isSome = b.hasField n := by
  cases b <;> simp [hasField, signatureOf, Table.contains]

end TypeBody

/-! ## A step -/

/-- The names under which a union of two tables finds a difference. -/
theorem mem_uniteEntries_differing {α : Type} {same : α → α → Bool} {t added : Table Name α}
    {n : Name} :
    n ∈ (uniteEntries same t added.entries).2 ↔
      ∃ b a, t.get? n = some b ∧ added.get? n = some a ∧ same b a = false := by
  obtain ⟨l, hl⟩ := added
  simp only [Table.get?_eq_some_iff (t := ⟨l, hl⟩)]
  induction l generalizing t with
  | nil => simp [uniteEntries]
  | cons e l ih =>
    obtain ⟨k, a⟩ := e
    obtain ⟨hk, hl⟩ := List.nodup_cons.mp hl
    -- an entry that comes later is stored under another name
    have hne {a' : α} (h : (n, a') ∈ l) : n ≠ k := by
      rintro rfl
      exact hk (List.mem_map.mpr ⟨(n, a'), h, rfl⟩)
    rw [uniteEntries]
    split
    · next hget =>
      rw [ih hl]
      refine exists₂_congr fun b a' => ?_
      rw [List.mem_cons, Table.get?_insert]
      constructor
      · rintro ⟨hb, ha', hs⟩
        rw [if_neg (hne ha')] at hb
        exact ⟨hb, Or.inr ha', hs⟩
      · rintro ⟨hb, heq | ha', hs⟩
        · cases heq
          rw [hget] at hb
          cases hb
        · exact ⟨by rwa [if_neg (hne ha')], ha', hs⟩
    · next b hget =>
      have htail : n ∈ (uniteEntries same t l).2 ↔
          ∃ b a, t.get? n = some b ∧ (n, a) ∈ l ∧ same b a = false := ih hl
      show n ∈ (if same b a = true then (uniteEntries same t l).2
        else k :: (uniteEntries same t l).2) ↔ _
      constructor
      · intro h
        by_cases hs : same b a = true
        · rw [if_pos hs, htail] at h
          obtain ⟨b', a', hb', ha', hs'⟩ := h
          exact ⟨b', a', hb', List.mem_cons_of_mem _ ha', hs'⟩
        · rw [if_neg hs, List.mem_cons, htail] at h
          rcases h with rfl | ⟨b', a', hb', ha', hs'⟩
          · exact ⟨b, a, hget, List.mem_cons_self, Bool.eq_false_iff.mpr hs⟩
          · exact ⟨b', a', hb', List.mem_cons_of_mem _ ha', hs'⟩
      · rintro ⟨b', a', hb', ha', hs'⟩
        rcases List.mem_cons.mp ha' with heq | ha'
        · cases heq
          rw [hget] at hb'
          cases hb'
          rw [hs', if_neg Bool.false_ne_true]
          exact List.mem_cons_self
        · have hmem := htail.mpr ⟨b', a', hb', ha', hs'⟩
          split
          · exact hmem
          · exact List.mem_cons_of_mem _ hmem

namespace TypeBody

variable {b c r : TypeBody} {differing : List Name} {n : Name}

theorem unite?_shape? (h : b.unite? c = some (r, differing)) (n : Name) :
    r.shape? n = (b.shape? n).or (c.shape? n) := by
  unfold unite? at h
  split at h
  · cases h
    simp [shape?, get?_uniteEntries_entries, Option.map_or]
  · cases h
    simp [shape?, get?_uniteEntries_entries, Option.map_or]
  · cases h
    simp [shape?, get?_uniteEntries_entries, Option.map_or]
  · cases h

/-- A step reports the fields to which the two bodies give different shapes. -/
theorem mem_unite?_differing (h : b.unite? c = some (r, differing)) :
    n ∈ differing ↔ ∃ x y, x ≠ y ∧ b.shape? n = some x ∧ c.shape? n = some y := by
  have htables {α : Type} {same : α → α → Bool} {read : α → FieldShape}
      (hsame : ∀ a b, same a b = true ↔ read a = read b) {t added : Table Name α} :
      n ∈ (uniteEntries same t added.entries).2 ↔
        ∃ x y, x ≠ y ∧ (t.get? n).map read = some x ∧ (added.get? n).map read = some y := by
    rw [mem_uniteEntries_differing]
    constructor
    · rintro ⟨b, a, hb, ha, hs⟩
      refine ⟨read b, read a, fun heq => ?_, by rw [hb]; rfl, by rw [ha]; rfl⟩
      rw [(hsame b a).mpr heq] at hs
      cases hs
    · rintro ⟨x, y, hxy, hx, hy⟩
      obtain ⟨b, hb, rfl⟩ := Option.map_eq_some_iff.mp hx
      obtain ⟨a, ha, rfl⟩ := Option.map_eq_some_iff.mp hy
      exact ⟨b, a, hb, ha, Bool.eq_false_iff.mpr fun hs => hxy ((hsame b a).mp hs)⟩
  have hfield (f g : Field) : f.sameSignature g = true ↔ f.shape = g.shape :=
    Field.sameSignature_iff
  have hinput (v w : InputValue) :
      decide (v.type = w.type) = true ↔ FieldShape.input v.type = FieldShape.input w.type := by
    rw [decide_eq_true_iff, FieldShape.input.injEq]
  unfold unite? at h
  split at h
  · cases h
    simpa [shape?] using htables hfield
  · cases h
    simpa [shape?] using htables hfield
  · cases h
    simpa [shape?] using htables hinput
  · cases h

/-! ## A walk -/

theorem not_contested_singleton (b : TypeBody) (n : Name) : ¬ Contested [b] n := by
  rintro ⟨x, y, hxy, ⟨c, hc, hx⟩, e, he, hy⟩
  rw [List.mem_singleton.mp hc] at hx
  rw [List.mem_singleton.mp he, hx] at hy
  exact hxy (Option.some.inj hy)

/-- A step finds the fields that its two bodies contest, and nothing that others contest gets
lost by it. -/
theorem contested_cons_iff {bs : List TypeBody} (h : b.unite? c = some (r, differing)) :
    Contested (b :: c :: bs) n ↔ n ∈ differing ∨ Contested (r :: bs) n := by
  rw [mem_unite?_differing h]
  constructor
  · rintro ⟨x, y, hxy, hx, hy⟩
    by_cases hdiff : ∃ x y, x ≠ y ∧ b.shape? n = some x ∧ c.shape? n = some y
    · exact Or.inl hdiff
    · -- where the two agree, the union has the shape that either has
      have hshape {z : FieldShape} (hz : ∃ e ∈ b :: c :: bs, e.shape? n = some z) :
          ∃ e ∈ r :: bs, e.shape? n = some z := by
        obtain ⟨e, he, hz⟩ := hz
        rcases List.mem_cons.mp he with rfl | he
        · exact ⟨r, by simp, by rw [unite?_shape? h, hz, Option.some_or]⟩
        · rcases List.mem_cons.mp he with rfl | he
          · refine ⟨r, by simp, ?_⟩
            rw [unite?_shape? h]
            cases hb : b.shape? n with
            | none => exact hz
            | some w =>
              rw [Option.some_or, ← hz]
              by_contra hne
              exact hdiff ⟨w, z, fun hwz => hne (by rw [hwz, hz]), hb, hz⟩
          · exact ⟨e, by simp [he], hz⟩
      exact Or.inr ⟨x, y, hxy, hshape hx, hshape hy⟩
  · rintro (⟨x, y, hxy, hx, hy⟩ | ⟨x, y, hxy, hx, hy⟩)
    · exact ⟨x, y, hxy, ⟨b, by simp, hx⟩, c, by simp, hy⟩
    · have hshape {z : FieldShape} (hz : ∃ e ∈ r :: bs, e.shape? n = some z) :
          ∃ e ∈ b :: c :: bs, e.shape? n = some z := by
        obtain ⟨e, he, hz⟩ := hz
        rcases List.mem_cons.mp he with rfl | he
        · rw [unite?_shape? h, Option.or_eq_some_iff] at hz
          rcases hz with hz | ⟨-, hz⟩
          · exact ⟨b, by simp, hz⟩
          · exact ⟨c, by simp, hz⟩
        · exact ⟨e, by simp [he], hz⟩
      exact ⟨x, y, hxy, hshape hx, hshape hy⟩

/-- Types without fields contest none. -/
theorem not_contested_of_not_hasFields {bs : List TypeBody} (h : ∀ b ∈ bs, ¬ b.kind.HasFields) :
    ¬ Contested bs n := by
  rintro ⟨x, y, -, ⟨b, hb, hx⟩, -⟩
  cases b with
  | object is fields => exact h _ hb (Or.inl rfl)
  | interface is fields => exact h _ hb (Or.inr (Or.inl rfl))
  | inputObject fields => exact h _ hb (Or.inr (Or.inr rfl))
  | _ => cases hx

end TypeBody

end SchemaWeave
