import Mathlib.Data.List.Forall2
import SchemaWeave.Collect

/-!
# Results of stages

When a stage succeeds, so did every part of it: what a chain of steps gives comes from results
of the steps, and a list of collected results has one for each thing the stage worked on.
-/

namespace SchemaWeave

variable {ε ε' α β : Type}

theorem bind_eq_ok_iff {x : Except ε α} {f : α → Except ε β} {b : β} :
    (x >>= f) = .ok b ↔ ∃ a, x = .ok a ∧ f a = .ok b := by
  cases x with
  | error e => simp [bind, Except.bind]
  | ok a => simp [bind, Except.bind]

theorem mapError_eq_ok_iff {x : Except ε α} {f : ε → ε'} {a : α} :
    x.mapError f = .ok a ↔ x = .ok a := by
  cases x <;> simp [Except.mapError]

theorem map_eq_ok_iff {x : Except ε α} {f : α → β} {b : β} :
    x.map f = .ok b ↔ ∃ a, x = .ok a ∧ f a = b := by
  cases x <;> simp [Except.map]

theorem bind_eq_error_iff {x : Except ε α} {f : α → Except ε β} {e : ε} :
    (x >>= f) = .error e ↔ x = .error e ∨ ∃ a, x = .ok a ∧ f a = .error e := by
  cases x with
  | error e => simp [bind, Except.bind]
  | ok a => simp [bind, Except.bind]

theorem mapError_eq_error_iff {x : Except ε α} {f : ε → ε'} {e : ε'} :
    x.mapError f = .error e ↔ ∃ e', x = .error e' ∧ f e' = e := by
  cases x <;> simp [Except.mapError]

theorem map_eq_error_iff {x : Except ε α} {f : α → β} {e : ε} :
    f <$> x = .error e ↔ x = .error e := by
  cases x <;> simp [Functor.map, Except.map]

/-- Where all things of a list have results, the results are paired with the things. -/
theorem forall₂_of_mapM_eq_ok {f : α → Except ε β} {as : List α} {bs : List β}
    (h : as.mapM f = .ok bs) : List.Forall₂ (fun a b => f a = .ok b) as bs := by
  induction as generalizing bs with
  | nil =>
    cases h
    exact .nil
  | cons a as ih =>
    rw [List.mapM_cons] at h
    obtain ⟨b, hb, h⟩ := bind_eq_ok_iff.mp h
    obtain ⟨bs', hbs, h⟩ := bind_eq_ok_iff.mp h
    cases h
    exact .cons hb (ih hbs)

/-! ## One result under a condition -/

/-- Whether a stage gives one result exactly under a condition, and fails otherwise. -/
def GivesWhen (x : Except ε α) (p : Prop) (a : α) : Prop := ∀ a', x = .ok a' ↔ p ∧ a' = a

theorem givesWhen_ok (a : α) : GivesWhen (.ok a : Except ε α) True a := by
  intro a'
  simp [eq_comm]

theorem givesWhen_error {p : Prop} (hp : ¬ p) (e : ε) (a : α) : GivesWhen (.error e) p a :=
  fun _ => iff_of_false (by simp) fun h => hp h.1

theorem GivesWhen.of_iff {x : Except ε α} {p q : Prop} {a : α} (h : GivesWhen x p a)
    (hpq : p ↔ q) : GivesWhen x q a :=
  fun a' => (h a').trans (and_congr_left' hpq)

/-- A chain gives the result of its second step under the conditions of both. -/
theorem GivesWhen.bind {x : Except ε α} {f : α → Except ε β} {p q : Prop} {a : α} {b : β}
    (hx : GivesWhen x p a) (hf : GivesWhen (f a) q b) : GivesWhen (x >>= f) (p ∧ q) b := by
  intro b'
  rw [bind_eq_ok_iff]
  constructor
  · rintro ⟨a', ha, hb⟩
    obtain ⟨hp, rfl⟩ := (hx a').mp ha
    obtain ⟨hq, rfl⟩ := (hf b').mp hb
    exact ⟨⟨hp, hq⟩, rfl⟩
  · rintro ⟨⟨hp, hq⟩, rfl⟩
    exact ⟨a, (hx a).mpr ⟨hp, rfl⟩, (hf _).mpr ⟨hq, rfl⟩⟩

/-- A first step that cannot fail adds no condition. -/
theorem GivesWhen.of_ok {x : Except ε α} {f : α → Except ε β} {q : Prop} {a : α} {b : β}
    (hx : x = .ok a) (hf : GivesWhen (f a) q b) : GivesWhen (x >>= f) q b := by
  rw [hx]
  exact hf

/-- A second step that cannot fail adds no condition. -/
theorem GivesWhen.bind_ok {x : Except ε α} {f : α → Except ε β} {p : Prop} {a : α} {b : β}
    (hx : GivesWhen x p a) (hf : f a = .ok b) : GivesWhen (x >>= f) p b :=
  (hx.bind (q := True) (hf ▸ givesWhen_ok b)).of_iff (and_iff_left trivial)

/-- Steps that each give back what a list holds give back the list. -/
theorem GivesWhen.mapM {node : β → α} {f : α → Except ε β} {p : β → Prop} {bs : List β}
    (h : ∀ b ∈ bs, GivesWhen (f (node b)) (p b) b) :
    GivesWhen ((bs.map node).mapM f) (∀ b ∈ bs, p b) bs := by
  induction bs with
  | nil => exact (givesWhen_ok []).of_iff (by simp)
  | cons b bs ih =>
    have hrest := ih fun c hc => h c (List.mem_cons_of_mem b hc)
    rw [List.map_cons, List.mapM_cons]
    refine .of_iff (.bind (h b List.mem_cons_self) (.bind_ok hrest rfl)) ?_
    rw [List.forall_mem_cons]

/-! ## Lists of results -/

theorem errorsOf_eq_nil_iff {rs : List (Except ε α)} :
    errorsOf rs = [] ↔ rs = (successesOf rs).map .ok := by
  induction rs with
  | nil => simp [errorsOf, successesOf]
  | cons r rs ih =>
    cases r with
    | ok a => simp [errorsOf, successesOf, ih]
    | error e =>
      refine iff_of_false (by simp [errorsOf]) fun h => ?_
      have hm : .error e ∈ (successesOf rs).map (.ok : α → Except ε α) := by
        rw [show (successesOf rs).map .ok = .error e :: rs from h.symm]
        exact List.mem_cons_self
      simp at hm

theorem mem_errorsOf {rs : List (Except ε α)} {e : ε} : e ∈ errorsOf rs ↔ .error e ∈ rs := by
  induction rs with
  | nil => simp [errorsOf]
  | cons r rs ih => cases r <;> simp [errorsOf, ih]

theorem successesOf_map_ok (as : List α) :
    successesOf (as.map (.ok : α → Except ε α)) = as := by
  induction as with
  | nil => rfl
  | cons a as ih => simp [successesOf, ih]

theorem collectResults_eq_ok_iff {rs : List (Except ε α)} {as : List α} :
    collectResults rs = .ok as ↔ rs = as.map .ok := by
  unfold collectResults
  constructor
  · intro h
    split at h
    · next he =>
      cases h
      exact errorsOf_eq_nil_iff.mp (List.isEmpty_iff.mp he)
    · cases h
  · rintro rfl
    rw [errorsOf_eq_nil_iff.mpr (by rw [successesOf_map_ok]), successesOf_map_ok]
    rfl

theorem collectResults_eq_error_iff {rs : List (Except ε α)} {es : List ε} :
    collectResults rs = .error es ↔ errorsOf rs = es ∧ es ≠ [] := by
  unfold collectResults
  split
  · next hnone =>
    rw [List.isEmpty_iff] at hnone
    exact iff_of_false nofun fun h => h.2 (h.1 ▸ hnone)
  · next hsome =>
    rw [List.isEmpty_iff] at hsome
    rw [Except.error.injEq]
    exact ⟨fun h => ⟨h, h ▸ hsome⟩, And.left⟩

theorem collectAll_eq_ok_iff {rs : List (Except (List ε) α)} {as : List α} :
    collectAll rs = .ok as ↔ rs = as.map .ok := by
  unfold collectAll
  constructor
  · intro h
    split at h
    · next he =>
      cases h
      exact errorsOf_eq_nil_iff.mp (List.isEmpty_iff.mp he)
    · cases h
  · rintro rfl
    rw [errorsOf_eq_nil_iff.mpr (by rw [successesOf_map_ok]), successesOf_map_ok]
    rfl

/-- Where all things of a list have results, the results are paired with the things. -/
theorem forall₂_of_map_eq {f : α → Except ε β} {as : List α} {bs : List β}
    (h : as.map f = bs.map .ok) : List.Forall₂ (fun a b => f a = .ok b) as bs := by
  rwa [← List.forall₂_eq_eq_eq, List.forall₂_map_left_iff, List.forall₂_map_right_iff] at h

/-- What every pair preserves, paired lists preserve. -/
theorem forall_of_forall₂ {R : α → β → Prop} {P : α → Prop} {Q : β → Prop} {as : List α}
    {bs : List β} (h : List.Forall₂ R as bs) (hP : ∀ a ∈ as, P a)
    (hR : ∀ a b, R a b → P a → Q b) : ∀ b ∈ bs, Q b := by
  induction h with
  | nil => intro b hb; cases hb
  | cons hab _ ih =>
    intro b hb
    rcases List.mem_cons.mp hb with rfl | hb
    · exact hR _ _ hab (hP _ (by simp))
    · exact ih (fun a ha => hP a (by simp [ha])) b hb

/-- What each result of a list of steps has, all of them have. -/
theorem forall_of_mapM_eq_ok {f : α → Except ε β} {Q : β → Prop} {as : List α}
    {bs : List β} (h : as.mapM f = .ok bs) (hQ : ∀ a b, f a = .ok b → Q b) : ∀ b ∈ bs, Q b :=
  forall_of_forall₂ (forall₂_of_mapM_eq_ok h) (fun _ _ => trivial) fun a b hab _ => hQ a b hab

/-- Where a pair has more exactly under a condition on its first part, all pairs have more exactly
under that condition on all first parts. -/
theorem forall₂_and_iff {R Q : α → β → Prop} {P : α → Prop} {as : List α} {bs : List β}
    (h : List.Forall₂ R as bs) (hQ : ∀ a b, R a b → (Q a b ↔ P a)) :
    List.Forall₂ (fun a b => R a b ∧ Q a b) as bs ↔ ∀ a ∈ as, P a := by
  induction h with
  | nil => simp
  | cons hab _ ih => rw [List.forall₂_cons, List.forall_mem_cons, ih, hQ _ _ hab, and_iff_right hab]

/-- Paired lists whose pairs have one image each have the same images. -/
theorem map_eq_map_of_forall₂ {γ : Type} {R : α → β → Prop} {f : α → γ} {g : β → γ}
    {as : List α} {bs : List β} (h : List.Forall₂ R as bs) (hR : ∀ a b, R a b → g b = f a) :
    bs.map g = as.map f := by
  induction h with
  | nil => rfl
  | cons hab _ ih => rw [List.map_cons, List.map_cons, hR _ _ hab, ih]

end SchemaWeave
