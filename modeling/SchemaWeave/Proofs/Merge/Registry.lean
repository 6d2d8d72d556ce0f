import Mathlib.Data.List.Induction
import SchemaWeave.Merge.Union

/-!
# Which handler is chosen

Each registration is compared with the best one before it and takes its place only with a greater
priority. So what is chosen for a kind stands after registrations of less priority and before
registrations of at most its own: it has the greatest priority for the kind, and among equals it
was registered first.
-/

namespace SchemaWeave

namespace Registry

variable {r : Registry} {kind : TypeKind} {x : Registration}

/-- Registers handlers one after another. -/
def registerAll (r : Registry) (xs : List Registration) : Registry :=
  xs.foldl (fun r x => r.register x.kind x.priority x.handler) r

theorem registrations_registerAll (r : Registry) (xs : List Registration) :
    (r.registerAll xs).registrations = r.registrations ++ xs := by
  induction xs generalizing r with
  | nil => exact (List.append_nil _).symm
  | cons x xs ih =>
    refine (ih _).trans ?_
    show (r.registrations ++ [x]) ++ xs = _
    rw [List.append_assoc, List.singleton_append]

/-! ## Choice -/

/-- Whether a registration has the greatest priority for a kind, and was registered first among
those that have it. -/
def Chooses (r : Registry) (kind : TypeKind) (x : Registration) : Prop :=
  ∃ before after, r.registrations = before ++ x :: after ∧ x.kind = kind ∧
    (∀ y ∈ before, y.kind = kind → y.priority < x.priority) ∧
    ∀ y ∈ after, y.kind = kind → y.priority ≤ x.priority

theorem Chooses.priority_le (h : r.Chooses kind x) :
    ∀ y ∈ r.registrations, y.kind = kind → y.priority ≤ x.priority := by
  obtain ⟨before, after, hr, -, hbefore, hafter⟩ := h
  rw [hr]
  intro y hy hk
  rcases List.mem_append.mp hy with hy | hy
  · exact Int32.le_of_lt (hbefore y hy hk)
  · rcases List.mem_cons.mp hy with rfl | hy
    · exact Int32.le_refl _
    · exact hafter y hy hk

/-- A registration of no greater priority changes no choice. -/
theorem Chooses.append_of_le {y : Registration} (h : r.Chooses kind x)
    (hy : y.kind = kind → y.priority ≤ x.priority) :
    (⟨r.registrations ++ [y]⟩ : Registry).Chooses kind x := by
  obtain ⟨before, after, hr, hkind, hbefore, hafter⟩ := h
  refine ⟨before, after ++ [y], by simp [hr], hkind, hbefore, fun z hz hk => ?_⟩
  rcases List.mem_append.mp hz with hz | hz
  · exact hafter z hz hk
  · obtain rfl := List.mem_singleton.mp hz
    exact hy hk

/-- A registration of greater priority than all before it is chosen. -/
theorem chooses_append (hkind : x.kind = kind)
    (h : ∀ y ∈ r.registrations, y.kind = kind → y.priority < x.priority) :
    (⟨r.registrations ++ [x]⟩ : Registry).Chooses kind x :=
  ⟨r.registrations, [], rfl, hkind, h, by simp⟩

/-- One more registration counts only for its own kind, where it is compared with the best one
so far. -/
theorem select_append (l : List Registration) (y : Registration) (kind : TypeKind) :
    (⟨l ++ [y]⟩ : Registry).select kind
      = if y.kind = kind then prefer (select ⟨l⟩ kind) y else select ⟨l⟩ kind := by
  unfold select
  rw [List.filter_append, List.foldl_append]
  by_cases h : y.kind = kind <;> simp [h]

/-- What is selected for a kind is chosen, and nothing is selected only where nothing is
registered for the kind. -/
theorem select_spec (r : Registry) (kind : TypeKind) :
    (r.select kind = none ∧ ∀ y ∈ r.registrations, y.kind ≠ kind) ∨
      ∃ x, r.select kind = some x ∧ r.Chooses kind x := by
  obtain ⟨l⟩ := r
  -- from the last registration, which is compared with the choice among those before it
  induction l using List.reverseRecOn with
  | nil => exact Or.inl ⟨rfl, by simp⟩
  | append_singleton l y ih =>
    rw [select_append]
    by_cases hy : y.kind = kind
    · rw [if_pos hy]
      rcases ih with ⟨hnone, hkinds⟩ | ⟨x, hx, hchosen⟩
      · rw [hnone]
        exact Or.inr ⟨y, rfl, chooses_append hy fun z hz hk => absurd hk (hkinds z hz)⟩
      · rw [hx]
        by_cases hlt : x.priority < y.priority
        · refine Or.inr ⟨y, if_pos hlt, chooses_append hy fun z hz hk => ?_⟩
          exact Int32.lt_of_le_of_lt (hchosen.priority_le z hz hk) hlt
        · exact Or.inr ⟨x, if_neg hlt, hchosen.append_of_le fun _ => Int32.not_lt.mp hlt⟩
    · rw [if_neg hy]
      rcases ih with ⟨hnone, hkinds⟩ | ⟨x, hx, hchosen⟩
      · refine Or.inl ⟨hnone, fun z hz => ?_⟩
        rcases List.mem_append.mp hz with hz | hz
        · exact hkinds z hz
        · exact List.mem_singleton.mp hz ▸ hy
      · exact Or.inr ⟨x, hx, hchosen.append_of_le fun hk => absurd hk hy⟩

theorem exists_mem_of_handlerFor {handler : Handler}
    (h : r.handlerFor kind = some handler) : ∃ x ∈ r.registrations, x.handler = handler := by
  obtain ⟨x, hx, rfl⟩ := Option.map_eq_some_iff.mp h
  rcases select_spec r kind with ⟨hnone, -⟩ | ⟨y, hy, before, after, hr, -⟩
  · rw [hnone] at hx
    cases hx
  · rw [hx] at hy
    cases hy
    exact ⟨x, by simp [hr], rfl⟩

/-! ## The built-in handlers -/

theorem priority_of_mem_builtIn : ∀ x ∈ builtIn.registrations, x.priority = leastPriority := by
  simp [builtIn]

/-- Where the built-in handlers are registered, there is a choice for every kind. -/
theorem exists_select_registerAll (xs : List Registration) (kind : TypeKind) :
    ∃ x, (builtIn.registerAll xs).select kind = some x ∧
      (builtIn.registerAll xs).Chooses kind x := by
  have hkind : ∃ x ∈ builtIn.registrations, x.kind = kind := by
    cases kind <;> simp [builtIn]
  rcases select_spec (builtIn.registerAll xs) kind with ⟨-, hkinds⟩ | h
  · obtain ⟨x, hx, hk⟩ := hkind
    rw [registrations_registerAll] at hkinds
    exact absurd hk (hkinds x (List.mem_append_left _ hx))
  · exact h

end Registry

end SchemaWeave
