import SchemaWeave.Text.Rest

/-!
# What scanners take

A scanner returns what is left of a text together with a fact about its length. `Takes` says what
it returns without that fact.
-/

namespace SchemaWeave.Text

variable {α : Type} {cs : List Char} {x : Option (α × Rest cs)} {a : α} {rest : List Char}

/-- Whether a reader takes a thing from the front of a text and leaves the rest. -/
def Takes (x : Option (α × Rest cs)) (a : α) (rest : List Char) : Prop :=
  x.map (fun p => (p.1, p.2.1)) = some (a, rest)

theorem Takes.exists (h : Takes x a rest) : ∃ hr, x = some (a, ⟨rest, hr⟩) := by
  obtain ⟨⟨a', r⟩, hx, heq⟩ := Option.map_eq_some_iff.mp h
  cases heq
  exact ⟨r.2, hx⟩

theorem Takes.of_eq_some {r : Rest cs} (h : x = some (a, r)) : Takes x a r.1 := by
  rw [Takes, h]
  rfl

theorem Takes.length_le (h : Takes x a rest) : rest.length ≤ cs.length := h.exists.1

theorem not_takes_none : ¬ Takes (none : Option (α × Rest cs)) a rest := fun h => by cases h

/-- A thing that is made of what was taken, and the same rest counted from further in front. -/
theorem takes_map_iff {β : Type} {cs' : List Char} {f : α → β} {k : Rest cs → Rest cs'} {b : β}
    (hk : ∀ r, (k r).1 = r.1) :
    Takes (x.map fun p => (f p.1, k p.2)) b rest ↔ ∃ a, Takes x a rest ∧ f a = b := by
  cases x with
  | none => simp [Takes]
  | some p =>
    simp only [Takes, Option.map_some, hk, Option.some.injEq, Prod.mk.injEq]
    constructor
    · rintro ⟨rfl, rfl⟩
      exact ⟨p.1, ⟨rfl, rfl⟩, rfl⟩
    · rintro ⟨_, ⟨rfl, rfl⟩, rfl⟩
      exact ⟨rfl, rfl⟩

end SchemaWeave.Text
