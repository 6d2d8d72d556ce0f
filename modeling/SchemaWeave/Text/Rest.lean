/-!
# What is left of a text

A scanner takes characters, or a reader takes tokens, from the front of a list and returns what
is left, together with the fact that it is not longer than what there was. That fact is what
makes loops of scanners end.
-/

namespace SchemaWeave.Text

/-- What is left to scan, not longer than what there was. -/
abbrev Rest {α : Type} (cs : List α) := { rest : List α // rest.length ≤ cs.length }

namespace Rest

variable {α : Type}

/-- Nothing is taken. -/
def all (cs : List α) : Rest cs := ⟨cs, Nat.le_refl _⟩

/-- One element is taken. -/
def tail (c : α) (cs : List α) : Rest (c :: cs) := ⟨cs, Nat.le_succ _⟩

/-- What is left of a tail is left of the whole. -/
def ofTail {c : α} {cs : List α} (r : Rest cs) : Rest (c :: cs) :=
  ⟨r.1, Nat.le_succ_of_le r.2⟩

/-- What is left of what was left. -/
def trans {cs : List α} (r : Rest cs) (r' : Rest r.1) : Rest cs :=
  ⟨r'.1, Nat.le_trans r'.2 r.2⟩

/-- The elements up to the first that fails the test, and what follows them. -/
def span (p : α → Bool) : (cs : List α) → List α × Rest cs
  | [] => ([], .all [])
  | c :: cs =>
    if p c then
      let (taken, rest) := span p cs
      (c :: taken, rest.ofTail)
    else ([], .all (c :: cs))

theorem span_fst (p : α → Bool) (cs : List α) : (span p cs).1 = cs.takeWhile p := by
  induction cs with
  | nil => rfl
  | cons c cs ih => by_cases h : p c <;> simp [span, h, ih]

theorem span_snd (p : α → Bool) (cs : List α) : (span p cs).2.1 = cs.dropWhile p := by
  induction cs with
  | nil => rfl
  | cons c cs ih => by_cases h : p c <;> simp [span, h, ih, all, ofTail]

end Rest

end SchemaWeave.Text
