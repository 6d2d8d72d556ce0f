/-!
# Names

A name is a letter or an underscore followed by letters, digits and underscores, all of them
ASCII. Types, fields, arguments, enum values and directives are named so; schemas are not, any
text names a schema.
-/

namespace SchemaWeave

namespace Name

/-- A character that may open a name. -/
def isStart (c : Char) : Bool := c.isAlpha || c == '_'

/-- A character that may stand inside a name. -/
def isInner (c : Char) : Bool := c.isAlphanum || c == '_'

/-- Whether the characters spell a name. -/
def isSpelling : List Char → Bool
  | [] => false
  | c :: cs => isStart c && cs.all isInner

end Name

/-- A text that is spelled as a name. -/
structure Name where
  text : String
  spelled : Name.isSpelling text.toList = true

namespace Name

@[ext]
theorem ext {m n : Name} (h : m.text = n.text) : m = n := by
  cases m; cases n; cases h; rfl

instance : DecidableEq Name := fun m n =>
  decidable_of_iff (m.text = n.text) ⟨ext, fun h => h ▸ rfl⟩

instance : ToString Name := ⟨Name.text⟩

/-- The name that a text spells, if it spells one. -/
def ofText? (s : String) : Option Name :=
  if h : isSpelling s.toList = true then some ⟨s, h⟩ else none

theorem ofText?_text (n : Name) : ofText? n.text = some n := by
  simp [ofText?, n.spelled]

theorem ofText?_eq_some {s : String} {n : Name} (h : ofText? s = some n) : n.text = s := by
  unfold ofText? at h
  split at h
  · cases h; rfl
  · cases h

end Name

end SchemaWeave
