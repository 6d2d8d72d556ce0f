/-!
# Nodes

What a YAML text describes: scalars, sequences and mappings. The key of a mapping is a scalar,
of which only the text counts. The entries keep their order and repeated keys.

## Scalars

A scalar is a text. Whether it was written plain, that is, without quotes and not as a block of
lines, decides whether a word may stand for the absence of a value.
-/

namespace SchemaWeave.Yaml

structure Scalar where
  text : String
  plain : Bool
deriving DecidableEq

inductive Node where
  | scalar (s : Scalar)
  | sequence (items : List Node)
  | mapping (entries : List (String × Node))

/-- The words for no value. -/
def absentWords : List String := ["~", "null"]

/-- Whether a scalar stands for no value. -/
def Scalar.isAbsent (s : Scalar) : Bool := s.plain && absentWords.contains s.text

/-- The node where nothing is written. -/
def Node.absent : Node := .scalar ⟨"~", true⟩

end SchemaWeave.Yaml
