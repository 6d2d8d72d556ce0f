/-!
# Places in a text

What an indented text means depends on the columns in which its parts begin and on which of
them share a line. So the text is read as a list of characters that know their places.

## Termination

A scanner gives what it leaves of the text together with the fact that this is not longer.
-/

namespace SchemaWeave.Yaml

/-! ## Characters with their places -/

/-- A character, how many stand before it, and its line and column. -/
structure Placed where
  char : Char
  index : Nat
  line : Nat
  column : Nat

/-- The characters from a given place on. Two characters that end a line together count as a
line feed; a carriage return alone ends a line but does not lead back to its first column. -/
def placeFrom (index line column : Nat) : List Char → List Placed
  | [] => []
  | '\r' :: '\n' :: cs => ⟨'\n', index, line, column⟩ :: placeFrom (index + 1) (line + 1) 0 cs
  | c :: cs =>
    ⟨c, index, line, column⟩ ::
      if c == '\n' then placeFrom (index + 1) (line + 1) 0 cs
      else placeFrom (index + 1) line (column + 1) cs

/-- The characters of a text. A null character ends it. -/
def place (s : String) : List Placed := placeFrom 0 0 0 (s.toList.takeWhile (· != '\x00'))

/-- The characters without their places. -/
def chars (cs : List Placed) : List Char := cs.map Placed.char

def isBlank (c : Char) : Bool := c == ' ' || c == '\t'

def isBreak (c : Char) : Bool := c == '\n' || c == '\r'

/-- Whether a blank, a line end or nothing comes next. -/
def atGap : List Placed → Bool
  | [] => true
  | c :: _ => isBlank c.char || isBreak c.char

/-- The marks of collections that are written between brackets. -/
def isFlowMark (c : Char) : Bool :=
  c == ',' || c == '[' || c == ']' || c == '\x7b' || c == '\x7d'

def atFlowMark : List Placed → Bool
  | [] => false
  | c :: _ => isFlowMark c.char

/-- Whether a line begins here with a character three times, which is how documents are marked
off from each other. -/
def atDocumentMark (mark : Char) : List Placed → Bool
  | a :: b :: c :: cs =>
    a.column == 0 && a.char == mark && b.char == mark && c.char == mark && atGap cs
  | _ => false

/-- Whether a document begins or ends here. -/
def atBoundary (cs : List Placed) : Bool := atDocumentMark '-' cs || atDocumentMark '.' cs

/-! ## What is left -/

/-- What is left of a text, and whether it is `fresh`, so that a key or an item of a block
sequence may begin there. -/
structure Left (cs : List Placed) where
  rest : List Placed
  fresh : Bool
  length_le : rest.length ≤ cs.length

namespace Left

/-- Nothing is taken. -/
def all {cs : List Placed} (fresh : Bool) : Left cs := ⟨cs, fresh, Nat.le_refl _⟩

/-- One character is taken. -/
def tail {c : Placed} {cs : List Placed} (fresh : Bool) : Left (c :: cs) :=
  ⟨cs, fresh, Nat.le_succ _⟩

/-- A number of characters are taken, or all when there are fewer. -/
def drop (n : Nat) {cs : List Placed} (fresh : Bool) : Left cs :=
  ⟨cs.drop n, fresh, (List.drop_sublist n cs).length_le⟩

/-- What is left of a tail is left of the whole. -/
def ofTail {c : Placed} {cs : List Placed} (l : Left cs) : Left (c :: cs) :=
  ⟨l.rest, l.fresh, Nat.le_succ_of_le l.length_le⟩

/-- What is left of what was left. -/
def trans {cs : List Placed} (l : Left cs) (l' : Left l.rest) : Left cs :=
  ⟨l'.rest, l'.fresh, Nat.le_trans l'.length_le l.length_le⟩

end Left

/-! ## Between the parts of a text -/

/-- Passes blanks, line ends and comments. A new line makes the text fresh, but not between
brackets, where `flow` holds. In fresh text a tab is not passed, because it cannot indent. -/
def skipFrom (flow inComment fresh : Bool) : (cs : List Placed) → Left cs
  | [] => .all fresh
  | c :: cs =>
    if isBreak c.char then (skipFrom flow false (fresh || !flow) cs).ofTail
    else if inComment then (skipFrom flow true fresh cs).ofTail
    else if c.char == ' ' || c.char == '\t' && (flow || !fresh) then
      (skipFrom flow false fresh cs).ofTail
    else if c.char == '#' then (skipFrom flow true fresh cs).ofTail
    else .all fresh

def skip (flow fresh : Bool) (cs : List Placed) : Left cs := skipFrom flow false fresh cs

end SchemaWeave.Yaml
