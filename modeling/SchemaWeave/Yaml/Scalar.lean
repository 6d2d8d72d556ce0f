import SchemaWeave.Text.CodePoint
import SchemaWeave.Yaml.Node
import SchemaWeave.Yaml.Place

/-!
# Scalars in a line of text

A scalar is written plain or between quotes, and may go on over several lines.

## Gaps

Blanks inside a line belong to the scalar. Around a line end they do not: one line end stands
for a space, and of several all but the first count. Between double quotes a line end may be
escaped; then the lines meet without a space.
-/

namespace SchemaWeave.Yaml

/-! ## Gaps -/

/-- Blanks and line ends between two parts of a scalar. -/
inductive Gap where
  | blanks (cs : List Char)
  | folded (more : Nat)
  | escaped (more : Nat)

namespace Gap

def none : Gap := .blanks []

def isNone : Gap → Bool
  | blanks cs => cs.isEmpty
  | folded _ | escaped _ => false

/-- Whether a gap goes over a line end. -/
def isBroken : Gap → Bool
  | blanks _ => false
  | folded _ | escaped _ => true

def addBlank (g : Gap) (c : Char) : Gap :=
  match g with
  | blanks cs => blanks (cs ++ [c])
  | g => g

def addBreak : Gap → Gap
  | blanks _ => folded 0
  | folded n => folded (n + 1)
  | escaped n => escaped (n + 1)

/-- What a gap stands for. -/
def text : Gap → List Char
  | blanks cs => cs
  | folded 0 => [' ']
  | folded (n + 1) => List.replicate (n + 1) '\n'
  | escaped n => List.replicate n '\n'

end Gap

/-! ## Plain scalars -/

/-- Whether a plain scalar is over before a character: at a colon that makes it a key, and at
the marks of a collection when it is inside one. -/
def endsPlain (flow : Bool) (c : Char) (after : List Placed) : Bool :=
  c == ':' && (atGap after || flow && atFlowMark after) || flow && isFlowMark c

/-- The text of a plain scalar, of which a gap has been read. It ends before a comment, at the
end of its document and, outside brackets, before a line that is indented less than `indent`.
No tab may stand within that indentation. -/
def scanPlain (flow : Bool) (indent : Nat) (gap : Gap) :
    (cs : List Placed) → Option (List Char × Left cs)
  | [] => some ([], .all gap.isBroken)
  | c :: cs =>
    if isBlank c.char then
      if c.char == '\t' && gap.isBroken && c.column < indent then none
      else (scanPlain flow indent (gap.addBlank c.char) cs).map fun (t, l) => (t, l.ofTail)
    else if isBreak c.char then
      (scanPlain flow indent gap.addBreak cs).map fun (t, l) => (t, l.ofTail)
    else if endsPlain flow c.char cs
        || !gap.isNone
          && (!flow && c.column < indent || atBoundary (c :: cs) || c.char == '#') then
      some ([], .all gap.isBroken)
    else
      (scanPlain flow indent .none cs).map fun (t, l) => (gap.text ++ c.char :: t, l.ofTail)

/-! ## Quoted scalars -/

/-- A text after its single quote. Two of them stand for one. -/
def scanSingleQuoted (gap : Gap) : (cs : List Placed) → Option (List Char × Left cs)
  | [] => none
  | c :: cs =>
    if isBlank c.char then
      (scanSingleQuoted (gap.addBlank c.char) cs).map fun (t, l) => (t, l.ofTail)
    else if isBreak c.char then
      (scanSingleQuoted gap.addBreak cs).map fun (t, l) => (t, l.ofTail)
    else if atBoundary (c :: cs) then none
    else if c.char == '\'' then
      match cs with
      | [] => some (gap.text, .tail false)
      | d :: cs =>
        if d.char == '\'' then
          (scanSingleQuoted .none cs).map fun (t, l) => (gap.text ++ '\'' :: t, l.ofTail.ofTail)
        else some (gap.text, .tail false)
    else (scanSingleQuoted .none cs).map fun (t, l) => (gap.text ++ c.char :: t, l.ofTail)

/-- The character after a backslash that stands for another one. -/
def simpleEscape? (c : Char) : Option Char :=
  match c with
  | '0' => some '\x00'
  | 'a' => some '\x07'
  | 'b' => some '\x08'
  | 't' | '\t' => some '\t'
  | 'n' => some '\n'
  | 'v' => some '\x0b'
  | 'f' => some '\x0c'
  | 'r' => some '\r'
  | 'e' => some '\x1b'
  | ' ' => some ' '
  | '"' => some '"'
  | '\'' => some '\''
  | '\\' => some '\\'
  | 'N' => some '\u0085'
  | '_' => some '\u00a0'
  | 'L' => some '\u2028'
  | 'P' => some '\u2029'
  | _ => none

/-- The number of hexadecimal digits after a letter that announces a code point. -/
def codeLength? (c : Char) : Option Nat :=
  match c with
  | 'x' => some 2
  | 'u' => some 4
  | 'U' => some 8
  | _ => none

/-- The character that an escape stands for, after its backslash. -/
def scanEscape : (cs : List Placed) → Option (Char × Left cs)
  | [] => none
  | c :: cs =>
    match codeLength? c.char with
    | none => (simpleEscape? c.char).map (·, .tail false)
    | some n =>
      if cs.length < n then none
      else do
        let code ← Text.hexValue? (chars (cs.take n))
        let char ← Text.charOfCode? code
        return (char, (Left.drop n false).ofTail)

/-- Whether a line ends here. -/
def atBreak : List Placed → Bool
  | [] => false
  | c :: _ => isBreak c.char

/-- A text after its double quote. -/
def scanDoubleQuoted (gap : Gap) (cs : List Placed) : Option (List Char × Left cs) :=
  match cs with
  | [] => none
  | c :: cs =>
    if isBlank c.char then
      (scanDoubleQuoted (gap.addBlank c.char) cs).map fun (t, l) => (t, l.ofTail)
    else if isBreak c.char then
      (scanDoubleQuoted gap.addBreak cs).map fun (t, l) => (t, l.ofTail)
    else if atBoundary (c :: cs) then none
    else if c.char == '"' then some (gap.text, .tail false)
    else if c.char == '\\' then
      if atBreak cs then
        (scanDoubleQuoted (.escaped 0) (cs.drop 1)).map fun (t, l) =>
          (gap.text ++ t, ⟨l.rest, l.fresh, by
            have := l.length_le
            simp only [List.length_drop, List.length_cons] at *
            omega⟩)
      else
        match scanEscape cs with
        | none => none
        | some (char, l) =>
          (scanDoubleQuoted .none l.rest).map fun (t, l') =>
            (gap.text ++ char :: t, (l.trans l').ofTail)
    else (scanDoubleQuoted .none cs).map fun (t, l) => (gap.text ++ c.char :: t, l.ofTail)
termination_by cs.length
decreasing_by
  all_goals simp only [List.length_drop, List.length_cons]
  all_goals first | omega | exact Nat.lt_succ_of_le l.length_le

end SchemaWeave.Yaml
