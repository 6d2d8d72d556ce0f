import SchemaWeave.Yaml.Node
import SchemaWeave.Yaml.Place

/-!
# Scalars that are blocks of lines

A bar or a greater-than sign begins a scalar that is written on the lines below, indented.
After a bar line ends are kept; after a greater-than sign a line end between two lines that do
not begin with a blank is folded, as it is in other scalars.

## Header

The sign may be followed by a digit, which says how much further the block is indented than
what is around it, and by a plus or a minus, which says what becomes of the line ends after the
last line: all are kept, or none. Without it one is kept.

## Indentation

Without a digit the block is indented as far as its first line, but at least further than what
is around it. The first line that does not begin in that column ends the block.
-/

namespace SchemaWeave.Yaml

/-! ## Text -/

/-- What becomes of the line ends after the last line. -/
inductive Chomping where
  | strip
  | clip
  | keep
deriving DecidableEq

/-- A line with the number of line ends up to the next one. Only the last line of a text may
have none. -/
structure BlockLine where
  text : List Char
  breaks : Nat

def BlockLine.startsBlank (l : BlockLine) : Bool := (l.text.head?.map isBlank).getD false

def lineFeeds (n : Nat) : List Char := List.replicate n '\n'

/-- What stands between two lines. -/
def between (folding : Bool) (l next : BlockLine) : List Char :=
  if folding && !l.startsBlank && !next.startsBlank then
    if l.breaks == 1 then [' '] else lineFeeds (l.breaks - 1)
  else lineFeeds l.breaks

/-- The lines with what stands between them and at their end. -/
def joinBlockLines (folding : Bool) (chomping : Chomping) : List BlockLine → List Char
  | [] => []
  | [l] =>
    l.text ++ match chomping with
      | .strip => []
      | .clip => lineFeeds (min l.breaks 1)
      | .keep => lineFeeds l.breaks
  | l :: next :: ls =>
    l.text ++ between folding l next ++ joinBlockLines folding chomping (next :: ls)

/-- The text of a block with the number of line ends before its first line. -/
def blockText (folding : Bool) (chomping : Chomping) (before : Nat) (ls : List BlockLine) :
    List Char :=
  if ls.isEmpty then if chomping == .keep then lineFeeds before else []
  else lineFeeds before ++ joinBlockLines folding chomping ls

/-! ## Header -/

structure BlockHeader where
  chomping : Chomping
  /-- How much further the block is indented, if the header says so. -/
  step : Option Nat

def takeChomping : List Char → Option Chomping × List Char
  | '+' :: cs => (some .keep, cs)
  | '-' :: cs => (some .strip, cs)
  | cs => (none, cs)

def takeStep : List Char → Option Nat × List Char
  | [] => (none, [])
  | c :: cs => if c.isDigit then (some (c.toNat - '0'.toNat), cs) else (none, c :: cs)

/-- What the characters after the sign say, up to the end of the line. -/
def blockHeader? (cs : List Char) : Option BlockHeader :=
  let (first, cs) := takeChomping cs
  let (step, cs) := takeStep cs
  let (second, cs) := if first.isNone then takeChomping cs else (none, cs)
  let tail := cs.dropWhile isBlank
  if step != some 0 && (tail.isEmpty || tail.head? == some '#') then
    some ⟨(first.or second).getD .clip, step⟩
  else none

/-! ## Lines -/

/-- What stands before a line: the number of line ends, and the column that the deepest of the
lines reaches, the next one included. -/
structure Margin where
  breaks : Nat
  deepest : Nat

/-- Passes empty lines and the indentation of the next one, which is no more than `limit` if
there is one. No tab may stand within the indentation. -/
def scanMargin (limit : Option Nat) (m : Margin) : (cs : List Placed) → Option (Margin × Left cs)
  | [] => some (m, .all true)
  | c :: cs =>
    let inside := limit.all (c.column < ·)
    if inside && c.char == ' ' then
      (scanMargin limit m cs).map fun (m, l) => (m, l.ofTail)
    else
      let m := { m with deepest := max m.deepest c.column }
      if inside && c.char == '\t' then none
      else if isBreak c.char then
        (scanMargin limit { m with breaks := m.breaks + 1 } cs).map fun (m, l) => (m, l.ofTail)
      else some (m, .all true)

/-- The lines that begin in a given column. -/
def scanBlockLines (indent : Nat) (cs : List Placed) : Option (List BlockLine × Left cs) :=
  match cs with
  | [] => some ([], .all true)
  | c :: after =>
    if c.column == indent then
      let text := c.char :: chars (after.takeWhile fun d => !isBreak d.char)
      have h : (after.dropWhile fun d => !isBreak d.char).length ≤ after.length :=
        (List.dropWhile_sublist _).length_le
      match scanMargin (some indent) ⟨0, 0⟩ (after.dropWhile fun d => !isBreak d.char) with
      | none => none
      | some (m, l) =>
        have hl : l.rest.length ≤ after.length := Nat.le_trans l.length_le h
        (scanBlockLines indent l.rest).map fun (ls, l') =>
          (⟨text, m.breaks⟩ :: ls,
            ⟨l'.rest, true, Nat.le_succ_of_le (Nat.le_trans l'.length_le hl)⟩)
    else some ([], .all true)
termination_by cs.length
decreasing_by exact Nat.lt_succ_of_le hl

/-! ## Blocks -/

/-- A block after its sign, where what is around it would be indented by `indent` or more. -/
def scanBlock (folding : Bool) (indent : Nat) (cs : List Placed) : Option (Scalar × Left cs) := do
  let header ← blockHeader? (chars (cs.takeWhile fun d => !isBreak d.char))
  let body := (cs.dropWhile fun d => !isBreak d.char).drop 1
  have h : body.length ≤ cs.length :=
    Nat.le_trans ((List.drop_sublist _ _).length_le) (List.dropWhile_sublist _).length_le
  let limit := header.step.map (indent - 1 + ·)
  let (m, l) ← scanMargin limit ⟨0, 0⟩ body
  let column := limit.getD (max (max m.deepest indent) 1)
  let (ls, l') ← scanBlockLines column l.rest
  let text := blockText folding header.chomping m.breaks ls
  return (⟨String.ofList text, false⟩,
    ⟨l'.rest, true, Nat.le_trans (Nat.le_trans l'.length_le l.length_le) h⟩)

end SchemaWeave.Yaml
