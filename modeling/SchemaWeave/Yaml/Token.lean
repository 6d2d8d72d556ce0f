import SchemaWeave.Yaml.LineBlock
import SchemaWeave.Yaml.Scalar

/-!
# Tokens of a YAML text

A text is cut into scalars and the marks that hold collections together. Some of these marks
are written and some follow from columns: where a block collection begins and ends, and that
what comes next is a key.

## Keys

What a key is shows only at the colon behind it. So every token that may begin a key is kept in
mind as a candidate until something rules it out; there is one candidate for each level of
brackets. At a colon the mark of a key is put in front of the candidate.

Between brackets a candidate in the column of the block collection around them has to become a
key.

## Columns

The block collections that are open at some place begin in different columns, which are kept in
a list, the innermost first. A character to the left of a column closes its collection, but not
between brackets, where columns mean nothing.

## Termination

Every token takes at least the character that it begins with.
-/

namespace SchemaWeave.Yaml

/-! ## Tokens -/

inductive Token where
  | scalar (s : Scalar)
  /-- What follows is a key. -/
  | key
  /-- What follows is the value of a key. -/
  | value
  /-- What follows is an item of a block sequence. -/
  | dash
  | comma
  | openBracket
  | closeBracket
  | openBrace
  | closeBrace
  | sequenceStart
  | mappingStart
  | blockEnd
  | documentStart
  | documentEnd
deriving DecidableEq

/-- A place where a key may have begun, and how many tokens stand before it. -/
structure Candidate where
  start : Placed
  position : Nat
  required : Bool

/-- How far a colon may be from the beginning of its key. -/
def keyLimit : Nat := 1024

namespace Candidate

/-- Whether a colon in a place comes too late to make a candidate a key. -/
def isOver (k : Candidate) (c : Placed) : Bool :=
  k.start.line < c.line || k.start.index + keyLimit < c.index

/-- What is left of a candidate in a place, unless it had to become a key. -/
def survive (c : Placed) : Option Candidate → Option (Option Candidate)
  | some k => if !k.isOver c then some (some k) else if k.required then none else some none
  | none => some none

end Candidate

/-- The tokens so far, and what has to be known to cut off the next one. -/
structure Cutting where
  tokens : Array Token
  /-- The columns of the open block collections, the innermost first. -/
  columns : List Nat
  candidate : Option Candidate
  /-- The candidates outside the brackets that are open, the innermost first. -/
  outer : List (Option Candidate)
  /-- Where a quoted scalar has just ended. -/
  quotedEnd : Option Nat

namespace Cutting

def empty : Cutting := ⟨#[], [], none, [], none⟩

/-- Whether there are brackets open. -/
def inFlow (s : Cutting) : Bool := !s.outer.isEmpty

/-- The first column that is inside the innermost block collection. -/
def inner (s : Cutting) : Nat :=
  match s.columns with
  | [] => 0
  | c :: _ => c + 1

def push (s : Cutting) (t : Token) : Cutting := { s with tokens := s.tokens.push t }

/-! ## Columns -/

/-- Begins a block collection in a column inside the innermost one. Its mark is put after a
given number of tokens. -/
def indent (s : Cutting) (column position : Nat) (mark : Token) : Cutting :=
  if s.inFlow || column < s.inner then s
  else
    { s with
      tokens := s.tokens.insertIdxIfInBounds position mark
      columns := column :: s.columns }

/-- Ends the block collections whose columns pass the test. -/
def close (s : Cutting) (p : Nat → Bool) : Cutting :=
  if s.inFlow then s
  else
    { s with
      tokens := s.tokens ++ (s.columns.takeWhile p).map fun _ => Token.blockEnd
      columns := s.columns.dropWhile p }

/-! ## Candidates -/

/-- Moves on to a character. -/
def reach (s : Cutting) (c : Placed) : Option Cutting := do
  let candidate ← Candidate.survive c s.candidate
  let outer ← s.outer.mapM (Candidate.survive c)
  return { s with candidate := candidate, outer := outer }.close (c.column < ·)

/-- Rules out the candidate, unless it had to become a key. -/
def dismiss (s : Cutting) : Option Cutting :=
  if s.candidate.any (·.required) then none else some { s with candidate := none }

/-- Takes the token that begins with a character as the candidate, where one may begin. -/
def consider (s : Cutting) (fresh : Bool) (c : Placed) : Option Cutting :=
  if fresh then do
    let s ← s.dismiss
    return { s with
      candidate := some ⟨c, s.tokens.size, s.inFlow && s.inner == c.column + 1⟩ }
  else some s

/-! ## Marks -/

/-- The deepest nesting of brackets. -/
def bracketLimit : Nat := 255

def openBrackets (s : Cutting) (fresh : Bool) (c : Placed) (t : Token) : Option Cutting := do
  let s ← s.consider fresh c
  if s.outer.length < bracketLimit then
    return { s with candidate := none, outer := s.candidate :: s.outer }.push t
  else none

def closeBrackets (s : Cutting) (t : Token) : Option Cutting := do
  let s ← s.dismiss
  match s.outer with
  | [] => return s.push t
  | k :: outer => return { s with candidate := k, outer := outer }.push t

/-- A dash before an item. -/
def item (s : Cutting) (fresh : Bool) (c : Placed) : Option Cutting :=
  if s.inFlow || !fresh then none
  else do
    let s ← (s.indent c.column s.tokens.size .sequenceStart).dismiss
    return s.push .dash

/-- A question mark before a key. -/
def markedKey (s : Cutting) (fresh : Bool) (c : Placed) : Option Cutting :=
  if !s.inFlow && !fresh then none
  else do
    let s ← (s.indent c.column s.tokens.size .mappingStart).dismiss
    return s.push .key

/-- A colon before a value. Without a candidate its key was marked or is missing. -/
def colon (s : Cutting) (fresh : Bool) (c : Placed) : Option Cutting :=
  match s.candidate with
  | some k =>
    let s := { s with
      tokens := s.tokens.insertIdxIfInBounds k.position .key
      candidate := none }
    some ((s.indent k.start.column k.position .mappingStart).push .value)
  | none =>
    if !s.inFlow && !fresh then none
    else some ((s.indent c.column s.tokens.size .mappingStart).push .value)

/-- The marks of documents. -/
def boundary (s : Cutting) (t : Token) : Option Cutting := do
  let s ← (s.close fun _ => true).dismiss
  return s.push t

/-! ## Cutting -/

/-- Whether a colon stands before a value: a blank follows, or between brackets another mark or
a quoted scalar right before it. -/
def isColon (s : Cutting) (c : Placed) (after : List Placed) : Bool :=
  c.char == ':'
    && (atGap after || s.inFlow && (atFlowMark after || s.quotedEnd == some c.index))

/-- A scalar after its first character. -/
def scanScalar (s : Cutting) (c : Placed) (after : List Placed) : Option (Scalar × Left after) :=
  if c.char == '\'' then
    (scanSingleQuoted .none after).map fun (t, l) => (⟨String.ofList t, false⟩, l)
  else if c.char == '"' then
    (scanDoubleQuoted .none after).map fun (t, l) => (⟨String.ofList t, false⟩, l)
  else if !s.inFlow && (c.char == '|' || c.char == '>') then
    scanBlock (c.char == '>') s.inner after
  else if isBlank c.char then
    (scanPlain s.inFlow s.inner (.blanks [c.char]) after).map fun (t, l) =>
      (⟨String.ofList t, true⟩, l)
  else
    (scanPlain s.inFlow s.inner .none after).map fun (t, l) =>
      (⟨String.ofList (c.char :: t), true⟩, l)

/-- Whether no scalar begins with a character and it is no mark either. -/
def isReserved (c : Char) : Bool := "&*!%@\x60".toList.contains c

/-- Cuts off a scalar. -/
def scalar (s : Cutting) (fresh : Bool) (c : Placed) (after : List Placed) :
    Option (Cutting × Left after) := do
  if isReserved c.char then none
  let s ← s.consider fresh c
  let (text, l) ← s.scanScalar c after
  let isQuoted := c.char == '\'' || c.char == '"'
  let quotedEnd := if isQuoted then l.rest.head?.map (·.index) else s.quotedEnd
  return ({ s with quotedEnd := quotedEnd }.push (.scalar text), l)

/-- Cuts off the token that begins with a character. -/
def next (s : Cutting) (fresh : Bool) (c : Placed) (after : List Placed) :
    Option (Cutting × Left after) :=
  if atDocumentMark '-' (c :: after) then (s.boundary .documentStart).map (·, .drop 2 false)
  else if atDocumentMark '.' (c :: after) then (s.boundary .documentEnd).map (·, .drop 2 false)
  else if c.char == '[' then (s.openBrackets fresh c .openBracket).map (·, .all true)
  else if c.char == '\x7b' then (s.openBrackets fresh c .openBrace).map (·, .all true)
  else if c.char == ']' then (s.closeBrackets .closeBracket).map (·, .all false)
  else if c.char == '\x7d' then (s.closeBrackets .closeBrace).map (·, .all false)
  else if c.char == ',' then s.dismiss.map fun s => (s.push .comma, .all true)
  else if c.char == '-' && atGap after then (s.item fresh c).map (·, .all true)
  else if c.char == '?' && atGap after then (s.markedKey fresh c).map (·, .all !s.inFlow)
  else if s.isColon c after then
    (s.colon fresh c).map (·, .all (s.candidate.isNone && !s.inFlow))
  else s.scalar fresh c after

/-- Cuts all that is left of a text into tokens. -/
def run (s : Cutting) (fresh : Bool) (cs : List Placed) : Option (List Token) :=
  match skip s.inFlow fresh cs with
  | ⟨[], _, _⟩ => some (s.close fun _ => true).tokens.toList
  | ⟨c :: after, fresh, h⟩ =>
    match (s.reach c).bind (·.next fresh c after) with
    | none => none
    | some (s, l) =>
      have : l.rest.length < cs.length := Nat.lt_of_le_of_lt l.length_le h
      run s l.fresh l.rest
termination_by cs.length
decreasing_by assumption

end Cutting

/-- The tokens of a text. -/
def tokens? (s : String) : Option (List Token) := Cutting.empty.run true (place s)

end SchemaWeave.Yaml
