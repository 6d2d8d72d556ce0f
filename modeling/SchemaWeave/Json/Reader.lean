import SchemaWeave.Json.Value
import SchemaWeave.Text.CodePoint
import SchemaWeave.Text.Decimal

/-!
# Reading JSON

Strict JSON: no trailing commas, no comments, no text after the value and no byte order mark
before it.

## Termination

Values and their items call each other. Every call is on less text, but for the first value of
an item list, which is on the same text; the measure has a step between the two.
-/

namespace SchemaWeave.Json

open Text

/-! ## Blanks and words -/

def isBlank (c : Char) : Bool := c == ' ' || c == '\t' || c == '\n' || c == '\r'

/-- What follows the blanks at the front. -/
def skipBlanks (cs : List Char) : Rest cs := (Rest.span isBlank cs).2

/-- What follows a given word at the front. -/
def skipWord : (word cs : List Char) → Option (Rest cs)
  | [], cs => some (.all cs)
  | w :: ws, c :: cs => if w == c then (skipWord ws cs).map Rest.ofTail else none
  | _ :: _, [] => none

/-! ## Strings -/

/-- The character after a backslash that stands for another one. -/
def simpleEscape? (c : Char) : Option Char :=
  match c with
  | '"' => some '"'
  | '\\' => some '\\'
  | '/' => some '/'
  | 'b' => some '\x08'
  | 'f' => some '\x0c'
  | 'n' => some '\n'
  | 'r' => some '\r'
  | 't' => some '\t'
  | _ => none

/-- The second half of a surrogate pair, when the text goes on with one. -/
def followingHalf (cs : List Char) : Option (Nat × Rest cs) :=
  match cs with
  | '\\' :: 'u' :: cs => do
    let (code, rest) ← scanFourHex cs
    if isLowSurrogate code then some (code, rest.ofTail.ofTail) else none
  | _ => none

/-- What an escape stands for after its backslash: a character, or `none` for half a surrogate
pair. -/
def readEscape : (cs : List Char) → Option (Option Char × Rest cs)
  | [] => none
  | 'u' :: cs => do
    let (code, rest) ← scanFourHex cs
    match followingHalf rest.1 with
    | some (low, rest') =>
      if isHighSurrogate code then
        some (charOfSurrogates? code low, (rest.trans rest').ofTail)
      else some (charOfCode? code, rest.ofTail)
    | none => some (charOfCode? code, rest.ofTail)
  | c :: cs => (simpleEscape? c).map fun char => (some char, .tail c cs)

/-- The characters of a string up to its closing quote; `none` for those that are no
characters. -/
def readChars (cs : List Char) : Option (List (Option Char) × Rest cs) :=
  match cs with
  | [] => none
  | '"' :: cs => some ([], .tail '"' cs)
  | '\\' :: cs =>
    match readEscape cs with
    | none => none
    | some (char, rest) =>
      (readChars rest.1).map fun (chars, rest') => (char :: chars, (rest.trans rest').ofTail)
  | c :: cs =>
    if c.toNat < 0x20 then none
    else (readChars cs).map fun (chars, rest) => (some c :: chars, rest.ofTail)
termination_by cs.length
decreasing_by
  · exact Nat.lt_succ_of_le rest.2
  · exact Nat.lt_succ_self _

/-- The text of a string after its opening quote, if it has one. -/
def readString (cs : List Char) : Option (Option String × Rest cs) :=
  (readChars cs).map fun (chars, rest) => ((chars.mapM id).map String.ofList, rest)

/-! ## Values -/

/-- A number after its first character. -/
def readNumber (c : Char) (cs : List Char) : Option (Json × Rest cs) :=
  if c.isDigit then
    (scanDecimal c cs).map fun (d, rest) => (.number (String.ofList d.digits), rest)
  else if c == '-' then
    match cs with
    | [] => none
    | d :: cs =>
      if d.isDigit then
        (scanDecimal d cs).map fun (x, rest) =>
          (.number (String.ofList ('-' :: x.digits)), rest.ofTail)
      else none
  else none

/-- A value of one word, number or string, after its first character. -/
def readScalar (c : Char) (cs : List Char) : Option (Json × Rest cs) :=
  match c with
  | '"' => (readString cs).map fun (s, rest) => (.string s, rest)
  | 't' => (skipWord "rue".toList cs).map (.boolean true, ·)
  | 'f' => (skipWord "alse".toList cs).map (.boolean false, ·)
  | 'n' => (skipWord "ull".toList cs).map (.null, ·)
  | c => readNumber c cs

/-- What follows a given mark, after any blanks. -/
def skipMark (mark : Char) (cs : List Char) :
    Option { rest : List Char // rest.length < cs.length } :=
  match skipBlanks cs with
  | ⟨[], _⟩ => none
  | ⟨c :: rest, h⟩ => if c == mark then some ⟨rest, h⟩ else none

/-- The key of an entry with its colon. -/
def readKey (cs : List Char) : Option (Option String × Rest cs) := do
  let ⟨afterQuote, h⟩ ← skipMark '"' cs
  let (key, rest) ← readString afterQuote
  let ⟨afterColon, h'⟩ ← skipMark ':' rest.1
  return (key, ⟨afterColon, Nat.le_of_lt (Nat.lt_trans (Nat.lt_of_lt_of_le h' rest.2) h)⟩)

mutual

/-- The value at the front, after any blanks. -/
def readValue (cs : List Char) : Option (Json × Rest cs) :=
  match skipBlanks cs with
  | ⟨[], _⟩ => none
  | ⟨c :: after, h⟩ =>
    have h : after.length < cs.length := h
    if c == '[' then
      match skipMark ']' after with
      | some ⟨rest, h'⟩ => some (.array [], ⟨rest, Nat.le_of_lt (Nat.lt_trans h' h)⟩)
      | none =>
        (readItems after).map fun (items, rest) =>
          (.array items, ⟨rest.1, Nat.le_trans rest.2 (Nat.le_of_lt h)⟩)
    else if c == '\x7b' then
      match skipMark '\x7d' after with
      | some ⟨rest, h'⟩ => some (.object [], ⟨rest, Nat.le_of_lt (Nat.lt_trans h' h)⟩)
      | none =>
        (readEntries after).map fun (entries, rest) =>
          (.object entries, ⟨rest.1, Nat.le_trans rest.2 (Nat.le_of_lt h)⟩)
    else
      (readScalar c after).map fun (v, rest) =>
        (v, ⟨rest.1, Nat.le_trans rest.2 (Nat.le_of_lt h)⟩)
termination_by 2 * cs.length

/-- One item or more, up to the closing bracket. -/
def readItems (cs : List Char) : Option (List Json × Rest cs) :=
  match readValue cs with
  | none => none
  | some (v, rest) =>
    match skipMark ',' rest.1 with
    | some ⟨after, h⟩ =>
      have h : after.length < cs.length := Nat.lt_of_lt_of_le h rest.2
      (readItems after).map fun (vs, rest') =>
        (v :: vs, ⟨rest'.1, Nat.le_trans rest'.2 (Nat.le_of_lt h)⟩)
    | none =>
      (skipMark ']' rest.1).map fun ⟨after, h⟩ =>
        ([v], ⟨after, Nat.le_of_lt (Nat.lt_of_lt_of_le h rest.2)⟩)
termination_by 2 * cs.length + 1

/-- One entry or more, up to the closing brace. -/
def readEntries (cs : List Char) : Option (List (Option String × Json) × Rest cs) :=
  match readKey cs with
  | none => none
  | some (key, keyRest) =>
    match readValue keyRest.1 with
    | none => none
    | some (v, rest) =>
      have hr : rest.1.length ≤ cs.length := Nat.le_trans rest.2 keyRest.2
      match skipMark ',' rest.1 with
      | some ⟨after, h⟩ =>
        have h : after.length < cs.length := Nat.lt_of_lt_of_le h hr
        (readEntries after).map fun (es, rest') =>
          ((key, v) :: es, ⟨rest'.1, Nat.le_trans rest'.2 (Nat.le_of_lt h)⟩)
      | none =>
        (skipMark '\x7d' rest.1).map fun ⟨after, h⟩ =>
          ([(key, v)], ⟨after, Nat.le_of_lt (Nat.lt_of_lt_of_le h hr)⟩)
termination_by 2 * cs.length + 1
decreasing_by
  · exact Nat.lt_succ_of_le (Nat.mul_le_mul_left 2 keyRest.2)
  · omega

end

/-- The value that a whole text is. -/
def ofText? (s : String) : Option Json := do
  let (v, rest) ← readValue s.toList
  if (skipBlanks rest.1).1.isEmpty then some v else none

end SchemaWeave.Json
