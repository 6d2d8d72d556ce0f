import SchemaWeave.Name
import SchemaWeave.Sdl.BlockText
import SchemaWeave.Text.CodePoint
import SchemaWeave.Text.Decimal

/-!
# Tokens

A text is cut into punctuators, names, numbers and strings. Blanks, line ends, commas,
comments and the byte order mark stand between tokens. They mean nothing, but of commas it is
remembered that there were any: they keep apart two tokens that only mean something together.

## Longest match

A number takes every character that can belong to it, and must not run into a name, another
digit or a point. So `1a`, `01` and `1.5.2` are no tokens, rather than two.

## Line ends in strings

A line end may stand in a quoted string only right after the opening quote.

## Termination

Each scanner returns what is left together with the fact that it is no longer than what it was
given, and `scan` ends because the first character of every token is gone.
-/

namespace SchemaWeave.Sdl

open Text

inductive Punctuator where
  | bang
  | dollar
  | amp
  | openParen
  | closeParen
  | spread
  | colon
  | equals
  | at
  | openBracket
  | closeBracket
  | openBrace
  | pipe
  | closeBrace
deriving DecidableEq

inductive Token where
  | punctuator (p : Punctuator)
  | name (n : Name)
  | int (digits : String)
  | float (digits : String)
  | string (text : String)
deriving DecidableEq

/-- A token, and whether a comma stands between it and the token before it. -/
structure Lexeme where
  token : Token
  afterComma : Bool
deriving DecidableEq

/-! ## Character classes -/

/-- Characters that separate tokens and have no meaning of their own. -/
def isIgnored (c : Char) : Bool :=
  c == ' ' || c == '\t' || c == '\n' || c == '\r' || c == '\uFEFF'

def isLineEnd (c : Char) : Bool := c == '\n' || c == '\r'

/-! ## Numbers -/

/-- Whether a number may end before these characters. -/
def endsNumber : List Char → Bool
  | [] => true
  | c :: _ => !(Name.isInner c || c == '.')

/-- A number after its sign and its first digit. -/
def scanNumber (sign : List Char) (first : Char) (cs : List Char) : Option (Token × Rest cs) := do
  let (decimal, rest) ← scanDecimal first cs
  if endsNumber rest.1 then
    let text := String.ofList (sign ++ decimal.digits)
    some (if decimal.isInteger then .int text else .float text, rest)
  else none

/-! ## Strings -/

/-- The second half of a surrogate pair, as an escape of its own. -/
def scanLowSurrogate : (cs : List Char) → Option (Nat × Rest cs)
  | '\\' :: 'u' :: cs => do
    let (low, rest) ← scanFourHex cs
    some (low, rest.ofTail.ofTail)
  | _ => none

/-- What stands for a character after the letter of a Unicode escape: digits in braces, four
digits, or four digits and a second escape that together make a surrogate pair. -/
def scanUnicode : (cs : List Char) → Option (Char × Rest cs)
  | '{' :: cs =>
    let (digits, rest) := Rest.span (fun c => c != '}') cs
    match rest with
    | ⟨_ :: after, h⟩ => do
      if digits.isEmpty then none
      let code ← hexValue? digits
      let char ← charOfCode? code
      some (char, ⟨after, Nat.le_trans (Nat.le_of_succ_le h) (Nat.le_succ _)⟩)
    | ⟨[], _⟩ => none
  | cs => do
    let (code, rest) ← scanFourHex cs
    if isHighSurrogate code then
      let (low, rest') ← scanLowSurrogate rest.1
      let char ← charOfSurrogates? code low
      some (char, rest.trans rest')
    else
      let char ← charOfCode? code
      some (char, rest)

/-- What stands for a character after a backslash. -/
def scanEscape : (cs : List Char) → Option (Char × Rest cs)
  | [] => none
  | c :: cs =>
    let here (char : Char) : Option (Char × Rest (c :: cs)) := some (char, .tail c cs)
    match c with
    | '"' => here '"'
    | '\\' => here '\\'
    | '/' => here '/'
    | 'b' => here '\x08'
    | 'f' => here '\x0c'
    | 'n' => here '\n'
    | 'r' => here '\r'
    | 't' => here '\t'
    | 'u' => (scanUnicode cs).map fun (char, rest) => (char, rest.ofTail)
    | _ => none

/-- The characters of a quoted string up to its closing quote. -/
def scanQuoted (cs : List Char) : Option (List Char × Rest cs) :=
  match cs with
  | [] => none
  | '"' :: cs => some ([], .tail '"' cs)
  | '\\' :: cs =>
    match scanEscape cs with
    | none => none
    | some (char, rest) =>
      (scanQuoted rest.1).map fun (chars, rest') => (char :: chars, (rest.trans rest').ofTail)
  | c :: cs =>
    if isLineEnd c then none
    else (scanQuoted cs).map fun (chars, rest) => (c :: chars, rest.ofTail)
termination_by cs.length
decreasing_by
  · exact Nat.lt_succ_of_le rest.2
  · exact Nat.lt_succ_self _

/-- The characters of a block string up to its closing quotes. -/
def scanBlock : (cs : List Char) → Option (List Char × Rest cs)
  | [] => none
  | '"' :: '"' :: '"' :: cs => some ([], (Rest.all cs).ofTail.ofTail.ofTail)
  | '\\' :: '"' :: '"' :: '"' :: cs =>
    (scanBlock cs).map fun (chars, rest) =>
      ('"' :: '"' :: '"' :: chars, rest.ofTail.ofTail.ofTail.ofTail)
  | c :: cs => (scanBlock cs).map fun (chars, rest) => (c :: chars, rest.ofTail)

/-- The characters of a quoted string after its opening quote, where a line end may stand. -/
def scanOpened : (cs : List Char) → Option (List Char × Rest cs)
  | [] => none
  | c :: cs =>
    if isLineEnd c then (scanQuoted cs).map fun (chars, rest) => (c :: chars, rest.ofTail)
    else scanQuoted (c :: cs)

/-- A string after its opening quote. -/
def scanString : (cs : List Char) → Option (Token × Rest cs)
  | '"' :: '"' :: cs =>
    (scanBlock cs).map fun (raw, rest) => (.string (BlockText.read raw), rest.ofTail.ofTail)
  | cs => (scanOpened cs).map fun (chars, rest) => (.string (String.ofList chars), rest)

/-! ## Tokens -/

/-- The name that starts with a given character. -/
def scanName (c : Char) (hc : Name.isStart c = true) (cs : List Char) : Name × Rest cs :=
  let inner := cs.takeWhile Name.isInner
  (⟨String.ofList (c :: inner), by
      rw [String.toList_ofList]
      simp [Name.isSpelling, hc, inner]⟩,
    (Rest.span Name.isInner cs).2)

/-- The punctuators of one character. -/
def punctuator? (c : Char) : Option Punctuator :=
  match c with
  | '!' => some .bang
  | '$' => some .dollar
  | '&' => some .amp
  | '(' => some .openParen
  | ')' => some .closeParen
  | ':' => some .colon
  | '=' => some .equals
  | '@' => some .at
  | '[' => some .openBracket
  | ']' => some .closeBracket
  | '{' => some .openBrace
  | '|' => some .pipe
  | '}' => some .closeBrace
  | _ => none

/-- The token that starts with a given character. -/
def scanToken (c : Char) (cs : List Char) : Option (Token × Rest cs) :=
  if hc : Name.isStart c = true then
    let (name, rest) := scanName c hc cs
    some (.name name, rest)
  else if c == '"' then scanString cs
  else if c.isDigit then scanNumber [] c cs
  else if c == '-' then
    match cs with
    | [] => none
    | d :: cs =>
      if d.isDigit then (scanNumber ['-'] d cs).map fun (token, rest) => (token, rest.ofTail)
      else none
  else if c == '.' then
    match cs with
    | '.' :: '.' :: cs => some (.punctuator .spread, (Rest.all cs).ofTail.ofTail)
    | _ => none
  else (punctuator? c).map fun p => (.punctuator p, .all cs)

/-- The tokens of a text, or nothing when some part of it is no token. A comma may stand before
the first of them. -/
def scan (afterComma : Bool) (cs : List Char) : Option (List Lexeme) :=
  match cs with
  | [] => some []
  | c :: cs =>
    if c == ',' then scan true cs
    else if isIgnored c then scan afterComma cs
    else if c == '#' then scan afterComma (Rest.span (fun c => !isLineEnd c) cs).2.1
    else
      match scanToken c cs with
      | none => none
      | some (token, rest) => (scan false rest.1).map (⟨token, afterComma⟩ :: ·)
termination_by cs.length
decreasing_by
  · exact Nat.lt_succ_self _
  · exact Nat.lt_succ_self _
  · exact Nat.lt_succ_of_le (Rest.span (fun c => !isLineEnd c) cs).2.2
  · exact Nat.lt_succ_of_le rest.2

end SchemaWeave.Sdl
