/-!
# Block text

A text between triple quotes may span lines and be indented with the code around it. Reading
takes the common indentation and the blank lines at both ends away; writing uses the block
form only for a text that reading gives back.

## Lines

Reading splits at a line feed, a carriage return or both together. Writing splits at line
feeds only, because a text with a carriage return is never written as a block.
-/

namespace SchemaWeave.Sdl.BlockText

/-- The characters that indent a line. -/
def isBlank (c : Char) : Bool := c == ' ' || c == '\t'

def isBlankLine (line : List Char) : Bool := line.all isBlank

/-- The number of blanks that a line starts with. -/
def indentOf (line : List Char) : Nat := (line.takeWhile isBlank).length

/-- The least indentation of the lines that are not blank. -/
def commonIndent (lines : List (List Char)) : Option Nat :=
  ((lines.filter (fun l => !isBlankLine l)).map indentOf).min?

/-! ## Reading -/

/-- Splits at every line end. -/
def lines : List Char → List (List Char)
  | [] => [[]]
  | '\r' :: '\n' :: rest => [] :: lines rest
  | c :: rest =>
    if c == '\n' || c == '\r' then [] :: lines rest
    else
      match lines rest with
      | [] => [[c]]
      | l :: ls => (c :: l) :: ls

/-- Takes blank lines away from both ends. -/
def trimBlankLines (ls : List (List Char)) : List (List Char) :=
  ((ls.dropWhile isBlankLine).reverse.dropWhile isBlankLine).reverse

/-- Takes the common indentation away from every line but the first, which starts right after
the quotes and so has none. -/
def dedent : List (List Char) → List (List Char)
  | [] => []
  | first :: rest =>
    match commonIndent rest with
    | none => first :: rest
    | some n => first :: rest.map (List.drop n)

/-- The lines joined by line feeds. -/
def joinLines (ls : List (List Char)) : List Char := List.intercalate ['\n'] ls

/-- The text that the characters between the triple quotes stand for. -/
def read (raw : List Char) : String :=
  String.ofList (joinLines (trimBlankLines (dedent (lines raw))))

/-! ## Writing -/

/-- Splits at line feeds. -/
def splitLines : List Char → List (List Char)
  | [] => [[]]
  | c :: rest =>
    if c == '\n' then [] :: splitLines rest
    else
      match splitLines rest with
      | [] => [[c]]
      | l :: ls => (c :: l) :: ls

/-- Whether the block form of a text reads back as the text: no carriage return, the first and
the last line are not blank, and some line that is not blank has no indentation. -/
def isWritable (s : List Char) : Bool :=
  let ls := splitLines s
  !s.contains '\r' && !isBlankLine (ls.headD []) && !isBlankLine (ls.getLastD [])
    && commonIndent ls == some 0

/-- Puts a backslash before every three quotes in a row. -/
def escape : List Char → List Char
  | '"' :: '"' :: '"' :: rest => '\\' :: '"' :: '"' :: '"' :: escape rest
  | c :: rest => c :: escape rest
  | [] => []

/-- The longest text, in bytes of its encoding, that is written between its quotes on one
line. -/
def oneLineLimit : Nat := 70

/-- Whether a text stays on one line between its quotes. A final quote or backslash would run
into the closing quotes. -/
def fitsOneLine (s : List Char) : Bool :=
  !s.contains '\n' && (String.ofList s).utf8ByteSize ≤ oneLineLimit
    && s.getLast? != some '"' && s.getLast? != some '\\'

/-- The block form, its lines after the first indented by `indent`. Empty lines stay empty. -/
def write (indent : String) (s : List Char) : String :=
  if fitsOneLine s then "\"\"\"" ++ String.ofList (escape s) ++ "\"\"\""
  else
    let body := (splitLines (escape s)).map fun l =>
      if l.isEmpty then "\n" else "\n" ++ indent ++ String.ofList l
    "\"\"\"" ++ String.join body ++ "\n" ++ indent ++ "\"\"\""

end SchemaWeave.Sdl.BlockText
