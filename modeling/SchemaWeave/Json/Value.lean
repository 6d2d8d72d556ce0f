/-!
# JSON values

Values as they are written: an object keeps its entries in order and with repeated keys, and a
number keeps its digits.

## Strings without text

An escape in a string may name one half of a surrogate pair on its own. The string is well
formed, but there is no text with such a character; `none` stands for it.
-/

namespace SchemaWeave

inductive Json where
  | null
  | boolean (b : Bool)
  | number (digits : String)
  | string (text : Option String)
  | array (items : List Json)
  | object (entries : List (Option String × Json))
deriving Inhabited

namespace Json

/-- A string that has a text. -/
def text (s : String) : Json := .string (some s)

/-- An object with the given entries. -/
def record (entries : List (String × Json)) : Json :=
  .object (entries.map fun e => (some e.1, e.2))

end Json

end SchemaWeave
