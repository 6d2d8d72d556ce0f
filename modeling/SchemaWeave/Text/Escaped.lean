import SchemaWeave.Text.Unseen

/-!
# Escaped texts

A text between double quotes in which everything stands for itself that can be seen on its own.
Double quotes and backslashes are escaped, and so are the characters that cannot be seen: some
by a letter of their own, the others by their number.
-/

namespace SchemaWeave.Text

/-- A number in hexadecimal digits, small letters. -/
def hexDigits (n : Nat) : String := String.ofList (Nat.toDigits 16 n)

def escapedChar (c : Char) : String :=
  match c with
  | '\x00' => "\\0"
  | '\t' => "\\t"
  | '\r' => "\\r"
  | '\n' => "\\n"
  | '"' => "\\\""
  | '\\' => "\\\\"
  | c =>
    if isUnseen c then "\\u\x7b" ++ hexDigits c.toNat ++ "\x7d" else String.singleton c

/-- A text between quotes, with all that cannot be seen escaped. -/
def escaped (s : String) : String := "\"" ++ String.join (s.toList.map escapedChar) ++ "\""

end SchemaWeave.Text
