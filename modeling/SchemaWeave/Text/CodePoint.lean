import SchemaWeave.Text.Rest

/-!
# Characters by number

An escape may give a character by its code point in hexadecimal digits. A code point above
`FFFF` is given by two escapes of four digits, the halves of a surrogate pair; a half on its
own is no character.
-/

namespace SchemaWeave.Text

def hexDigit? (c : Char) : Option Nat :=
  if c.isDigit then some (c.toNat - '0'.toNat)
  else if 'a' ≤ c && c ≤ 'f' then some (c.toNat - 'a'.toNat + 10)
  else if 'A' ≤ c && c ≤ 'F' then some (c.toNat - 'A'.toNat + 10)
  else none

/-- The value of hexadecimal digits. -/
def hexValue? (cs : List Char) : Option Nat :=
  cs.foldlM (fun n c => (hexDigit? c).map (16 * n + ·)) 0

/-- The character with a code point, unless it is half of a surrogate pair or out of range. -/
def charOfCode? (n : Nat) : Option Char :=
  if h : n.isValidChar then some (Char.ofNatAux n h) else none

def isHighSurrogate (n : Nat) : Bool := 0xD800 ≤ n && n < 0xDC00

def isLowSurrogate (n : Nat) : Bool := 0xDC00 ≤ n && n < 0xE000

/-- The character that two halves make. -/
def charOfSurrogates? (high low : Nat) : Option Char :=
  if isHighSurrogate high && isLowSurrogate low then
    charOfCode? (0x10000 + (high - 0xD800) * 0x400 + (low - 0xDC00))
  else none

/-- Four hexadecimal digits. -/
def scanFourHex : (cs : List Char) → Option (Nat × Rest cs)
  | a :: b :: c :: d :: cs =>
    (hexValue? [a, b, c, d]).map (·, (Rest.all cs).ofTail.ofTail.ofTail.ofTail)
  | _ => none

end SchemaWeave.Text
