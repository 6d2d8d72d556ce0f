import SchemaWeave.Text.Rest

/-!
# Decimal numbers

An integer part without superfluous zeros, then perhaps a fraction, then perhaps an exponent.
The digits are kept as they are written and are not turned into a number.
-/

namespace SchemaWeave.Text

/-- A number without its sign, in the three parts in which it is written. -/
structure Decimal where
  whole : List Char
  fraction : List Char
  exponent : List Char

namespace Decimal

/-- A number is an integer when it has neither fraction nor exponent. -/
def isInteger (d : Decimal) : Bool := d.fraction.isEmpty && d.exponent.isEmpty

/-- The characters of a number, in order. -/
def digits (d : Decimal) : List Char := d.whole ++ d.fraction ++ d.exponent

end Decimal

/-- The integer part after its first digit: nothing after a zero, else all digits. -/
def scanInteger (first : Char) (cs : List Char) : List Char × Rest cs :=
  if first == '0' then ([], .all cs) else Rest.span Char.isDigit cs

/-- The fraction with its point, or nothing where there is no point. -/
def scanFraction : (cs : List Char) → Option (List Char × Rest cs)
  | '.' :: cs =>
    let (digits, rest) := Rest.span Char.isDigit cs
    if digits.isEmpty then none else some ('.' :: digits, rest.ofTail)
  | cs => some ([], .all cs)

/-- The sign of an exponent, where there is one. -/
def scanSign : (cs : List Char) → List Char × Rest cs
  | c :: cs =>
    if c == '+' || c == '-' then ([c], .tail c cs) else ([], .all (c :: cs))
  | [] => ([], .all [])

/-- The exponent with its letter, or nothing where there is no such letter. -/
def scanExponent : (cs : List Char) → Option (List Char × Rest cs)
  | [] => some ([], .all [])
  | c :: cs =>
    if c == 'e' || c == 'E' then
      let (sign, rest) := scanSign cs
      let (digits, rest') := Rest.span Char.isDigit rest.1
      if digits.isEmpty then none else some (c :: sign ++ digits, (rest.trans rest').ofTail)
    else some ([], .all (c :: cs))

/-- A number after its first digit. -/
def scanDecimal (first : Char) (cs : List Char) : Option (Decimal × Rest cs) := do
  let (whole, rest) := scanInteger first cs
  let (fraction, rest') ← scanFraction rest.1
  let (exponent, rest'') ← scanExponent rest'.1
  some (⟨first :: whole, fraction, exponent⟩, (rest.trans rest').trans rest'')

end SchemaWeave.Text
