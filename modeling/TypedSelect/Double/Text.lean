/-
The two texts of a number: the one written into JSON and the one
written into SQL and messages.

Both lay out the shortest digits. JSON text keeps at least one fraction
digit and turns to an exponent outside a fixed range of magnitudes; SQL
text never has an exponent and drops a fraction of zero.
-/
import TypedSelect.Double.Shortest

namespace TypedSelect

namespace Decimal

/-- The digits of a decimal as text. -/
def digitText (d : Decimal) : List Char := Nat.toDigits 10 d.digits

/-- The power of ten of the leading digit. -/
def leadingPower (d : Decimal) : Int := (d.digitText.length : Int) + d.scale - 1

/-- `count` zeros. -/
def zeros (count : Nat) : List Char := List.replicate count '0'

/-- The digits before the point and the digits after it, written
without an exponent. -/
def positional (d : Decimal) : List Char × List Char :=
  let digits := d.digitText
  if 0 ≤ d.scale then (digits ++ zeros d.scale.toNat, [])
  else
    let places := (-d.scale).toNat
    if digits.length ≤ places then (['0'], zeros (places - digits.length) ++ digits)
    else (digits.take (digits.length - places), digits.drop (digits.length - places))

/-- One digit, the rest as a fraction if there is any, and the power of
ten with its sign. -/
def scientific (d : Decimal) : List Char :=
  let mark := if d.leadingPower < 0 then ['e', '-'] else ['e', '+']
  let power := Nat.toDigits 10 d.leadingPower.natAbs
  match d.digitText with
  | [] => mark ++ power
  | [c] => c :: mark ++ power
  | c :: rest => c :: '.' :: rest ++ mark ++ power

end Decimal

namespace Double

/-- The magnitudes that JSON text writes without an exponent, by the
power of ten of their leading digit. -/
def jsonPositional (power : Int) : Bool := decide (-5 ≤ power ∧ power ≤ 15)

/-- The JSON text of a magnitude: of two equally near decimals it takes
the even one. -/
def jsonMagnitude (x : Magnitude) : List Char :=
  let d := x.shortest .even
  if x.mantissa = 0 ∨ jsonPositional d.leadingPower then
    match d.positional with
    | (whole, []) => whole ++ ['.', '0']
    | (whole, part) => whole ++ '.' :: part
  else d.scientific

/-- The JSON text of a number; JSON has none for numbers that are not
finite. -/
def jsonText : Double → String
  | finite negative x =>
    String.ofList ((if negative then ['-'] else []) ++ jsonMagnitude x)
  | _ => "null"

/-- The SQL text of a magnitude: of two equally near decimals it takes
the greater one. -/
def plainMagnitude (x : Magnitude) : List Char :=
  match (x.shortest .up).positional with
  | (whole, []) => whole
  | (whole, part) => whole ++ '.' :: part

/-- The SQL text without its sign. -/
def unsignedText : Double → String
  | finite _ x => String.ofList (plainMagnitude x)
  | infinite _ => "inf"
  | nan => "NaN"

/-- The text of a number in SQL and in messages. -/
def plainText (x : Double) : String :=
  if x.isNegative then "-" ++ x.unsignedText else x.unsignedText

end Double

end TypedSelect
