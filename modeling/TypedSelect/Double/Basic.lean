/-
Binary floating point numbers of 64 bits as exact data.

A finite number is a sign and a magnitude `mantissa * 2 ^ exponent` in
its canonical form, so two numbers are equal exactly when their fields
are: the sign of zero is kept, and there is one value that is not a
number. `ofDecimal` reads `digits * 10 ^ scale` as the nearest such
number, ties going to the even mantissa. The digit search and the JSON
and SQL texts of a number are built on this module.
-/

namespace TypedSelect

-- ======================================================== magnitudes

/-- The magnitude `mantissa * 2 ^ exponent`. The mantissa is below
`2 ^ 53`, and not below `2 ^ 52` unless the exponent is the smallest
one. -/
structure Magnitude where
  mantissa : Nat
  exponent : Int
  mantissa_lt : mantissa < 0x20000000000000
  exponent_ge : -1074 ≤ exponent
  exponent_le : exponent ≤ 971
  canonical : 0x10000000000000 ≤ mantissa ∨ exponent = -1074
deriving DecidableEq

namespace Magnitude

/-- The magnitude zero. -/
def zero : Magnitude where
  mantissa := 0
  exponent := -1074
  mantissa_lt := by decide
  exponent_ge := by decide
  exponent_le := by decide
  canonical := .inr rfl

/-- Numerator and denominator of the exact value. -/
def fraction (x : Magnitude) : Nat × Nat :=
  (x.mantissa * Nat.pow 2 x.exponent.toNat, Nat.pow 2 (-x.exponent).toNat)

/-- The magnitude with this mantissa and exponent; nothing when it is
not canonical or lies beyond the largest finite one. -/
def make? (mantissa : Nat) (exponent : Int) : Option Magnitude :=
  if h : mantissa < 0x20000000000000 ∧ -1074 ≤ exponent ∧ exponent ≤ 971 ∧
      (0x10000000000000 ≤ mantissa ∨ exponent = -1074) then
    some ⟨mantissa, exponent, h.1, h.2.1, h.2.2.1, h.2.2.2⟩
  else none

/-- The whole number nearest to `num / den`, a half going to the even
neighbour. -/
def roundHalfEven (num den : Nat) : Nat :=
  let quotient := num / den
  let twice := 2 * (num % den)
  if twice < den then quotient
  else if den < twice then quotient + 1
  else quotient + quotient % 2

/-- `num / den` measured in units of `2 ^ exponent`, as numerator and
denominator. -/
def scaled (num den : Nat) (exponent : Int) : Nat × Nat :=
  (num * Nat.pow 2 (-exponent).toNat, den * Nat.pow 2 exponent.toNat)

/-- The exponent of the magnitudes around `num / den`: the one that
leaves 53 bits before the point, but never below the smallest. -/
def exponentOf (num den : Nat) : Int :=
  let guess := max (-1074) ((num.log2 : Int) - den.log2 - 52)
  let (n, d) := scaled num den guess
  if n / d < 0x10000000000000 then max (-1074) (guess - 1) else guess

/-- The magnitude nearest to `num / den`, ties to the even mantissa;
nothing when that lies beyond the largest finite one. -/
def nearest? (num den : Nat) : Option Magnitude :=
  if num = 0 then some zero
  else
    let exponent := exponentOf num den
    let (n, d) := scaled num den exponent
    let mantissa := roundHalfEven n d
    if mantissa = 0x20000000000000 then make? 0x10000000000000 (exponent + 1)
    else make? mantissa exponent

end Magnitude

-- =========================================================== numbers

/-- A binary floating point number of 64 bits. -/
inductive Double where
  | finite (negative : Bool) (magnitude : Magnitude)
  | infinite (negative : Bool)
  | nan
deriving DecidableEq

namespace Double

/-- Neither infinite nor not-a-number. -/
def isFinite : Double → Bool
  | finite .. => true
  | _ => false

/-- Zero of either sign. -/
def isZero : Double → Bool
  | finite _ x => x.mantissa == 0
  | _ => false

/-- Whether the number is written with a minus sign. -/
def isNegative : Double → Bool
  | finite negative _ => negative
  | infinite negative => negative
  | nan => false

/-- Between zero and one, both included. -/
def inUnitInterval : Double → Bool
  | finite negative x =>
    let (num, den) := x.fraction
    x.mantissa == 0 || (!negative && decide (num ≤ den))
  | _ => false

/-- Beyond this many digits before the point every magnitude is
infinite. -/
def digitsOfLargest : Nat := 310

/-- With this many zeros after the point every magnitude is zero. -/
def zerosOfSmallest : Nat := 330

/-- The number of digits in the decimal text of `n`. -/
def digitCount (n : Nat) : Nat := (Nat.toDigits 10 n).length

/-- The number nearest to `digits * 10 ^ scale`. The two early answers
keep the power of ten small. -/
def ofDecimal (negative : Bool) (digits : Nat) (scale : Int) : Double :=
  let top := digitCount digits + scale
  if digits = 0 ∨ top < -(zerosOfSmallest : Int) then finite negative .zero
  else if (digitsOfLargest : Int) < top then infinite negative
  else
    match Magnitude.nearest? (digits * Nat.pow 10 scale.toNat) (Nat.pow 10 (-scale).toNat) with
    | some x => finite negative x
    | none => infinite negative

/-- The number nearest to a whole number. -/
def ofInt (i : Int) : Double := ofDecimal (decide (i < 0)) i.natAbs 0

end Double

end TypedSelect
