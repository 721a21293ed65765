/-
Numbers given by a significand and a power of ten.

The significand is rounded to a number, and that number is multiplied or
divided by the nearest number to the power of ten. Each of these steps
goes to the nearest number, but several of them need not end at the
number nearest to the decimal; they do where all but the last are exact.
Powers of ten beyond `maxPowerOfTen` are no numbers: nothing is
multiplied by one, and a division by one is done piece by piece.
-/
import TypedSelect.Double.Basic

namespace TypedSelect

namespace Magnitude

-- ======================================================== arithmetic

/-- The product, rounded; nothing when it lies beyond the largest finite
magnitude. -/
def mul? (x y : Magnitude) : Option Magnitude :=
  let (a, b) := x.fraction
  let (c, d) := y.fraction
  nearest? (a * c) (b * d)

/-- The quotient by a magnitude other than zero, rounded; nothing when
it lies beyond the largest finite magnitude. -/
def div? (x y : Magnitude) : Option Magnitude :=
  let (a, b) := x.fraction
  let (c, d) := y.fraction
  nearest? (a * d) (b * c)

-- ===================================================== powers of ten

/-- The largest power of ten among the magnitudes. -/
def maxPowerOfTen : Nat := 308

/-- The magnitude nearest to a power of ten. -/
def powerOfTen? (power : Nat) : Option Magnitude := nearest? (Nat.pow 10 power) 1

/-- `x * 10 ^ power`. -/
def raise? (x : Magnitude) (power : Nat) : Option Magnitude :=
  if x.mantissa = 0 then some x
  else if power ≤ maxPowerOfTen then (powerOfTen? power).bind x.mul?
  else none

/-- `x / 10 ^ power`, the largest pieces of the power first. -/
def lower? (x : Magnitude) (power : Nat) : Option Magnitude :=
  if x.mantissa = 0 then some x
  else if _h : power ≤ maxPowerOfTen then (powerOfTen? power).bind x.div?
  else do
    let y ← (powerOfTen? maxPowerOfTen).bind x.div?
    y.lower? (power - maxPowerOfTen)
termination_by power
decreasing_by
  simp only [maxPowerOfTen] at *
  omega

/-- `significand * 10 ^ scale`; nothing when it lies beyond the largest
finite magnitude. -/
def ofScaled? (significand : Nat) (scale : Int) : Option Magnitude := do
  let x ← nearest? significand 1
  if 0 ≤ scale then x.raise? scale.toNat else x.lower? (-scale).toNat

end Magnitude

end TypedSelect
