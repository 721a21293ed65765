/-
The shortest decimal that a given number is the nearest number to.

A `Decimal` is a whole number of digits and a power of ten. For one,
two, up to seventeen digits the search looks at the two neighbours of
the number on that decimal grid and keeps the first grid where one of
them reads back; of two that do, the nearer wins, and `Tie` says which
of two equally near ones. Here a decimal reads back as the number that
is nearest to it. The texts of a number are laid out from the result.
-/
import TypedSelect.Double.Basic

namespace TypedSelect

/-- The decimal `digits * 10 ^ scale`. -/
structure Decimal where
  digits : Nat
  scale : Int
deriving DecidableEq

/-- Which of two equally near decimals a text takes. -/
inductive Tie where
  | even
  | up
deriving DecidableEq

namespace Decimal

/-- The number nearest to a decimal, with a sign. -/
def toDouble (negative : Bool) (d : Decimal) : Double :=
  Double.ofDecimal negative d.digits d.scale

/-- The same decimal with `fuel` trailing zeros at most moved into the
scale. -/
def stripZeros : Nat → Decimal → Decimal
  | 0, d => d
  | fuel + 1, d =>
    if d.digits ≠ 0 ∧ d.digits % 10 = 0 then
      stripZeros fuel ⟨d.digits / 10, d.scale + 1⟩
    else d

end Decimal

namespace Magnitude

/-- Whether a decimal reads back as this magnitude. -/
def readsBack (x : Magnitude) (d : Decimal) : Bool :=
  d.toDouble false == .finite false x

/-- The exact decimal value. -/
def exactDecimal (x : Magnitude) : Decimal :=
  ⟨x.mantissa * Nat.pow 2 x.exponent.toNat * Nat.pow 5 (-x.exponent).toNat,
    if 0 ≤ x.exponent then 0 else x.exponent⟩

/-- The power of ten of the leading digit of a magnitude other than
zero. The factor makes the smallest magnitude exceed one. -/
def leadingScale (x : Magnitude) : Int :=
  let (num, den) := x.fraction
  (Double.digitCount (num * Nat.pow 10 350 / den) : Int) - 351

/-- The neighbours below and above a magnitude among the multiples of
`10 ^ scale`, and how twice the distance from the lower one compares
with a grid step. -/
def neighbours (x : Magnitude) (scale : Int) : Nat × Nat × Ordering :=
  let (num, den) := x.fraction
  let n := num * Nat.pow 10 (-scale).toNat
  let d := den * Nat.pow 10 scale.toNat
  let low := n / d
  let rest := n % d
  (low, if rest = 0 then low else low + 1, compare (2 * rest) d)

/-- The decimal with steps of `10 ^ scale` that reads back as `x`, if
there is one. -/
def onGrid (tie : Tie) (x : Magnitude) (scale : Int) : Option Decimal :=
  let (low, high, halfway) := x.neighbours scale
  let below : Decimal := ⟨low, scale⟩
  let above : Decimal := ⟨high, scale⟩
  match x.readsBack below, x.readsBack above with
  | true, false => some below
  | false, true => some above
  | false, false => none
  | true, true =>
    match halfway with
    | .lt => some below
    | .gt => some above
    | .eq =>
      match tie with
      | .up => some above
      | .even => some (if low % 2 = 0 then below else above)

/-- The shortest decimal that reads back as `x`; zero for zero. -/
def shortest (tie : Tie) (x : Magnitude) : Decimal :=
  if x.mantissa = 0 then ⟨0, 0⟩
  else
    let top := x.leadingScale
    let found := (List.range 17).findSome? fun (n : Nat) => x.onGrid tie (top - (n : Int))
    (found.getD x.exactDecimal).stripZeros 400

end Magnitude

end TypedSelect
