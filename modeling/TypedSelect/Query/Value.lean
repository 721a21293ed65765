/-
The constants of a query.

A constant keeps whether it was written as a whole number or as a
floating point one; its SQL text does not show the difference.
-/
import TypedSelect.Double.Text

namespace TypedSelect

/-- A number: whole and of 64 bits, or floating point. -/
inductive Number where
  | int (value : Int64)
  | float (value : Double)
deriving DecidableEq

namespace Number

/-- Not an infinity and not not-a-number. -/
def isFinite : Number → Bool
  | int _ => true
  | float x => x.isFinite

/-- Zero of either kind and either sign. -/
def isZero : Number → Bool
  | int i => i == 0
  | float x => x.isZero

/-- The text in SQL and in messages. -/
def text : Number → String
  | int i => toString i.toInt
  | float x => x.plainText

end Number

/-- A constant to compare with. -/
inductive Literal where
  | bool (value : Bool)
  | int (value : Int64)
  | float (value : Double)
  | string (value : String)
deriving DecidableEq

namespace Literal

/-- A text constant. -/
def isString : Literal → Bool
  | string _ => true
  | _ => false

/-- The constant of a number. -/
def ofNumber : Number → Literal
  | .int i => int i
  | .float x => float x

end Literal

/-- The right side of a predicate: one constant or a list of them. -/
inductive Comparand where
  | list (values : List Literal)
  | scalar (value : Literal)
deriving DecidableEq

end TypedSelect
