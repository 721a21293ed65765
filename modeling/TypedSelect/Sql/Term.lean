/-
The SQL of constants, columns and operators.

A negative number is a minus sign and the number without it. Columns are
written as the caller spelled them, once the scope has admitted them;
one that it does not admit is reported before the rendering fails.
-/
import TypedSelect.Event
import TypedSelect.Scope
import TypedSelect.Sql.Lexeme

namespace TypedSelect

open Sql

-- ========================================================== constants

/-- A number that is written with or without a minus sign. -/
def Sql.signed (negative : Bool) (row : Sql) : Sql :=
  if negative then .sign "-" :: row else row

/-- A whole number. -/
def Sql.int (i : Int) : Sql := signed (decide (i < 0)) [.number (toString i.natAbs)]

/-- A floating point number; the ones that are not finite are names. -/
def Double.sql (x : Double) : Sql :=
  signed x.isNegative [if x.isFinite then .number x.unsignedText else .word x.unsignedText]

/-- A number. -/
def Number.sql : Number → Sql
  | int i => Sql.int i.toInt
  | float x => x.sql

/-- A constant. -/
def Literal.sql : Literal → Sql
  | bool true => [.word "TRUE"]
  | bool false => [.word "FALSE"]
  | int i => Sql.int i.toInt
  | float x => x.sql
  | string s => [.string s]

-- ============================================================ columns

/-- A column reference as the caller spelled it. -/
def QualifiedColumn.sql (c : QualifiedColumn) : Sql :=
  match c.qualifier with
  | some q => [.word q, .sign ".", .word c.column.name]
  | none => [.word c.column.name]

/-- A column reference, if it may stand in this scope. -/
def Scope.render (s : Scope) (c : QualifiedColumn) : Traced Sql :=
  if s.admits c then pure c.sql
  else do
    Traced.report (.aliasUnresolved (c.qualifier.getD "") c.text)
    Traced.fail (Scope.unresolved c)

/-- Columns by name. -/
def Sql.columns (columns : List Column) : Sql :=
  listed (columns.map fun c => [.word c.name])

/-- A table, perhaps under a new name. -/
def Sql.table (table : Table) (aliasName : Option String) : Sql :=
  match aliasName with
  | some aliasName => named [.word table.name] aliasName
  | none => [.word table.name]

-- ========================================================== operators

/-- The sign of an arithmetic operator. -/
def ArithmeticOp.sql (op : ArithmeticOp) : Sql := [.sign op.name]

/-- A comparison operator: a sign or some keywords. -/
def ComparisonOp.sql : ComparisonOp → Sql
  | like => words ["LIKE"]
  | ilike => words ["ILIKE"]
  | isIn => words ["IN"]
  | notIn => words ["NOT", "IN"]
  | isNull => words ["IS", "NULL"]
  | isNotNull => words ["IS", "NOT", "NULL"]
  | op => [.sign op.name]

/-- Rows with a connective between them. -/
def Logic.join (logic : Logic) (rows : List Sql) : Sql :=
  separated [space, .word logic.name, space] rows

/-- The keywords for the place of the nulls. -/
def NullsOrder.sql (o : NullsOrder) : Sql := words ["NULLS", o.name]

end TypedSelect
