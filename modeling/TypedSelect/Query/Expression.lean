/-
The expressions of a query: column references, sort keys, predicates
and the items of a select list.

Nothing here is recursive. An arithmetic operand is a column or a number
and never another arithmetic expression, a CASE branch tests one simple
predicate, and a predicate has no predicate inside. That keeps every
query at a fixed depth.
-/
import TypedSelect.Vocabulary
import TypedSelect.Query.Value

namespace TypedSelect

-- ============================================================ columns

/-- A column, perhaps of a table that is named. -/
structure QualifiedColumn where
  qualifier : Option String
  column : Column
deriving DecidableEq

namespace QualifiedColumn

/-- A column of whatever table has it. -/
def bare (column : Column) : QualifiedColumn := ⟨none, column⟩

/-- A column of the named table. -/
def qualified (qualifier : String) (column : Column) : QualifiedColumn :=
  ⟨some qualifier, column⟩

/-- The reference as SQL and messages show it. -/
def text (c : QualifiedColumn) : String :=
  match c.qualifier with
  | some q => q ++ "." ++ c.column.name
  | none => c.column.name

end QualifiedColumn

-- =============================================================== sort

/-- What a sort looks at: a column, or an output of the select list. -/
inductive SortKey where
  | column (column : QualifiedColumn)
  | output (name : String)
deriving DecidableEq

/-- One key of a sort. -/
structure OrderItem where
  key : SortKey
  direction : Direction := .desc
  nulls : Option NullsOrder := none
deriving DecidableEq

-- ========================================================= arithmetic

/-- One side of an arithmetic operator. -/
inductive Operand where
  | column (column : QualifiedColumn)
  | number (value : Number)
deriving DecidableEq

/-- `left op right`. -/
structure Arithmetic where
  left : Operand
  op : ArithmeticOp
  right : Operand
deriving DecidableEq

-- ========================================================= predicates

/-- A column tested against constants. -/
structure Comparison where
  column : QualifiedColumn
  op : ComparisonOp
  value : Option Comparand
deriving DecidableEq

/-- A column tested against a column. -/
structure ColumnComparison where
  left : QualifiedColumn
  op : ComparisonOp
  right : QualifiedColumn
deriving DecidableEq

/-- A column tested against a range. -/
structure Between where
  column : QualifiedColumn
  low : Literal
  high : Literal
deriving DecidableEq

/-- One predicate. -/
inductive Condition where
  | simple (comparison : Comparison)
  | columns (comparison : ColumnComparison)
  | between (range : Between)
deriving DecidableEq

/-- Predicates under one connective. -/
structure ConditionGroup where
  conditions : List Condition
  logic : Logic := .and
deriving DecidableEq

/-- The group of one predicate. -/
def ConditionGroup.single (c : Condition) : ConditionGroup := ⟨[c], .and⟩

-- ======================================================== select list

/-- A column, perhaps under a new name. -/
structure ColumnExpr where
  qualifier : Option String
  column : Column
  aliasName : Option String
deriving DecidableEq

/-- The column without its new name. -/
def ColumnExpr.source (e : ColumnExpr) : QualifiedColumn := ⟨e.qualifier, e.column⟩

/-- Arithmetic on two operands. -/
structure BinaryArithmetic where
  arithmetic : Arithmetic
  aliasName : String
deriving DecidableEq

/-- Arithmetic whose left side is arithmetic on two operands. -/
structure CompoundArithmetic where
  inner : Arithmetic
  op : ArithmeticOp
  outer : Operand
  aliasName : String
deriving DecidableEq

/-- What an aggregate looks at in each row. -/
inductive AggregateInput where
  | column (column : QualifiedColumn)
  | arithmetic (arithmetic : Arithmetic)
deriving DecidableEq

/-- An aggregate; a count without an input counts rows. -/
structure AggregateExpr where
  function : AggregateFunction
  input : Option AggregateInput
  distinct : Bool
  percentile : Option Double
  aliasName : String
deriving DecidableEq

/-- A function over a window of rows. -/
structure WindowExpr where
  function : WindowFunction
  column : Option QualifiedColumn
  partitionBy : List QualifiedColumn
  orderBy : List OrderItem
  offset : Option UInt32
  default : Option Literal
  aliasName : String
deriving DecidableEq

/-- What a CASE yields. -/
inductive CaseResult where
  | column (column : QualifiedColumn)
  | literal (value : Literal)
deriving DecidableEq

/-- One branch of a CASE. -/
structure CaseBranch where
  condition : Comparison
  result : CaseResult
deriving DecidableEq

/-- A CASE; without an else it yields null. -/
structure CaseExpr where
  branches : List CaseBranch
  otherwise : Option CaseResult
  aliasName : String
deriving DecidableEq

/-- One item of a select list. -/
inductive SelectExpr where
  | column (e : ColumnExpr)
  | binary (e : BinaryArithmetic)
  | compound (e : CompoundArithmetic)
  | aggregate (e : AggregateExpr)
  | window (e : WindowExpr)
  | case (e : CaseExpr)
deriving DecidableEq

/-- The name an item gives to its output, if it gives one. -/
def SelectExpr.aliasName? : SelectExpr → Option String
  | column e => e.aliasName
  | binary e => some e.aliasName
  | compound e => some e.aliasName
  | aggregate e => some e.aliasName
  | window e => some e.aliasName
  | case e => some e.aliasName

end TypedSelect
