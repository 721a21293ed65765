/-
Making queries and their parts, checked on the way out.

A constructor that can go wrong returns the value only if it is valid,
so what it returns keeps the rules. A query is put together clause by
clause from its source, a window function part by part from its
function; `checked` closes both. Reading a query from JSON checks the
same rules.
-/
import TypedSelect.Query.Codec.Clause
import TypedSelect.Query.Validity
import TypedSelect.Scope.Check

namespace TypedSelect

/-- A value, if it passes a check. -/
def Validation.guard {α : Type} (check : α → Validation) (a : α) :
    Except ValidationError α := do
  check a
  return a

open Validation (guard)

-- ==================================================== columns and keys

/-- A sort key on a column, in a direction. -/
def OrderItem.by (key : SortKey) (direction : Direction) : OrderItem :=
  { key, direction }

/-- The same key with a place for the nulls. -/
def OrderItem.withNulls (i : OrderItem) (nulls : NullsOrder) : OrderItem :=
  { i with nulls := some nulls }

/-- A column under its own name. -/
def ColumnExpr.bare (column : Column) : ColumnExpr := ⟨none, column, none⟩

/-- A column of the named table. -/
def ColumnExpr.qualified (qualifier : String) (column : Column) : ColumnExpr :=
  ⟨some qualifier, column, none⟩

/-- The same column under a new name. -/
def ColumnExpr.withAlias (e : ColumnExpr) (aliasName : String) : ColumnExpr :=
  { e with aliasName := some aliasName }

-- ============================================= arithmetic and aggregates

/-- Arithmetic with a name. -/
def BinaryArithmetic.make (left : Operand) (op : ArithmeticOp) (right : Operand)
    (aliasName : String) : Except ValidationError BinaryArithmetic :=
  guard BinaryArithmetic.validate ⟨⟨left, op, right⟩, aliasName⟩

/-- Arithmetic inside arithmetic, with a name. -/
def CompoundArithmetic.make (inner : Arithmetic) (op : ArithmeticOp) (outer : Operand)
    (aliasName : String) : Except ValidationError CompoundArithmetic :=
  guard CompoundArithmetic.validate ⟨inner, op, outer, aliasName⟩

namespace AggregateExpr

/-- An aggregate of all values. -/
def make (function : AggregateFunction) (input : Option AggregateInput)
    (aliasName : String) : Except ValidationError AggregateExpr :=
  guard validate ⟨function, input, false, none, aliasName⟩

/-- A count of rows. -/
def countRows (aliasName : String) : Except ValidationError AggregateExpr :=
  make .count none aliasName

/-- An aggregate of the distinct values. -/
def makeDistinct (function : AggregateFunction) (input : AggregateInput)
    (aliasName : String) : Except ValidationError AggregateExpr :=
  guard validate ⟨function, some input, true, none, aliasName⟩

/-- An aggregate at a fraction of the sorted values. -/
def makePercentile (function : AggregateFunction) (input : AggregateInput)
    (fraction : Double) (aliasName : String) : Except ValidationError AggregateExpr :=
  guard validate ⟨function, some input, false, some fraction, aliasName⟩

end AggregateExpr

/-- A CASE. -/
def CaseExpr.make (branches : List CaseBranch) (otherwise : Option CaseResult)
    (aliasName : String) : Except ValidationError CaseExpr :=
  guard CaseExpr.validate ⟨branches, otherwise, aliasName⟩

-- ============================================================ windows

namespace WindowExpr

/-- A window function with nothing but its name. -/
def start (function : WindowFunction) (aliasName : String) : WindowExpr :=
  ⟨function, none, [], [], none, none, aliasName⟩

/-- The same window with its argument. -/
def withColumn (w : WindowExpr) (column : QualifiedColumn) : WindowExpr :=
  { w with column := some column }

/-- The same window with one more column to part by. -/
def addPartition (w : WindowExpr) (column : QualifiedColumn) : WindowExpr :=
  { w with partitionBy := w.partitionBy ++ [column] }

/-- The same window with one more sort key. -/
def addOrder (w : WindowExpr) (item : OrderItem) : WindowExpr :=
  { w with orderBy := w.orderBy ++ [item] }

/-- The same window with an offset. -/
def withOffset (w : WindowExpr) (offset : UInt32) : WindowExpr :=
  { w with offset := some offset }

/-- The same window with a default. -/
def withDefault (w : WindowExpr) (value : Literal) : WindowExpr :=
  { w with default := some value }

/-- The window, if it is valid. -/
def checked (w : WindowExpr) : Except ValidationError WindowExpr :=
  guard validate w

end WindowExpr

-- ========================================================= predicates

namespace Comparison

/-- A test against one constant. -/
def scalar (column : QualifiedColumn) (op : ComparisonOp) (value : Literal) :
    Except ValidationError Comparison :=
  guard validate ⟨column, op, some (.scalar value)⟩

/-- A test for equality. -/
def equals (column : QualifiedColumn) (value : Literal) :
    Except ValidationError Comparison := scalar column .eq value

/-- A test against a list. -/
def ofList (column : QualifiedColumn) (op : ComparisonOp) (values : List Literal) :
    Except ValidationError Comparison :=
  guard validate ⟨column, op, some (.list values)⟩

/-- A test for null. -/
def null (column : QualifiedColumn) : Comparison := ⟨column, .isNull, none⟩

/-- A test for anything but null. -/
def notNull (column : QualifiedColumn) : Comparison := ⟨column, .isNotNull, none⟩

end Comparison

/-- A test between columns. -/
def ColumnComparison.make (left : QualifiedColumn) (op : ComparisonOp)
    (right : QualifiedColumn) : Except ValidationError ColumnComparison :=
  guard ColumnComparison.validate ⟨left, op, right⟩

/-- A test against a range. -/
def Between.make (column : QualifiedColumn) (low high : Literal) :
    Except ValidationError Between :=
  guard Between.validate ⟨column, low, high⟩

/-- Predicates under a connective. -/
def ConditionGroup.make (conditions : List Condition) (logic : Logic) :
    Except ValidationError ConditionGroup :=
  guard ConditionGroup.validate ⟨conditions, logic⟩

/-- A filter. -/
def Filter.make (groups : List ConditionGroup) (between : List Between)
    (logic : Logic) : Except ValidationError Filter :=
  guard Filter.validate ⟨groups, between, logic⟩

/-- A filter with subqueries. -/
def TopFilter.make (groups : List ConditionGroup) (between : List Between)
    (subqueries : List SubqueryCondition) (logic : Logic) :
    Except ValidationError TopFilter :=
  guard TopFilter.validate ⟨⟨groups, between, logic⟩, subqueries⟩

/-- A subquery without a filter and without groups. -/
def ScalarSubquery.ofTable (table : Table) (aggregate : AggregateExpr) :
    ScalarSubquery := ⟨table, none, aggregate, none, []⟩

/-- A test against a subquery. -/
def SubqueryCondition.make (column : QualifiedColumn) (op : ComparisonOp)
    (subquery : ScalarSubquery) : Except ValidationError SubqueryCondition :=
  guard SubqueryCondition.validate ⟨column, op, subquery⟩

-- ============================================================ clauses

/-- A join. -/
def Join.make (type : JoinType) (table : Table) (aliasName : Option String)
    (on : List ConditionGroup) : Except ValidationError Join :=
  guard Join.validate ⟨type, table, aliasName, on⟩

/-- A derived table. -/
def DerivedTable.make (select : List SelectExpr) (table : Table) (aliasName : String)
    (filter : Option Filter) (groupBy : List Column) :
    Except ValidationError DerivedTable :=
  guard DerivedTable.validate ⟨select, table, aliasName, filter, groupBy⟩

/-- The columns that make a group. -/
def GroupBy.make (columns : List Column) : Except ValidationError GroupBy :=
  guard GroupBy.validate ⟨columns⟩

/-- A test on a group. -/
def HavingCondition.make (function : AggregateFunction)
    (column : Option QualifiedColumn) (op : ComparisonOp) (value : Literal) :
    Except ValidationError HavingCondition :=
  guard HavingCondition.validate ⟨function, column, op, value⟩

/-- Tests on groups under a connective. -/
def Having.make (conditions : List HavingCondition) (logic : Logic) :
    Except ValidationError Having :=
  guard Having.validate ⟨conditions, logic⟩

/-- The keys of a sort. -/
def OrderBy.make (items : List OrderItem) : Except ValidationError OrderBy :=
  guard OrderBy.validate ⟨items⟩

-- ============================================================== query

namespace Query

/-- The rows of a source with nothing selected yet. -/
def start (source : FromClause) : Query := ⟨[], source, none, none, none, none, none⟩

/-- The same query with more items in its select list. -/
def addSelect (q : Query) (items : List SelectExpr) : Query :=
  { q with select := q.select ++ items }

/-- The same query with a filter. -/
def withFilter (q : Query) (filter : TopFilter) : Query := { q with filter := some filter }

/-- The same query with groups. -/
def withGroupBy (q : Query) (groupBy : GroupBy) : Query := { q with groupBy := some groupBy }

/-- The same query with tests on its groups. -/
def withHaving (q : Query) (having : Having) : Query := { q with having := some having }

/-- The same query with a sort. -/
def withOrderBy (q : Query) (orderBy : OrderBy) : Query := { q with orderBy := some orderBy }

/-- The same query with a limit. -/
def withLimit (q : Query) (limit : Limit) : Query := { q with limit := some limit }

/-- The query, if it is valid and its table names resolve. -/
def checked (q : Query) : Except ValidationError Query := do
  q.validate
  q.checkAliases
  return q

/-- The valid query that a JSON text denotes under some reading of
numbers. -/
def ofJsonWith (reading : Json.Numeral.Reading) (source : String) :
    Except ValidationError Query :=
  match Query.codec.readWith reading source with
  | some q => q.checked
  | none => .error .malformed

/-- The valid query that a JSON text denotes. -/
def ofJson (source : String) : Except ValidationError Query :=
  ofJsonWith Json.Numeral.toDouble? source

end Query

end TypedSelect
