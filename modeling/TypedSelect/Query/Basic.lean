/-
The clauses of a query and the query itself.

Filters come in two sorts. A `Filter` has no place for a subquery; it
stands in subqueries and derived tables, so these never nest. A
`TopFilter` is a filter with subqueries beside it, and every filter is
one with none.
-/
import TypedSelect.Query.Expression

namespace TypedSelect

-- ============================================================ filters

/-- Groups of predicates and ranges under one connective. -/
structure Filter where
  groups : List ConditionGroup := []
  between : List Between := []
  logic : Logic := .and
deriving DecidableEq

/-- Nothing to test. -/
def Filter.isEmpty (w : Filter) : Bool := w.groups.isEmpty && w.between.isEmpty

/-- An aggregate over a table of its own; under IN it may be grouped. -/
structure ScalarSubquery where
  table : Table
  aliasName : Option String
  aggregate : AggregateExpr
  filter : Option Filter
  groupBy : List Column
deriving DecidableEq

/-- A column tested against a subquery. -/
structure SubqueryCondition where
  column : QualifiedColumn
  op : ComparisonOp
  subquery : ScalarSubquery
deriving DecidableEq

/-- A filter with subqueries beside it. -/
structure TopFilter extends Filter where
  subqueries : List SubqueryCondition := []
deriving DecidableEq

/-- Nothing to test. -/
def TopFilter.isEmpty (w : TopFilter) : Bool :=
  w.toFilter.isEmpty && w.subqueries.isEmpty

/-- A filter as one that could have subqueries. -/
def Filter.promote (w : Filter) : TopFilter := { w with subqueries := [] }

-- ============================================================ sources

/-- A query over one table that stands in the place of a table. -/
structure DerivedTable where
  select : List SelectExpr
  table : Table
  aliasName : String
  filter : Option Filter
  groupBy : List Column
deriving DecidableEq

/-- A table joined to those before it. -/
structure Join where
  type : JoinType
  table : Table
  aliasName : Option String
  on : List ConditionGroup
deriving DecidableEq

/-- Where the rows come from: a table or a derived one, and joins. -/
structure FromClause where
  table : Option Table
  aliasName : Option String
  joins : List Join
  derived : Option DerivedTable
deriving DecidableEq

namespace FromClause

/-- The rows of one table. -/
def ofTable (table : Table) : FromClause := ⟨some table, none, [], none⟩

/-- The rows of one table under a new name. -/
def aliased (table : Table) (aliasName : String) : FromClause :=
  ⟨some table, some aliasName, [], none⟩

/-- The rows of a derived table. -/
def ofDerived (derived : DerivedTable) : FromClause := ⟨none, none, [], some derived⟩

/-- The same source with one more join. -/
def join (source : FromClause) (j : Join) : FromClause :=
  { source with joins := source.joins ++ [j] }

end FromClause

-- ====================================================== other clauses

/-- The columns that make a group. -/
structure GroupBy where
  columns : List Column
deriving DecidableEq

/-- An aggregate of a group tested against a constant. -/
structure HavingCondition where
  function : AggregateFunction
  column : Option QualifiedColumn
  op : ComparisonOp
  value : Literal
deriving DecidableEq

/-- Tests on groups under one connective. -/
structure Having where
  conditions : List HavingCondition
  logic : Logic := .and
deriving DecidableEq

/-- The keys of a sort, the first one foremost. -/
structure OrderBy where
  items : List OrderItem
deriving DecidableEq

/-- How many rows to return and how many to pass over. -/
structure Limit where
  limit : UInt64
  offset : UInt64 := 0
deriving DecidableEq

-- ============================================================== query

/-- One SELECT statement. -/
structure Query where
  select : List SelectExpr
  source : FromClause
  filter : Option TopFilter
  groupBy : Option GroupBy
  having : Option Having
  orderBy : Option OrderBy
  limit : Option Limit
deriving DecidableEq

/-- The names that the select list gives to its outputs, in order. -/
def Query.selectAliases (q : Query) : List String := q.select.filterMap SelectExpr.aliasName?

end TypedSelect
