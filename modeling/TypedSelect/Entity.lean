/-
The names of everything a query is made of.

Error texts say which entity they are about, and the schema describes
each entity under its name.
-/
import TypedSelect.Vocabulary

namespace TypedSelect

/-- The kinds of thing that occur in the JSON form of a query. -/
inductive Entity where
  | table
  | column
  | arithmeticOp
  | comparisonOp
  | aggregateFunction
  | windowFunction
  | joinType
  | logic
  | direction
  | nullsOrder
  | number
  | literal
  | comparand
  | qualifiedColumn
  | operand
  | sortKey
  | orderItem
  | columnExpr
  | binaryArithmetic
  | compoundArithmetic
  | arithmetic
  | aggregateInput
  | aggregateExpr
  | windowExpr
  | caseResult
  | caseBranch
  | caseExpr
  | selectExpr
  | comparison
  | columnComparison
  | between
  | condition
  | conditionGroup
  | filter
  | scalarSubquery
  | subqueryCondition
  | topFilter
  | join
  | derivedTable
  | fromClause
  | groupBy
  | havingCondition
  | having
  | orderBy
  | limit
  | query
deriving DecidableEq, Repr

/-- The name of an entity in messages and in the schema. -/
def Entity.name : Entity → String
  | table => "Table"
  | column => "Column"
  | arithmeticOp => "ArithmeticOp"
  | comparisonOp => "ComparisonOp"
  | aggregateFunction => "AggregateFunc"
  | windowFunction => "WindowFunc"
  | joinType => "JoinType"
  | logic => "LogicOp"
  | direction => "Direction"
  | nullsOrder => "NullsOrder"
  | number => "Number"
  | literal => "Literal"
  | comparand => "ConditionValue"
  | qualifiedColumn => "QualifiedColumn"
  | operand => "Operand"
  | sortKey => "SortKey"
  | orderItem => "OrderByItem"
  | columnExpr => "ColumnExpr"
  | binaryArithmetic => "BinaryArithmetic"
  | compoundArithmetic => "CompoundArithmetic"
  | arithmetic => "ArithmeticInput"
  | aggregateInput => "AggregateInput"
  | aggregateExpr => "AggregateExpr"
  | windowExpr => "WindowExpr"
  | caseResult => "CaseResult"
  | caseBranch => "CaseWhen"
  | caseExpr => "CaseExpr"
  | selectExpr => "SelectExpr"
  | comparison => "SimpleCondition"
  | columnComparison => "ColumnComparison"
  | between => "BetweenCondition"
  | condition => "Condition"
  | conditionGroup => "ConditionGroup"
  | filter => "WhereL0"
  | scalarSubquery => "ScalarSubquery"
  | subqueryCondition => "SubqueryCondition"
  | topFilter => "WhereL1"
  | join => "JoinSpec"
  | derivedTable => "DerivedTable"
  | fromClause => "FromClause"
  | groupBy => "GroupByClause"
  | havingCondition => "HavingCondition"
  | having => "HavingClause"
  | orderBy => "OrderByClause"
  | limit => "LimitClause"
  | query => "Query"

instance : Vocabulary Entity where
  all := [.table, .column, .arithmeticOp, .comparisonOp, .aggregateFunction,
    .windowFunction, .joinType, .logic, .direction, .nullsOrder, .number,
    .literal, .comparand, .qualifiedColumn, .operand, .sortKey, .orderItem,
    .columnExpr, .binaryArithmetic, .compoundArithmetic, .arithmetic,
    .aggregateInput, .aggregateExpr, .windowExpr, .caseResult, .caseBranch,
    .caseExpr, .selectExpr, .comparison, .columnComparison, .between,
    .condition, .conditionGroup, .filter, .scalarSubquery, .subqueryCondition,
    .topFilter, .join, .derivedTable, .fromClause, .groupBy, .havingCondition,
    .having, .orderBy, .limit, .query]
  name := Entity.name

end TypedSelect
