/-
The rules that a well-made query keeps.

Every entity checks its own rule and then, in a fixed order, the parts
it is made of; the first broken rule is the answer. A query that passes
here can be rendered: what is left to go wrong are its table names,
which the scope decides.
-/
import TypedSelect.Check
import TypedSelect.Error
import TypedSelect.Identifier
import TypedSelect.Query.Basic

namespace TypedSelect

/-- Nothing, or the first rule that is broken. -/
abbrev Validation := Except ValidationError Unit

open Check (require optional each)

namespace Validation

/-- A name that can be emitted. -/
def identifier (e : Entity) (name : String) : Validation :=
  require (isIdentifier name) (.invalidIdentifier e name)

/-- A constant that can be written: a finite number, or a text without
the character zero. -/
def literal (e : Entity) (field : String) : Literal → Validation
  | .float x =>
    require x.isFinite (.outOfRange e field (.notFinite x.plainText))
  | .string s =>
    require (!s.toList.contains (Char.ofNat 0)) (.outOfRange e field .nulByte)
  | _ => .ok ()

end Validation

open Validation (identifier literal)

-- ========================================================= expressions

/-- The qualifier is a name. -/
def QualifiedColumn.validate (c : QualifiedColumn) : Validation :=
  optional (identifier .qualifiedColumn) c.qualifier

/-- The column is valid, or the alias is a name. -/
def OrderItem.validate (i : OrderItem) : Validation :=
  match i.key with
  | .column c => c.validate
  | .output name => identifier .orderItem name

/-- The column is valid, or the number is finite. -/
def Operand.validate (e : Entity) (field : String) : Operand → Validation
  | .column c => c.validate
  | .number n => require n.isFinite (.outOfRange e field (.notFinite n.text))

/-- A number that divides is not zero. -/
def Operand.validateDivisor (e : Entity) (field : String) (op : ArithmeticOp) :
    Operand → Validation
  | .column _ => .ok ()
  | .number n => require (!(op == .div && n.isZero)) (.outOfRange e field .zeroDivisor)

/-- Both operands are valid, and a number that divides is not zero. -/
def Arithmetic.validate (e : Entity) (a : Arithmetic) : Validation := do
  a.left.validate e "left"
  a.right.validate e "right"
  a.right.validateDivisor e "right" a.op

/-- The arithmetic is valid and the alias is a name. -/
def BinaryArithmetic.validate (b : BinaryArithmetic) : Validation := do
  b.arithmetic.validate .binaryArithmetic
  identifier .binaryArithmetic b.aliasName

/-- The three operands are valid, then the two divisions, and the alias
is a name. -/
def CompoundArithmetic.validate (c : CompoundArithmetic) : Validation := do
  c.inner.left.validate .compoundArithmetic "inner_left"
  c.inner.right.validate .compoundArithmetic "inner_right"
  c.outer.validate .compoundArithmetic "outer"
  c.inner.right.validateDivisor .compoundArithmetic "inner_right" c.inner.op
  c.outer.validateDivisor .compoundArithmetic "outer" c.op
  identifier .compoundArithmetic c.aliasName

/-- The table's qualifier and the new name are names. -/
def ColumnExpr.validate (e : ColumnExpr) : Validation := do
  optional (identifier .columnExpr) e.qualifier
  optional (identifier .columnExpr) e.aliasName

/-- The column or the arithmetic is valid. -/
def AggregateInput.validate : AggregateInput → Validation
  | column c => c.validate
  | arithmetic a => a.validate .arithmetic

/-- Only a plain count goes without an input. -/
def AggregateExpr.validateInput (a : AggregateExpr) : Validation :=
  match a.input with
  | some input => input.validate
  | none => do
    require (a.function == .count) (.missingField .aggregateExpr "input")
    require (!a.distinct)
      (.functionMismatch .aggregateExpr a.function.name .distinctWithoutInput)

/-- A fraction between zero and one where the function needs one, and
none elsewhere. -/
def AggregateExpr.validatePercentile (a : AggregateExpr) : Validation :=
  match a.percentile with
  | none =>
    require (!a.function.requiresFraction) (.missingField .aggregateExpr "percentile")
  | some p =>
    if a.function.requiresFraction then
      require p.inUnitInterval
        (.outOfRange .aggregateExpr "percentile" (.outsideUnit p.plainText))
    else
      .error (.functionMismatch .aggregateExpr a.function.name .noPercentile)

/-- The alias is a name, and input, DISTINCT and fraction fit the
function. -/
def AggregateExpr.validate (a : AggregateExpr) : Validation := do
  identifier .aggregateExpr a.aliasName
  a.validateInput
  require (!(a.function.isPercentile && a.distinct))
    (.functionMismatch .aggregateExpr a.function.name .noDistinct)
  a.validatePercentile

/-- A ranking takes no column, and of the others only a count goes
without one. -/
def WindowExpr.validateArgument (w : WindowExpr) : Validation :=
  match w.column with
  | some c => do
    require (!w.function.isRanking)
      (.functionMismatch .windowExpr w.function.name .noArgument)
    c.validate
  | none =>
    require (w.function.isRanking || w.function == .count)
      (.missingField .windowExpr "column")

/-- Only the functions that look at another row have an offset or a
default. -/
def WindowExpr.validateOffset (w : WindowExpr) : Validation := do
  require (w.function.isOffset || w.offset.isNone)
    (.functionMismatch .windowExpr w.function.name .noOffset)
  require (w.function.isOffset || w.default.isNone)
    (.functionMismatch .windowExpr w.function.name .noDefault)
  optional (literal .windowExpr "default") w.default

/-- A window is sorted by columns. -/
def WindowExpr.validateOrder (w : WindowExpr) (i : OrderItem) : Validation :=
  match i.key with
  | .output _ => .error (.functionMismatch .windowExpr w.function.name .sortsByAlias)
  | .column _ => i.validate

/-- The alias is a name, and arguments and window fit the function. -/
def WindowExpr.validate (w : WindowExpr) : Validation := do
  identifier .windowExpr w.aliasName
  w.validateArgument
  w.validateOffset
  each QualifiedColumn.validate w.partitionBy
  each w.validateOrder w.orderBy

/-- The column or the constant is valid. -/
def CaseResult.validate : CaseResult → Validation
  | column c => c.validate
  | literal v => Validation.literal .caseResult "value" v

/-- The operator fits its right side. -/
def Comparison.validateValue (p : Comparison) : Validation :=
  if p.op.takesNothing then
    require p.value.isNone (.operatorMismatch .comparison p.op .takesNothing)
  else
    match p.value with
    | none => .error (.missingField .comparison "value")
    | some (.list values) => do
      require p.op.takesList (.operatorMismatch .comparison p.op .needsScalar)
      require (!values.isEmpty) (.empty .comparison "value")
      each (Validation.literal .comparison "value") values
    | some (.scalar value) => do
      require (!p.op.takesList) (.operatorMismatch .comparison p.op .needsList)
      require (!p.op.takesPattern || value.isString)
        (.operatorMismatch .comparison p.op .needsPattern)
      Validation.literal .comparison "value" value

/-- The column is valid and the operator fits its right side. -/
def Comparison.validate (p : Comparison) : Validation := do
  p.column.validate
  p.validateValue

/-- Both parts of a branch are valid. -/
def CaseBranch.validate (b : CaseBranch) : Validation := do
  b.condition.validate
  b.result.validate

/-- There is a branch, all branches are valid, and the alias is a name. -/
def CaseExpr.validate (c : CaseExpr) : Validation := do
  require (!c.branches.isEmpty) (.empty .caseExpr "branches")
  each CaseBranch.validate c.branches
  optional CaseResult.validate c.otherwise
  identifier .caseExpr c.aliasName

/-- The item is valid. -/
def SelectExpr.validate : SelectExpr → Validation
  | column e => e.validate
  | binary e => e.validate
  | compound e => e.validate
  | aggregate e => e.validate
  | window e => e.validate
  | case e => e.validate

-- ========================================================== predicates

/-- Both columns are valid and the operator compares. -/
def ColumnComparison.validate (p : ColumnComparison) : Validation := do
  p.left.validate
  p.right.validate
  require p.op.isOrdering (.operatorMismatch .columnComparison p.op .betweenColumns)

/-- The column and both ends are valid. -/
def Between.validate (p : Between) : Validation := do
  p.column.validate
  literal .between "low" p.low
  literal .between "high" p.high

/-- The predicate is valid. -/
def Condition.validate : Condition → Validation
  | simple p => p.validate
  | columns p => p.validate
  | between p => p.validate

/-- There is a predicate and all are valid. -/
def ConditionGroup.validate (g : ConditionGroup) : Validation := do
  require (!g.conditions.isEmpty) (.empty .conditionGroup "conditions")
  each Condition.validate g.conditions

/-- There is something to test and all of it is valid. -/
def Filter.validate (w : Filter) : Validation := do
  require (!w.isEmpty) (.empty .filter "groups")
  each ConditionGroup.validate w.groups
  each Between.validate w.between

/-- The names are names, and aggregate and filter are valid. -/
def ScalarSubquery.validate (s : ScalarSubquery) : Validation := do
  optional (identifier .scalarSubquery) s.aliasName
  s.aggregate.validate
  optional Filter.validate s.filter

/-- The operator compares with one value, or with a list where the
subquery is grouped; column and subquery are valid. -/
def SubqueryCondition.validate (p : SubqueryCondition) : Validation := do
  p.column.validate
  require (p.op.isOrdering || p.op.takesList)
    (.operatorMismatch .subqueryCondition p.op .againstSubquery)
  require (p.subquery.groupBy.isEmpty || p.op.takesList)
    (.operatorMismatch .subqueryCondition p.op .againstGroups)
  p.subquery.validate

/-- There is something to test and all of it is valid. -/
def TopFilter.validate (w : TopFilter) : Validation := do
  require (!w.isEmpty) (.empty .topFilter "groups")
  each ConditionGroup.validate w.groups
  each Between.validate w.between
  each SubqueryCondition.validate w.subqueries

-- ============================================================= clauses

/-- There is a condition to join on, the alias is a name, and all
conditions are valid. -/
def Join.validate (j : Join) : Validation := do
  require (!j.on.isEmpty) (.empty .join "on_conditions")
  optional (identifier .join) j.aliasName
  each ConditionGroup.validate j.on

/-- There is a select list, the alias is a name, and all parts are
valid. -/
def DerivedTable.validate (d : DerivedTable) : Validation := do
  require (!d.select.isEmpty) (.empty .derivedTable "select")
  identifier .derivedTable d.aliasName
  each SelectExpr.validate d.select
  optional Filter.validate d.filter

/-- The rows come from one table or from one derived table. -/
def FromClause.validateSource (f : FromClause) : Validation :=
  match f.table, f.derived with
  | some _, some _ => .error (.mutuallyExclusive .fromClause "table" "derived")
  | none, none => .error (.missingField .fromClause "table")
  | none, some derived => do
    require f.aliasName.isNone (.mutuallyExclusive .fromClause "table_alias" "derived")
    derived.validate
  | some _, none => optional (identifier .fromClause) f.aliasName

/-- The source and all joins are valid. -/
def FromClause.validate (f : FromClause) : Validation := do
  f.validateSource
  each Join.validate f.joins

/-- There is a column. -/
def GroupBy.validate (g : GroupBy) : Validation :=
  require (!g.columns.isEmpty) (.empty .groupBy "columns")

/-- Only a count goes without a column. -/
def HavingCondition.validateColumn (p : HavingCondition) : Validation :=
  match p.column with
  | some c => c.validate
  | none => require (p.function == .count) (.missingField .havingCondition "column")

/-- The function is no percentile, the operator compares, and column and
constant are valid. -/
def HavingCondition.validate (p : HavingCondition) : Validation := do
  require (!p.function.isPercentile)
    (.functionMismatch .havingCondition p.function.name .inHaving)
  p.validateColumn
  require p.op.isOrdering (.operatorMismatch .havingCondition p.op .inHaving)
  literal .havingCondition "value" p.value

/-- There is a condition and all are valid. -/
def Having.validate (h : Having) : Validation := do
  require (!h.conditions.isEmpty) (.empty .having "conditions")
  each HavingCondition.validate h.conditions

/-- There is a key and all are valid. -/
def OrderBy.validate (o : OrderBy) : Validation := do
  require (!o.items.isEmpty) (.empty .orderBy "items")
  each OrderItem.validate o.items

/-- An alias key names an output of the select list, letter for letter. -/
def OrderItem.validateAgainst (outputs : List String) (i : OrderItem) : Validation :=
  match i.key with
  | .output name => require (outputs.contains name) (.unknownSelectAlias name)
  | .column _ => .ok ()

/-- There is a select list, every clause is valid, and the sort names
outputs that exist. A limit is always valid. -/
def Query.validate (q : Query) : Validation := do
  require (!q.select.isEmpty) (.empty .query "select")
  each SelectExpr.validate q.select
  q.source.validate
  optional TopFilter.validate q.filter
  optional GroupBy.validate q.groupBy
  optional Having.validate q.having
  optional
    (fun o => do
      o.validate
      each (OrderItem.validateAgainst q.selectAliases) o.items)
    q.orderBy

end TypedSelect
