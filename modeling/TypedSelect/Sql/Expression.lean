/-
The SQL of select items, aggregates, windows and single predicates.

Each renderer refuses the values that have no SQL, so it is total on
values that never were validated. Columns are rendered in the order in
which they stand in the text.
-/
import TypedSelect.Sql.Term

namespace TypedSelect

open Sql
open Traced (each illFormed lift report)

-- ========================================================= arithmetic

/-- A column or a number. -/
def Operand.render (s : Scope) : Operand → Traced Sql
  | column c => s.render c
  | number n => pure n.sql

/-- `(left op right)`. -/
def Arithmetic.render (s : Scope) (a : Arithmetic) : Traced Sql := do
  let left ← a.left.render s
  let right ← a.right.render s
  return parens (spaced [left, a.op.sql, right])

/-- `((left op right) op outer)`. -/
def CompoundArithmetic.render (s : Scope) (c : CompoundArithmetic) : Traced Sql := do
  let inner ← c.inner.render s
  let outer ← c.outer.render s
  return parens (spaced [inner, c.op.sql, outer])

-- ========================================================= aggregates

/-- What stands between the parentheses of an aggregate: its input, or a
star for a count of rows. -/
def AggregateExpr.renderInput (s : Scope) (a : AggregateExpr) : Traced Sql :=
  match a.input with
  | some (.column c) => s.render c
  | some (.arithmetic e) => e.render s
  | none =>
    if a.function == .count && !a.distinct then pure [.sign "*"]
    else illFormed .aggregateExpr (.noInput a.function.name)

/-- A percentile: a call with the fraction, over the sorted input. -/
def Sql.percentile (function : String) (fraction input : Sql) : Sql :=
  spaced [call function fraction, words ["WITHIN", "GROUP"],
    parens (spaced [words ["ORDER", "BY"], input])]

/-- A call over the distinct values of its argument. -/
def Sql.distinctCall (function : String) (argument : Sql) : Sql :=
  call function (spaced [words ["DISTINCT"], argument])

/-- The median as a fraction. -/
def Sql.half : Sql := [.number "0.5"]

/-- The call of an aggregate, without its name. -/
def AggregateExpr.renderCall (s : Scope) (a : AggregateExpr) : Traced Sql := do
  let input ← a.renderInput s
  match a.function with
  | .percentileCont | .percentileDisc =>
    match a.percentile with
    | some p => return Sql.percentile a.function.sqlName p.sql input
    | none => illFormed .aggregateExpr (.noPercentile a.function.name)
  | .median => return Sql.percentile a.function.sqlName half input
  | .countDistinct => return distinctCall a.function.sqlName input
  | f => return if a.distinct then distinctCall f.sqlName input else call f.sqlName input

-- =============================================================== sort

/-- A sort key: a column, or the name of an output. -/
def SortKey.render (s : Scope) : SortKey → Traced Sql
  | column c => s.render c
  | output name => pure [.word name]

/-- `key direction [NULLS place]`. -/
def OrderItem.render (s : Scope) (i : OrderItem) : Traced Sql := do
  let key ← i.key.render s
  return spaced ([key, words [i.direction.name]] ++ (i.nulls.map NullsOrder.sql).toList)

-- ============================================================ windows

/-- The arguments of an offset function after its column. The offset is
written where a default follows it or where it is not one. -/
def WindowExpr.offsetArguments (w : WindowExpr) : List Sql :=
  match w.default with
  | some d => [Sql.int (w.offset.getD 1).toNat, d.sql]
  | none =>
    match w.offset with
    | some n => if n == 1 then [] else [Sql.int n.toNat]
    | none => []

/-- What stands between the parentheses of a window function. -/
def WindowExpr.renderArguments (s : Scope) (w : WindowExpr) : Traced Sql :=
  if w.function.isRanking then
    match w.column with
    | some _ => illFormed .windowExpr (.noArgument w.function.name)
    | none => pure []
  else
    match w.column with
    | some c => do
      let column ← s.render c
      return if w.function.isOffset then listed (column :: w.offsetArguments) else column
    | none =>
      if w.function == .count then pure [.sign "*"]
      else illFormed .windowExpr (.noColumn w.function.name)

/-- A sort key of a window, which is a column. -/
def WindowExpr.renderOrderItem (s : Scope) (i : OrderItem) : Traced Sql :=
  match i.key with
  | .output _ => illFormed .windowExpr .sortsByAlias
  | .column _ => i.render s

/-- Keywords and a list, or nothing for an empty list. -/
def Sql.clauseUnlessEmpty (keywords : List String) (rows : List Sql) : List Sql :=
  if rows.isEmpty then [] else [spaced [words keywords, listed rows]]

/-- `OVER (PARTITION BY ... ORDER BY ...)`. -/
def WindowExpr.renderOver (s : Scope) (w : WindowExpr) : Traced Sql := do
  let partition ← each s.render w.partitionBy
  let order ← each (WindowExpr.renderOrderItem s) w.orderBy
  return spaced [words ["OVER"], parens (spaced
    (clauseUnlessEmpty ["PARTITION", "BY"] partition ++
      clauseUnlessEmpty ["ORDER", "BY"] order))]

/-- The call of a window function, without its name. -/
def WindowExpr.renderCall (s : Scope) (w : WindowExpr) : Traced Sql := do
  let arguments ← w.renderArguments s
  let window ← w.renderOver s
  return spaced [call w.function.name arguments, window]

/-- A window function as a select item. -/
def WindowExpr.render (s : Scope) (w : WindowExpr) : Traced Sql := do
  let body ← w.renderCall s
  return named body w.aliasName

-- ========================================================= predicates

/-- The operator and right side of a test against constants. -/
def Comparison.renderValue (p : Comparison) : Traced Sql :=
  if p.op.takesNothing then
    match p.value with
    | some _ => illFormed .comparison (.withValue p.op)
    | none => pure p.op.sql
  else
    match p.value, p.op.takesList with
    | some (.list values), true =>
      if values.isEmpty then illFormed .comparison (.valueMismatch p.op)
      else pure (spaced [p.op.sql, parens (listed (values.map Literal.sql))])
    | some (.scalar value), false => pure (spaced [p.op.sql, value.sql])
    | _, _ => illFormed .comparison (.valueMismatch p.op)

/-- A test against constants. -/
def Comparison.render (s : Scope) (p : Comparison) : Traced Sql := do
  let column ← s.render p.column
  let value ← p.renderValue
  return spaced [column, value]

/-- A test between columns. -/
def ColumnComparison.render (s : Scope) (p : ColumnComparison) : Traced Sql := do
  let left ← s.render p.left
  let right ← s.render p.right
  return spaced [left, p.op.sql, right]

/-- A test against a range. -/
def Between.render (s : Scope) (p : Between) : Traced Sql := do
  let column ← s.render p.column
  return spaced [column, words ["BETWEEN"], p.low.sql, words ["AND"], p.high.sql]

/-- One predicate. -/
def Condition.render (s : Scope) : Condition → Traced Sql
  | simple p => p.render s
  | columns p => p.render s
  | between p => p.render s

-- =============================================================== case

/-- A result of a CASE. -/
def CaseResult.render (s : Scope) : CaseResult → Traced Sql
  | column c => s.render c
  | literal v => pure v.sql

/-- `WHEN ... THEN ...`. -/
def CaseBranch.render (s : Scope) (b : CaseBranch) : Traced Sql := do
  let condition ← b.condition.render s
  let result ← b.result.render s
  return spaced [words ["WHEN"], condition, words ["THEN"], result]

/-- The result when no branch applies: null unless something else is
given. -/
def CaseExpr.renderElse (s : Scope) (c : CaseExpr) : Traced Sql :=
  match c.otherwise with
  | some result => result.render s
  | none => pure (words ["NULL"])

/-- `CASE ... ELSE ... END`. -/
def CaseExpr.render (s : Scope) (c : CaseExpr) : Traced Sql := do
  if c.branches.isEmpty then illFormed .caseExpr .noBranches
  else
    let branches ← each (CaseBranch.render s) c.branches
    let otherwise ← c.renderElse s
    return spaced ([words ["CASE"]] ++ branches ++ [words ["ELSE"], otherwise, words ["END"]])

-- ======================================================== select list

/-- A column, perhaps under a new name. -/
def ColumnExpr.render (s : Scope) (e : ColumnExpr) : Traced Sql := do
  let column ← s.render e.source
  return match e.aliasName with
    | some aliasName => named column aliasName
    | none => column

/-- An item of a select list under its name. -/
def SelectExpr.render (s : Scope) : SelectExpr → Traced Sql
  | column e => e.render s
  | binary e => do
    let body ← e.arithmetic.render s
    return named body e.aliasName
  | compound e => do
    let body ← e.render s
    return named body e.aliasName
  | aggregate e => do
    let body ← e.renderCall s
    return named body e.aliasName
  | window e => e.render s
  | case e => do
    let body ← e.render s
    return named body e.aliasName

end TypedSelect
