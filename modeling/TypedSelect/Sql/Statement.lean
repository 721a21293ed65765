/-
The SQL of a whole query.

The source is rendered first, because it decides which names the other
clauses may use. In the text every clause and every JOIN has a line of
its own, and the select list a line for each item.
-/
import TypedSelect.Sql.Filter

namespace TypedSelect

open Sql
open Traced (each illFormed lift report)

-- ============================================================= source

/-- `(SELECT items FROM table ...) AS alias`. A derived table sees
nothing of the query around it. -/
def DerivedTable.render (settings : Settings) (d : DerivedTable) : Traced Sql := do
  if d.select.isEmpty then illFormed .derivedTable .emptySelect
  else
    let s ← lift (Scope.introduce { settings } d.table none)
    let items ← each (SelectExpr.render s) d.select
    let filter ← Filter.renderOptional s d.filter
    return named
      (parens (spaced
        ([words ["SELECT"], listed items, words ["FROM"], Sql.table d.table none] ++
          filter ++ Sql.groupBy d.groupBy)))
      d.aliasName

/-- The table or the derived table of a source, and the scope it makes. -/
def FromClause.renderTable (settings : Settings) (f : FromClause) :
    Traced (Sql × Scope) :=
  match f.table, f.derived with
  | some table, none => do
    let s ← lift (Scope.introduce { settings } table f.aliasName)
    return (Sql.table table f.aliasName, s)
  | none, some d => do
    let body ← d.render settings
    let s ← lift (Scope.introduceAlias { settings } d.aliasName)
    return (body, s)
  | some _, some _ => illFormed .fromClause .twoSources
  | none, none => illFormed .fromClause .noSource

/-- A JOIN, and the scope with its table. -/
def Join.render (s : Scope) (j : Join) : Traced (Sql × Scope) := do
  let s ← lift (s.introduce j.table j.aliasName)
  let on ← Join.renderOn s j.on
  return (spaced [words [j.type.name, "JOIN"], Sql.table j.table j.aliasName, words ["ON"], on], s)

/-- Some JOINs, each in the scope of those before it. -/
def Join.renderAll (s : Scope) : List Join → Traced (List Sql × Scope)
  | [] => pure ([], s)
  | j :: rest => do
    let (line, s) ← j.render s
    let (lines, s) ← Join.renderAll s rest
    return (line :: lines, s)

/-- The lines of a source, and the scope for the other clauses. -/
def FromClause.render (settings : Settings) (f : FromClause) :
    Traced (List Sql × Scope) := do
  let (source, s) ← f.renderTable settings
  let (joins, s) ← Join.renderAll s f.joins
  report (.sourceRendered f.joins.length)
  return (spaced [words ["FROM"], source] :: joins, s)

-- ============================================================ clauses

/-- Between two select items: each begins below the first one. -/
def Sql.itemSeparator : Sql := [.sign ",", .blank "\n       "]

/-- The select list. -/
def SelectExpr.renderList (s : Scope) (items : List SelectExpr) : Traced Sql := do
  if items.isEmpty then illFormed .query .emptySelect
  else
    let rows ← each (SelectExpr.render s) items
    report (.selectRendered items.length)
    return spaced [words ["SELECT"], separated itemSeparator rows]

/-- What a test on a group is about: its column, or a star for a count
of rows. -/
def HavingCondition.renderColumn (s : Scope) (p : HavingCondition) : Traced Sql :=
  match p.column with
  | some c => s.render c
  | none =>
    if p.function == .count then pure [.sign "*"]
    else illFormed .havingCondition (.noColumn p.function.name)

/-- The aggregate of a test on a group. -/
def HavingCondition.renderCall (s : Scope) (p : HavingCondition) : Traced Sql := do
  let column ← p.renderColumn s
  if p.function == .countDistinct then
    return distinctCall p.function.sqlName column
  else if p.function.isPercentile then
    illFormed .havingCondition (.inHaving p.function.name)
  else
    return call p.function.sqlName column

/-- A test on a group. -/
def HavingCondition.render (s : Scope) (p : HavingCondition) : Traced Sql := do
  let aggregate ← p.renderCall s
  return spaced [aggregate, p.op.sql, p.value.sql]

/-- The tests on groups. -/
def Having.render (s : Scope) (h : Having) : Traced Sql := do
  if h.conditions.isEmpty then illFormed .having .noConditions
  else
    let conditions ← each (HavingCondition.render s) h.conditions
    return spaced [words ["HAVING"], h.logic.join conditions]

/-- The columns that make a group. -/
def GroupBy.render (g : GroupBy) : Traced Sql :=
  if g.columns.isEmpty then illFormed .groupBy .noColumns
  else pure (spaced (Sql.groupBy g.columns))

/-- The keys of a sort. -/
def OrderBy.render (s : Scope) (o : OrderBy) : Traced Sql := do
  if o.items.isEmpty then illFormed .orderBy .noItems
  else
    let items ← each (OrderItem.render s) o.items
    return spaced [words ["ORDER", "BY"], listed items]

/-- A limit; an offset of zero is not written. -/
def Limit.sql (l : Limit) : Sql :=
  let limit := [words ["LIMIT"], Sql.int l.limit.toNat]
  spaced (if l.offset == 0 then limit
    else limit ++ [words ["OFFSET"], Sql.int l.offset.toNat])

/-- A top filter as a clause. -/
def TopFilter.renderClause (s : Scope) (w : TopFilter) : Traced Sql := do
  let body ← w.render s
  return spaced [words ["WHERE"], body]

/-- The line of a clause that may be missing, reported once it is done. -/
def Sql.optionalLine {α : Type} (clause : PlainClause) (render : α → Traced Sql) :
    Option α → Traced (List Sql)
  | none => pure []
  | some a => do
    let line ← render a
    report (.clauseRendered clause)
    return [line]

-- ============================================================== query

/-- The lines of a query. -/
def Query.renderLines (settings : Settings) (q : Query) : Traced (List Sql) := do
  let (source, s) ← q.source.render settings
  let select ← SelectExpr.renderList s q.select
  let filter ← optionalLine .filter (TopFilter.renderClause s) q.filter
  let groupBy ← optionalLine .groupBy GroupBy.render q.groupBy
  let having ← optionalLine .having (Having.render s) q.having
  let orderBy ← optionalLine .orderBy (OrderBy.render s) q.orderBy
  let limit := (q.limit.map Limit.sql).toList
  return [select] ++ source ++ filter ++ groupBy ++ having ++ orderBy ++ limit

/-- The SQL of a query, as lexemes. -/
def Query.sql (settings : Settings) (q : Query) : Traced Sql := do
  let lines ← q.renderLines settings
  return separated [lineEnd] lines

/-- The SQL text of a query, with the report of its making. -/
def Query.render (settings : Settings) (q : Query) : Traced String := do
  let sql ← q.sql settings
  let text := Sql.text sql
  report (.queryRendered q.select.length q.source.joins.length text.utf8ByteSize)
  if settings.logSql then report (.sqlRendered text)
  return text

/-- The SQL text of a query. -/
def Query.toSql (settings : Settings) (q : Query) : Except QueryError String :=
  (q.render settings).outcome

end TypedSelect
