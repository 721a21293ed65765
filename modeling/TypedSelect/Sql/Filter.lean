/-
The SQL of filters, of the conditions of a join, and of subqueries.

A group of several predicates stands in parentheses inside a filter; the
groups of a join stand in parentheses when there are several. A subquery
is rendered in a scope of its own.
-/
import TypedSelect.Sql.Expression

namespace TypedSelect

open Sql
open Traced (each illFormed lift report)

-- ============================================================= groups

/-- The predicates of a group with its connective between them. -/
def ConditionGroup.renderBody (s : Scope) (g : ConditionGroup) : Traced Sql := do
  if g.conditions.isEmpty then illFormed .conditionGroup .noConditions
  else
    let conditions ← each (Condition.render s) g.conditions
    return g.logic.join conditions

/-- A group inside a filter. -/
def ConditionGroup.render (s : Scope) (g : ConditionGroup) : Traced Sql := do
  let body ← g.renderBody s
  return if 1 < g.conditions.length then parens body else body

/-- The conditions of a join. -/
def Join.renderOn (s : Scope) : List ConditionGroup → Traced Sql
  | [] => illFormed .join .noOnConditions
  | [g] => g.renderBody s
  | groups => do
    let bodies ← each (ConditionGroup.renderBody s) groups
    return Logic.and.join (bodies.map parens)

-- ============================================================ filters

/-- The groups and the ranges of a filter. -/
def Filter.renderParts (s : Scope) (w : Filter) : Traced (List Sql) := do
  let groups ← each (ConditionGroup.render s) w.groups
  let ranges ← each (Between.render s) w.between
  return groups ++ ranges

/-- The parts of a filter with its connective between them. -/
def Sql.joinParts (e : Entity) (logic : Logic) (parts : List Sql) : Traced Sql :=
  if parts.isEmpty then illFormed e .noConditions else pure (logic.join parts)

/-- A filter. -/
def Filter.render (s : Scope) (w : Filter) : Traced Sql := do
  let parts ← w.renderParts s
  joinParts .filter w.logic parts

-- ========================================================= subqueries

/-- `keyword filter`, or nothing where there is no filter. -/
def Filter.renderOptional (s : Scope) : Option Filter → Traced (List Sql)
  | none => pure []
  | some w => do
    let body ← w.render s
    return [words ["WHERE"], body]

/-- `GROUP BY columns`, or nothing where there are no columns. -/
def Sql.groupBy (columns : List Column) : List Sql :=
  if columns.isEmpty then [] else [words ["GROUP", "BY"], Sql.columns columns]

/-- `(SELECT aggregate FROM table ...)`. -/
def ScalarSubquery.render (outer : Scope) (q : ScalarSubquery) : Traced Sql := do
  let s ← lift (outer.child.introduce q.table q.aliasName)
  let aggregate ← q.aggregate.renderCall s
  let filter ← Filter.renderOptional s q.filter
  return parens (spaced
    ([words ["SELECT"], aggregate, words ["FROM"], Sql.table q.table q.aliasName] ++
      filter ++ Sql.groupBy q.groupBy))

/-- A test against a subquery. -/
def SubqueryCondition.render (s : Scope) (p : SubqueryCondition) : Traced Sql := do
  let column ← s.render p.column
  let subquery ← p.subquery.render s
  return spaced [column, p.op.sql, subquery]

/-- A filter with subqueries. -/
def TopFilter.render (s : Scope) (w : TopFilter) : Traced Sql := do
  let parts ← w.toFilter.renderParts s
  let subqueries ← each (SubqueryCondition.render s) w.subqueries
  joinParts .topFilter w.logic (parts ++ subqueries)

end TypedSelect
