/-
The table names of a whole query, checked without rendering it.

FROM and each JOIN come into scope in order, and an ON sees its own
JOIN. A derived table sees only its own table. A subquery sees its own
table first and then the query around it. The first fault is the answer.
-/
import TypedSelect.Check
import TypedSelect.Scope

namespace TypedSelect

/-- Nothing, or the first fault. -/
abbrev ScopeCheck := Except QueryError Unit

open Check (each optional)

namespace Scope

-- ========================================================= expressions

/-- The column of an operand. -/
def checkOperand (s : Scope) : Operand → ScopeCheck
  | .column c => s.resolve c
  | .number _ => .ok ()

/-- The columns of both operands. -/
def checkArithmetic (s : Scope) (a : Arithmetic) : ScopeCheck := do
  s.checkOperand a.left
  s.checkOperand a.right

/-- The column of a result. -/
def checkCaseResult (s : Scope) : CaseResult → ScopeCheck
  | .column c => s.resolve c
  | .literal _ => .ok ()

/-- The column of a sort key. -/
def checkOrderItem (s : Scope) (i : OrderItem) : ScopeCheck :=
  match i.key with
  | .column c => s.resolve c
  | .output _ => .ok ()

/-- The columns of an aggregate's input. -/
def checkInput (s : Scope) : AggregateInput → ScopeCheck
  | .column c => s.resolve c
  | .arithmetic a => s.checkArithmetic a

/-- The columns of an aggregate. -/
def checkAggregate (s : Scope) (a : AggregateExpr) : ScopeCheck :=
  optional s.checkInput a.input

/-- The columns of a window function. -/
def checkWindow (s : Scope) (w : WindowExpr) : ScopeCheck := do
  optional s.resolve w.column
  each s.resolve w.partitionBy
  each s.checkOrderItem w.orderBy

/-- The columns of a branch. -/
def checkBranch (s : Scope) (b : CaseBranch) : ScopeCheck := do
  s.resolve b.condition.column
  s.checkCaseResult b.result

/-- The columns of an item of a select list. -/
def checkSelect (s : Scope) : SelectExpr → ScopeCheck
  | .column e => s.resolve e.source
  | .binary e => s.checkArithmetic e.arithmetic
  | .compound e => do
    s.checkArithmetic e.inner
    s.checkOperand e.outer
  | .aggregate e => s.checkAggregate e
  | .window e => s.checkWindow e
  | .case e => do
    each s.checkBranch e.branches
    optional s.checkCaseResult e.otherwise

-- ============================================================ filters

/-- The columns of a predicate. -/
def checkCondition (s : Scope) : Condition → ScopeCheck
  | .simple p => s.resolve p.column
  | .columns p => do
    s.resolve p.left
    s.resolve p.right
  | .between p => s.resolve p.column

/-- The columns of a group of predicates. -/
def checkGroup (s : Scope) (g : ConditionGroup) : ScopeCheck :=
  each s.checkCondition g.conditions

/-- The columns of a filter. -/
def checkFilter (s : Scope) (w : Filter) : ScopeCheck := do
  each s.checkGroup w.groups
  each (fun p => s.resolve p.column) w.between

/-- The columns of a subquery, in a scope of its own. -/
def checkSubquery (s : Scope) (sub : ScalarSubquery) : ScopeCheck := do
  let inner ← s.child.introduce sub.table sub.aliasName
  inner.checkAggregate sub.aggregate
  optional inner.checkFilter sub.filter

/-- The columns of a test against a subquery. -/
def checkSubqueryCondition (s : Scope) (p : SubqueryCondition) : ScopeCheck := do
  s.resolve p.column
  s.checkSubquery p.subquery

/-- The columns of a filter with subqueries. -/
def checkTopFilter (s : Scope) (w : TopFilter) : ScopeCheck := do
  s.checkFilter w.toFilter
  each s.checkSubqueryCondition w.subqueries

-- ============================================================ sources

/-- The columns of a derived table, which sees nothing around it. -/
def checkDerived (settings : Settings) (d : DerivedTable) : ScopeCheck := do
  let s ← Scope.introduce { settings } d.table none
  each s.checkSelect d.select
  optional s.checkFilter d.filter

/-- The scope after a join whose ON has been checked. -/
def checkJoin (s : Scope) (j : Join) : Except QueryError Scope := do
  let s ← s.introduce j.table j.aliasName
  each s.checkGroup j.on
  return s

/-- The scope after some joins. -/
def checkJoins (s : Scope) : List Join → Except QueryError Scope
  | [] => .ok s
  | j :: rest => do
    let s ← s.checkJoin j
    s.checkJoins rest

/-- The scope after the table of a source, if it has one. -/
def checkTable (s : Scope) (f : FromClause) : Except QueryError Scope :=
  match f.table with
  | some table => s.introduce table f.aliasName
  | none => .ok s

/-- The scope after the derived table of a source, if it has one. -/
def checkDerivedSource (s : Scope) (f : FromClause) : Except QueryError Scope :=
  match f.derived with
  | some d => do
    checkDerived s.settings d
    s.introduceAlias d.aliasName
  | none => .ok s

/-- The scope that a source makes for the rest of its query. -/
def checkSource (settings : Settings) (f : FromClause) : Except QueryError Scope := do
  let s ← checkTable { settings } f
  let s ← s.checkDerivedSource f
  s.checkJoins f.joins

end Scope

-- ============================================================== query

/-- The names and references of a query. -/
def Query.checkScope (settings : Settings) (q : Query) : ScopeCheck := do
  let s ← Scope.checkSource settings q.source
  each s.checkSelect q.select
  optional s.checkTopFilter q.filter
  optional
    (fun h => each s.resolve (h.conditions.filterMap HavingCondition.column))
    q.having
  optional (fun o => each s.checkOrderItem o.items) q.orderBy

/-- The same check as a rule of validity, with the default settings. -/
def Query.checkAliases (q : Query) : Except ValidationError Unit :=
  match q.checkScope {} with
  | .ok () => .ok ()
  | .error (.invalid e) => .error e
  | .error (.unresolvedAlias aliasName reference) =>
    .error (.unresolvedAlias aliasName reference)
  | .error (.illFormed ..) => .error .malformed

end TypedSelect
