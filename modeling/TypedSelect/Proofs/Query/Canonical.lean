/-
Queries up to what their SQL leaves out.

A query can say one thing in several ways that are written alike. Its
canonical form takes one of them:

- numbers are whole where they are written so;
- a row to look at is at an offset of one unless another is given;
- a count of distinct values is a function of its own, and a median is a
  percentile at one half;
- a connective that connects nothing is AND;
- every range is a group of its own, behind the groups;
- a sort key without a table is a name;
- the aggregate of a subquery has no name.

Nothing else about a query changes. The list is complete: two valid
queries with the same text have the same canonical form, and the other way
round. Both are proved where the text is read back and where it is
written, and this module has nothing but the definition.

# The shape of the definition

The form is defined along the tree, and each definition changes what is
its own and hands the rest down. What a clause looks like depends on its
parts only through counts: a connective is kept or replaced by the number
of parts that it stands between (`Logic.among`), and for a filter these are
its groups, its ranges and its subqueries together. So the ranges can move
into the groups without changing what the connective is.

Names of tables and columns stay as they are written. SQL reads them up to
the case of their letters, but the text shows the letters, and it is the
text that is compared here.
-/
import TypedSelect.Proofs.Query.Number
import TypedSelect.Query.Basic

namespace TypedSelect

-- ====================================================== constants, keys

/-- A number as `Number.canonical` has it, and any other constant as it is. -/
def Literal.canonical : Literal → Literal
  | float x => ofNumber (Number.float x).canonical
  | v => v

/-- A column without a table is written like a name, so it is one. -/
def SortKey.canonical : SortKey → SortKey
  | column ⟨none, c⟩ => output c.name
  | key => key

def OrderItem.canonical (i : OrderItem) : OrderItem := { i with key := i.key.canonical }

-- ========================================================= expressions

def Operand.canonical : Operand → Operand
  | column c => column c
  | number n => number n.canonical

def Arithmetic.canonical (a : Arithmetic) : Arithmetic :=
  { a with left := a.left.canonical, right := a.right.canonical }

def BinaryArithmetic.canonical (b : BinaryArithmetic) : BinaryArithmetic :=
  { b with arithmetic := b.arithmetic.canonical }

def CompoundArithmetic.canonical (c : CompoundArithmetic) : CompoundArithmetic :=
  { c with inner := c.inner.canonical, outer := c.outer.canonical }

def AggregateInput.canonical : AggregateInput → AggregateInput
  | column c => column c
  | arithmetic a => arithmetic a.canonical

/-- One half. -/
def Double.half : Double :=
  .finite false ⟨0x10000000000000, -53, by decide, by decide, by decide, .inl (by decide)⟩

/-- A count of distinct values under its own name, and a median as a
percentile. -/
def AggregateExpr.merged (a : AggregateExpr) : AggregateExpr :=
  match a.function with
  | .count => if a.distinct then { a with function := .countDistinct, distinct := false } else a
  | .countDistinct => { a with distinct := false }
  | .median => { a with function := .percentileCont, percentile := some .half }
  | _ => a

/-- The numbers of the input first, and then the function. -/
def AggregateExpr.canonical (a : AggregateExpr) : AggregateExpr :=
  { a with input := a.input.map AggregateInput.canonical }.merged

/-- The function that looks at another row looks at the next one unless
it says otherwise. The sort keys of a window are always columns. -/
def WindowExpr.canonical (w : WindowExpr) : WindowExpr :=
  { w with
    offset := if w.function.isOffset then some (w.offset.getD 1) else w.offset
    default := w.default.map Literal.canonical }

-- ========================================================== predicates

def Comparand.canonical : Comparand → Comparand
  | list values => list (values.map Literal.canonical)
  | scalar v => scalar v.canonical

/-- The constants on the right side; column and operator are always written. -/
def Comparison.canonical (p : Comparison) : Comparison :=
  { p with value := p.value.map Comparand.canonical }

def Between.canonical (p : Between) : Between :=
  { p with low := p.low.canonical, high := p.high.canonical }

def Condition.canonical : Condition → Condition
  | simple p => simple p.canonical
  | columns p => columns p
  | between p => between p.canonical

/-- A connective between so many parts, which is AND where there are not
two. -/
def Logic.among (logic : Logic) (parts : Nat) : Logic := if parts ≤ 1 then .and else logic

/-- The tests of a group, under a connective that is kept if there are two. -/
def ConditionGroup.canonical (g : ConditionGroup) : ConditionGroup :=
  ⟨g.conditions.map Condition.canonical, g.logic.among g.conditions.length⟩

-- ======================================================== select list

def CaseResult.canonical : CaseResult → CaseResult
  | column c => column c
  | literal v => literal v.canonical

def CaseBranch.canonical (b : CaseBranch) : CaseBranch :=
  ⟨b.condition.canonical, b.result.canonical⟩

def CaseExpr.canonical (c : CaseExpr) : CaseExpr :=
  { c with
    branches := c.branches.map CaseBranch.canonical
    otherwise := c.otherwise.map CaseResult.canonical }

def SelectExpr.canonical : SelectExpr → SelectExpr
  | column e => column e
  | binary e => binary e.canonical
  | compound e => compound e.canonical
  | aggregate e => aggregate e.canonical
  | window e => window e.canonical
  | case e => case e.canonical

-- ============================================================= filters

/-- The groups of a filter, and behind them each range as a group of its
own. -/
def Filter.canonicalGroups (w : Filter) : List ConditionGroup :=
  w.groups.map ConditionGroup.canonical ++
    w.between.map fun p => .single (.between p.canonical)

/-- A filter without ranges, since each has become a group. The connective
stands between as many parts as before. -/
def Filter.canonical (w : Filter) : Filter where
  groups := w.canonicalGroups
  between := []
  logic := w.logic.among (w.groups.length + w.between.length)

/-- The aggregate of a subquery is written without its name. -/
def ScalarSubquery.canonical (q : ScalarSubquery) : ScalarSubquery :=
  { q with
    aggregate := { q.aggregate.canonical with aliasName := "" }
    filter := q.filter.map Filter.canonical }

def SubqueryCondition.canonical (p : SubqueryCondition) : SubqueryCondition :=
  { p with subquery := p.subquery.canonical }

/-- The subqueries stay behind the groups, where they are written. -/
def TopFilter.canonical (w : TopFilter) : TopFilter where
  groups := w.canonicalGroups
  between := []
  logic := w.logic.among (w.groups.length + w.between.length + w.subqueries.length)
  subqueries := w.subqueries.map SubqueryCondition.canonical

-- ============================================================= clauses

def DerivedTable.canonical (d : DerivedTable) : DerivedTable :=
  { d with select := d.select.map SelectExpr.canonical, filter := d.filter.map Filter.canonical }

def Join.canonical (j : Join) : Join := { j with on := j.on.map ConditionGroup.canonical }

def FromClause.canonical (f : FromClause) : FromClause :=
  { f with joins := f.joins.map Join.canonical, derived := f.derived.map DerivedTable.canonical }

def HavingCondition.canonical (p : HavingCondition) : HavingCondition :=
  { p with value := p.value.canonical }

/-- The constants of the tests, under a connective that is kept if there are
two. -/
def Having.canonical (h : Having) : Having :=
  ⟨h.conditions.map HavingCondition.canonical, h.logic.among h.conditions.length⟩

def OrderBy.canonical (o : OrderBy) : OrderBy := ⟨o.items.map OrderItem.canonical⟩

/-- The query up to what its SQL leaves out. -/
def Query.canonical (q : Query) : Query :=
  { q with
    select := q.select.map SelectExpr.canonical
    source := q.source.canonical
    filter := q.filter.map TopFilter.canonical
    having := q.having.map Having.canonical
    orderBy := q.orderBy.map OrderBy.canonical }

end TypedSelect
