/-
The scope check and the renderer agree on table names.

The two walk a query apart from each other, but they meet the same column
references in the same order and under the same scopes. One lemma for each
node says that its rendering keeps step with its check; the nodes of a
source also say that both leave the same scope behind.

# Keeping step

`Follows` relates the rendering of a node to the check of it: where the
rendering comes to SQL the check passes, and where it refuses a name the
check fails with the same error. A node without SQL may end the rendering
before the check has failed, and then nothing is said. The check does less
than the rendering: it looks at no operators and writes nothing, so the
rules for sequences let the rendering go on alone, at the end (`finish`)
or in between (`skip`).

# Scopes

A source brings names into scope, one after the other, and the ON of a
join sees the names up to its own. So a source is related with the scope
it leaves behind (`FollowsTo`), and the clauses after it are then related
in one scope, the same for both. Subqueries and derived tables open a
scope of their own, in which the same is done.

# What a caller relies on

At the end stand what a caller relies on: a rendering that fails on a name
fails as the check does, and for a valid query nothing else can fail. The
second is put together from this module and from the form of queries,
which is about the other kind of error and knows nothing of names.
-/
import TypedSelect.Proofs.Form
import TypedSelect.Query.Construction

namespace TypedSelect

open Traced (follows_pure follows_illFormed follows_each Follows)

-- ============================================================== scopes

/-- A column reference is written where the check passes it, and refused with
the same error where it does not. -/
theorem Scope.render_follows (s : Scope) (c : QualifiedColumn) :
    (s.render c).Follows (s.resolve c) := by
  unfold Scope.render Scope.resolve
  cases s.admits c with
  | true => exact follows_pure _
  | false => exact .fault (.unresolvedAlias _ _)

/-- Both walks bring a name into scope in the same way. -/
theorem Scope.push_inStep (s : Scope) (name : String) (aliased : Bool) :
    InStep Eq (s.push name aliased) (s.push name aliased) := by
  refine .refl fun e h => ?_
  unfold Scope.push at h
  split at h
  · cases h
    exact .duplicateAlias name
  · cases h

/-- Both bring a table in under its alias, or else under its name. -/
theorem Scope.introduce_inStep (s : Scope) (table : Table) (aliasName : Option String) :
    InStep Eq (s.introduce table aliasName) (s.introduce table aliasName) := by
  cases aliasName with
  | none => exact s.push_inStep _ _
  | some name => exact s.push_inStep _ _

variable (s : Scope)

-- ========================================================= expressions

/-- A column is looked up, and a number is not. -/
theorem Operand.render_follows (o : Operand) :
    (o.render s).Follows (s.checkOperand o) := by
  cases o with
  | column c => exact s.render_follows c
  | number n => exact follows_pure _

/-- The left side is looked up and then the right. -/
theorem Arithmetic.render_follows (a : Arithmetic) :
    (a.render s).Follows (s.checkArithmetic a) :=
  (a.left.render_follows s).bind fun _ =>
    (a.right.render_follows s).finish fun _ => follows_pure _

/-- The inner operation is looked up first, wherever it is written. -/
theorem CompoundArithmetic.render_follows (c : CompoundArithmetic) :
    (c.render s).Follows (do s.checkArithmetic c.inner; s.checkOperand c.outer) :=
  (c.inner.render_follows s).bind fun _ =>
    (c.outer.render_follows s).finish fun _ => follows_pure _

/-- The input is looked up. Where there is none a star is written, or there
is no SQL, and the check has nothing to do. -/
theorem AggregateExpr.renderInput_follows (a : AggregateExpr) :
    (a.renderInput s).Follows (s.checkAggregate a) := by
  unfold renderInput Scope.checkAggregate
  cases a.input with
  | none =>
      dsimp only
      split
      · exact follows_pure _
      · exact follows_illFormed _ _ _
  | some input =>
      cases input with
      | column c => exact s.render_follows c
      | arithmetic e => exact e.render_follows s

/-- The call looks up its input only; the functions differ in what they write
around it. -/
theorem AggregateExpr.renderCall_follows (a : AggregateExpr) :
    (a.renderCall s).Follows (s.checkAggregate a) := by
  apply (a.renderInput_follows s).finish
  intro input
  cases a.function with
  | percentileCont =>
      cases a.percentile with
      | none => exact follows_illFormed _ _ _
      | some p => exact follows_pure _
  | percentileDisc =>
      cases a.percentile with
      | none => exact follows_illFormed _ _ _
      | some p => exact follows_pure _
  | _ => exact follows_pure _

/-- A column to sort by is looked up, and the name of an output is not. -/
theorem OrderItem.render_follows (i : OrderItem) :
    (i.render s).Follows (s.checkOrderItem i) := by
  unfold render Scope.checkOrderItem
  refine Follows.finish ?_ fun _ => follows_pure _
  cases i.key with
  | column c => exact s.render_follows c
  | output name => exact follows_pure _

/-- The column of a window is looked up, if it has one. An offset and a
default have none. -/
theorem WindowExpr.renderArguments_follows (w : WindowExpr) :
    (w.renderArguments s).Follows (Check.optional s.resolve w.column) := by
  unfold renderArguments
  cases w.column with
  | some c =>
      dsimp only
      split
      · exact follows_illFormed _ _ _
      · exact (s.render_follows c).finish fun _ => follows_pure _
  | none =>
      dsimp only
      split
      · exact follows_pure _
      · split
        · exact follows_pure _
        · exact follows_illFormed _ _ _

/-- Inside a window only columns are sorted by; a name of an output has no
SQL there. -/
theorem WindowExpr.renderOrderItem_follows (i : OrderItem) :
    (renderOrderItem s i).Follows (s.checkOrderItem i) := by
  unfold renderOrderItem
  split
  · exact follows_illFormed _ _ _
  · exact i.render_follows s

/-- A window looks up its column, its partition and its order, in this order.
-/
theorem WindowExpr.render_follows (w : WindowExpr) :
    (w.render s).Follows (s.checkWindow w) := by
  have hover : (w.renderOver s).Follows (do
      Check.each s.resolve w.partitionBy
      Check.each s.checkOrderItem w.orderBy) :=
    (follows_each s.render_follows w.partitionBy).bind fun _ =>
      (follows_each (renderOrderItem_follows s) w.orderBy).finish
        fun _ => follows_pure _
  refine Follows.finish ?_ fun _ => follows_pure _
  exact (w.renderArguments_follows s).bind fun _ =>
    hover.finish fun _ => follows_pure _

-- ========================================================== predicates

/-- The right side of a test has no column, so there is nothing to look up.
It may be refused for its form, which the check of names does not see. -/
theorem Comparison.renderValue_follows (p : Comparison) :
    p.renderValue.Follows (.ok ()) := by
  unfold renderValue
  split
  · split
    · exact follows_illFormed _ _ _
    · exact follows_pure _
  · split
    · split
      · exact follows_illFormed _ _ _
      · exact follows_pure _
    · exact follows_pure _
    · exact follows_illFormed _ _ _

theorem Comparison.render_follows (p : Comparison) :
    (p.render s).Follows (s.resolve p.column) :=
  (s.render_follows p.column).finish fun _ =>
    p.renderValue_follows.finish fun _ => follows_pure _

/-- A comparison of two columns looks up the left one first. -/
theorem ColumnComparison.render_follows (p : ColumnComparison) :
    (p.render s).Follows (do s.resolve p.left; s.resolve p.right) :=
  (s.render_follows p.left).bind fun _ =>
    (s.render_follows p.right).finish fun _ => follows_pure _

theorem Between.render_follows (p : Between) :
    (p.render s).Follows (s.resolve p.column) :=
  (s.render_follows p.column).finish fun _ => follows_pure _

theorem Condition.render_follows (c : Condition) :
    (c.render s).Follows (s.checkCondition c) := by
  cases c with
  | simple p => exact p.render_follows s
  | columns p => exact p.render_follows s
  | between p => exact p.render_follows s

-- ========================================================= select list

theorem CaseResult.render_follows (r : CaseResult) :
    (r.render s).Follows (s.checkCaseResult r) := by
  cases r with
  | column c => exact s.render_follows c
  | literal v => exact follows_pure _

/-- A branch looks up the column of its test and then its result. -/
theorem CaseBranch.render_follows (b : CaseBranch) :
    (b.render s).Follows (s.checkBranch b) :=
  (b.condition.render_follows s).bind fun _ =>
    (b.result.render_follows s).finish fun _ => follows_pure _

/-- Branch by branch, and then the result of the ELSE. A CASE without
branches is refused, whatever the check says of it. -/
theorem CaseExpr.render_follows (c : CaseExpr) :
    (c.render s).Follows (do
      Check.each s.checkBranch c.branches
      Check.optional s.checkCaseResult c.otherwise) := by
  have helse : (c.renderElse s).Follows
      (Check.optional s.checkCaseResult c.otherwise) := by
    unfold renderElse
    cases c.otherwise with
    | none => exact follows_pure _
    | some r => exact r.render_follows s
  unfold render
  split
  · exact follows_illFormed _ _ _
  · exact (follows_each (CaseBranch.render_follows s) c.branches).bind
      fun _ => helse.finish fun _ => follows_pure _

theorem SelectExpr.render_follows (e : SelectExpr) :
    (e.render s).Follows (s.checkSelect e) := by
  cases e with
  | column e => exact (s.render_follows e.source).finish fun _ => follows_pure _
  | binary e => exact (e.arithmetic.render_follows s).finish fun _ => follows_pure _
  | compound e => exact (e.render_follows s).finish fun _ => follows_pure _
  | aggregate e => exact (e.renderCall_follows s).finish fun _ => follows_pure _
  | window e => exact e.render_follows s
  | case e => exact (e.render_follows s).finish fun _ => follows_pure _

-- ============================================================= filters

/-- The tests of a group, one after the other. -/
theorem ConditionGroup.renderBody_follows (g : ConditionGroup) :
    (g.renderBody s).Follows (s.checkGroup g) := by
  unfold renderBody
  split
  · exact follows_illFormed _ _ _
  · exact (follows_each (Condition.render_follows s) g.conditions).finish
      fun _ => follows_pure _

theorem ConditionGroup.render_follows (g : ConditionGroup) :
    (g.render s).Follows (s.checkGroup g) :=
  (g.renderBody_follows s).finish fun _ => follows_pure _

/-- The groups of an ON, one after the other. They are rendered in a scope
that has the joined table already. -/
theorem Join.renderOn_follows (groups : List ConditionGroup) :
    (renderOn s groups).Follows (Check.each s.checkGroup groups) := by
  match groups with
  | [] => exact follows_illFormed _ _ _
  | [g] =>
      have hone : Check.each s.checkGroup [g] = s.checkGroup g := by
        unfold Check.each
        cases s.checkGroup g <;> rfl
      rw [hone]
      exact g.renderBody_follows s
  | g :: g' :: rest =>
      exact (follows_each (ConditionGroup.renderBody_follows s) _).finish
        fun _ => follows_pure _

/-- The groups of a filter and then its ranges. -/
theorem Filter.renderParts_follows (w : Filter) :
    (w.renderParts s).Follows (s.checkFilter w) :=
  (follows_each (ConditionGroup.render_follows s) w.groups).bind fun _ =>
    (follows_each (Between.render_follows s) w.between).finish
      fun _ => follows_pure _

theorem Sql.joinParts_follows (e : Entity) (logic : Logic) (parts : List Sql) :
    (joinParts e logic parts).Follows (.ok ()) := by
  unfold joinParts
  split
  · exact follows_illFormed _ _ _
  · exact follows_pure _

theorem Filter.render_follows (w : Filter) :
    (w.render s).Follows (s.checkFilter w) :=
  (w.renderParts_follows s).finish fun _ => Sql.joinParts_follows _ _ _

theorem Filter.renderOptional_follows (w : Option Filter) :
    (renderOptional s w).Follows (Check.optional s.checkFilter w) := by
  cases w with
  | none => exact follows_pure _
  | some f => exact (f.render_follows s).finish fun _ => follows_pure _

/-- A subquery is rendered and checked in one inner scope. -/
theorem ScalarSubquery.render_follows (q : ScalarSubquery) :
    (q.render s).Follows (s.checkSubquery q) := by
  unfold render Scope.checkSubquery Follows
  rw [Traced.outcome_bind, Traced.outcome_lift]
  apply InStep.bind (s.child.introduce_inStep _ _)
  intro inner _ h
  subst h
  exact (q.aggregate.renderCall_follows inner).bind fun _ =>
    (Filter.renderOptional_follows inner q.filter).finish fun _ => follows_pure _

/-- The column of the test is looked up outside of the subquery. -/
theorem SubqueryCondition.render_follows (p : SubqueryCondition) :
    (p.render s).Follows (s.checkSubqueryCondition p) :=
  (s.render_follows p.column).bind fun _ =>
    (p.subquery.render_follows s).finish fun _ => follows_pure _

/-- The filter of a query, and then its tests against subqueries. -/
theorem TopFilter.render_follows (w : TopFilter) :
    (w.render s).Follows (s.checkTopFilter w) :=
  (w.toFilter.renderParts_follows s).bind fun _ =>
    (follows_each (SubqueryCondition.render_follows s) w.subqueries).finish
      fun _ => Sql.joinParts_follows _ _ _

-- ============================================================= sources

/-- A derived table is rendered and checked in a scope of its own table
alone. -/
theorem DerivedTable.render_follows (settings : Settings) (d : DerivedTable) :
    (d.render settings).Follows (Scope.checkDerived settings d) := by
  unfold render Scope.checkDerived
  split
  · exact follows_illFormed _ _ _
  · unfold Follows
    rw [Traced.outcome_bind, Traced.outcome_lift]
    apply InStep.bind (Scope.introduce_inStep _ _ _)
    intro inner _ h
    subst h
    exact (follows_each (SelectExpr.render_follows inner) d.select).bind fun _ =>
      (Filter.renderOptional_follows inner d.filter).finish fun _ => follows_pure _

/-- A rendering that hands on a scope, beside a check that does: the two
scopes are the same. -/
abbrev Traced.FollowsTo {α : Type} (x : Traced (α × Scope))
    (c : Except QueryError Scope) : Prop :=
  InStep (fun p s => p.2 = s) x.outcome c

/-- The scope after the table or the derived table of a source. With both, or
with neither, there is no SQL. -/
theorem FromClause.renderTable_follows (settings : Settings) (f : FromClause) :
    (f.renderTable settings).FollowsTo (do
      let s ← Scope.checkTable { settings } f
      s.checkDerivedSource f) := by
  unfold renderTable Scope.checkTable Scope.checkDerivedSource Traced.FollowsTo
  cases f.table with
  | some table =>
      cases f.derived with
      -- a source with both has no SQL, whatever the check says of it
      | some d => exact .illFormed _ _ _
      | none =>
          dsimp only
          rw [Traced.outcome_bind, Traced.outcome_lift]
          exact InStep.bind (Scope.introduce_inStep _ _ _) fun _ _ h => .ok h
  | none =>
      cases f.derived with
      | none => exact .illFormed _ _ _
      | some d =>
          dsimp only
          rw [Traced.outcome_bind]
          refine InStep.bind (g := fun _ => Scope.introduceAlias { settings } d.aliasName)
            (d.render_follows settings) fun body _ _ => ?_
          rw [Traced.outcome_bind, Traced.outcome_lift]
          exact InStep.bind (g := fun s => .ok s) (Scope.push_inStep _ _ _)
            fun _ _ h => .ok h

/-- The table of a join comes into scope before its ON is looked at. -/
theorem Join.render_follows (j : Join) : (j.render s).FollowsTo (s.checkJoin j) := by
  unfold render Scope.checkJoin Traced.FollowsTo
  rw [Traced.outcome_bind, Traced.outcome_lift]
  apply InStep.bind (s.introduce_inStep _ _)
  intro inner _ h
  subst h
  rw [Traced.outcome_bind]
  exact InStep.bind (renderOn_follows inner j.on) fun _ _ _ => .ok rfl

/-- Joins one after the other, each in the scope of those before it. The
induction is on the list, for every scope. -/
theorem Join.renderAll_follows (joins : List Join) :
    ∀ s : Scope, (renderAll s joins).FollowsTo (s.checkJoins joins) := by
  induction joins with
  | nil => intro s; exact .ok rfl
  | cons j rest ih =>
      intro s
      unfold renderAll Scope.checkJoins Traced.FollowsTo
      rw [Traced.outcome_bind]
      apply InStep.bind (j.render_follows s)
      intro p s' hs
      subst hs
      rw [Traced.outcome_bind]
      exact InStep.finish (ih p.2) fun _ _ hs' => .ok hs'

/-- A source leaves the names of its table and its joins behind, and the two
scopes that come of it are the same. -/
theorem FromClause.render_follows (settings : Settings) (f : FromClause) :
    (f.render settings).FollowsTo (Scope.checkSource settings f) := by
  have hsource : Scope.checkSource settings f = (do
      let s ← (do
        let s ← Scope.checkTable { settings } f
        s.checkDerivedSource f)
      s.checkJoins f.joins) := by
    unfold Scope.checkSource
    cases Scope.checkTable { settings } f <;> rfl
  rw [hsource]
  unfold render Traced.FollowsTo
  rw [Traced.outcome_bind]
  apply InStep.bind (f.renderTable_follows settings)
  intro p s hs
  subst hs
  rw [Traced.outcome_bind]
  exact InStep.finish (Join.renderAll_follows f.joins p.2) fun _ _ hs' => .ok hs'

-- ============================================================= clauses

/-- The items of a select list, one after the other. -/
theorem SelectExpr.renderList_follows (items : List SelectExpr) :
    (renderList s items).Follows (Check.each s.checkSelect items) := by
  unfold renderList
  split
  · exact follows_illFormed _ _ _
  · exact (follows_each (SelectExpr.render_follows s) items).finish
      fun _ => follows_pure _

/-- A test on a group has the column that it is about, if any. What is wrong
with a percentile there is no matter of names. -/
theorem HavingCondition.render_follows (p : HavingCondition) :
    (p.render s).Follows (Check.optional s.resolve p.column) := by
  have hcolumn : (p.renderColumn s).Follows (Check.optional s.resolve p.column) := by
    unfold renderColumn
    cases p.column with
    | some c => exact s.render_follows c
    | none =>
        dsimp only
        split
        · exact follows_pure _
        · exact follows_illFormed _ _ _
  refine Follows.finish ?_ fun _ => follows_pure _
  apply hcolumn.finish
  intro _
  split
  · exact follows_pure _
  · split
    · exact follows_illFormed _ _ _
    · exact follows_pure _

/-- The tests of HAVING look up their columns. A test may have none. -/
theorem Having.render_follows (h : Having) :
    (h.render s).Follows
      (Check.each s.resolve (h.conditions.filterMap HavingCondition.column)) := by
  rw [Check.each_filterMap]
  unfold render
  split
  · exact follows_illFormed _ _ _
  · exact (follows_each (HavingCondition.render_follows s) h.conditions).finish
      fun _ => follows_pure _

/-- Grouping is by columns without a qualifier, and looks nothing up. -/
theorem GroupBy.render_follows (g : GroupBy) : g.render.Follows (.ok ()) := by
  unfold render
  split
  · exact follows_illFormed _ _ _
  · exact follows_pure _

/-- The keys of a sort, one after the other. -/
theorem OrderBy.render_follows (o : OrderBy) :
    (o.render s).Follows (Check.each s.checkOrderItem o.items) := by
  unfold render
  split
  · exact follows_illFormed _ _ _
  · exact (follows_each (OrderItem.render_follows s) o.items).finish
      fun _ => follows_pure _

/-- A clause that is left out looks nothing up. -/
theorem Sql.optionalLine_follows {α : Type} {clause : PlainClause}
    {render : α → Traced Sql} {check : α → ScopeCheck}
    (h : ∀ a, (render a).Follows (check a)) (o : Option α) :
    (optionalLine clause render o).Follows (Check.optional check o) := by
  cases o with
  | none => exact follows_pure _
  | some a => exact (h a).finish fun _ => follows_pure _

-- =============================================================== query

/-- The clauses of a query in the scope of its source. Grouping, which has no
names, stands between two clauses that have some. -/
theorem Query.renderLines_follows (settings : Settings) (q : Query) :
    (q.renderLines settings).Follows (q.checkScope settings) := by
  unfold renderLines checkScope Follows
  rw [Traced.outcome_bind]
  apply InStep.bind (q.source.render_follows settings)
  intro p s hs
  subst hs
  apply (SelectExpr.renderList_follows p.2 q.select).bind
  intro _
  refine (Sql.optionalLine_follows (fun w =>
    (w.render_follows p.2).finish fun _ => follows_pure _) q.filter).bind fun _ => ?_
  -- the check has no step for the grouping, which has no references
  refine Follows.skip (c := do
    Check.optional _ q.having
    Check.optional _ q.orderBy) ?_ fun _ => ?_
  · cases q.groupBy with
    | none => exact follows_pure _
    | some g => exact g.render_follows.finish fun _ => follows_pure _
  apply (Sql.optionalLine_follows (Having.render_follows p.2) q.having).bind
  intro _
  exact (Sql.optionalLine_follows (OrderBy.render_follows p.2) q.orderBy).finish
    fun _ => follows_pure _

/-- The text of a query keeps step with the check of its names. -/
theorem Query.toSql_inStep (settings : Settings) (q : Query) :
    InStep (fun _ _ => True) (q.toSql settings) (q.checkScope settings) := by
  rw [toSql_eq]
  exact InStep.finish (q.renderLines_follows settings) fun _ _ _ => .ok trivial

-- ============================================================= callers

/-- The check of names with the default settings, as a rule of validity. -/
theorem Query.checkAliases_eq_ok {q : Query} :
    q.checkAliases = .ok () ↔ q.checkScope {} = .ok () := by
  unfold checkAliases
  cases q.checkScope {} with
  | ok _ => simp
  | error e => cases e <;> simp

/-- What is put together is handed out unchanged, if it is valid and its
names resolve. -/
theorem Query.checked_eq_ok {q₀ q : Query} :
    q₀.checked = .ok q ↔
      q = q₀ ∧ q₀.validate = .ok () ∧ q₀.checkAliases = .ok () := by
  unfold checked
  cases hv : q₀.validate with
  | error e => simp [Bind.bind, Except.bind]
  | ok _ =>
      cases hc : q₀.checkAliases with
      | error e => simp [Bind.bind, Except.bind]
      | ok _ => simp [Bind.bind, Except.bind, Pure.pure, Except.pure, eq_comm]

/-- A query that is read from a text has passed every check, however its
numbers were read. -/
theorem Query.checked_of_ofJson {reading : Json.Numeral.Reading} {source : String}
    {q : Query} (h : ofJsonWith reading source = .ok q) : q.checked = .ok q := by
  unfold ofJsonWith at h
  split at h
  next q₀ _ =>
    obtain ⟨rfl, _⟩ := checked_eq_ok.1 h
    exact h
  next => cases h

/-- A valid query whose names resolve has SQL. -/
theorem Query.toSql_of_checkScope {settings : Settings} {q : Query}
    (hv : q.validate = .ok ()) (hs : q.checkScope settings = .ok ()) :
    ∃ sql, q.toSql settings = .ok sql := by
  cases h : q.toSql settings with
  | ok sql => exact ⟨sql, rfl⟩
  | error e =>
      have hne : ∀ entity fault, e ≠ .illFormed entity fault := by
        intro entity fault he
        exact q.toSql_ne_illFormed_of_valid settings hv entity fault (by rw [h, he])
      have := ((q.toSql_inStep settings).error_of_error h hne).2
      rw [hs] at this
      cases this

/-- A query that exercises every clause: a derived table, a join, a CASE,
a window with a default, a percentile, a grouped subquery, and quotes in
its constants. -/
def Query.sample : Query where
  select := [
    .column ⟨some "d", .category, none⟩,
    .case ⟨[⟨⟨⟨some "D", .brand⟩, .like, some (.scalar (.string "O'%"))⟩,
      .literal (.string "it's")⟩], none, "kind"⟩,
    .aggregate ⟨.median, some (.column ⟨none, .price⟩), false, none, "mid"⟩,
    .window ⟨.lag, some ⟨some "h", .price⟩, [⟨none, .offerId⟩],
      [⟨.column ⟨some "h", .observedAt⟩, .asc, some .last⟩], none,
      some (.string "--"), "before"⟩]
  source := {
    table := none
    aliasName := none
    joins := [⟨.left, .priceHistory, some "h",
      [⟨[.columns ⟨⟨some "d", .id⟩, .eq, ⟨some "h", .offerId⟩⟩], .and⟩]⟩]
    derived := some ⟨[.column ⟨none, .id, none⟩, .column ⟨none, .category, none⟩,
      .binary ⟨⟨.column ⟨none, .price⟩, .sub, .number (.int (-5))⟩, "less"⟩],
      .productOffers, "d",
      some ⟨[⟨[.simple ⟨⟨none, .seller⟩, .isIn,
        some (.list [.string "a", .string "';"])⟩], .and⟩], [], .and⟩, []⟩ }
  filter := some {
    groups := []
    between := [⟨⟨some "h", .price⟩, .int (-1), .bool true⟩]
    logic := .or
    subqueries := [⟨⟨some "d", .id⟩, .notIn, ⟨.productMatches, some "m",
      ⟨.max, some (.column ⟨some "m", .myOfferId⟩), false, none, "top"⟩,
      some ⟨[⟨[.columns ⟨⟨some "m", .productId⟩, .eq, ⟨some "d", .id⟩⟩,
        .simple ⟨⟨none, .title⟩, .isNotNull, none⟩], .or⟩], [], .and⟩,
      [.productId]⟩⟩] }
  groupBy := some ⟨[.category, .brand]⟩
  having := some ⟨[⟨.count, none, .gt, .int 1⟩], .and⟩
  orderBy := some ⟨[⟨.output "kind", .desc, none⟩]⟩
  limit := some ⟨10, 20⟩

-- ======================================================== main results

/-- A valid query meets no node without SQL under any settings. So every
query that is read from a text or put together clause by clause, and
passes the checks on the way out, has SQL. -/
theorem Query.valid_has_sql :
    (∀ (settings : Settings) (q : Query), q.validate = .ok () →
      ∀ e fault, q.toSql settings ≠ .error (.illFormed e fault)) ∧
    (∀ (source : String) (q : Query), ofJson source = .ok q →
      ∃ sql, q.toSql {} = .ok sql) ∧
    ∀ q₀ q : Query, q₀.checked = .ok q → ∃ sql, q.toSql {} = .ok sql := by
  have hchecked : ∀ q₀ q : Query, q₀.checked = .ok q →
      ∃ sql, q.toSql {} = .ok sql := by
    intro q₀ q h
    obtain ⟨rfl, hv, ha⟩ := checked_eq_ok.1 h
    exact toSql_of_checkScope hv (checkAliases_eq_ok.1 ha)
  refine ⟨fun settings q hv => q.toSql_ne_illFormed_of_valid settings hv, ?_, hchecked⟩
  intro source q h
  exact hchecked q q (checked_of_ofJson h)

/-- The sample is valid, so it has SQL under strict settings up to its
names, and with the default ones altogether. -/
theorem Query.sample_has_sql :
    sample.validate = .ok () ∧ sample.checked = .ok sample ∧
    (∀ e fault,
      sample.toSql ⟨true, false, false⟩ ≠ .error (.illFormed e fault)) ∧
    ∃ sql, sample.toSql {} = .ok sql := by
  have hv : sample.validate = .ok () := by decide +kernel
  have hc : sample.checked = .ok sample := by decide +kernel
  exact ⟨hv, hc, valid_has_sql.1 _ sample hv, valid_has_sql.2.2 sample sample hc⟩

/-- The check of names and the rendering agree on every query, valid or
not: the check passes whatever is rendered, and an error of the rendering
that is not a node without SQL is about names and is the error of the
check. For a valid query they pass together or fail with one error. -/
theorem Query.toSql_agrees_with_checkScope (settings : Settings) (q : Query) :
    (∀ sql, q.toSql settings = .ok sql → q.checkScope settings = .ok ()) ∧
    (∀ e, q.toSql settings = .error e → (∀ entity fault, e ≠ .illFormed entity fault) →
      e.AboutNames ∧ q.checkScope settings = .error e) ∧
    (q.validate = .ok () →
      q.checkScope settings = (q.toSql settings).map fun _ => ()) := by
  have hstep := q.toSql_inStep settings
  have herror := fun e (h : q.toSql settings = .error e) => hstep.error_of_error h
  have hok : ∀ sql, q.toSql settings = .ok sql → q.checkScope settings = .ok () := by
    intro sql h
    obtain ⟨_, hc, -⟩ := hstep.ok_of_ok h
    exact hc
  refine ⟨hok, herror, fun hv => ?_⟩
  cases h : q.toSql settings with
  | ok sql => exact hok sql h
  | error e =>
      refine (herror e h fun entity fault he => ?_).2
      exact q.toSql_ne_illFormed_of_valid settings hv entity fault (by rw [h, he])

/-- The sample passes on both sides; without its join both refuse the
first reference to the joined table. -/
theorem Query.sample_agrees :
    sample.validate = .ok () ∧ sample.checkScope {} = .ok () ∧
    (sample.toSql {}).isOk = true ∧
    let q := { sample with source := { sample.source with joins := [] } }
    q.toSql {} = .error (.unresolvedAlias "h" "h.price") ∧
      q.checkScope {} = .error (.unresolvedAlias "h" "h.price") := by
  have hv : sample.validate = .ok () := by decide +kernel
  obtain ⟨sql, hs⟩ := toSql_of_checkScope hv
    (by decide +kernel : sample.checkScope {} = .ok ())
  refine ⟨hv, (toSql_agrees_with_checkScope {} sample).1 sql hs, by rw [hs]; rfl, ?_⟩
  intro q
  have he : q.toSql {} = .error (.unresolvedAlias "h" "h.price") := by decide +kernel
  refine ⟨he, ((toSql_agrees_with_checkScope {} q).2.1 _ he ?_).2⟩
  intro entity fault h
  cases h

end TypedSelect
