/-
What a rendering reports, and that the report is true.

Two places report on their own: a clause that is done, and a column
reference that no table answers to. What carries everything here is one
invariant on a rendering and its list of clauses: if it succeeds it has
reported exactly those, and if it fails it has reported the first few of
them and then what belongs to the error (`Trail`).

# Sequences

A sequence of steps reports the lists one behind the other (`Trail.bind`),
so the proof for a node is the list of its parts. Failing early is covered
by the same lemma: whatever step fails, what the steps before it reported
is a part of the list from its start.

# Nodes inside of clauses

A clause is reported when all of it is written, not while it is. So a node
inside a clause has no clauses to report (`Quiet`), and there is one short
lemma for each renderer that says so. This holds for derived tables and
for subqueries too: their own sources and filters are not reported.

A node that is quiet can still report one thing, the name of a table that
is not in scope, since that is what its error says. That this event comes
last and at most once is not a matter of any single renderer; it follows
from the invariant, in which the events of the error stand behind all
others and are one at most.

# The whole query

What is reported behind the clauses, the size and the text, is reported
only when the rendering succeeded, and so it is left to the last step. The
limit of a query is rendered without being reported.
-/
import TypedSelect.Proofs.Sql.Operators

namespace TypedSelect

-- ================================================================ trails

/-- What is reported on the way to an error, whatever was done before. -/
def QueryError.events : QueryError → List Event
  | .unresolvedAlias aliasName reference => [.aliasUnresolved aliasName reference]
  | _ => []

/-- The only event that an error stands for is a name that is not in scope,
and then the error is that name. -/
theorem QueryError.eq_of_mem_events {e : QueryError} {event : Event} (h : event ∈ e.events) :
    ∃ aliasName reference, event = .aliasUnresolved aliasName reference ∧
      e = .unresolvedAlias aliasName reference := by
  cases e with
  | unresolvedAlias aliasName reference =>
      exact ⟨aliasName, reference, List.mem_singleton.1 h, rfl⟩
  | invalid error => cases h
  | illFormed entity fault => cases h

namespace Traced

variable {α β : Type} {clauses clauses' : List Event}

/-- A success has reported the clauses, in order, and a failure the first
few of them and then the error. -/
def Trail (clauses : List Event) (x : Traced α) : Prop :=
  match x.outcome with
  | .ok _ => x.events = clauses
  | .error e => ∃ done, done <+: clauses ∧ x.events = done ++ e.events

/-- A success has nothing to report, and a failure its error alone. -/
abbrev Quiet (x : Traced α) : Prop := x.Trail []

/-- A value that is made without a step has nothing to report. -/
theorem quiet_pure (a : α) : (Pure.pure a : Traced α).Quiet := rfl

/-- A node that has no SQL fails without a report. -/
theorem quiet_illFormed (e : Entity) (fault : FormFault) : (illFormed e fault : Traced α).Quiet :=
  ⟨[], List.prefix_rfl, rfl⟩

theorem trail_report (event : Event) : (report event).Trail [event] := rfl

/-- A sequence reports what its steps report. A step that fails cuts it
short, and a part of what the steps before and up to it have to report is
a part of the whole. -/
theorem Trail.bind {x : Traced α} {f : α → Traced β} (hx : x.Trail clauses)
    (hf : ∀ a, (f a).Trail clauses') : (x >>= f).Trail (clauses ++ clauses') := by
  show (Traced.bind x f).Trail _
  unfold Trail at hx
  unfold Traced.bind Trail
  cases hox : x.outcome with
  | error e =>
      simp only [hox] at hx ⊢
      obtain ⟨done, hdone, hevents⟩ := hx
      -- the first step failed, and what it reported is a part of its own list
      exact ⟨done, hdone.trans (List.prefix_append _ _), hevents⟩
  | ok a =>
      simp only [hox] at hx ⊢
      have hfa := hf a
      unfold Trail at hfa
      cases hof : (f a).outcome with
      | ok b =>
          simp only [hof] at hfa ⊢
          rw [hx, hfa]
      | error e =>
          simp only [hof] at hfa ⊢
          obtain ⟨done, hdone, hevents⟩ := hfa
          -- the first step has reported all of its list, and the second a part of its
          -- own
          refine ⟨clauses ++ done, List.prefix_append_right_inj _ |>.2 hdone, ?_⟩
          rw [hx, hevents, List.append_assoc]

/-- What comes after a step that has nothing to report. -/
theorem Quiet.then {x : Traced α} {f : α → Traced β} (hx : x.Quiet)
    (hf : ∀ a, (f a).Trail clauses) : (x >>= f).Trail clauses :=
  hx.bind hf

/-- A step behind which only the value is made up. -/
theorem Trail.map {x : Traced α} {f : α → β} (hx : x.Trail clauses) :
    (x >>= fun a => Pure.pure (f a)).Trail clauses := by
  have := hx.bind fun a => quiet_pure (f a)
  rwa [List.append_nil] at this

/-- Behind a success comes what the next step reports. -/
theorem events_bind_of_ok {x : Traced α} {f : α → Traced β} {a : α} (h : x.outcome = .ok a) :
    (x >>= f).events = x.events ++ (f a).events := by
  show (Traced.bind x f).events = _
  rw [Traced.bind, h]

theorem events_bind_of_error {x : Traced α} {f : α → Traced β} {e : QueryError}
    (h : x.outcome = .error e) : (x >>= f).events = x.events := by
  show (Traced.bind x f).events = _
  rw [Traced.bind, h]

/-- Elements that have nothing to report, one after the other, have nothing
to report together. -/
theorem quiet_each {f : α → Traced β} (hf : ∀ a, (f a).Quiet) (l : List α) :
    (each f l).Quiet := by
  induction l with
  | nil => exact quiet_pure _
  | cons a rest ih => exact (hf a).then fun b => ih.then fun bs => quiet_pure _

end Traced

open Traced (Quiet Trail quiet_pure quiet_illFormed quiet_each trail_report)

-- ================================================================= names

/-- A name that is taken already is an error without an event of its own. -/
theorem Scope.push_quiet (s : Scope) (name : String) (aliased : Bool) :
    (Traced.lift (s.push name aliased)).Quiet := by
  unfold Scope.push
  split
  · exact ⟨[], List.prefix_rfl, rfl⟩
  · rfl

theorem Scope.introduce_quiet (s : Scope) (table : Table) (aliasName : Option String) :
    (Traced.lift (s.introduce table aliasName)).Quiet := by
  cases aliasName with
  | none => exact s.push_quiet _ _
  | some name => exact s.push_quiet _ _

/-- A reference that no table answers to is reported as the error says. All
the other renderers get this event from here. -/
theorem Scope.render_quiet (s : Scope) (c : QualifiedColumn) : (s.render c).Quiet := by
  unfold Scope.render
  split
  · exact quiet_pure _
  · exact ⟨[], List.prefix_rfl, rfl⟩

-- ================================================= inside of the clauses

variable (s : Scope)

theorem Operand.render_quiet (o : Operand) : (o.render s).Quiet := by
  cases o with
  | column c => exact s.render_quiet c
  | number n => exact quiet_pure _

theorem Arithmetic.render_quiet (a : Arithmetic) : (a.render s).Quiet :=
  (a.left.render_quiet s).then fun _ => (a.right.render_quiet s).then fun _ => quiet_pure _

theorem CompoundArithmetic.render_quiet (c : CompoundArithmetic) : (c.render s).Quiet :=
  (c.inner.render_quiet s).then fun _ => (c.outer.render_quiet s).then fun _ => quiet_pure _

/-- The input of an aggregate, also where it is missing. -/
theorem AggregateExpr.renderInput_quiet (a : AggregateExpr) : (a.renderInput s).Quiet := by
  unfold renderInput
  split
  · exact s.render_quiet _
  · exact Arithmetic.render_quiet s _
  · split
    · exact quiet_pure _
    · exact quiet_illFormed _ _

/-- The call of an aggregate, also of a percentile without a fraction. -/
theorem AggregateExpr.renderCall_quiet (a : AggregateExpr) : (a.renderCall s).Quiet := by
  refine (a.renderInput_quiet s).then fun input => ?_
  split
  · split
    · exact quiet_pure _
    · exact quiet_illFormed _ _
  · split
    · exact quiet_pure _
    · exact quiet_illFormed _ _
  all_goals exact quiet_pure _

/-- A sort key, with or without a place for the nulls. -/
theorem OrderItem.render_quiet (i : OrderItem) : (i.render s).Quiet := by
  refine Quiet.then ?_ fun _ => quiet_pure _
  cases i.key with
  | column c => exact s.render_quiet c
  | output name => exact quiet_pure _

/-- The arguments of a function over a window, also where one is missing and
the rendering fails for it. -/
theorem WindowExpr.renderArguments_quiet (w : WindowExpr) : (w.renderArguments s).Quiet := by
  unfold renderArguments
  split
  · split
    · exact quiet_illFormed _ _
    · exact quiet_pure _
  · split
    · exact (s.render_quiet _).then fun _ => quiet_pure _
    · split
      · exact quiet_pure _
      · exact quiet_illFormed _ _

theorem WindowExpr.renderOrderItem_quiet (i : OrderItem) : (renderOrderItem s i).Quiet := by
  unfold renderOrderItem
  split
  · exact quiet_illFormed _ _
  · exact i.render_quiet s

theorem WindowExpr.render_quiet (w : WindowExpr) : (w.render s).Quiet := by
  have hover : (w.renderOver s).Quiet :=
    (quiet_each s.render_quiet _).then fun _ =>
      (quiet_each (renderOrderItem_quiet s) _).then fun _ => quiet_pure _
  have hcall : (w.renderCall s).Quiet :=
    (w.renderArguments_quiet s).then fun _ => hover.then fun _ => quiet_pure _
  exact hcall.then fun _ => quiet_pure _

/-- The right side of a test, whether it goes with the operator or not. There
is no column in it, so it never reports anything. -/
theorem Comparison.renderValue_quiet (p : Comparison) : p.renderValue.Quiet := by
  unfold renderValue
  split
  · split
    · exact quiet_illFormed _ _
    · exact quiet_pure _
  · split
    · split
      · exact quiet_illFormed _ _
      · exact quiet_pure _
    · exact quiet_pure _
    · exact quiet_illFormed _ _

theorem Comparison.render_quiet (p : Comparison) : (p.render s).Quiet :=
  (s.render_quiet p.column).then fun _ => p.renderValue_quiet.then fun _ => quiet_pure _

theorem ColumnComparison.render_quiet (p : ColumnComparison) : (p.render s).Quiet :=
  (s.render_quiet p.left).then fun _ => (s.render_quiet p.right).then fun _ => quiet_pure _

theorem Between.render_quiet (p : Between) : (p.render s).Quiet :=
  (s.render_quiet p.column).then fun _ => quiet_pure _

theorem Condition.render_quiet (c : Condition) : (c.render s).Quiet := by
  cases c with
  | simple p => exact p.render_quiet s
  | columns p => exact p.render_quiet s
  | between p => exact p.render_quiet s

theorem CaseResult.render_quiet (r : CaseResult) : (r.render s).Quiet := by
  cases r with
  | column c => exact s.render_quiet c
  | literal v => exact quiet_pure _

theorem CaseBranch.render_quiet (b : CaseBranch) : (b.render s).Quiet :=
  (b.condition.render_quiet s).then fun _ => (b.result.render_quiet s).then fun _ => quiet_pure _

theorem CaseExpr.render_quiet (c : CaseExpr) : (c.render s).Quiet := by
  have helse : (c.renderElse s).Quiet := by
    unfold renderElse
    split
    · exact CaseResult.render_quiet s _
    · exact quiet_pure _
  unfold render
  split
  · exact quiet_illFormed _ _
  · exact (quiet_each (CaseBranch.render_quiet s) _).then fun _ =>
      helse.then fun _ => quiet_pure _

/-- An item of a select list. The list is reported, and its items are not. -/
theorem SelectExpr.render_quiet (e : SelectExpr) : (e.render s).Quiet := by
  cases e with
  | column e => exact (s.render_quiet e.source).then fun _ => quiet_pure _
  | binary e => exact (e.arithmetic.render_quiet s).then fun _ => quiet_pure _
  | compound e => exact (e.render_quiet s).then fun _ => quiet_pure _
  | aggregate e => exact (e.renderCall_quiet s).then fun _ => quiet_pure _
  | window e => exact e.render_quiet s
  | case e => exact (e.render_quiet s).then fun _ => quiet_pure _

theorem ConditionGroup.renderBody_quiet (g : ConditionGroup) : (g.renderBody s).Quiet := by
  unfold renderBody
  split
  · exact quiet_illFormed _ _
  · exact (quiet_each (Condition.render_quiet s) _).then fun _ => quiet_pure _

theorem ConditionGroup.render_quiet (g : ConditionGroup) : (g.render s).Quiet :=
  (g.renderBody_quiet s).then fun _ => quiet_pure _

theorem Join.renderOn_quiet (groups : List ConditionGroup) : (renderOn s groups).Quiet := by
  unfold renderOn
  split
  · exact quiet_illFormed _ _
  · exact ConditionGroup.renderBody_quiet s _
  · exact (quiet_each (ConditionGroup.renderBody_quiet s) _).then fun _ => quiet_pure _

theorem Filter.renderParts_quiet (w : Filter) : (w.renderParts s).Quiet :=
  (quiet_each (ConditionGroup.render_quiet s) _).then fun _ =>
    (quiet_each (Between.render_quiet s) _).then fun _ => quiet_pure _

/-- Parts with a connective between them, also where there are none. -/
theorem Sql.joinParts_quiet (e : Entity) (logic : Logic) (parts : List Sql) :
    (joinParts e logic parts).Quiet := by
  unfold joinParts
  split
  · exact quiet_illFormed _ _
  · exact quiet_pure _

/-- A filter without subqueries. It stands inside of one, or in a derived
table, and is no clause of the query. -/
theorem Filter.render_quiet (w : Filter) : (w.render s).Quiet :=
  (w.renderParts_quiet s).then fun _ => Sql.joinParts_quiet _ _ _

theorem Filter.renderOptional_quiet (w : Option Filter) : (renderOptional s w).Quiet := by
  cases w with
  | none => exact quiet_pure _
  | some f => exact (f.render_quiet s).then fun _ => quiet_pure _

/-- A subquery in a filter, which has clauses of its own but reports none. -/
theorem ScalarSubquery.render_quiet (q : ScalarSubquery) : (q.render s).Quiet :=
  (s.child.introduce_quiet _ _).then fun inner =>
    (q.aggregate.renderCall_quiet inner).then fun _ =>
      (Filter.renderOptional_quiet inner _).then fun _ => quiet_pure _

theorem SubqueryCondition.render_quiet (p : SubqueryCondition) : (p.render s).Quiet :=
  (s.render_quiet _).then fun _ => (p.subquery.render_quiet s).then fun _ => quiet_pure _

/-- The filter of the query itself, before it is reported. -/
theorem TopFilter.renderClause_quiet (w : TopFilter) : (w.renderClause s).Quiet := by
  have hbody : (w.render s).Quiet :=
    (w.toFilter.renderParts_quiet s).then fun _ =>
      (quiet_each (SubqueryCondition.render_quiet s) _).then fun _ => Sql.joinParts_quiet _ _ _
  exact hbody.then fun _ => quiet_pure _

/-- A derived table, which has clauses of its own but reports none. -/
theorem DerivedTable.render_quiet (settings : Settings) (d : DerivedTable) :
    (d.render settings).Quiet := by
  unfold render
  split
  · exact quiet_illFormed _ _
  · exact (Scope.introduce_quiet _ _ _).then fun inner =>
      (quiet_each (SelectExpr.render_quiet inner) _).then fun _ =>
        (Filter.renderOptional_quiet inner _).then fun _ => quiet_pure _

/-- The table or the derived table of a source. -/
theorem FromClause.renderTable_quiet (settings : Settings) (f : FromClause) :
    (f.renderTable settings).Quiet := by
  unfold renderTable
  split
  · exact (Scope.introduce_quiet _ _ _).then fun _ => quiet_pure _
  · exact (DerivedTable.render_quiet settings _).then fun _ =>
      (Scope.push_quiet _ _ _).then fun _ => quiet_pure _
  · exact quiet_illFormed _ _
  · exact quiet_illFormed _ _

/-- A join. Joins are reported with the source, by their number. -/
theorem Join.render_quiet (j : Join) : (j.render s).Quiet :=
  (s.introduce_quiet _ _).then fun inner => (renderOn_quiet inner _).then fun _ => quiet_pure _

/-- The joins, each in the scope that those before it have left. -/
theorem Join.renderAll_quiet (joins : List Join) : ∀ s : Scope, (renderAll s joins).Quiet := by
  induction joins with
  | nil => exact fun _ => quiet_pure _
  | cons j rest ih =>
      exact fun s => (j.render_quiet s).then fun p => (ih p.2).then fun _ => quiet_pure _

theorem HavingCondition.render_quiet (p : HavingCondition) : (p.render s).Quiet := by
  have hcolumn : (p.renderColumn s).Quiet := by
    unfold renderColumn
    split
    · exact s.render_quiet _
    · split
      · exact quiet_pure _
      · exact quiet_illFormed _ _
  have hcall : (p.renderCall s).Quiet := by
    refine hcolumn.then fun _ => ?_
    split
    · exact quiet_pure _
    · split
      · exact quiet_illFormed _ _
      · exact quiet_pure _
  exact hcall.then fun _ => quiet_pure _

theorem Having.render_quiet (h : Having) : (h.render s).Quiet := by
  unfold render
  split
  · exact quiet_illFormed _ _
  · exact (quiet_each (HavingCondition.render_quiet s) _).then fun _ => quiet_pure _

/-- The columns that make a group, before they are reported. -/
theorem GroupBy.render_quiet (g : GroupBy) : g.render.Quiet := by
  unfold render
  split
  · exact quiet_illFormed _ _
  · exact quiet_pure _

/-- The keys of a sort, before they are reported. -/
theorem OrderBy.render_quiet (o : OrderBy) : (o.render s).Quiet := by
  unfold render
  split
  · exact quiet_illFormed _ _
  · exact (quiet_each (OrderItem.render_quiet s) _).then fun _ => quiet_pure _

-- =========================================================== the clauses

/-- The report of a clause, if the query has it. -/
def PlainClause.events {α : Type} (clause : PlainClause) (o : Option α) : List Event :=
  (o.map fun _ => Event.clauseRendered clause).toList

/-- The clauses of a query as they are reported: the source, the select
list, and the others that are there. -/
def Query.clauseEvents (q : Query) : List Event :=
  [.sourceRendered q.source.joins.length] ++ ([.selectRendered q.select.length] ++
    (PlainClause.filter.events q.filter ++ (PlainClause.groupBy.events q.groupBy ++
      (PlainClause.having.events q.having ++ PlainClause.orderBy.events q.orderBy))))

/-- The report of a clause is of the least importance. -/
theorem PlainClause.level_of_mem_events {α : Type} {clause : PlainClause} {o : Option α}
    {event : Event} (h : event ∈ clause.events o) : event.level = .trace := by
  cases o with
  | none => cases h
  | some a => rw [List.mem_singleton.1 h, Event.level]

/-- So are the reports of all clauses of a query, which is how they are told
from the others. -/
theorem Query.level_of_mem_clauseEvents {q : Query} {event : Event}
    (h : event ∈ q.clauseEvents) : event.level = .trace := by
  simp only [clauseEvents, List.mem_append, List.mem_cons, List.not_mem_nil, or_false] at h
  obtain rfl | rfl | h | h | h | h := h
  · rfl
  · rfl
  all_goals exact PlainClause.level_of_mem_events h

/-- The source is reported when its joins are written, with their number. -/
theorem FromClause.render_trail (settings : Settings) (f : FromClause) :
    (f.render settings).Trail [.sourceRendered f.joins.length] :=
  (f.renderTable_quiet settings).then fun _ =>
    (Join.renderAll_quiet _ _).then fun _ => (trail_report _).map

/-- The select list is reported when its items are written, with their
number. -/
theorem SelectExpr.renderList_trail (items : List SelectExpr) :
    (renderList s items).Trail [.selectRendered items.length] := by
  unfold renderList
  split
  · exact ⟨[], List.nil_prefix, rfl⟩
  · exact (quiet_each (SelectExpr.render_quiet s) _).then fun _ => (trail_report _).map

/-- A clause that may be missing is reported if it is there. -/
theorem Sql.optionalLine_trail {α : Type} {clause : PlainClause} {render : α → Traced Sql}
    (hrender : ∀ a, (render a).Quiet) (o : Option α) :
    (optionalLine clause render o).Trail (clause.events o) := by
  cases o with
  | none => exact quiet_pure _
  | some a => exact (hrender a).then fun _ => (trail_report _).map

/-- The SQL of a query reports the clauses of the query. -/
theorem Query.sql_trail (settings : Settings) (q : Query) :
    (q.sql settings).Trail q.clauseEvents := by
  refine Trail.map ?_
  refine (q.source.render_trail settings).bind fun p => ?_
  refine (SelectExpr.renderList_trail p.2 q.select).bind fun select => ?_
  refine (Sql.optionalLine_trail (TopFilter.renderClause_quiet p.2) q.filter).bind fun filter => ?_
  refine (Sql.optionalLine_trail GroupBy.render_quiet q.groupBy).bind fun groupBy => ?_
  refine (Sql.optionalLine_trail (Having.render_quiet p.2) q.having).bind fun having => ?_
  exact (Sql.optionalLine_trail (OrderBy.render_quiet p.2) q.orderBy).map

-- ======================================================= the whole query

/-- The text of a query is that of its row, where there is one. -/
theorem Query.toSql_eq_map (settings : Settings) (q : Query) :
    q.toSql settings = (q.sql settings).outcome.map Sql.text := by
  rw [toSql_eq, Query.sql, Traced.outcome_bind]
  cases (q.renderLines settings).outcome <;> rfl

/-- The report on a query that was rendered. The size is that of the text in
bytes, and the text itself is reported only if the settings ask for it. -/
theorem Query.events_of_ok {settings : Settings} {q : Query} {sql : String}
    (h : q.toSql settings = .ok sql) :
    (q.render settings).events = q.clauseEvents ++
      ([.queryRendered q.select.length q.source.joins.length sql.utf8ByteSize] ++
        if settings.logSql then [.sqlRendered sql] else []) := by
  have htrail := q.sql_trail settings
  rw [toSql_eq_map] at h
  cases hrow : (q.sql settings).outcome with
  | error e =>
      rw [hrow] at h
      cases h
  | ok row =>
      rw [hrow] at h
      cases h
      rw [Trail, hrow] at htrail
      rw [render, Traced.events_bind_of_ok hrow, htrail, Traced.events_bind_of_ok rfl]
      cases settings.logSql <;> rfl

/-- The report on a query that could not be rendered. Neither its size nor
its text is in it, since no clause and no error has such an event. -/
theorem Query.events_of_error {settings : Settings} {q : Query} {e : QueryError}
    (h : q.toSql settings = .error e) :
    ∃ done, done <+: q.clauseEvents ∧ (q.render settings).events = done ++ e.events := by
  have htrail := q.sql_trail settings
  rw [toSql_eq_map] at h
  cases hrow : (q.sql settings).outcome with
  | ok row =>
      rw [hrow] at h
      cases h
  | error e' =>
      rw [hrow] at h
      cases h
      rw [Trail, hrow] at htrail
      rw [render, Traced.events_bind_of_error hrow]
      exact htrail

/-- What is reported is what happened. A query that is rendered reports its
source, its select list and the clauses it has, in this order, then its size
and, where the settings ask for it, its text. One that is not reports the
first few of these clauses; and of a table name it reports one at most, as
the last event and exactly where that name is the error. -/
theorem Query.report_is_true (settings : Settings) (q : Query) :
    (∀ event ∈ q.clauseEvents, event.level = .trace) ∧
    (∀ sql, q.toSql settings = .ok sql → (q.render settings).events = q.clauseEvents ++
      ([.queryRendered q.select.length q.source.joins.length sql.utf8ByteSize] ++
        if settings.logSql then [.sqlRendered sql] else [])) ∧
    ∀ e, q.toSql settings = .error e →
      (q.render settings).events.filter (fun event => event.level = .trace) <+: q.clauseEvents ∧
      (∀ items joins bytes, .queryRendered items joins bytes ∉ (q.render settings).events) ∧
      (∀ sql, .sqlRendered sql ∉ (q.render settings).events) ∧
      ((∃ aliasName reference, .aliasUnresolved aliasName reference ∈ (q.render settings).events) ↔
        ∃ aliasName reference, e = .unresolvedAlias aliasName reference) ∧
      ∀ aliasName reference, e = .unresolvedAlias aliasName reference →
        ∃ done, (q.render settings).events = done ++ [.aliasUnresolved aliasName reference] ∧
          ∀ aliasName' reference', .aliasUnresolved aliasName' reference' ∉ done := by
  refine ⟨fun event => level_of_mem_clauseEvents, fun sql => events_of_ok, fun e he => ?_⟩
  obtain ⟨done, hdone, hevents⟩ := events_of_error he
  rw [hevents]
  have htrace : ∀ event ∈ done, event.level = .trace := fun event hevent =>
    level_of_mem_clauseEvents (hdone.subset hevent)
  -- what the error adds is a table name, and no clause
  have herror : ∀ event ∈ e.events, event.level ≠ .trace := by
    intro event hevent
    obtain ⟨aliasName, reference, rfl, -⟩ := QueryError.eq_of_mem_events hevent
    nofun
  have hmem : ∀ event ∈ done ++ e.events, event.level ≠ .trace →
      ∃ aliasName reference, event = .aliasUnresolved aliasName reference ∧
        e = .unresolvedAlias aliasName reference := by
    intro event hevent hlevel
    rcases List.mem_append.1 hevent with hevent | hevent
    · exact absurd (htrace event hevent) hlevel
    · exact QueryError.eq_of_mem_events hevent
  refine ⟨?_, fun items joins bytes h => ?_, fun sql h => ?_, ⟨?_, ?_⟩, ?_⟩
  · rw [List.filter_append, List.filter_eq_self.2 fun event h => decide_eq_true (htrace event h),
      List.filter_eq_nil_iff.2 fun event h => by simpa using herror event h, List.append_nil]
    exact hdone
  · obtain ⟨_, _, heq, -⟩ := hmem _ h nofun
    cases heq
  · obtain ⟨_, _, heq, -⟩ := hmem _ h nofun
    cases heq
  · rintro ⟨aliasName, reference, h⟩
    obtain ⟨_, _, heq, he⟩ := hmem _ h nofun
    exact ⟨_, _, he⟩
  · rintro ⟨aliasName, reference, rfl⟩
    exact ⟨aliasName, reference, List.mem_append_right _ (List.mem_singleton_self _)⟩
  · rintro aliasName reference rfl
    exact ⟨done, rfl, fun _ _ h => nomatch htrace _ h⟩

/-- The titles under a condition on a table that is not there: the source
and the select list are reported, and then the name. -/
theorem Query.titles_report_unresolved :
    let q := titles.withFilter { groups := [.single (.simple ⟨⟨some "m", .price⟩, .gt,
      some (.scalar (.int 5))⟩)] }
    titles.toSql {} = .ok "SELECT title\nFROM product_offers" ∧
    (titles.render {}).events = [.sourceRendered 0, .selectRendered 1, .queryRendered 1 0 32] ∧
    q.toSql {} = .error (.unresolvedAlias "m" "m.price") ∧
    ∃ done, (q.render {}).events = done ++ [.aliasUnresolved "m" "m.price"] ∧
      ∀ aliasName reference, .aliasUnresolved aliasName reference ∉ done := by
  intro q
  have hok : titles.toSql {} = .ok "SELECT title\nFROM product_offers" := by decide +kernel
  have herror : q.toSql {} = .error (.unresolvedAlias "m" "m.price") := by decide +kernel
  refine ⟨hok, (report_is_true {} titles).2.1 _ hok, herror, ?_⟩
  exact ((report_is_true {} q).2.2 _ herror).2.2.2.2 _ _ rfl

end TypedSelect
