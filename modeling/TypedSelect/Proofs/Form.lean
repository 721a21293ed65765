/-
Valid nodes have SQL.

Each renderer refuses some nodes on its own account, apart from their
table names: an aggregate that has no input, an operator that does not go
with its right side, a list that is empty where SQL wants one. A query
that was built or read has passed the checks, and then none of this can
happen. Only a query that got around the checks meets these refusals.

# The measure

`Formed` says of a rendering that it does not end at a node without SQL.
It may still fail on a table name, so the two kinds of failure are kept
apart, and the scope in which a node stands plays no part here: it is a
parameter of every lemma and used by none.

# One lemma for each renderer

From operands up to whole queries, in the order of the modules that
render. A renderer that refuses nothing itself is formed because its parts
are (`Formed.bind`, `formed_each`), and needs no hypothesis. A renderer that
refuses something takes the check of its node as a hypothesis, takes the
check apart by its rule, and finds each of its refusals excluded by one
conjunct. So the lemmas with a docstring that names a rule are the ones
where validity is used, and which rule it is that a refusal repeats.

# The filter

One refusal is about a count: a filter is refused if rendering gave no
part, while the check asks whether it has a group, a range or a subquery.
`Filter.length_of_renderParts` connects the two.

The last lemma is what the promise of validation needs: whatever the
settings, a valid query is never refused for its form.
-/
import TypedSelect.Proofs.Validity
import TypedSelect.Sql.Statement

namespace TypedSelect

open Traced (formed_pure formed_report formed_each length_of_each Formed)

-- ============================================================== scopes

/-- A name enters a scope or is taken already; no node is refused. -/
theorem Scope.push_formed (s : Scope) (name : String) (aliased : Bool) :
    (Traced.lift (s.push name aliased)).Formed := by
  intro e fault h
  rw [Traced.outcome_lift, Scope.push] at h
  split at h <;> cases h

/-- The same for a table under its alias or its own name. -/
theorem Scope.introduce_formed (s : Scope) (table : Table) (aliasName : Option String) :
    (Traced.lift (s.introduce table aliasName)).Formed := by
  cases aliasName with
  | none => exact s.push_formed _ _
  | some name => exact s.push_formed _ _

/-- A column reference is written or has no table, and that is an error of
another kind. -/
theorem Scope.render_formed (s : Scope) (c : QualifiedColumn) : (s.render c).Formed := by
  unfold Scope.render
  split
  · exact formed_pure _
  · apply (formed_report _).then
    intro _ e fault h
    cases h

-- ========================================================= expressions

variable (s : Scope)

theorem Operand.render_formed (o : Operand) : (o.render s).Formed := by
  cases o with
  | column c => exact s.render_formed c
  | number n => exact formed_pure _

/-- So is an operation, also one that divides by zero. -/
theorem Arithmetic.render_formed (a : Arithmetic) : (a.render s).Formed :=
  (a.left.render_formed s).then fun _ =>
    (a.right.render_formed s).then fun _ => formed_pure _

theorem CompoundArithmetic.render_formed (c : CompoundArithmetic) :
    (c.render s).Formed :=
  (c.inner.render_formed s).then fun _ =>
    (c.outer.render_formed s).then fun _ => formed_pure _

/-- An aggregate without an input is a count of rows, not of distinct values.
-/
theorem AggregateExpr.renderInput_formed {a : AggregateExpr}
    (h : a.validateInput = .ok ()) : (a.renderInput s).Formed := by
  obtain ⟨-, hnone⟩ := validateInput_eq_ok.1 h
  unfold renderInput
  cases hi : a.input with
  | none =>
      obtain ⟨hf, hd⟩ := hnone hi
      simp only [hf, hd]
      exact formed_pure _
  | some input =>
      cases input with
      | column c => exact s.render_formed c
      | arithmetic e => exact e.render_formed s

/-- A function that needs a fraction has one. The median is written with its
own, so only the two functions with a fraction of the caller's could be
refused. -/
theorem AggregateExpr.renderCall_formed {a : AggregateExpr}
    (h : a.validate = .ok ()) : (a.renderCall s).Formed := by
  obtain ⟨-, hinput, -, hpercentile⟩ := validate_eq_ok.1 h
  apply (renderInput_formed s hinput).then
  intro input
  have hfraction := (validatePercentile_eq_ok.1 hpercentile).1
  have hgiven : a.function.requiresFraction = true →
      ∃ p, a.percentile = some p := fun hr =>
    Option.isSome_iff_exists.1 (hfraction.1 hr)
  cases hf : a.function with
  | percentileCont =>
      obtain ⟨p, hp⟩ := hgiven (by rw [hf]; rfl)
      simp only [hp]
      exact formed_pure _
  | percentileDisc =>
      obtain ⟨p, hp⟩ := hgiven (by rw [hf]; rfl)
      simp only [hp]
      exact formed_pure _
  | _ => exact formed_pure _

/-- A sort by column or by name is always written. -/
theorem OrderItem.render_formed (i : OrderItem) : (i.render s).Formed := by
  refine Formed.then ?_ fun _ => formed_pure _
  cases i.key with
  | column c => exact s.render_formed c
  | output name => exact formed_pure _

/-- A ranking has no argument, and of the others only a count goes without
one. -/
theorem WindowExpr.renderArguments_formed {w : WindowExpr}
    (h : w.validateArgument = .ok ()) : (w.renderArguments s).Formed := by
  obtain ⟨hsome, hnone⟩ := validateArgument_eq_ok.1 h
  unfold renderArguments
  cases hc : w.column with
  | some c =>
      have hr := (hsome c hc).1
      simp only [hr, Bool.false_eq_true, if_false]
      exact (s.render_formed c).then fun _ => formed_pure _
  | none =>
      rcases hnone hc with hr | hcount
      · simp only [hr, if_true]
        exact formed_pure _
      · simp only [hcount, WindowFunction.isRanking, Bool.false_eq_true, if_false]
        exact formed_pure _

/-- The keys of a window are columns. The check of a window refuses a name,
which the sort of a query may have. -/
theorem WindowExpr.renderOrderItem_formed {w : WindowExpr} {i : OrderItem}
    (h : w.validateOrder i = .ok ()) : (renderOrderItem s i).Formed := by
  obtain ⟨c, hk, -⟩ := validateOrder_eq_ok.1 h
  unfold renderOrderItem
  rw [hk]
  exact i.render_formed s

/-- The call and what stands behind OVER are formed one after the other. -/
theorem WindowExpr.render_formed {w : WindowExpr} (h : w.validate = .ok ()) :
    (w.render s).Formed := by
  obtain ⟨-, hargument, -, -, horder⟩ := validate_eq_ok.1 h
  have hover : (w.renderOver s).Formed :=
    (formed_each fun c _ => s.render_formed c).then fun _ =>
      (formed_each fun i hi => renderOrderItem_formed s (horder i hi)).then
        fun _ => formed_pure _
  refine Formed.then ?_ fun _ => formed_pure _
  exact (renderArguments_formed s hargument).then fun _ =>
    hover.then fun _ => formed_pure _

-- ========================================================== predicates

/-- The right side of an operator is the one it takes: nothing, a list with
an element, or one constant. -/
theorem Comparison.renderValue_formed {p : Comparison}
    (h : p.validateValue = .ok ()) : p.renderValue.Formed := by
  unfold renderValue
  rcases validateValue_eq_ok.1 h with ⟨hn, hv⟩ | ⟨hn, hl, values, hv, hne, -⟩ |
    ⟨hn, hl, v, hv, -⟩
  · simp only [hn, hv, if_true]
    exact formed_pure _
  · have hne' : values.isEmpty = false := by simpa using hne
    simp only [hn, hl, hv, hne', Bool.false_eq_true, if_false]
    exact formed_pure _
  · simp only [hn, hl, hv, Bool.false_eq_true, if_false]
    exact formed_pure _

/-- Only the right side of a comparison can be refused. -/
theorem Comparison.render_formed {p : Comparison} (h : p.validate = .ok ()) :
    (p.render s).Formed :=
  (s.render_formed p.column).then fun _ =>
    (renderValue_formed (validate_eq_ok.1 h).2).then fun _ => formed_pure _

/-- A comparison of two columns is written under any operator, also one that
takes a list; no check is needed for it to have a text. -/
theorem ColumnComparison.render_formed (p : ColumnComparison) : (p.render s).Formed :=
  (s.render_formed p.left).then fun _ =>
    (s.render_formed p.right).then fun _ => formed_pure _

theorem Between.render_formed (p : Between) : (p.render s).Formed :=
  (s.render_formed p.column).then fun _ => formed_pure _

theorem Condition.render_formed {c : Condition} (h : c.validate = .ok ()) :
    (c.render s).Formed := by
  cases c with
  | simple p => exact p.render_formed s h
  | columns p => exact p.render_formed s
  | between p => exact p.render_formed s

-- ========================================================= select list

/-- A result is a column or a constant, and always written. -/
theorem CaseResult.render_formed (r : CaseResult) : (r.render s).Formed := by
  cases r with
  | column c => exact s.render_formed c
  | literal v => exact formed_pure _

/-- A branch can be refused for its test only. -/
theorem CaseBranch.render_formed {b : CaseBranch} (h : b.validate = .ok ()) :
    (b.render s).Formed :=
  (Comparison.render_formed s (validate_eq_ok.1 h).1).then fun _ =>
    (b.result.render_formed s).then fun _ => formed_pure _

/-- A CASE has a branch. Without one the renderer refuses it before it looks
at what holds otherwise. -/
theorem CaseExpr.render_formed {c : CaseExpr} (h : c.validate = .ok ()) :
    (c.render s).Formed := by
  obtain ⟨hne, hbranches, -, -⟩ := validate_eq_ok.1 h
  have helse : (c.renderElse s).Formed := by
    unfold renderElse
    cases c.otherwise with
    | none => exact formed_pure _
    | some r => exact r.render_formed s
  have hne' : c.branches.isEmpty = false := by simpa using hne
  unfold render
  simp only [hne', Bool.false_eq_true, if_false]
  exact (formed_each fun b hb => b.render_formed s (hbranches b hb)).then
    fun _ => helse.then fun _ => formed_pure _

theorem ColumnExpr.render_formed (e : ColumnExpr) : (e.render s).Formed :=
  (s.render_formed _).then fun _ => formed_pure _

/-- An item of any kind, by the lemma of its kind. -/
theorem SelectExpr.render_formed {e : SelectExpr} (h : e.validate = .ok ()) :
    (e.render s).Formed := by
  cases e with
  | column e => exact e.render_formed s
  | binary e => exact (e.arithmetic.render_formed s).then fun _ => formed_pure _
  | compound e => exact (e.render_formed s).then fun _ => formed_pure _
  | aggregate e => exact (e.renderCall_formed s h).then fun _ => formed_pure _
  | window e => exact e.render_formed s h
  | case e => exact (e.render_formed s h).then fun _ => formed_pure _

-- ============================================================= filters

/-- A group has a predicate. Without one there is nothing that the connective
could stand between. -/
theorem ConditionGroup.renderBody_formed {g : ConditionGroup}
    (h : g.validate = .ok ()) : (g.renderBody s).Formed := by
  obtain ⟨hne, hall⟩ := validate_eq_ok.1 h
  have hne' : g.conditions.isEmpty = false := by simpa using hne
  unfold renderBody
  simp only [hne', Bool.false_eq_true, if_false]
  exact (formed_each fun c hc => c.render_formed s (hall c hc)).then
    fun _ => formed_pure _

theorem ConditionGroup.render_formed {g : ConditionGroup} (h : g.validate = .ok ()) :
    (g.render s).Formed :=
  (g.renderBody_formed s h).then fun _ => formed_pure _

/-- A join has something to join on. -/
theorem Join.renderOn_formed {groups : List ConditionGroup} (hne : groups ≠ [])
    (h : ∀ g ∈ groups, g.validate = .ok ()) : (renderOn s groups).Formed := by
  match groups with
  | [] => exact absurd rfl hne
  | [g] => exact g.renderBody_formed s (h g (List.mem_singleton_self g))
  | g :: g' :: rest =>
      exact (formed_each fun g hg => g.renderBody_formed s (h g hg)).then
        fun _ => formed_pure _

/-- The parts of a filter are as many as its groups and ranges. The renderer
counts parts where the check counts what they are made from. -/
theorem Filter.length_of_renderParts {w : Filter} {parts : List Sql}
    (h : (w.renderParts s).outcome = .ok parts) :
    parts.length = w.groups.length + w.between.length := by
  obtain ⟨groups, hg, h⟩ := Traced.bind_eq_ok h
  obtain ⟨ranges, hr, h⟩ := Traced.bind_eq_ok h
  cases h
  have hgl := length_of_each hg
  have hrl := length_of_each hr
  rw [List.length_append, hgl, hrl]

/-- Before they are joined, the parts are refused only for a group. -/
theorem Filter.renderParts_formed {w : Filter}
    (hg : ∀ g ∈ w.groups, g.validate = .ok ()) : (w.renderParts s).Formed :=
  (formed_each fun g hm => g.render_formed s (hg g hm)).then fun _ =>
    (formed_each fun p _ => p.render_formed s).then fun _ => formed_pure _

theorem Sql.joinParts_formed {e : Entity} {logic : Logic} {parts : List Sql}
    (h : parts ≠ []) : (joinParts e logic parts).Formed := by
  cases parts with
  | nil => exact absurd rfl h
  | cons part rest => exact formed_pure _

/-- A filter that tests something has a part, so the guard against a filter
without parts does not stop it. Its parts are written by the lemmas before. -/
theorem Filter.render_formed {w : Filter} (h : w.validate = .ok ()) :
    (w.render s).Formed := by
  obtain ⟨hne, hgroups, -⟩ := validate_eq_ok.1 h
  apply (renderParts_formed s hgroups).bind
  intro parts hparts
  apply Sql.joinParts_formed
  intro hnil
  have hlen := length_of_renderParts s hparts
  rw [hnil] at hlen
  have : w.isEmpty = true := by
    simp only [List.length_nil] at hlen
    simp only [isEmpty, Bool.and_eq_true, List.isEmpty_iff_length_eq_zero]
    omega
  rw [this] at hne
  cases hne

/-- A filter that may be missing is written as nothing then. -/
theorem Filter.renderOptional_formed {w : Option Filter}
    (h : ∀ f ∈ w, f.validate = .ok ()) : (renderOptional s w).Formed := by
  cases w with
  | none => exact formed_pure _
  | some f => exact (f.render_formed s (h f rfl)).then fun _ => formed_pure _

/-- A subquery is refused for its aggregate or for its filter. -/
theorem ScalarSubquery.render_formed {q : ScalarSubquery} (h : q.validate = .ok ()) :
    (q.render s).Formed := by
  obtain ⟨-, haggregate, hfilter⟩ := validate_eq_ok.1 h
  exact (s.child.introduce_formed _ _).then fun inner =>
    (AggregateExpr.renderCall_formed inner haggregate).then fun _ =>
      (Filter.renderOptional_formed inner hfilter).then fun _ => formed_pure _

/-- A test against a subquery is refused for the subquery only; no operator
is. -/
theorem SubqueryCondition.render_formed {p : SubqueryCondition}
    (h : p.validate = .ok ()) : (p.render s).Formed :=
  (s.render_formed _).then fun _ =>
    (p.subquery.render_formed s (validate_eq_ok.1 h).2.2.2).then fun _ => formed_pure _

/-- A filter with subqueries has parts of three kinds, and again one is
enough. The counts add up as the lists do. -/
theorem TopFilter.render_formed {w : TopFilter} (h : w.validate = .ok ()) :
    (w.render s).Formed := by
  obtain ⟨hne, hgroups, -, hsub⟩ := validate_eq_ok.1 h
  apply (Filter.renderParts_formed s hgroups).bind
  intro parts hparts
  refine (formed_each fun p hp => p.render_formed s (hsub p hp)).bind
    fun subqueries hsubs => ?_
  apply Sql.joinParts_formed
  intro hnil
  have hlen := Filter.length_of_renderParts s hparts
  have hslen := length_of_each hsubs
  obtain ⟨hp, hs⟩ := List.append_eq_nil_iff.1 hnil
  rw [hp, List.length_nil] at hlen
  rw [hs, List.length_nil] at hslen
  have : w.isEmpty = true := by
    simp only [isEmpty, Filter.isEmpty, Bool.and_eq_true,
      List.isEmpty_iff_length_eq_zero]
    omega
  rw [this] at hne
  cases hne

-- ============================================================= sources

/-- A derived table selects something, and its items and its filter are
formed. -/
theorem DerivedTable.render_formed (settings : Settings) {d : DerivedTable}
    (h : d.validate = .ok ()) : (d.render settings).Formed := by
  obtain ⟨hne, -, hselect, hfilter⟩ := validate_eq_ok.1 h
  have hne' : d.select.isEmpty = false := by simpa using hne
  unfold render
  simp only [hne', Bool.false_eq_true, if_false]
  exact (Scope.introduce_formed _ _ _).then fun s =>
    (formed_each fun e he => e.render_formed s (hselect e he)).then fun _ =>
      (Filter.renderOptional_formed s hfilter).then fun _ => formed_pure _

/-- The rows come from a table or from a derived table, not from both and not
from nowhere. -/
theorem FromClause.renderTable_formed (settings : Settings) {f : FromClause}
    (h : f.validateSource = .ok ()) : (f.renderTable settings).Formed := by
  unfold renderTable
  rcases validateSource_eq_ok.1 h with ⟨table, ht, hd, -⟩ | ⟨d, ht, hd, -, hvalid⟩
  · rw [ht, hd]
    exact (Scope.introduce_formed _ _ _).then fun _ => formed_pure _
  · rw [ht, hd]
    exact (d.render_formed settings hvalid).then fun _ =>
      (Scope.push_formed _ _ _).then fun _ => formed_pure _

/-- A join is refused for what it is made on only. -/
theorem Join.render_formed {j : Join} (h : j.validate = .ok ()) :
    (j.render s).Formed := by
  obtain ⟨hne, -, hon⟩ := validate_eq_ok.1 h
  exact (s.introduce_formed _ _).then fun inner =>
    (renderOn_formed inner hne hon).then fun _ => formed_pure _

/-- The joins are rendered in a scope that grows. Each is formed in any
scope, so the induction is over the joins with the scope left open. -/
theorem Join.renderAll_formed {joins : List Join} :
    ∀ s : Scope, (∀ j ∈ joins, j.validate = .ok ()) → (renderAll s joins).Formed := by
  induction joins with
  | nil => intro s _; exact formed_pure _
  | cons j rest ih =>
      intro s h
      apply (j.render_formed s (h j (List.mem_cons_self ..))).then
      intro p
      exact (ih p.2 fun j' hj => h j' (List.mem_cons_of_mem _ hj)).then
        fun _ => formed_pure _

/-- The source of the rows and then the joins. -/
theorem FromClause.render_formed (settings : Settings) {f : FromClause}
    (h : f.validate = .ok ()) : (f.render settings).Formed := by
  obtain ⟨hsource, hjoins⟩ := validate_eq_ok.1 h
  exact (renderTable_formed settings hsource).then fun p =>
    (Join.renderAll_formed p.2 hjoins).then fun _ =>
      (formed_report _).then fun _ => formed_pure _

-- ============================================================= clauses

theorem SelectExpr.renderList_formed {items : List SelectExpr} (hne : items ≠ [])
    (h : ∀ e ∈ items, e.validate = .ok ()) : (renderList s items).Formed := by
  have hne' : items.isEmpty = false := by simpa using hne
  unfold renderList
  simp only [hne', Bool.false_eq_true, if_false]
  exact (formed_each fun e he => e.render_formed s (h e he)).then fun _ =>
    (formed_report _).then fun _ => formed_pure _

/-- A test on a group has a column unless it counts rows, and takes no
percentile. -/
theorem HavingCondition.render_formed {p : HavingCondition} (h : p.validate = .ok ()) :
    (p.render s).Formed := by
  obtain ⟨hpercentile, -, hcount, -, -⟩ := validate_eq_ok.1 h
  have hcolumn : (p.renderColumn s).Formed := by
    unfold renderColumn
    cases hc : p.column with
    | some c => exact s.render_formed c
    | none =>
        simp only [hcount hc]
        exact formed_pure _
  refine Formed.then ?_ fun _ => formed_pure _
  apply hcolumn.then
  intro _
  simp only [hpercentile, Bool.false_eq_true, if_false]
  split <;> exact formed_pure _

theorem Having.render_formed {h : Having} (hv : h.validate = .ok ()) :
    (h.render s).Formed := by
  obtain ⟨hne, hall⟩ := validate_eq_ok.1 hv
  have hne' : h.conditions.isEmpty = false := by simpa using hne
  unfold render
  simp only [hne', Bool.false_eq_true, if_false]
  exact (formed_each fun p hp => p.render_formed s (hall p hp)).then
    fun _ => formed_pure _

theorem GroupBy.render_formed {g : GroupBy} (h : g.validate = .ok ()) :
    g.render.Formed := by
  have hne : g.columns.isEmpty = false := by simpa [validate] using h
  unfold render
  simp only [hne, Bool.false_eq_true, if_false]
  exact formed_pure _

theorem OrderBy.render_formed {o : OrderBy} (h : o.validate = .ok ()) :
    (o.render s).Formed := by
  have hne : o.items.isEmpty = false := by simpa using (validate_eq_ok.1 h).1
  unfold render
  simp only [hne, Bool.false_eq_true, if_false]
  exact (formed_each fun i _ => i.render_formed s).then fun _ => formed_pure _

/-- A clause that may be missing leaves no line then. -/
theorem Sql.optionalLine_formed {α : Type} {clause : PlainClause}
    {render : α → Traced Sql} {o : Option α} (h : ∀ a ∈ o, (render a).Formed) :
    (optionalLine clause render o).Formed := by
  cases o with
  | none => exact formed_pure _
  | some a =>
      exact (h a rfl).then fun _ => (formed_report _).then fun _ => formed_pure _

-- =============================================================== query

/-- The seven clauses, each by its lemma. LIMIT has no lemma: it holds two
numbers and is written as it stands. -/
theorem Query.renderLines_formed (settings : Settings) {q : Query}
    (h : q.validate = .ok ()) : (q.renderLines settings).Formed := by
  obtain ⟨hne, hselect, hsource, hfilter, hgroup, hhaving, horder⟩ := validate_eq_ok.1 h
  apply (FromClause.render_formed settings hsource).then
  intro p
  apply (SelectExpr.renderList_formed p.2 hne hselect).then
  intro _
  refine (Sql.optionalLine_formed fun w hw =>
    (TopFilter.render_formed p.2 (hfilter w hw)).then fun _ => formed_pure _).then
      fun _ => ?_
  refine (Sql.optionalLine_formed fun g hg =>
    GroupBy.render_formed (hgroup g hg)).then fun _ => ?_
  refine (Sql.optionalLine_formed fun h hh =>
    Having.render_formed p.2 (hhaving h hh)).then fun _ => ?_
  exact (Sql.optionalLine_formed fun o ho =>
    OrderBy.render_formed p.2 (horder o ho).1).then fun _ => formed_pure _

/-- The text of a query fails only where its lines do: what follows them
joins and reports. -/
theorem Query.toSql_eq (settings : Settings) (q : Query) :
    q.toSql settings = do
      let lines ← (q.renderLines settings).outcome
      return Sql.text (Sql.separated [Sql.lineEnd] lines) := by
  unfold toSql render Query.sql
  simp only [Traced.outcome_bind, Traced.outcome_pure]
  cases (q.renderLines settings).outcome with
  | error e => rfl
  | ok lines => cases settings.logSql <;> rfl

/-- A valid query has no node without SQL, under any settings. What is left
to fail are the table names. -/
theorem Query.toSql_ne_illFormed_of_valid (settings : Settings) {q : Query}
    (h : q.validate = .ok ()) (e : Entity) (fault : FormFault) :
    q.toSql settings ≠ .error (.illFormed e fault) := by
  rw [toSql_eq]
  intro heq
  cases ho : (q.renderLines settings).outcome with
  | ok lines => rw [ho] at heq; cases heq
  | error e' =>
      rw [ho] at heq
      cases heq
      exact renderLines_formed settings h e fault ho

end TypedSelect
