/-
What the settings decide.

Two of the three switches say which names are checked and one what is
logged, and none of them says what is written.

# Laxer settings

Both the renderer and the check of names only ever ask a scope whether a
column may stand in it, and laxer settings answer yes wherever stricter
ones do. So a rendering that succeeds comes to the same SQL under laxer
settings, one lemma for each renderer; the laxest settings of all are
laxer than any two, which makes the texts of any two equal.

# Errors

An error under some settings need not be one under laxer ones, but only if
it is a reference that is refused. `Lasts` carries both: what succeeds
comes to the same, and what fails otherwise fails in the same way. Along a
sequence of steps it needs no more than that, and each renderer is a
sequence of steps.

# Without the check of references

Then only a name that is taken is an error, and it is one under any
settings. For the check of names this is read off its steps, where the
settings come in at a reference and nowhere else.
-/
import TypedSelect.Proofs.Scope.Agreement
import TypedSelect.Proofs.Scope.Steps

namespace TypedSelect

open Check (each each_eq_error each_eq_ok)

-- ============================================================ settings

/-- Every check of the second settings is one of the first. -/
structure Settings.Laxer (c c' : Settings) : Prop where
  aliases : c'.checkAliases = true → c.checkAliases = true
  tables : c.allowTableNames = true → c'.allowTableNames = true

namespace Settings

/-- The settings that check nothing but that no name is taken twice. -/
def laxest : Settings := ⟨false, true, false⟩

theorem laxer_laxest (c : Settings) : c.Laxer laxest := ⟨nofun, fun _ => rfl⟩

theorem laxer_unchecked (c : Settings) : c.Laxer { c with checkAliases := false } :=
  ⟨nofun, id⟩

/-- They get laxer when tables may go by their own names. -/
theorem laxer_allowed (c : Settings) : c.Laxer { c with allowTableNames := true } :=
  ⟨id, fun _ => rfl⟩

end Settings

-- ============================================================== scopes

/-- The same names under laxer settings. -/
structure Scope.Laxer (s s' : Scope) : Prop where
  settings : s.settings.Laxer s'.settings
  entries : s'.entries = s.entries
  outer : s'.outer = s.outer

namespace Scope.Laxer

variable {s s' : Scope}

/-- A name that a scope has it has under laxer settings. -/
theorem contains (h : s.Laxer s') {name : String} (hc : s.contains name = true) :
    s'.contains name = true := by
  unfold Scope.contains at hc ⊢
  rw [h.entries, h.outer]
  simp only [List.any_eq_true, Scope.answers, Bool.and_eq_true, Bool.or_eq_true] at hc ⊢
  obtain ⟨level, hlevel, e, he, hname, hkind⟩ := hc
  exact ⟨level, hlevel, e, he, hname, hkind.imp_right h.settings.tables⟩

/-- A column that may stand in a scope may stand there under laxer
settings. -/
theorem admits (h : s.Laxer s') {c : QualifiedColumn} (hc : s.admits c = true) :
    s'.admits c = true := by
  obtain ⟨_ | q, column⟩ := c
  · rfl
  · simp only [Scope.admits, Bool.or_eq_true, Bool.not_eq_true', ← Bool.not_eq_true] at hc ⊢
    exact hc.imp (mt h.settings.aliases) h.contains

theorem child (h : s.Laxer s') : s.child.Laxer s'.child :=
  ⟨h.settings, rfl, by rw [Scope.child, Scope.child, h.entries, h.outer]⟩

end Scope.Laxer

-- ========================================================== renderings

/-- A reference that nothing answers to. -/
def QueryError.IsUnresolved (e : QueryError) : Prop :=
  ∃ aliasName reference, e = .unresolvedAlias aliasName reference

namespace Traced

variable {α β γ δ : Type} {R : α → β → Prop} {S : γ → δ → Prop}

/-- Where the first rendering succeeds the second does, with a related
result, and where it fails the second fails in the same way, unless the
first refuses a reference. -/
structure Lasts (R : α → β → Prop) (x : Traced α) (y : Traced β) : Prop where
  ok : ∀ a, x.outcome = .ok a → ∃ b, y.outcome = .ok b ∧ R a b
  error : ∀ e, x.outcome = .error e → e.IsUnresolved ∨ y.outcome = .error e

theorem lasts_pure {a : α} {b : β} (h : R a b) : Lasts R (Pure.pure a) (Pure.pure b) where
  ok _ ha := by
    cases ha
    exact ⟨b, rfl, h⟩
  error _ he := by cases he

/-- Both fail, and with one error. -/
theorem lasts_error {x : Traced α} {y : Traced β} {e : QueryError}
    (hx : x.outcome = .error e) (hy : y.outcome = .error e) : Lasts R x y where
  ok a ha := by
    rw [hx] at ha
    cases ha
  error e' he := by
    rw [hx] at he
    cases he
    exact .inr hy

/-- A node without SQL has none under any settings. -/
theorem lasts_illFormed (e : Entity) (fault : FormFault) :
    Lasts R (illFormed e fault) (illFormed e fault) := lasts_error rfl rfl

/-- The first refuses a reference. -/
theorem lasts_unresolved {x : Traced α} {y : Traced β} {aliasName reference : String}
    (hx : x.outcome = .error (.unresolvedAlias aliasName reference)) : Lasts R x y where
  ok a ha := by
    rw [hx] at ha
    cases ha
  error e he := by
    rw [hx] at he
    cases he
    exact .inl ⟨_, _, rfl⟩

theorem lasts_self (x : Traced α) : Lasts Eq x x where
  ok a ha := ⟨a, ha, rfl⟩
  error _ he := .inr he

/-- One step after the other. If the first refuses a reference, the rest does
not matter. -/
theorem Lasts.bind {x : Traced α} {y : Traced β} {f : α → Traced γ} {g : β → Traced δ}
    (hx : Lasts R x y) (hf : ∀ a b, R a b → Lasts S (f a) (g b)) :
    Lasts S (x >>= f) (y >>= g) where
  ok c hc := by
    obtain ⟨a, ha, hc⟩ := bind_eq_ok hc
    obtain ⟨b, hb, hR⟩ := hx.ok a ha
    obtain ⟨d, hd, hS⟩ := (hf a b hR).ok c hc
    exact ⟨d, by rw [outcome_bind, hb]; exact hd, hS⟩
  error e he := by
    rw [outcome_bind] at he ⊢
    cases hxo : x.outcome with
    | error e' =>
        rw [hxo] at he
        cases he
        exact (hx.error e hxo).imp_right fun hy => by rw [hy]; rfl
    | ok a =>
        rw [hxo] at he
        obtain ⟨b, hb, hR⟩ := hx.ok a hxo
        rw [hb]
        exact (hf a b hR).error e he

/-- First steps with one result. -/
theorem Lasts.then {x y : Traced α} {f : α → Traced γ} {g : α → Traced δ}
    (hx : Lasts Eq x y) (hf : ∀ a, Lasts S (f a) (g a)) : Lasts S (x >>= f) (y >>= g) :=
  hx.bind fun a b h => by subst h; exact hf a

/-- What is written at the end depends on the result alone. -/
theorem Lasts.map {x y : Traced α} {f : α → γ} (hx : Lasts Eq x y) :
    Lasts Eq (x >>= fun a => Pure.pure (f a)) (y >>= fun a => Pure.pure (f a)) :=
  hx.then fun _ => lasts_pure rfl

theorem lasts_each {f g : α → Traced β} (hf : ∀ a, Lasts Eq (f a) (g a)) (l : List α) :
    Lasts Eq (each f l) (each g l) := by
  induction l with
  | nil => exact lasts_pure rfl
  | cons a rest ih => exact (hf a).then fun _ => ih.map

/-- A case that does not depend on the settings. -/
theorem lasts_ite {p : Prop} [Decidable p] {x x' : Traced α} {y y' : Traced β}
    (h : Lasts R x y) (h' : Lasts R x' y') :
    Lasts R (if p then x else x') (if p then y else y') := by
  split
  · exact h
  · exact h'

end Traced

open Traced (lasts_each lasts_error lasts_illFormed lasts_ite lasts_pure lasts_self
  lasts_unresolved Lasts)

variable {s s' : Scope}

/-- A name comes into scope under laxer settings as well, or is taken under
both. -/
theorem Scope.Laxer.push (h : s.Laxer s') (name : String) (aliased : Bool) :
    Lasts Scope.Laxer (.lift (s.push name aliased)) (.lift (s'.push name aliased)) := by
  unfold Scope.push
  rw [h.entries]
  split
  next => exact lasts_error rfl rfl
  next => exact lasts_pure ⟨h.settings, rfl, h.outer⟩

theorem Scope.Laxer.introduce (h : s.Laxer s') (table : Table) (aliasName : Option String) :
    Lasts Scope.Laxer (.lift (s.introduce table aliasName))
      (.lift (s'.introduce table aliasName)) := by
  cases aliasName with
  | none => exact h.push _ _
  | some name => exact h.push _ _

/-- A column is written in the same way, unless it is refused. -/
theorem Scope.Laxer.render (h : s.Laxer s') (c : QualifiedColumn) :
    Lasts Eq (s.render c) (s'.render c) := by
  unfold Scope.render
  split
  next hc =>
    rw [if_pos (h.admits hc)]
    exact lasts_self _
  next => exact lasts_unresolved rfl

section

variable (h : s.Laxer s')
include h

-- ========================================================= expressions

/-- Each renderer comes to the same under laxer settings, unless it refuses a
reference, because its parts do. An operand is a column or a number. -/
theorem Operand.render_lasts (o : Operand) : Lasts Eq (o.render s) (o.render s') := by
  cases o with
  | column c => exact h.render c
  | number n => exact lasts_self _

theorem Arithmetic.render_lasts (a : Arithmetic) : Lasts Eq (a.render s) (a.render s') :=
  (a.left.render_lasts h).then fun _ => (a.right.render_lasts h).map

/-- An operation on an operation is the inner one and an operand. -/
theorem CompoundArithmetic.render_lasts (c : CompoundArithmetic) :
    Lasts Eq (c.render s) (c.render s') :=
  (c.inner.render_lasts h).then fun _ => (c.outer.render_lasts h).map

theorem AggregateExpr.renderInput_lasts (a : AggregateExpr) :
    Lasts Eq (a.renderInput s) (a.renderInput s') := by
  unfold renderInput
  cases a.input with
  | none => exact lasts_self _
  | some input =>
      cases input with
      | column c => exact h.render c
      | arithmetic e => exact e.render_lasts h

/-- The call around it does not ask the settings. -/
theorem AggregateExpr.renderCall_lasts (a : AggregateExpr) :
    Lasts Eq (a.renderCall s) (a.renderCall s') :=
  (a.renderInput_lasts h).then fun _ => lasts_self _

/-- A key of a sort is a column or the name of an output. -/
theorem OrderItem.render_lasts (i : OrderItem) : Lasts Eq (i.render s) (i.render s') := by
  unfold render
  cases i.key with
  | column c => exact (h.render c).map
  | output name => exact lasts_self _

theorem WindowExpr.renderArguments_lasts (w : WindowExpr) :
    Lasts Eq (w.renderArguments s) (w.renderArguments s') := by
  unfold renderArguments
  cases w.column with
  | none => exact lasts_self _
  | some c => exact lasts_ite (lasts_illFormed _ _) (h.render c).map

theorem WindowExpr.renderOrderItem_lasts (i : OrderItem) :
    Lasts Eq (renderOrderItem s i) (renderOrderItem s' i) := by
  unfold renderOrderItem
  cases i.key with
  | column c => exact i.render_lasts h
  | output name => exact lasts_illFormed _ _

/-- A window is its arguments, its partition and its order. -/
theorem WindowExpr.render_lasts (w : WindowExpr) : Lasts Eq (w.render s) (w.render s') := by
  have hover : Lasts Eq (w.renderOver s) (w.renderOver s') :=
    (lasts_each h.render w.partitionBy).then fun _ =>
      (lasts_each (renderOrderItem_lasts h) w.orderBy).map
  exact ((w.renderArguments_lasts h).then fun _ => hover.map).map

theorem Condition.render_lasts (c : Condition) : Lasts Eq (c.render s) (c.render s') := by
  cases c with
  | simple p => exact (h.render p.column).then fun _ => lasts_self _
  | columns p => exact (h.render p.left).then fun _ => (h.render p.right).map
  | between p => exact (h.render p.column).map

theorem CaseResult.render_lasts (r : CaseResult) : Lasts Eq (r.render s) (r.render s') := by
  cases r with
  | column c => exact h.render c
  | literal v => exact lasts_self _

theorem CaseBranch.render_lasts (b : CaseBranch) : Lasts Eq (b.render s) (b.render s') :=
  (Condition.render_lasts h (.simple b.condition)).then fun _ => (b.result.render_lasts h).map

theorem CaseExpr.render_lasts (c : CaseExpr) : Lasts Eq (c.render s) (c.render s') := by
  have helse : Lasts Eq (c.renderElse s) (c.renderElse s') := by
    unfold renderElse
    cases c.otherwise with
    | none => exact lasts_self _
    | some r => exact r.render_lasts h
  exact lasts_ite (lasts_illFormed _ _)
    ((lasts_each (CaseBranch.render_lasts h) c.branches).then fun _ => helse.map)

theorem SelectExpr.render_lasts (e : SelectExpr) : Lasts Eq (e.render s) (e.render s') := by
  cases e with
  | column e => exact (h.render e.source).map
  | binary e => exact (e.arithmetic.render_lasts h).map
  | compound e => exact (e.render_lasts h).map
  | aggregate e => exact (e.renderCall_lasts h).map
  | window e => exact e.render_lasts h
  | case e => exact (e.render_lasts h).map

-- ============================================================= filters

theorem ConditionGroup.renderBody_lasts (g : ConditionGroup) :
    Lasts Eq (g.renderBody s) (g.renderBody s') :=
  lasts_ite (lasts_illFormed _ _) (lasts_each (Condition.render_lasts h) g.conditions).map

theorem Join.renderOn_lasts (groups : List ConditionGroup) :
    Lasts Eq (renderOn s groups) (renderOn s' groups) := by
  match groups with
  | [] => exact lasts_illFormed _ _
  | [g] => exact g.renderBody_lasts h
  | g :: g' :: rest => exact (lasts_each (ConditionGroup.renderBody_lasts h) _).map

theorem Filter.renderParts_lasts (w : Filter) :
    Lasts Eq (w.renderParts s) (w.renderParts s') :=
  (lasts_each (fun g => (ConditionGroup.renderBody_lasts h g).map) w.groups).then fun _ =>
    (lasts_each (fun p => Condition.render_lasts h (.between p)) w.between).map

theorem Filter.renderOptional_lasts (w : Option Filter) :
    Lasts Eq (renderOptional s w) (renderOptional s' w) := by
  cases w with
  | none => exact lasts_self _
  | some w => exact ((w.renderParts_lasts h).then fun _ => lasts_self _).map

/-- A subquery is written in a scope inside, which is as lax. -/
theorem ScalarSubquery.render_lasts (q : ScalarSubquery) :
    Lasts Eq (q.render s) (q.render s') :=
  (h.child.introduce q.table q.aliasName).bind fun _ _ hinner =>
    (q.aggregate.renderCall_lasts hinner).then fun _ =>
      (Filter.renderOptional_lasts hinner q.filter).map

/-- A test against a subquery is a column and the subquery. -/
theorem SubqueryCondition.render_lasts (p : SubqueryCondition) :
    Lasts Eq (p.render s) (p.render s') :=
  (h.render p.column).then fun _ => (p.subquery.render_lasts h).map

/-- The filter of a query and its tests against subqueries. -/
theorem TopFilter.render_lasts (w : TopFilter) : Lasts Eq (w.render s) (w.render s') :=
  (w.toFilter.renderParts_lasts h).then fun _ =>
    (lasts_each (SubqueryCondition.render_lasts h) w.subqueries).then fun _ => lasts_self _

-- ============================================================= clauses

theorem SelectExpr.renderList_lasts (items : List SelectExpr) :
    Lasts Eq (renderList s items) (renderList s' items) :=
  lasts_ite (lasts_illFormed _ _)
    ((lasts_each (SelectExpr.render_lasts h) items).then fun _ => lasts_self _)

theorem HavingCondition.render_lasts (p : HavingCondition) :
    Lasts Eq (p.render s) (p.render s') := by
  have hcolumn : Lasts Eq (p.renderColumn s) (p.renderColumn s') := by
    unfold renderColumn
    cases p.column with
    | none => exact lasts_self _
    | some c => exact h.render c
  exact (hcolumn.then fun _ => lasts_self _).map

theorem Having.render_lasts (c : Having) : Lasts Eq (c.render s) (c.render s') :=
  lasts_ite (lasts_illFormed _ _) (lasts_each (HavingCondition.render_lasts h) c.conditions).map

theorem OrderBy.render_lasts (o : OrderBy) : Lasts Eq (o.render s) (o.render s') :=
  lasts_ite (lasts_illFormed _ _) (lasts_each (OrderItem.render_lasts h) o.items).map

end

theorem Sql.optionalLine_lasts {α : Type} {clause : PlainClause} {render render' : α → Traced Sql}
    (h : ∀ a, Lasts Eq (render a) (render' a)) (o : Option α) :
    Lasts Eq (optionalLine clause render o) (optionalLine clause render' o) := by
  cases o with
  | none => exact lasts_self _
  | some a => exact (h a).then fun _ => lasts_self _

-- ============================================================= sources

/-- The same text, and the same names under laxer settings. -/
def SameText {α : Type} (p p' : α × Scope) : Prop := p.1 = p'.1 ∧ p.2.Laxer p'.2

variable {c c' : Settings}

/-- No names yet. -/
theorem Scope.laxer_empty (h : c.Laxer c') : Scope.Laxer { settings := c } { settings := c' } :=
  ⟨h, rfl, rfl⟩

theorem DerivedTable.render_lasts (h : c.Laxer c') (d : DerivedTable) :
    Lasts Eq (d.render c) (d.render c') :=
  lasts_ite (lasts_illFormed _ _) <|
    ((Scope.laxer_empty h).introduce d.table none).bind fun _ _ hinner =>
      (lasts_each (SelectExpr.render_lasts hinner) d.select).then fun _ =>
        (Filter.renderOptional_lasts hinner d.filter).map

/-- The table or the derived table of a source, and the scope behind it.
Under laxer settings the entries are the same and more of them answer. -/
theorem FromClause.renderTable_lasts (h : c.Laxer c') (f : FromClause) :
    Lasts SameText (f.renderTable c) (f.renderTable c') := by
  unfold renderTable
  cases f.table with
  | some table =>
      cases f.derived with
      | some d => exact lasts_illFormed _ _
      | none =>
          exact ((Scope.laxer_empty h).introduce table f.aliasName).bind fun _ _ hs =>
            lasts_pure ⟨rfl, hs⟩
  | none =>
      cases f.derived with
      | none => exact lasts_illFormed _ _
      | some d =>
          exact (d.render_lasts h).then fun _ =>
            ((Scope.laxer_empty h).push d.aliasName true).bind fun _ _ hs => lasts_pure ⟨rfl, hs⟩

/-- Joins one after the other, each with the names of those before it. -/
theorem Join.renderAll_lasts (joins : List Join) (h : s.Laxer s') :
    Lasts SameText (renderAll s joins) (renderAll s' joins) := by
  induction joins generalizing s s' with
  | nil => exact lasts_pure ⟨rfl, h⟩
  | cons j rest ih =>
      have hjoin : Lasts SameText (j.render s) (j.render s') :=
        (h.introduce j.table j.aliasName).bind fun _ _ hinner =>
          (renderOn_lasts hinner j.on).then fun _ => lasts_pure ⟨rfl, hinner⟩
      refine hjoin.bind fun p p' hp => (ih hp.2).bind fun q q' hq => lasts_pure ⟨?_, hq.2⟩
      rw [hp.1, hq.1]

theorem FromClause.render_lasts (h : c.Laxer c') (f : FromClause) :
    Lasts SameText (f.render c) (f.render c') := by
  refine (f.renderTable_lasts h).bind fun p p' hp => ?_
  refine (Join.renderAll_lasts f.joins hp.2).bind fun q q' hq => ?_
  refine (lasts_self _).then fun _ => lasts_pure ⟨?_, hq.2⟩
  rw [hp.1, hq.1]

-- =============================================================== query

/-- A query is its source and then its clauses, in the scope of the source. -/
theorem Query.renderLines_lasts (h : c.Laxer c') (q : Query) :
    Lasts Eq (q.renderLines c) (q.renderLines c') := by
  refine (q.source.render_lasts h).bind fun p p' hp => ?_
  refine (SelectExpr.renderList_lasts hp.2 q.select).then fun _ => ?_
  refine (Sql.optionalLine_lasts (fun w => (w.render_lasts hp.2).map) q.filter).then fun _ => ?_
  refine (lasts_self _).then fun _ => ?_
  refine (Sql.optionalLine_lasts (Having.render_lasts hp.2) q.having).then fun _ => ?_
  refine (Sql.optionalLine_lasts (OrderBy.render_lasts hp.2) q.orderBy).then fun _ => ?_
  rw [hp.1]
  exact lasts_pure rfl

/-- A text is the same under laxer settings. -/
theorem Query.toSql_of_laxer (h : c.Laxer c') {q : Query} {sql : String}
    (hsql : q.toSql c = .ok sql) : q.toSql c' = .ok sql := by
  rw [toSql_eq] at hsql ⊢
  cases hlines : (q.renderLines c).outcome with
  | error e => rw [hlines] at hsql; cases hsql
  | ok lines =>
      obtain ⟨_, hlines', rfl⟩ := (q.renderLines_lasts h).ok lines hlines
      rw [hlines']
      rwa [hlines] at hsql

/-- An error stays under laxer settings unless it is a reference that was
refused. -/
theorem Query.toSql_error_of_laxer (h : c.Laxer c') {q : Query} {e : QueryError}
    (he : q.toSql c = .error e) : e.IsUnresolved ∨ q.toSql c' = .error e := by
  rw [toSql_eq] at he ⊢
  cases hlines : (q.renderLines c).outcome with
  | ok lines => rw [hlines] at he; cases he
  | error e' =>
      rw [hlines] at he
      cases he
      exact ((q.renderLines_lasts h).error e hlines).imp_right fun h' => by rw [h']; rfl

-- ======================================================= check of names

/-- A step that passes does so under laxer settings. -/
theorem ScopeStep.check_of_laxer (h : c.Laxer c') {step : ScopeStep}
    (hstep : step.check c = .ok ()) : step.check c' = .ok () := by
  cases step with
  | name before entry => exact hstep
  | reference entries outer column =>
      have hlaxer : Scope.Laxer ⟨c, entries, outer⟩ ⟨c', entries, outer⟩ := ⟨h, rfl, rfl⟩
      have hadmits : Scope.admits ⟨c, entries, outer⟩ column = true := by
        by_contra hnot
        rw [check, Scope.resolve, if_neg hnot] at hstep
        cases hstep
      rw [check, Scope.resolve, if_pos (hlaxer.admits hadmits)]

/-- A query whose names pass does so under laxer settings. -/
theorem Query.checkScope_of_laxer (h : c.Laxer c') {q : Query}
    (hq : q.checkScope c = .ok ()) : q.checkScope c' = .ok () := by
  rw [checkScope_eq_each, each_eq_ok] at hq ⊢
  exact fun step hstep => ScopeStep.check_of_laxer h (hq step hstep)

theorem Query.checkScope_logging (c : Settings) (log : Bool) (q : Query) :
    q.checkScope { c with logSql := log } = q.checkScope c := by
  rw [checkScope_eq_each, checkScope_eq_each]
  refine congrArg (each · _) (funext fun step => ?_)
  cases step <;> rfl

/-- The error of a name of the source that another one before it has
already. -/
def Query.Taken (q : Query) (e : QueryError) : Prop :=
  ∃ before entry after, q.source.entries = before ++ entry :: after ∧
    (∃ earlier ∈ before, sameName earlier.name entry.name = true) ∧
    e = .invalid (.duplicateAlias entry.name)

/-- Without the check of references only a name that is taken is an error.
Such a name is one of the source, since no other level has two. -/
theorem Query.taken_of_checkScope (hc : c.checkAliases = false) {q : Query} {e : QueryError}
    (h : q.checkScope c = .error e) : q.Taken e := by
  rw [checkScope_eq_each] at h
  obtain ⟨step, hstep, hfails⟩ := each_eq_error h
  cases step with
  | reference entries outer column =>
      -- without checks every reference is admitted, so none is the one that fails
      have hadmits : Scope.admits ⟨c, entries, outer⟩ column = true := by
        obtain ⟨_ | q, column⟩ := column
        · rfl
        · rw [Scope.admits, hc]; rfl
      rw [ScopeStep.check, Scope.resolve, if_pos hadmits] at hfails
      cases hfails
  | name level entry =>
      rw [ScopeStep.check, Check.require] at hfails
      split at hfails
      next => cases hfails
      next htaken =>
        cases hfails
        rw [Bool.not_eq_true', Bool.not_eq_false, List.any_eq_true] at htaken
        obtain ⟨earlier, hmem, hsame⟩ := htaken
        -- the names before this one are at its own level, so the two are taken at one
        -- level
        obtain ⟨first, rest, hentries, hlevel⟩ :=
          ScopeStep.mem_names.1 (mem_names_of_mem_steps hstep (List.ne_nil_of_mem hmem))
        rw [List.nil_append] at hlevel
        subst hlevel
        exact ⟨level, entry, rest, hentries, ⟨earlier, hmem, hsame⟩, rfl⟩

/-- Without the check of references the names pass where none is taken. So
the setting does not turn off the check of names that are given twice. -/
theorem Query.checkScope_unchecked (hc : c.checkAliases = false) {q : Query} :
    q.checkScope c = .ok () ↔ q.NamesDistinct := by
  constructor
  · intro h
    rw [checkScope_eq_each, each_eq_ok] at h
    exact namesDistinct_of_steps h
  · intro h
    cases hq : q.checkScope c with
    | ok _ => rfl
    | error e =>
        obtain ⟨before, entry, after, hentries, ⟨earlier, hmem, hsame⟩, -⟩ :=
          taken_of_checkScope hc hq
        rw [NamesDistinct, hentries, List.pairwise_append] at h
        have hdistinct := h.2.2 earlier hmem entry List.mem_cons_self
        rw [hsame] at hdistinct
        cases hdistinct

/-- A reference that stops a rendering stops the check of names. -/
theorem Query.checkScope_of_unresolved {q : Query} {aliasName reference : String}
    (h : q.toSql c = .error (.unresolvedAlias aliasName reference)) :
    q.checkScope c = .error (.unresolvedAlias aliasName reference) := by
  refine ((q.toSql_inStep c).error_of_error h ?_).2
  intro entity fault heq
  cases heq

/-- Logging changes no outcome. Settings that differ in it are laxer than
each other. -/
theorem Query.toSql_logging (c : Settings) (log : Bool) (q : Query) :
    q.toSql { c with logSql := log } = q.toSql c := by
  have hthere : c.Laxer { c with logSql := log } := ⟨id, id⟩
  have hback : Settings.Laxer { c with logSql := log } c := ⟨id, id⟩
  cases h : q.toSql c with
  | ok sql => exact toSql_of_laxer hthere h
  | error e =>
      rcases toSql_error_of_laxer hthere h with ⟨aliasName, reference, rfl⟩ | h'
      · cases h' : q.toSql { c with logSql := log } with
        | ok sql =>
            rw [toSql_of_laxer hback h'] at h
            cases h
        | error e' =>
            rcases toSql_error_of_laxer hback h' with ⟨aliasName', reference', rfl⟩ | h''
            · -- Both refuse a reference, and the check of names says which.
              have hcheck := checkScope_of_unresolved h'
              rw [checkScope_logging, checkScope_of_unresolved h] at hcheck
              cases hcheck
              rfl
            · rw [h''] at h
              exact h
      · exact h'

-- ======================================================== main results

/-- The settings decide whether a query is refused and nothing else. What
is written under two settings is the same text; logging changes nothing;
what passes or is written stays so when either check is given up. Without
the check of references no reference is refused: the names pass just where
none is taken, and the error is one that is. A query with a name that is
taken is refused under any settings. -/
theorem Query.settings_decide_only_refusal (q : Query) :
    (∀ c c' sql sql', q.toSql c = .ok sql → q.toSql c' = .ok sql' → sql = sql') ∧
    (∀ c log, q.toSql { c with logSql := log } = q.toSql c ∧
      q.checkScope { c with logSql := log } = q.checkScope c) ∧
    (∀ c sql, q.toSql c = .ok sql →
      q.toSql { c with checkAliases := false } = .ok sql ∧
      q.toSql { c with allowTableNames := true } = .ok sql) ∧
    (∀ c, q.checkScope c = .ok () →
      q.checkScope { c with checkAliases := false } = .ok () ∧
      q.checkScope { c with allowTableNames := true } = .ok ()) ∧
    (∀ c, c.checkAliases = false →
      (q.checkScope c = .ok () ↔ q.NamesDistinct) ∧
      (∀ e, q.checkScope c = .error e → q.Taken e) ∧
      ∀ e, q.toSql c = .error e → q.Taken e ∨ ∃ entity fault, e = .illFormed entity fault) ∧
    ∀ c, ¬ q.NamesDistinct → q.checkScope c ≠ .ok () ∧ ∀ sql, q.toSql c ≠ .ok sql := by
  have hnames : ∀ c, ¬ q.NamesDistinct → q.checkScope c ≠ .ok () := by
    intro c hq h
    rw [checkScope_eq_each, each_eq_ok] at h
    exact hq (namesDistinct_of_steps h)
  refine ⟨?text, fun c log => ⟨q.toSql_logging c log, q.checkScope_logging c log⟩,
    fun c sql h => ⟨toSql_of_laxer c.laxer_unchecked h, toSql_of_laxer c.laxer_allowed h⟩,
    fun c h => ⟨checkScope_of_laxer c.laxer_unchecked h, checkScope_of_laxer c.laxer_allowed h⟩,
    fun c hc => ⟨checkScope_unchecked hc, fun e h => taken_of_checkScope hc h, ?error⟩,
    fun c hq => ⟨hnames c hq, ?refused⟩⟩
  case text =>
    intro c c' sql sql' h h'
    have hlaxest := toSql_of_laxer c.laxer_laxest h
    rw [toSql_of_laxer c'.laxer_laxest h'] at hlaxest
    exact (Except.ok.inj hlaxest).symm
  case error =>
    intro e h
    by_cases he : ∃ entity fault, e = .illFormed entity fault
    · exact .inr he
    · refine .inl (taken_of_checkScope hc ((q.toSql_inStep c).error_of_error h ?_).2)
      exact fun entity fault heq => he ⟨entity, fault, heq⟩
  case refused =>
    intro sql h
    obtain ⟨_, hc, -⟩ := (q.toSql_inStep c).ok_of_ok h
    exact hnames c hq hc

/-- The sample with its join made twice. -/
def Query.joinedTwice : Query :=
  { sample with source := { sample.source with joins := sample.source.joins ++ sample.source.joins } }

/-- The sample is written in the same way without checks; joined twice it
is refused with them and without. -/
theorem Query.sample_outlasts_checks :
    (∃ sql, sample.toSql {} = .ok sql ∧ sample.toSql ⟨false, true, false⟩ = .ok sql ∧
      (∀ c sql', sample.toSql c = .ok sql' → sql = sql') ∧
      sample.checkScope ⟨false, true, false⟩ = .ok ()) ∧
    ¬ joinedTwice.NamesDistinct ∧ joinedTwice.checkScope {} ≠ .ok () ∧
    joinedTwice.checkScope ⟨false, true, false⟩ = .error (.invalid (.duplicateAlias "h")) ∧
    joinedTwice.Taken (.invalid (.duplicateAlias "h")) := by
  have hnames : sample.checkScope {} = .ok () := by decide +kernel
  obtain ⟨sql, hsql⟩ := toSql_of_checkScope (by decide +kernel : sample.validate = .ok ()) hnames
  have htwice : ¬ joinedTwice.NamesDistinct := by
    unfold NamesDistinct
    decide +kernel
  have hrefused : joinedTwice.checkScope ⟨false, true, false⟩ =
      .error (.invalid (.duplicateAlias "h")) := by decide +kernel
  obtain ⟨htext, -, hwritten, hpasses, -, -⟩ := settings_decide_only_refusal sample
  obtain ⟨-, -, -, -, htaken, hrepeated⟩ := settings_decide_only_refusal joinedTwice
  exact ⟨⟨sql, hsql, (hwritten {} sql hsql).1, fun c sql' h => htext {} c sql sql' hsql h,
      (hpasses {} hnames).1⟩,
    htwice, (hrepeated {} htwice).1, hrefused, (htaken _ rfl).2.1 _ hrefused⟩

end TypedSelect
