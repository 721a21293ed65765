/-
Operators and what stands on their right.

Four nodes write a comparison operator. A test against constants looks
first whether its right side is what the operator takes, and has no SQL
otherwise. The other three write the operator and their right side as they
are. So in the SQL of a query, valid or not, every test against constants
has the shape that its operator asks for, and a test of another kind has
it if its operator fits the kind. Nothing here needs validity: these are
the guards of the renderer itself.

# Shape

`Test.Shaped` says of a row that it is what the test is about, the
operator, and what the operator takes: nothing, values in parentheses, or
one value. A subquery counts as one value and as values in parentheses,
and a column or a constant only as one value. The two are told apart by
the parenthesis that a list begins with.

# Places

That every test of a query has its row in the SQL of the query is said by
`Sql.Shows`, a piece of some row for each test. One lemma for each
renderer carries the tests of a node from the rows of its parts to its own
row; most rows are their parts with something between, and the lemmas of
`Sql.Shows` are the ways to put rows together.

# What is refused

A query with a test against constants that does not fit has no SQL. Its
error is the form of the node, unless a name is refused before.
-/
import TypedSelect.Proofs.Scope.Agreement
import TypedSelect.Proofs.Sql.Reading.Expression

namespace TypedSelect

open Sql
open Traced (Yields yields_pure yields_then yields_each yields_fail)

-- ============================================================== tests

/-- A node that writes a comparison operator. -/
inductive Test where
  | constants (p : Comparison)
  | columns (p : ColumnComparison)
  | subquery (p : SubqueryCondition)
  | groups (p : HavingCondition)
deriving DecidableEq

/-- The operator has one value on its right. -/
def ComparisonOp.takesOne (op : ComparisonOp) : Bool := !op.takesNothing && !op.takesList

/-- The right side is what the operator takes. -/
def Comparison.Fits (p : Comparison) : Prop :=
  match p.value with
  | none => p.op.takesNothing = true
  | some (.list values) => p.op.takesList = true ∧ values ≠ []
  | some (.scalar _) => p.op.takesOne = true

namespace Test

/-- The operator of a test. -/
def op : Test → ComparisonOp
  | constants p => p.op
  | columns p => p.op
  | subquery p => p.op
  | groups p => p.op

/-- The right side is what the operator takes. A subquery is one value,
and also a list of them. -/
def Fits : Test → Prop
  | constants p => p.Fits
  | columns p => p.op.takesOne = true
  | subquery p => p.op.takesNothing = false
  | groups p => p.op.takesOne = true

/-- What a test is about. -/
def renderLeft (s : Scope) : Test → Traced Sql
  | constants p => s.render p.column
  | columns p => s.render p.left
  | subquery p => s.render p.column
  | groups p => p.renderCall s

/-- The SQL of a test. -/
def render (s : Scope) : Test → Traced Sql
  | constants p => p.render s
  | columns p => p.render s
  | subquery p => p.render s
  | groups p => p.render s

end Test

/-- The tests of a node, those inside its subqueries with them. -/
def Condition.tests : Condition → List Test
  | simple p => [.constants p]
  | columns p => [.columns p]
  | between _ => []

@[inherit_doc Condition.tests]
def ConditionGroup.tests (g : ConditionGroup) : List Test := g.conditions.flatMap Condition.tests

@[inherit_doc Condition.tests]
def CaseBranch.tests (b : CaseBranch) : List Test := [.constants b.condition]

@[inherit_doc Condition.tests]
def SelectExpr.tests : SelectExpr → List Test
  | case e => e.branches.flatMap CaseBranch.tests
  | _ => []

@[inherit_doc Condition.tests]
def Filter.tests (w : Filter) : List Test := w.groups.flatMap ConditionGroup.tests

@[inherit_doc Condition.tests]
def ScalarSubquery.tests (q : ScalarSubquery) : List Test := q.filter.toList.flatMap Filter.tests

@[inherit_doc Condition.tests]
def SubqueryCondition.tests (p : SubqueryCondition) : List Test := .subquery p :: p.subquery.tests

@[inherit_doc Condition.tests]
def TopFilter.tests (w : TopFilter) : List Test :=
  w.toFilter.tests ++ w.subqueries.flatMap SubqueryCondition.tests

@[inherit_doc Condition.tests]
def DerivedTable.tests (d : DerivedTable) : List Test :=
  d.select.flatMap SelectExpr.tests ++ d.filter.toList.flatMap Filter.tests

@[inherit_doc Condition.tests]
def Join.tests (j : Join) : List Test := j.on.flatMap ConditionGroup.tests

@[inherit_doc Condition.tests]
def FromClause.tests (f : FromClause) : List Test :=
  f.derived.toList.flatMap DerivedTable.tests ++ f.joins.flatMap Join.tests

@[inherit_doc Condition.tests]
def Having.tests (h : Having) : List Test := h.conditions.map .groups

@[inherit_doc Condition.tests]
def Query.tests (q : Query) : List Test :=
  q.select.flatMap SelectExpr.tests ++ q.source.tests ++ q.filter.toList.flatMap TopFilter.tests ++
    q.having.toList.flatMap Having.tests

-- =============================================================== shape

/-- One value: a constant, a column, or a subquery. -/
inductive Sql.IsOperand : Sql → Prop
  | literal (v : Literal) : IsOperand v.sql
  | column (c : QualifiedColumn) : IsOperand c.sql
  | subquery {s : Scope} {q : ScalarSubquery} {row : Sql} (h : (q.render s).outcome = .ok row) :
    IsOperand row

/-- Values in parentheses: some constants, or a subquery. -/
inductive Sql.IsList : Sql → Prop
  | literals {values : List Literal} (h : values ≠ []) :
    IsList (parens (listed (values.map Literal.sql)))
  | subquery {s : Scope} {q : ScalarSubquery} {row : Sql} (h : (q.render s).outcome = .ok row) :
    IsList row

/-- What an operator has behind it: nothing, values in parentheses, or one
value. -/
def ComparisonOp.Takes (op : ComparisonOp) (right : Sql) : Prop :=
  if op.takesNothing then right = []
  else ∃ row, right = space :: row ∧ if op.takesList then IsList row else IsOperand row

/-- The row of a test is what the test is about, the operator, and then
what the operator takes, and nothing else. -/
def Test.Shaped (s : Scope) (t : Test) (row : Sql) : Prop :=
  ∃ left right, (t.renderLeft s).outcome = .ok left ∧
    row = left ++ space :: (t.op.sql ++ right) ∧ t.op.Takes right

theorem ScalarSubquery.render_parens {s : Scope} {q : ScalarSubquery} :
    (q.render s).Yields fun row => ∃ body, row = parens body :=
  yields_then fun _ => yields_then fun _ => yields_then fun _ => yields_pure ⟨_, rfl⟩

/-- Values in parentheses begin with one. -/
theorem Sql.IsList.head {row : Sql} (h : IsList row) : row.head? = some (.sign "(") := by
  cases h with
  | literals h => rfl
  | subquery h =>
      obtain ⟨body, rfl⟩ := ScalarSubquery.render_parens _ h
      rfl

/-- A column is no list: it begins with a name. -/
theorem QualifiedColumn.not_isList (c : QualifiedColumn) : ¬ IsList c.sql := by
  intro h
  have := h.head
  unfold sql at this
  cases hq : c.qualifier <;> rw [hq] at this <;> cases this

/-- Neither is a number with a sign or without. -/
theorem Sql.signed_not_isList (negative : Bool) {l : Lexeme} (h : l ≠ .sign "(") :
    ¬ IsList (signed negative [l]) := by
  intro hlist
  have hhead := hlist.head
  cases negative with
  | false => exact h (Option.some.inj hhead)
  | true => exact absurd (Option.some.inj hhead) (by decide)

theorem Literal.not_isList (v : Literal) : ¬ IsList v.sql := by
  cases v with
  | bool b => cases b <;> exact signed_not_isList false (by decide)
  | int i => exact signed_not_isList _ (by simp)
  | float x =>
      refine signed_not_isList _ ?_
      split <;> simp
  | string s => exact signed_not_isList false (by simp)

/-- An operator that wants one value has it behind itself, and one that
wants something else has not. -/
theorem ComparisonOp.takes_operand {op : ComparisonOp} {row : Sql} (hrow : IsOperand row)
    (hlist : ¬ IsList row) : op.Takes (space :: row) ↔ op.takesOne = true := by
  unfold Takes takesOne
  cases op.takesNothing <;> cases op.takesList <;> simp [hrow, hlist]

/-- A subquery is behind every operator that wants something. -/
theorem ComparisonOp.takes_subquery {op : ComparisonOp} {s : Scope} {q : ScalarSubquery} {row : Sql}
    (h : (q.render s).outcome = .ok row) : op.Takes (space :: row) ↔ op.takesNothing = false := by
  unfold Takes
  cases op.takesNothing <;> cases op.takesList <;> simp [IsOperand.subquery h, IsList.subquery h]

theorem Sql.spaced_pair (a b : Sql) : spaced [a, b] = a ++ space :: b :=
  List.append_assoc a [space] b

/-- What is written behind the column of a test against constants is the
operator and what it takes, or nothing is written. -/
theorem Comparison.renderValue_takes (p : Comparison) :
    p.renderValue.Yields fun row =>
      p.Fits ∧ ∃ right, row = p.op.sql ++ right ∧ p.op.Takes right := by
  unfold renderValue Fits ComparisonOp.Takes
  cases hn : p.op.takesNothing with
  | true =>
      cases p.value with
      | some _ => exact yields_fail _
      | none => exact yields_pure ⟨rfl, [], (List.append_nil _).symm, rfl⟩
  | false =>
      cases p.value with
      | none => exact yields_fail _
      | some value =>
          cases value with
          | list values =>
              cases hl : p.op.takesList with
              | false => exact yields_fail _
              | true =>
                  by_cases hvalues : values = []
                  · subst hvalues
                    exact yields_fail _
                  · have hempty : values.isEmpty = false := by simpa using hvalues
                    dsimp only
                    rw [hempty]
                    exact yields_pure
                      ⟨⟨rfl, hvalues⟩, _, spaced_pair _ _, _, rfl, .literals hvalues⟩
          | scalar v =>
              cases hl : p.op.takesList with
              | true => exact yields_fail _
              | false =>
                  have hone : p.op.takesOne = true := by rw [ComparisonOp.takesOne, hn, hl]; rfl
                  exact yields_pure ⟨hone, _, spaced_pair _ _, _, rfl, .literal v⟩

theorem Sql.spaced_triple (a b c : Sql) : spaced [a, b, c] = a ++ space :: (b ++ space :: c) := by
  rw [← spaced_pair b c]
  exact List.append_assoc a [space] _

/-- Where the left side and the operator stand, the shape is a matter of
the right side. -/
theorem Test.shaped_iff {s : Scope} {t : Test} {left right : Sql}
    (hleft : (t.renderLeft s).outcome = .ok left) :
    t.Shaped s (left ++ space :: (t.op.sql ++ right)) ↔ t.op.Takes right := by
  constructor
  · rintro ⟨left', right', hleft', hrow, htakes⟩
    obtain rfl : left = left' := Except.ok.inj (hleft.symm.trans hleft')
    rw [List.append_cancel_left_eq, List.cons.injEq, List.append_cancel_left_eq] at hrow
    rwa [hrow.2]
  · exact fun h => ⟨left, right, hleft, rfl, h⟩

/-- A test against constants has SQL only if its right side is what its
operator takes, and then its row has the shape. -/
theorem Comparison.render_shaped {s : Scope} (p : Comparison) :
    (p.render s).Yields fun row => (Test.constants p).Shaped s row ∧ p.Fits := by
  intro row h
  obtain ⟨left, hleft, h⟩ := Traced.bind_eq_ok h
  obtain ⟨value, hvalue, h⟩ := Traced.bind_eq_ok h
  cases h
  obtain ⟨hfits, right, rfl, htakes⟩ := p.renderValue_takes _ hvalue
  rw [spaced_pair]
  exact ⟨(Test.shaped_iff (t := .constants p) hleft).2 htakes, hfits⟩

/-- The row of a test has the shape exactly if the operator fits. Each kind
is a case: a test against constants always has it, and for the others the
right side is a column, a subquery or a constant. -/
theorem Test.render_shaped {s : Scope} (t : Test) :
    (t.render s).Yields fun row => t.Shaped s row ↔ t.Fits := by
  intro row h
  cases t with
  | constants p =>
      obtain ⟨hshaped, hfits⟩ := p.render_shaped row h
      -- a test against constants that does not fit is refused, and the others are not
      exact iff_of_true hshaped hfits
  | columns p =>
      obtain ⟨left, hleft, h⟩ := Traced.bind_eq_ok h
      obtain ⟨right, hright, h⟩ := Traced.bind_eq_ok h
      cases h
      obtain rfl : right = p.right.sql := s.render_yields p.right right hright
      rw [spaced_triple]
      exact (shaped_iff (t := .columns p) hleft).trans
        (ComparisonOp.takes_operand (.column p.right) p.right.not_isList)
  | subquery p =>
      obtain ⟨left, hleft, h⟩ := Traced.bind_eq_ok h
      obtain ⟨right, hright, h⟩ := Traced.bind_eq_ok h
      cases h
      rw [spaced_triple]
      exact (shaped_iff (t := .subquery p) hleft).trans (ComparisonOp.takes_subquery hright)
  | groups p =>
      obtain ⟨left, hleft, h⟩ := Traced.bind_eq_ok h
      cases h
      rw [spaced_triple]
      exact (shaped_iff (t := .groups p) hleft).trans
        (ComparisonOp.takes_operand (.literal p.value) p.value.not_isList)

-- ============================================================ places

/-- Among the rows is the row of every test, as a piece of one of them. -/
def Sql.Shows (rows : List Sql) (tests : List Test) : Prop :=
  ∀ t ∈ tests, ∃ row ∈ rows, ∃ s r, (t.render s).outcome = .ok r ∧ r <:+: row

/-- A row is a piece of the rows it stands among. What shows a test is that
its row is a piece of the text, so this is used at every list. -/
theorem Sql.infix_separated {separator row : Sql} {rows : List Sql} (h : row ∈ rows) :
    row <:+: separated separator rows := by
  induction rows with
  | nil => cases h
  | cons first rest ih =>
      cases rest with
      | nil =>
          obtain rfl := List.mem_singleton.1 h
          exact List.infix_rfl
      | cons second rest =>
          obtain rfl | h := List.mem_cons.1 h
          · exact ((List.prefix_append row separator).trans (List.prefix_append _ _)).isInfix
          · exact (ih h).trans (List.suffix_append _ _).isInfix

namespace Sql.Shows

variable {rows rows' : List Sql} {row : Sql} {tests tests' : List Test}

theorem nil : Shows rows [] := by
  intro t ht
  cases ht

/-- Rows that show two lists of tests show both. -/
theorem append (h : Shows rows tests) (h' : Shows rows tests') : Shows rows (tests ++ tests') :=
  fun t ht => (List.mem_append.1 ht).elim (h t) (h' t)

/-- More rows show more. -/
theorem subset (h : Shows rows tests) (hsub : rows ⊆ rows') : Shows rows' tests := by
  intro t ht
  obtain ⟨row, hrow, hpiece⟩ := h t ht
  exact ⟨row, hsub hrow, hpiece⟩

/-- A row shows what a piece of it shows. -/
theorem piece (h : Shows [row] tests) {row' : Sql} (hpiece : row <:+: row') :
    Shows [row'] tests := by
  intro t ht
  obtain ⟨_, hrow, s, r, hr, hr'⟩ := h t ht
  obtain rfl := List.mem_singleton.1 hrow
  exact ⟨row', List.mem_singleton_self _, s, r, hr, hr'.trans hpiece⟩

/-- Rows with a separator between them show what the rows show. -/
theorem separated (h : Shows rows tests) (separator : Sql) :
    Shows [Sql.separated separator rows] tests := by
  intro t ht
  obtain ⟨row, hrow, s, r, hr, hr'⟩ := h t ht
  exact ⟨_, List.mem_singleton_self _, s, r, hr, hr'.trans (infix_separated hrow)⟩

/-- A row with others beside it. -/
theorem beside (h : Shows [row] tests) (hmem : row ∈ rows) (separator : Sql) :
    Shows [Sql.separated separator rows] tests :=
  (h.subset (by simpa using hmem)).separated separator

/-- A row in parentheses shows what the row does. -/
theorem parens (h : Shows [row] tests) : Shows [row.parens] tests :=
  h.piece ⟨[.sign "("], [.sign ")"], rfl⟩

/-- A row under a name shows what the row does. -/
theorem named (h : Shows [row] tests) (name : String) : Shows [Sql.named row name] tests :=
  h.beside List.mem_cons_self [space]

/-- Each element is shown by its own row. -/
theorem of_forall₂ {α : Type} {part : α → List Test} {l : List α}
    (h : List.Forall₂ (fun a row => Shows [row] (part a)) l rows) :
    Shows rows (l.flatMap part) := by
  induction h with
  | nil => exact nil
  | cons ha _ ih =>
      rw [List.flatMap_cons]
      exact (ha.subset (by simp)).append (ih.subset (by simp))

end Sql.Shows

/-- The row of a test shows it. -/
theorem Test.shows_self {s : Scope} (t : Test) :
    (t.render s).Yields fun row => Shows [row] [t] := by
  intro row h t' ht'
  obtain rfl := List.mem_singleton.1 ht'
  exact ⟨row, List.mem_singleton_self _, s, row, h, List.infix_rfl⟩

section

variable {s : Scope}

-- ============================================================ filters

/-- A condition that is a test shows itself; a range is none. -/
theorem Condition.render_shows (c : Condition) :
    (c.render s).Yields fun row => Shows [row] c.tests := by
  cases c with
  | simple p => exact (Test.constants p).shows_self
  | columns p => exact (Test.columns p).shows_self
  | between p => exact fun _ _ => .nil

theorem ConditionGroup.renderBody_shows (g : ConditionGroup) :
    (g.renderBody s).Yields fun row => Shows [row] g.tests := by
  unfold renderBody
  split
  · exact yields_fail _
  · exact (yields_each fun c _ => c.render_shows).bind fun rows hrows =>
      yields_pure ((Shows.of_forall₂ hrows).separated _)

theorem ConditionGroup.render_shows (g : ConditionGroup) :
    (g.render s).Yields fun row => Shows [row] g.tests := by
  refine g.renderBody_shows.bind fun body hbody => yields_pure ?_
  split
  · exact hbody.parens
  · exact hbody

/-- The ON of a join shows the tests of its groups, with parentheses around
each group if there are several. -/
theorem Join.renderOn_shows (groups : List ConditionGroup) :
    (renderOn s groups).Yields fun row =>
      Shows [row] (groups.flatMap ConditionGroup.tests) := by
  match groups with
  | [] => exact yields_fail _
  | [g] =>
      rw [List.flatMap_singleton]
      exact g.renderBody_shows
  | g :: g' :: rest =>
      refine (yields_each fun g _ => g.renderBody_shows).bind fun bodies hbodies => yields_pure ?_
      have hparens : List.Forall₂ (fun (g : ConditionGroup) row => Shows [row] g.tests)
          (g :: g' :: rest) (bodies.map Sql.parens) :=
        List.forall₂_map_right_iff.2 (hbodies.imp fun _ _ hbody => hbody.parens)
      exact (Shows.of_forall₂ hparens).separated _

/-- The ranges of a filter have no operator. -/
theorem Filter.renderParts_shows (w : Filter) :
    (w.renderParts s).Yields fun parts => Shows parts w.tests :=
  (yields_each fun g _ => g.render_shows).bind fun _ hgroups => yields_then fun _ =>
    yields_pure ((Shows.of_forall₂ hgroups).subset (List.subset_append_left _ _))

/-- Parts that are joined show what the parts do. -/
theorem Sql.joinParts_shows {e : Entity} {logic : Logic} {parts : List Sql} {tests : List Test}
    (h : Shows parts tests) : (joinParts e logic parts).Yields fun row => Shows [row] tests := by
  unfold joinParts
  split
  · exact yields_fail _
  · exact yields_pure (h.separated _)

/-- A filter that may be missing shows the tests it has. -/
theorem Filter.renderOptional_shows (w : Option Filter) :
    (renderOptional s w).Yields fun rows => Shows rows (w.toList.flatMap Filter.tests) := by
  cases w with
  | none => exact yields_pure .nil
  | some w =>
      rw [Option.toList_some, List.flatMap_singleton]
      refine (w.renderParts_shows.bind fun _ hparts => Sql.joinParts_shows hparts).bind
        fun body hbody => yields_pure ?_
      exact hbody.subset (by simp)

-- ========================================================= subqueries

theorem ScalarSubquery.render_shows (q : ScalarSubquery) :
    (q.render s).Yields fun row => Shows [row] q.tests := by
  refine yields_then fun inner => yields_then fun aggregate => ?_
  refine (Filter.renderOptional_shows q.filter).bind fun filter hfilter => yields_pure ?_
  exact ((hfilter.subset fun row hrow => by simp [hrow]).separated _).parens

/-- The row of a test against a subquery shows the test, and those inside
the subquery. -/
theorem SubqueryCondition.render_shows (p : SubqueryCondition) :
    (p.render s).Yields fun row => Shows [row] p.tests := by
  -- the tests inside stand in the row of the subquery, which is part of this one
  have hinner : (p.render s).Yields fun row => Shows [row] p.subquery.tests :=
    yields_then fun column => p.subquery.render_shows.bind fun subquery hsubquery =>
      yields_pure (hsubquery.beside (by simp) _)
  exact fun row h => ((Test.subquery p).shows_self row h).append (hinner row h)

/-- The filter of a query shows its tests and those against subqueries. -/
theorem TopFilter.render_shows (w : TopFilter) :
    (w.render s).Yields fun row => Shows [row] w.tests := by
  refine w.toFilter.renderParts_shows.bind fun parts hparts => ?_
  refine (yields_each fun p _ => p.render_shows).bind fun subqueries hsubqueries => ?_
  exact Sql.joinParts_shows ((hparts.subset (List.subset_append_left _ _)).append
    ((Shows.of_forall₂ hsubqueries).subset (List.subset_append_right _ _)))

-- ======================================================== select list

theorem CaseBranch.render_shows (b : CaseBranch) :
    (b.render s).Yields fun row => Shows [row] b.tests :=
  (Test.constants b.condition).shows_self.bind fun _ hcondition => yields_then fun _ =>
    yields_pure (hcondition.beside (by simp) _)

/-- Of the items of a select list, a CASE has tests. An item of another kind
shows the empty list of them. -/
theorem SelectExpr.render_shows (e : SelectExpr) :
    (e.render s).Yields fun row => Shows [row] e.tests := by
  cases e with
  | case e =>
      have hcase : (e.render s).Yields fun row =>
          Shows [row] (e.branches.flatMap CaseBranch.tests) := by
        unfold CaseExpr.render
        split
        · exact yields_fail _
        · exact (yields_each fun b _ => b.render_shows).bind fun branches hbranches =>
            yields_then fun otherwise =>
              yields_pure (((Shows.of_forall₂ hbranches).subset (by simp)).separated _)
      exact hcase.bind fun body hbody => yields_pure (hbody.named e.aliasName)
  | _ => exact fun _ _ => .nil

/-- A select list shows the tests of its items. -/
theorem SelectExpr.renderList_shows (items : List SelectExpr) :
    (renderList s items).Yields fun row => Shows [row] (items.flatMap SelectExpr.tests) := by
  unfold renderList
  split
  · exact yields_fail _
  · refine (yields_each fun e _ => e.render_shows).bind fun rows hrows => ?_
    refine yields_then fun _ => yields_pure ?_
    exact ((Shows.of_forall₂ hrows).separated itemSeparator).beside (by simp) _

-- ============================================================= source

/-- A derived table shows the tests of its items and of its filter. It has no
tests on groups. -/
theorem DerivedTable.render_shows (settings : Settings) (d : DerivedTable) :
    (d.render settings).Yields fun row => Shows [row] d.tests := by
  unfold render
  split
  · exact yields_fail _
  · refine yields_then fun inner => ?_
    refine (yields_each fun e _ => e.render_shows).bind fun items hitems => ?_
    refine (Filter.renderOptional_shows d.filter).bind fun filter hfilter => yields_pure ?_
    have hlisted : Shows [listed items] (d.select.flatMap SelectExpr.tests) :=
      (Shows.of_forall₂ hitems).separated _
    have hrows : Shows ([words ["SELECT"], listed items, words ["FROM"], Sql.table d.table none] ++
        filter ++ Sql.groupBy d.groupBy) d.tests :=
      (hlisted.subset (by simp)).append (hfilter.subset fun row hrow => by simp [hrow])
    exact (hrows.separated _).parens.named d.aliasName

/-- A table has no tests, and a derived table has its own. The joins come in
another lemma. -/
theorem FromClause.renderTable_shows (settings : Settings) (f : FromClause) :
    (f.renderTable settings).Yields fun p =>
      Shows [p.1] (f.derived.toList.flatMap DerivedTable.tests) := by
  unfold renderTable
  split
  next table _ hd =>
    rw [hd]
    exact yields_then fun _ => yields_pure .nil
  next d _ hd =>
    rw [hd, Option.toList_some, List.flatMap_singleton]
    exact (d.render_shows settings).bind fun body hbody => yields_then fun _ => yields_pure hbody
  next => exact yields_fail _
  next => exact yields_fail _

theorem Join.render_shows (j : Join) : (j.render s).Yields fun p => Shows [p.1] j.tests :=
  yields_then fun _ => (renderOn_shows j.on).bind fun _ hon =>
    yields_pure (hon.beside (by simp) _)

theorem Join.renderAll_shows (joins : List Join) (s : Scope) :
    (renderAll s joins).Yields fun p => Shows p.1 (joins.flatMap Join.tests) := by
  induction joins generalizing s with
  | nil => exact yields_pure .nil
  | cons j rest ih =>
      refine j.render_shows.bind fun p hp => (ih p.2).bind fun p' hp' => yields_pure ?_
      rw [List.flatMap_cons]
      exact (hp.subset (by simp)).append (hp'.subset (by simp))

/-- A source shows the tests of its derived table and of its joins. -/
theorem FromClause.render_shows (settings : Settings) (f : FromClause) :
    (f.render settings).Yields fun p => Shows p.1 f.tests := by
  refine (f.renderTable_shows settings).bind fun p hp => ?_
  refine (Join.renderAll_shows f.joins p.2).bind fun p' hp' => yields_then fun _ => yields_pure ?_
  have hsource : Shows [spaced [words ["FROM"], p.1]]
      (f.derived.toList.flatMap DerivedTable.tests) := hp.beside (by simp) _
  exact (hsource.subset (by simp)).append (hp'.subset (by simp))

-- ============================================================ clauses

/-- HAVING shows its tests, which are all about groups. -/
theorem Having.render_shows (h : Having) : (h.render s).Yields fun row => Shows [row] h.tests := by
  unfold render
  split
  · exact yields_fail _
  · refine (yields_each fun p _ => (Test.groups p).shows_self).bind fun rows hrows => yields_pure ?_
    have htests : Shows rows h.tests := by
      rw [tests, List.map_eq_flatMap]
      exact .of_forall₂ hrows
    have hjoined : Shows [h.logic.join rows] h.tests := htests.separated _
    exact hjoined.beside (by simp) _

end

/-- The line of a clause shows what the clause does. -/
theorem Sql.optionalLine_shows {α : Type} {clause : PlainClause} {render : α → Traced Sql}
    {part : α → List Test} {o : Option α}
    (h : ∀ a, (render a).Yields fun row => Shows [row] (part a)) :
    (optionalLine clause render o).Yields fun rows => Shows rows (o.toList.flatMap part) := by
  cases o with
  | none => exact yields_pure .nil
  | some a =>
      rw [Option.toList_some, List.flatMap_singleton]
      exact (h a).bind fun line hline => yields_then fun _ => yields_pure hline

/-- The lines of a query show its tests, each as a piece of one of the lines.
-/
theorem Query.renderLines_shows (settings : Settings) (q : Query) :
    (q.renderLines settings).Yields fun lines => Shows lines q.tests := by
  refine (q.source.render_shows settings).bind fun p hsource => ?_
  refine (SelectExpr.renderList_shows q.select).bind fun select hselect => ?_
  have hclause : ∀ w : TopFilter, (w.renderClause p.2).Yields fun row => Shows [row] w.tests :=
    fun w => w.render_shows.bind fun body hbody => yields_pure (hbody.beside (by simp) _)
  refine (Sql.optionalLine_shows hclause).bind fun filter hfilter => yields_then fun groupBy => ?_
  refine (Sql.optionalLine_shows Having.render_shows).bind fun having hhaving => ?_
  refine yields_then fun orderBy => yields_pure ?_
  exact (((hselect.subset (by simp)).append
    (hsource.subset fun row hrow => by simp [hrow])).append
    (hfilter.subset fun row hrow => by simp [hrow])).append
    (hhaving.subset fun row hrow => by simp [hrow])

theorem Query.sql_shows (settings : Settings) (q : Query) :
    (q.sql settings).Yields fun row => Shows [row] q.tests :=
  (q.renderLines_shows settings).bind fun _ hlines => yields_pure (hlines.separated _)

/-- The text of a query is that of its row. -/
theorem Query.sql_of_toSql {settings : Settings} {q : Query} {sql : String}
    (h : q.toSql settings = .ok sql) :
    ∃ row, (q.sql settings).outcome = .ok row ∧ sql = Sql.text row := by
  rw [toSql_eq] at h
  cases hlines : (q.renderLines settings).outcome with
  | error e => rw [hlines] at h; cases h
  | ok lines =>
      rw [hlines] at h
      cases h
      refine ⟨separated [lineEnd] lines, ?_, rfl⟩
      rw [Query.sql, Traced.outcome_bind, hlines]
      rfl

/-- Where the row of a query is written, each of its tests is. -/
theorem Query.test_of_sql {settings : Settings} {q : Query} {row : Sql}
    (h : (q.sql settings).outcome = .ok row) {t : Test} (ht : t ∈ q.tests) :
    ∃ s r, (t.render s).outcome = .ok r ∧ r <:+: row := by
  obtain ⟨_, hrow, s, r, hr, hpiece⟩ := q.sql_shows settings row h t ht
  obtain rfl := List.mem_singleton.1 hrow
  exact ⟨s, r, hr, hpiece⟩

-- ======================================================== main results

/-- The SQL of a query, valid or not, has the row of each of its tests in
it, and that row has the shape its operator asks for exactly if the
operator fits the test. A test against constants has SQL only where it
fits: a query with one that does not is refused, as a node without SQL
unless its names are refused first. -/
theorem Query.operators_keep_shape (settings : Settings) (q : Query) :
    (∀ sql, q.toSql settings = .ok sql →
      ∃ row, (q.sql settings).outcome = .ok row ∧ sql = Sql.text row ∧
        (∀ t ∈ q.tests, ∃ s r, (t.render s).outcome = .ok r ∧ r <:+: row ∧
          (t.Shaped s r ↔ t.Fits)) ∧
        ∀ p, .constants p ∈ q.tests → p.Fits) ∧
    ∀ p, .constants p ∈ q.tests → ¬ p.Fits →
      ∃ e, q.toSql settings = .error e ∧
        ((∃ entity fault, e = .illFormed entity fault) ∨ q.checkScope settings = .error e) := by
  have hguard : ∀ sql, q.toSql settings = .ok sql → ∀ p, .constants p ∈ q.tests → p.Fits := by
    intro sql h p hp
    obtain ⟨row, hrow, -⟩ := sql_of_toSql h
    obtain ⟨s, r, hr, -⟩ := test_of_sql hrow hp
    exact (p.render_shaped r hr).2
  refine ⟨fun sql h => ?_, fun p hp hfits => ?_⟩
  · obtain ⟨row, hrow, htext⟩ := sql_of_toSql h
    refine ⟨row, hrow, htext, fun t ht => ?_, hguard sql h⟩
    obtain ⟨s, r, hr, hpiece⟩ := test_of_sql hrow ht
    exact ⟨s, r, hr, hpiece, t.render_shaped r hr⟩
  · cases h : q.toSql settings with
    | ok sql => exact absurd (hguard sql h p hp) hfits
    | error e =>
        -- which of two faults is met first depends on where they stand
        refine ⟨e, rfl, ?_⟩
        by_cases hform : ∃ entity fault, e = .illFormed entity fault
        · exact .inl hform
        · have hnames : ∀ entity fault, e ≠ .illFormed entity fault :=
            fun entity fault he => hform ⟨entity, fault, he⟩
          exact .inr ((q.toSql_inStep settings).error_of_error h hnames).2

/-- The titles of all offers. -/
def Query.titles : Query := (start (.ofTable .productOffers)).addSelect [.column (.bare .title)]

/-- The IN in the derived table of the sample has its list; an IN without
one has no SQL. -/
theorem Query.sample_keeps_shape :
    (∃ sql row, sample.toSql {} = .ok sql ∧ sql = Sql.text row ∧
      ∃ s r, r <:+: row ∧ (Test.constants
        ⟨.bare .seller, .isIn, some (.list [.string "a", .string "';"])⟩).Shaped s r) ∧
    ∃ entity fault,
      (titles.withFilter { groups := [.single (.simple ⟨.bare .brand, .isIn, none⟩)] }).toSql {} =
        .error (.illFormed entity fault) := by
  constructor
  · obtain ⟨sql, hsql⟩ := toSql_of_checkScope (by decide +kernel : sample.validate = .ok ())
      (by decide +kernel : sample.checkScope {} = .ok ())
    obtain ⟨row, -, htext, htests, hguard⟩ := (operators_keep_shape {} sample).1 sql hsql
    have hmem : Test.constants ⟨.bare .seller, .isIn, some (.list [.string "a", .string "';"])⟩ ∈
        sample.tests := by decide
    obtain ⟨s, r, -, hpiece, hshape⟩ := htests _ hmem
    exact ⟨sql, row, hsql, htext, s, r, hpiece, hshape.2 (hguard _ hmem)⟩
  · obtain ⟨e, he, ⟨entity, fault, rfl⟩ | hnames⟩ := (operators_keep_shape {}
      (titles.withFilter { groups := [.single (.simple ⟨.bare .brand, .isIn, none⟩)] })).2
        ⟨.bare .brand, .isIn, none⟩ List.mem_cons_self nofun
    · exact ⟨entity, fault, he⟩
    · cases hnames

/-- An operator that does not fit is written: IN before a column, IS NULL
before a subquery, and IN before a constant in a test on groups. -/
theorem Query.operators_lose_shape :
    (∃ q : Query, q.toSql {} = .ok "SELECT title\nFROM product_offers\nWHERE brand IN seller" ∧
      ∃ t ∈ q.tests, ∀ s r, (t.render s).outcome = .ok r → ¬ t.Shaped s r) ∧
    (∃ q : Query, q.toSql {} = .ok ("SELECT title\nFROM product_offers\n" ++
        "WHERE price IS NULL (SELECT MAX(price) FROM product_offers)") ∧
      ∃ t ∈ q.tests, ∀ s r, (t.render s).outcome = .ok r → ¬ t.Shaped s r) ∧
    ∃ q : Query, q.toSql {} = .ok "SELECT title\nFROM product_offers\nHAVING COUNT(*) IN 5" ∧
      ∃ t ∈ q.tests, ∀ s r, (t.render s).outcome = .ok r → ¬ t.Shaped s r := by
  have hmisfit : ∀ t : Test, ¬ t.Fits → ∀ s r, (t.render s).outcome = .ok r → ¬ t.Shaped s r :=
    fun t hfits s r hr hshaped => hfits ((t.render_shaped r hr).1 hshaped)
  refine ⟨⟨titles.withFilter { groups := [.single (.columns ⟨.bare .brand, .isIn, .bare .seller⟩)] },
      by decide +kernel, _, List.mem_cons_self, hmisfit _ nofun⟩,
    ⟨titles.withFilter { subqueries := [⟨.bare .price, .isNull, .ofTable .productOffers
        ⟨.max, some (.column (.bare .price)), false, none, "m"⟩⟩] },
      by decide +kernel, _, List.mem_cons_self, hmisfit _ nofun⟩,
    ⟨titles.withHaving { conditions := [⟨.count, none, .isIn, .int 5⟩] },
      by decide +kernel, _, List.mem_cons_self, hmisfit _ nofun⟩⟩

end TypedSelect
