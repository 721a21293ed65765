/-
The boolean structure of filters, of the conditions of a join and of tests on
groups survives in their text.

# What is meant

`Sql.Means` says of a text that it is a formula over predicates, read with the
precedence of SQL, whose value is a given one under every assignment of truth
values. The value of a filter is that of its groups, ranges and subqueries
under its own connective, where the value of a group is that of its predicates
under the connective of the group. The values are of three-valued logic, and
the predicates are not looked into.

# Parentheses

A group inside a filter is written in parentheses only when it has several
predicates, the groups of a join only when there are several groups, and the
tests on groups never. What makes each of these enough is that the row of a
predicate is an operand at every depth: it begins with a name, so it is not
taken for a formula in parentheses, and no cut goes through it, since names are
not reserved, the AND of a range belongs to its BETWEEN, and lists, calls and
subqueries stand in parentheses.

# From rows to text

The proofs are about rows of lexemes and their tokens. `StandsAlone` is an
operand, `Finds` a formula that is found in a row, and each renderer is shown
to yield the one or the other. That the text of a row has its tokens is known
from the soundness of the row, so at the end of each line of proofs stands
what the text means.
-/
import TypedSelect.Proofs.Sql.Precedence
import TypedSelect.Proofs.Sql.Reading.Expression
import TypedSelect.Proofs.Sql.Replacement

namespace TypedSelect

open Sql
open Traced (Yields yields_pure yields_then yields_each yields_fail)
open Validation (Writable)
open Formula (Finds StandsAlone parseWithin)

-- ================================================ statement vocabulary

/-- What a connective joins in the end: a condition, a test against a
subquery, or a test on a group. -/
inductive Predicate where
  | condition (c : Condition)
  | subquery (p : SubqueryCondition)
  | group (p : HavingCondition)
deriving DecidableEq

namespace Predicate

/-- The predicate is valid. -/
def validate : Predicate → Validation
  | condition c => c.validate
  | subquery p => p.validate
  | group p => p.validate

/-- The SQL of a predicate. -/
def render (s : Scope) : Predicate → Traced Sql
  | condition c => c.render s
  | subquery p => p.render s
  | group p => p.render s

/-- The tokens of a predicate. -/
def tokens (s : Scope) (p : Predicate) : List Token :=
  match (p.render s).outcome with
  | .ok row => row.tokens
  | .error _ => []

/-- The value of a predicate alone. -/
def value (p : Predicate) (v : Predicate → Truth) : Truth := v p

end Predicate

/-- What has a value when every predicate has one. -/
abbrev Meaning := (Predicate → Truth) → Truth

/-- The conditions of a group under the connective of the group. -/
def ConditionGroup.value (g : ConditionGroup) : Meaning :=
  g.logic.under (g.conditions.map fun c => (Predicate.condition c).value)

/-- The groups of a filter, then its ranges. -/
def Filter.parts (w : Filter) : List Meaning :=
  w.groups.map ConditionGroup.value ++
    w.between.map fun p => (Predicate.condition (.between p)).value

/-- The parts of a filter under its connective. -/
def Filter.value (w : Filter) : Meaning := w.logic.under w.parts

/-- The parts of a filter and its subqueries under its connective. -/
def TopFilter.value (w : TopFilter) : Meaning :=
  w.logic.under (w.toFilter.parts ++ w.subqueries.map fun p => (Predicate.subquery p).value)

/-- Every group of a join. -/
def Join.onValue (groups : List ConditionGroup) : Meaning :=
  Logic.and.under (groups.map ConditionGroup.value)

/-- The tests on groups under their connective. -/
def Having.value (h : Having) : Meaning :=
  h.logic.under (h.conditions.map fun p => (Predicate.group p).value)

/-- The text is a formula over predicates, as they are written in this scope,
and has this value whatever values they have. -/
def Sql.Means (s : Scope) (text : String) (value : Meaning) : Prop :=
  ∃ f : Formula Predicate, Formula.ofText? text = some (f.map (Predicate.tokens s)) ∧
    ∀ v, f.eval v = value v

-- ======================================================== inert tokens

/-- A row in which nothing is a connective, a BETWEEN or a parenthesis. -/
def Sql.Inert (row : Sql) : Prop := ∀ t ∈ row.tokens, t.isInert = true

instance (row : Sql) : Decidable row.Inert :=
  inferInstanceAs (Decidable (∀ t ∈ row.tokens, t.isInert = true))

/-- A name is not reserved, whatever the case of its letters, so it is none
of the words that a cut looks for. -/
theorem Token.isInert_of_isIdentifier {name : String} (h : isIdentifier name = true) :
    (identifier name).isInert = true := by
  have hreserved : ∀ word ∈ reservedWords, sameName name word = false := by
    simpa [isReserved] using (Bool.and_eq_true_iff.1 h).2
  have hother : ∀ word ∈ reservedWords, ∀ upper, foldCase upper = foldCase word →
      sameName name upper = false := fun word hword upper hupper => by
    have hne := hreserved word hword
    unfold sameName at hne ⊢
    rwa [hupper]
  have hand := hother "and" (by decide) "AND" (by decide)
  have hor := hother "or" (by decide) "OR" (by decide)
  have hbetween := hother "between" (by decide) "BETWEEN" (by decide)
  simp [isInert, hand, hor, hbetween]

namespace Sql.Inert

variable {row : Sql} {rows : List Sql}

/-- Rows with an inert separator between them. -/
theorem separated {separator : Sql} (hs : Inert separator) (h : ∀ row ∈ rows, Inert row) :
    Inert (separated separator rows) := by
  cases rows with
  | nil => exact nofun
  | cons row rows =>
      obtain ⟨hrow, hrest⟩ := List.forall_mem_cons.1 h
      intro t ht
      rw [tokens_separated] at ht
      rcases List.mem_append.1 ht with ht | ht
      · exact hrow t ht
      · obtain ⟨r, hr, ht⟩ := List.mem_flatMap.1 ht
        exact (List.mem_append.1 ht).elim (hs t) (hrest r hr t)

theorem column {c : QualifiedColumn} (h : c.validate = .ok ()) : Inert c.sql := by
  rw [QualifiedColumn.validate_eq_ok] at h
  have hcolumn := Token.isInert_of_isIdentifier c.column.isIdentifier
  obtain ⟨_ | q, column⟩ := c
  · exact List.forall_mem_singleton.2 hcolumn
  · have hname := Token.isInert_of_isIdentifier (h q rfl)
    exact List.forall_mem_cons.2 ⟨hname, List.forall_mem_cons.2
      ⟨by decide, List.forall_mem_singleton.2 hcolumn⟩⟩

theorem signed (negative : Bool) (text : String) : Inert (signed negative [.number text]) := by
  cases negative with
  | false => exact List.forall_mem_singleton.2 rfl
  | true => exact List.forall_mem_cons.2 ⟨by decide, List.forall_mem_singleton.2 rfl⟩

/-- A constant is a word, a number or a string, and a string is one token. -/
theorem literal {v : Literal} (h : Writable v) : Inert v.sql := by
  cases v with
  | bool b => cases b <;> decide
  | int i => exact signed _ _
  | float x =>
      rw [Literal.sql, Double.sql_eq h]
      exact signed _ _
  | string s => exact List.forall_mem_singleton.2 rfl

/-- An operator is a sign or words of its own. -/
theorem operator (op : ComparisonOp) : Inert op.sql := by
  cases op <;> decide

theorem still (h : Inert row) : Still row.tokens := .of_inert h

end Sql.Inert

-- ====================================================== predicate rows

section

variable {s : Scope} {row : Sql} {rows : List Sql}

/-- No cut goes through still rows beside one another. -/
theorem Sql.still_spaced (h : ∀ row ∈ rows, Still row.tokens) : Still (spaced rows).tokens := by
  rw [tokens_spaced]
  induction rows with
  | nil => exact .of_inert nofun
  | cons row rows ih =>
      obtain ⟨hrow, hrest⟩ := List.forall_mem_cons.1 h
      exact hrow.append (ih hrest)

/-- None goes through a row in parentheses, whatever is in it. -/
theorem Sql.still_parens (h : row.tokens.foldlM Token.nest 0 = some 0) :
    Still (parens row).tokens := by
  rw [tokens_parens]
  exact .parens h

/-- The row of a predicate: a name is first, and no cut goes through it. -/
structure Sql.IsPredicate (row : Sql) : Prop where
  still : Still row.tokens
  named : ∃ text rest, row.tokens = .identifier text :: rest

theorem QualifiedColumn.isPredicate {c : QualifiedColumn} (h : c.validate = .ok ()) :
    IsPredicate c.sql := by
  refine ⟨(Inert.column h).still, ?_⟩
  obtain ⟨_ | q, column⟩ := c <;> exact ⟨_, _, rfl⟩

/-- What stands behind a row does not change what is first in it. -/
theorem Sql.IsPredicate.spaced (h : IsPredicate row) (hrows : ∀ r ∈ rows, Still r.tokens) :
    IsPredicate (spaced (row :: rows)) := by
  refine ⟨still_spaced (List.forall_mem_cons.2 ⟨h.still, hrows⟩), ?_⟩
  obtain ⟨text, rest, hrow⟩ := h.named
  exact ⟨text, _, by rw [tokens_spaced, List.flatMap_cons, hrow, List.cons_append]⟩

/-- A right side is an operator and a constant, or a list in parentheses. A
string that holds the word OR is one token and no connective. -/
theorem Comparison.renderValue_still {p : Comparison} (h : p.validateValue = .ok ()) :
    p.renderValue.Yields fun row => Still row.tokens := by
  have hop : Still p.op.sql.tokens := (Inert.operator p.op).still
  unfold renderValue
  rcases validateValue_eq_ok.1 h with ⟨hn, hv⟩ | ⟨hn, hl, values, hv, hne, hw⟩ |
    ⟨hn, hl, v, hv, -, hw⟩
  · simp only [hn, hv, if_true]
    exact yields_pure hop
  · have hne' : values.isEmpty = false := by simpa using hne
    simp only [hn, hl, hv, hne', Bool.false_eq_true, if_false]
    have hlist : Inert (listed (values.map Literal.sql)) := by
      refine .separated (by decide) fun row hrow => ?_
      obtain ⟨v, hmem, rfl⟩ := List.mem_map.1 hrow
      exact .literal (hw v hmem)
    have hparens := still_parens (nested_of_inert hlist 0)
    exact yields_pure (still_spaced (List.forall_mem_cons.2
      ⟨hop, List.forall_mem_singleton.2 hparens⟩))
  · simp only [hn, hl, hv, Bool.false_eq_true, if_false]
    have hvalue := (Inert.literal hw).still
    exact yields_pure (still_spaced (List.forall_mem_cons.2
      ⟨hop, List.forall_mem_singleton.2 hvalue⟩))

theorem Comparison.render_isPredicate {p : Comparison} (h : p.validate = .ok ()) :
    (p.render s).Yields IsPredicate := by
  obtain ⟨hcolumn, hvalue⟩ := validate_eq_ok.1 h
  refine (s.render_yields p.column).bind ?_
  rintro _ rfl
  exact (renderValue_still hvalue).bind fun _ hv => yields_pure
    ((QualifiedColumn.isPredicate hcolumn).spaced (List.forall_mem_singleton.2 hv))

/-- A test of two columns begins with the left one. -/
theorem ColumnComparison.render_isPredicate {p : ColumnComparison} (h : p.validate = .ok ()) :
    (p.render s).Yields IsPredicate := by
  obtain ⟨hleft, hright, -⟩ := validate_eq_ok.1 h
  refine (s.render_yields p.left).bind ?_
  rintro _ rfl
  refine (s.render_yields p.right).bind ?_
  rintro _ rfl
  exact yields_pure ((QualifiedColumn.isPredicate hleft).spaced (List.forall_mem_cons.2
    ⟨(Inert.operator p.op).still, List.forall_mem_singleton.2 (Inert.column hright).still⟩))

/-- The AND of a range is not found by a cut. The cursor knows that a BETWEEN
is open and takes the next AND for its own. -/
theorem Between.render_isPredicate {p : Between} (h : p.validate = .ok ()) :
    (p.render s).Yields IsPredicate := by
  obtain ⟨hcolumn, hlow, hhigh⟩ := validate_eq_ok.1 h
  refine (s.render_yields p.column).bind ?_
  rintro _ rfl
  have hrange :
      Still (spaced [words ["BETWEEN"], p.low.sql, words ["AND"], p.high.sql]).tokens := by
    have := (Inert.literal hlow).still.range (Inert.literal hhigh).still
    simpa [tokens_spaced] using this
  have hspaced : spaced [p.column.sql, words ["BETWEEN"], p.low.sql, words ["AND"], p.high.sql] =
      spaced [p.column.sql, spaced [words ["BETWEEN"], p.low.sql, words ["AND"], p.high.sql]] := rfl
  refine yields_pure ?_
  rw [hspaced]
  exact (QualifiedColumn.isPredicate hcolumn).spaced (List.forall_mem_singleton.2 hrange)

/-- A test against a subquery begins with its column, and the subquery stands
in parentheses. -/
theorem SubqueryCondition.render_isPredicate {p : SubqueryCondition} (h : p.validate = .ok ()) :
    (p.render s).Yields IsPredicate := by
  obtain ⟨hcolumn, -, -, hsubquery⟩ := validate_eq_ok.1 h
  refine (s.render_yields p.column).bind ?_
  rintro _ rfl
  refine (ScalarSubquery.render_body_sound hsubquery).bind ?_
  rintro _ ⟨body, rfl, hbody⟩
  refine yields_pure ((QualifiedColumn.isPredicate hcolumn).spaced ?_)
  exact List.forall_mem_cons.2 ⟨(Inert.operator p.op).still,
    List.forall_mem_singleton.2 (still_parens (hbody.nested 0))⟩

/-- The call of an aggregate over what has no parentheses. -/
theorem Sql.isPredicate_call (f : AggregateFunction) {argument : Sql} (h : Inert argument) :
    IsPredicate (call f.sqlName argument) := by
  refine ⟨?_, ⟨_, _, tokens_call ..⟩⟩
  have hname : Still [.identifier f.sqlName] :=
    .of_inert (List.forall_mem_singleton.2 (by cases f <;> decide))
  have hparens := still_parens (nested_of_inert h 0)
  rw [call, tokens_word]
  exact hname.append hparens

/-- A test on a group begins with the name of its function, and the argument
stands in parentheses. -/
theorem HavingCondition.render_isPredicate {p : HavingCondition} (h : p.validate = .ok ()) :
    (p.render s).Yields IsPredicate := by
  obtain ⟨-, hcolumn, -, -, hvalue⟩ := validate_eq_ok.1 h
  have hargument : (p.renderColumn s).Yields Inert := by
    unfold renderColumn
    split
    next c hc =>
      intro row hrow
      rw [s.render_yields c row hrow]
      exact .column (hcolumn c hc)
    next =>
      split
      -- the star is one sign
      · exact yields_pure (by decide)
      · exact yields_fail _
  have hcall : (p.renderCall s).Yields IsPredicate := by
    refine hargument.bind fun argument ha => ?_
    split
    · have hdistinct : Inert (spaced [words ["DISTINCT"], argument]) :=
        .separated (by decide) (List.forall_mem_cons.2
          ⟨by decide, List.forall_mem_singleton.2 ha⟩)
      exact yields_pure (isPredicate_call p.function hdistinct)
    · split
      · exact yields_fail _
      · exact yields_pure (isPredicate_call p.function ha)
  refine hcall.bind fun aggregate hc => yields_pure (hc.spaced ?_)
  exact List.forall_mem_cons.2 ⟨(Inert.operator p.op).still,
    List.forall_mem_singleton.2 (Inert.literal hvalue).still⟩

theorem Predicate.render_isPredicate {p : Predicate} (h : p.validate = .ok ()) :
    (p.render s).Yields IsPredicate := by
  cases p with
  | condition c =>
      cases c with
      | simple p => exact Comparison.render_isPredicate h
      | columns p => exact ColumnComparison.render_isPredicate h
      | between p => exact Between.render_isPredicate h
  | subquery p => exact SubqueryCondition.render_isPredicate h
  | group p => exact HavingCondition.render_isPredicate h

-- =========================================================== operands

variable {value : Meaning} {values : List Meaning} {logic : Logic} {n : Nat}

/-- A predicate is an operand at every depth. -/
theorem Predicate.render_standsAlone {p : Predicate} (h : p.validate = .ok ()) :
    (p.render s).Yields fun row => ∀ n, StandsAlone n (tokens s) p.value row.tokens := by
  intro row hrow n
  obtain ⟨hstill, text, rest, hnamed⟩ := render_isPredicate h row hrow
  have htokens : p.tokens s = row.tokens := by rw [tokens, hrow]
  refine ⟨hstill, ?_⟩
  rw [← htokens] at hnamed ⊢
  exact Formula.finds_atom hnamed

/-- Rows with a connective between them have it between their tokens. -/
theorem Sql.tokens_join (logic : Logic) (row : Sql) (rows : List Sql) :
    (logic.join (row :: rows)).tokens = logic.joined row.tokens (rows.map tokens) := by
  rw [Logic.join, tokens_separated, Logic.joined, List.flatMap_map]
  rfl

/-- Operands with a connective between them, read as deep as they are. -/
theorem Sql.finds_join
    (h : List.Forall₂ (fun value row => StandsAlone n (Predicate.tokens s) value (tokens row))
      values rows) (hne : rows ≠ []) :
    Finds (parseWithin (n + 1)) (Predicate.tokens s) (logic.under values)
      (logic.join rows).tokens := by
  cases rows with
  | nil => exact absurd rfl hne
  | cons row rows =>
      rw [tokens_join]
      exact Formula.finds_operands (List.forall₂_map_right_iff.2 h)

/-- A formula in parentheses is an operand one level further out. -/
theorem Sql.Sound.standsAlone_parens {strings : List String} (hsound : Sound row strings)
    (h : Finds (parseWithin n) (Predicate.tokens s) value row.tokens) :
    StandsAlone n (Predicate.tokens s) value (Sql.parens row).tokens := by
  refine ⟨still_parens (hsound.nested 0), ?_⟩
  rw [tokens_parens]
  exact h.parens (hsound.nested 0)

-- ============================================================= groups

/-- The tests of a group are found under its connective. -/
theorem ConditionGroup.renderBody_finds {g : ConditionGroup} (h : g.validate = .ok ()) :
    (g.renderBody s).Yields fun row =>
      ∀ n, Finds (parseWithin (n + 1)) (Predicate.tokens s) g.value row.tokens := by
  obtain ⟨hne, hall⟩ := validate_eq_ok.1 h
  unfold renderBody
  split
  · exact yields_fail _
  refine (yields_each fun c hc => Predicate.render_standsAlone (p := .condition c) (hall c hc)).bind
    fun rows hrows => yields_pure fun n => finds_join ?_ ?_
  · exact List.forall₂_map_left_iff.2 (hrows.imp fun _ _ hrow => hrow n)
  · exact fun hnil => hne (List.forall₂_nil_right_iff.1 (hnil ▸ hrows))

/-- A condition alone is the whole group, without a connective, whatever the
connective of the group is. -/
theorem ConditionGroup.renderBody_single {g : ConditionGroup} {c : Condition}
    (hg : g.conditions = [c]) :
    (g.renderBody s).Yields fun row => (c.render s).outcome = .ok row := by
  unfold renderBody
  split
  · exact yields_fail _
  rw [hg]
  refine (yields_each (R := fun c row => (c.render s).outcome = .ok row) fun _ _ _ h => h).bind
    fun rows hrows => yields_pure ?_
  cases hrows with
  | cons hrow hrest =>
      cases hrest
      exact hrow

/-- Several conditions stand in parentheses, and one needs none. Either way
the row is one operand of what it stands in. -/
theorem ConditionGroup.render_standsAlone {g : ConditionGroup} (h : g.validate = .ok ()) :
    (g.render s).Yields fun row =>
      ∀ n, StandsAlone (n + 1) (Predicate.tokens s) g.value row.tokens := by
  intro row hrow n
  obtain ⟨body, hbody, hrow⟩ := Traced.bind_eq_ok hrow
  obtain rfl : (if 1 < g.conditions.length then parens body else body) = row := Except.ok.inj hrow
  split
  next => exact (renderBody_sound h body hbody).standsAlone_parens (renderBody_finds h body hbody n)
  next hfew =>
    obtain ⟨hne, hall⟩ := validate_eq_ok.1 h
    obtain ⟨c, hg⟩ : ∃ c, g.conditions = [c] := by
      have hpos := List.length_pos_iff.2 hne
      exact List.length_eq_one_iff.1 (by omega)
    have hcondition := Predicate.render_standsAlone (p := .condition c)
      (hall c (hg ▸ List.mem_singleton_self c)) body (renderBody_single hg body hbody) (n + 1)
    have hvalue : g.value = (Predicate.condition c).value := by
      rw [value, hg]
      exact g.logic.under_singleton _
    rw [hvalue]
    exact hcondition

-- ============================================================ filters

/-- The groups and ranges of a filter are operands, each with its value. -/
theorem Filter.renderParts_standsAlone {w : Filter} (hg : ∀ g ∈ w.groups, g.validate = .ok ())
    (hb : ∀ p ∈ w.between, p.validate = .ok ()) :
    (w.renderParts s).Yields fun parts => ∀ n, List.Forall₂
      (fun value row => StandsAlone (n + 1) (Predicate.tokens s) value (Sql.tokens row))
      w.parts parts := by
  refine (yields_each fun g hm => ConditionGroup.render_standsAlone (hg g hm)).bind
    fun groups hgroups => ?_
  refine (yields_each fun p hm =>
    Predicate.render_standsAlone (p := .condition (.between p)) (hb p hm)).bind
    fun ranges hranges => yields_pure fun n => List.rel_append ?_ ?_
  · exact List.forall₂_map_left_iff.2 (hgroups.imp fun _ _ h => h n)
  · exact List.forall₂_map_left_iff.2 (hranges.imp fun _ _ h => h (n + 1))

/-- The parts of a filter are read under its connective. -/
theorem Sql.joinParts_finds {e : Entity} {parts : List Sql}
    (h : ∀ n, List.Forall₂
      (fun value row => StandsAlone (n + 1) (Predicate.tokens s) value (tokens row)) values parts) :
    (joinParts e logic parts).Yields fun row =>
      Finds Formula.parse (Predicate.tokens s) (logic.under values) row.tokens := by
  unfold joinParts
  split
  next => exact yields_fail _
  next hne =>
    exact yields_pure (.parse fun n => finds_join (h n) (by simpa using hne))

/-- What the tokens of a sound row are read as is what its text means. -/
theorem Sql.Sound.means {strings : List String} (hsound : Sound row strings)
    (h : Finds Formula.parse (Predicate.tokens s) value row.tokens) :
    Means s (Sql.text row) value := by
  obtain ⟨f, hread, heval⟩ := h
  refine ⟨f, ?_, heval⟩
  rw [Formula.ofText?, hsound.scan_text]
  exact hread

/-- The text of a filter has the value of the filter. -/
theorem Filter.render_means {w : Filter} (h : w.validate = .ok ()) :
    (w.render s).Yields fun row => Means s (Sql.text row) w.value := by
  intro row hrow
  obtain ⟨-, hgroups, hranges⟩ := validate_eq_ok.1 h
  have hsound := render_sound h row hrow
  obtain ⟨parts, hparts, hrow⟩ := Traced.bind_eq_ok hrow
  have hparts := renderParts_standsAlone hgroups hranges parts hparts
  exact hsound.means (joinParts_finds hparts row hrow)

/-- So has the text of a filter with tests against subqueries. These come
behind the groups and the ranges, under the same connective. -/
theorem TopFilter.render_means {w : TopFilter} (h : w.validate = .ok ()) :
    (w.render s).Yields fun row => Means s (Sql.text row) w.value := by
  intro row hrow
  obtain ⟨-, hgroups, hranges, hsubqueries⟩ := validate_eq_ok.1 h
  have hsound := render_sound h row hrow
  obtain ⟨parts, hparts, hrow⟩ := Traced.bind_eq_ok hrow
  obtain ⟨subqueries, hsubs, hrow⟩ := Traced.bind_eq_ok hrow
  have hsubs := yields_each (fun p hp =>
    Predicate.render_standsAlone (p := .subquery p) (hsubqueries p hp)) subqueries hsubs
  refine hsound.means (joinParts_finds (fun n => List.rel_append
    (Filter.renderParts_standsAlone hgroups hranges parts hparts n) ?_) row hrow)
  exact List.forall₂_map_left_iff.2 (hsubs.imp fun _ _ h => h (n + 1))

-- ===================================================== joins, groupings

/-- One group needs no parentheses, and several all have them, so that each
is an operand of the AND between them. -/
theorem Join.renderOn_means {groups : List ConditionGroup} (h : ∀ g ∈ groups, g.validate = .ok ()) :
    (renderOn s groups).Yields fun row => Means s (Sql.text row) (onValue groups) := by
  intro row hrow
  have hsound := renderOn_sound h row hrow
  refine hsound.means ?_
  match groups with
  | [] => cases hrow
  -- a single group has no parentheses and needs none
  | [g] =>
      have hbody := ConditionGroup.renderBody_finds (h g (List.mem_singleton_self g)) row hrow
      have hvalue : onValue [g] = g.value := Logic.and.under_singleton g.value
      rw [hvalue]
      exact .parse fun n => hbody (n + 1)
  | g :: g' :: rest =>
      obtain ⟨bodies, hbodies, hrow⟩ := Traced.bind_eq_ok hrow
      obtain rfl : Logic.and.join (bodies.map Sql.parens) = row := Except.ok.inj hrow
      have hoperands := yields_each (fun g hg body hbody =>
        show ∀ n, StandsAlone (n + 1) (Predicate.tokens s) g.value (Sql.parens body).tokens from
        fun n => (ConditionGroup.renderBody_sound (h g hg) body hbody).standsAlone_parens
          (ConditionGroup.renderBody_finds (h g hg) body hbody n)) bodies hbodies
      refine .parse fun n => finds_join (List.forall₂_map_left_iff.2
        (List.forall₂_map_right_iff.2 (hoperands.imp fun _ _ hg => hg n))) ?_
      cases hoperands
      exact List.cons_ne_nil _ _

/-- The text of two rows is that of the one and then of the other. -/
theorem Sql.text_append (row row' : Sql) :
    Sql.text (row ++ row') = Sql.text row ++ Sql.text row' := by
  rw [Sql.text, Sql.chars, List.flatMap_append, String.ofList_append]
  rfl

/-- No parentheses are needed, since every test has the same connective. The
keyword in front is no part of what is read. -/
theorem Having.render_means {h : Having} (hv : h.validate = .ok ()) :
    (h.render s).Yields fun row =>
      ∃ body, Sql.text row = "HAVING " ++ body ∧ Means s body h.value := by
  obtain ⟨hne, hall⟩ := validate_eq_ok.1 hv
  unfold render
  split
  · exact yields_fail _
  intro row hrow
  obtain ⟨conditions, hconditions, hrow⟩ := Traced.bind_eq_ok hrow
  obtain rfl : spaced [words ["HAVING"], h.logic.join conditions] = row := Except.ok.inj hrow
  refine ⟨Sql.text (h.logic.join conditions), ?_, ?_⟩
  -- the keyword and its blank come first in the text, and the body is what is behind
  -- them
  · have hshape : spaced [words ["HAVING"], h.logic.join conditions] =
        [.word "HAVING", space] ++ h.logic.join conditions := rfl
    rw [hshape, Sql.text_append]
    rfl
  · have hsound := Sql.Sound.join h.logic (.of_forall₂ (yields_each
      (fun p hp => HavingCondition.render_sound (hall p hp)) conditions hconditions))
    have hoperands := yields_each (fun p hp =>
      Predicate.render_standsAlone (p := .group p) (hall p hp)) conditions hconditions
    refine hsound.means (.parse fun n => finds_join (List.forall₂_map_left_iff.2
      (hoperands.imp fun _ _ hp => hp (n + 1))) fun hnil => ?_)
    exact hne (List.forall₂_nil_right_iff.1 (hnil ▸ hoperands))

-- ========================================================= main result

/-- Text keeps the boolean structure of what it is made of. What a valid filter,
the groups of a join and the tests on groups are written as is read back, by
the precedence of SQL, as a formula that has the value of the filter, the
groups or the tests, for every assignment of truth values to the predicates. -/
theorem Sql.connectives_kept (s : Scope) :
    (∀ w : TopFilter, w.validate = .ok () →
      (w.render s).Yields fun row => Means s (Sql.text row) w.value) ∧
    (∀ w : Filter, w.validate = .ok () →
      (w.render s).Yields fun row => Means s (Sql.text row) w.value) ∧
    (∀ groups : List ConditionGroup, (∀ g ∈ groups, g.validate = .ok ()) →
      (Join.renderOn s groups).Yields fun row => Means s (Sql.text row) (Join.onValue groups)) ∧
    ∀ h : Having, h.validate = .ok () → (h.render s).Yields fun row =>
      ∃ body, Sql.text row = "HAVING " ++ body ∧ Means s body h.value :=
  ⟨fun _ => TopFilter.render_means, fun _ => Filter.render_means, fun _ => Join.renderOn_means,
    fun _ => Having.render_means⟩

end

/-- The meaning of a text that a rendering comes to. -/
theorem Sql.means_of_text {s : Scope} {x : Traced Sql} {value : Meaning} {text : String}
    (h : x.Yields fun row => Means s (Sql.text row) value)
    (htext : x.outcome.map Sql.text = .ok text) : Means s text value := by
  cases hx : x.outcome with
  | error e => rw [hx] at htext; cases htext
  | ok row =>
      rw [hx] at htext
      cases htext
      exact h row hx

/-- Ranges beside both connectives, and a string that holds one. A group of
one condition in a filter needs no parentheses, and in a join it has them. -/
theorem Sql.mixed_connectives_kept :
    let s : Scope := { settings := {} }
    let priced : Condition := .between ⟨.bare .price, .int 1, .int 5⟩
    let named : Condition := .simple ⟨.bare .brand, .eq, some (.scalar (.string "a OR b"))⟩
    let highest : ScalarSubquery := .ofTable .productOffers
      ⟨.max, some (.column (.bare .price)), false, none, "m"⟩
    let top : TopFilter :=
      { groups := [⟨[named, priced], .or⟩, .single priced]
        between := [⟨.bare .price, .int 2, .int 3⟩]
        subqueries := [⟨.bare .price, .lt, highest⟩] }
    let inner : Filter :=
      { groups := [⟨[priced, named], .and⟩], between := top.between, logic := .or }
    let on : List ConditionGroup := [⟨[named, priced], .or⟩, .single priced]
    let having : Having :=
      { conditions := [⟨.count, none, .gt, .int 2⟩, ⟨.sum, some (.bare .price), .le, .int 9⟩]
        logic := .or }
    Means s ("(brand = 'a OR b' OR price BETWEEN 1 AND 5) AND price BETWEEN 1 AND 5 AND " ++
      "price BETWEEN 2 AND 3 AND price < (SELECT MAX(price) FROM product_offers)") top.value ∧
    Means s "(price BETWEEN 1 AND 5 AND brand = 'a OR b') OR price BETWEEN 2 AND 3"
      inner.value ∧
    Means s "(brand = 'a OR b' OR price BETWEEN 1 AND 5) AND (price BETWEEN 1 AND 5)"
      (Join.onValue on) ∧
    Means s "COUNT(*) > 2 OR SUM(price) <= 9" having.value := by
  intro s priced named highest top inner on having
  obtain ⟨htop, hfilter, hon, hhaving⟩ := connectives_kept s
  have hvalid : top.validate = .ok () := by decide +kernel
  have hinner : inner.validate = .ok () := by decide +kernel
  have hgroups : ∀ g ∈ on, g.validate = .ok () := by decide +kernel
  refine ⟨means_of_text (htop top hvalid) (by decide +kernel),
    means_of_text (hfilter inner hinner) (by decide +kernel),
    means_of_text (hon on hgroups) (by decide +kernel), ?_⟩
  have htests : having.validate = .ok () := by decide +kernel
  have htext : (having.render s).outcome.map Sql.text =
      .ok ("HAVING " ++ "COUNT(*) > 2 OR SUM(price) <= 9") := by decide +kernel
  cases hx : (having.render s).outcome with
  | error e => rw [hx] at htext; cases htext
  | ok row =>
      obtain ⟨body, hbody, hmeans⟩ := hhaving having htests row hx
      rw [hx, Except.map, hbody] at htext
      rw [← (String.append_right_inj _).1 (Except.ok.inj htext)]
      exact hmeans

end TypedSelect
