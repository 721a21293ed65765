/-
The floating point numbers of a query.

JSON has no text for infinities and for what is not a number, so a query
is kept by its text only if the floating point numbers in it are finite.
Validity asks for that wherever a number may stand.

# A property of the numbers in a tree

`AllFloats good` says of a node that every floating point number anywhere
in it is good. It is defined along the tree, one definition for each
entity that can hold a number, and it leaves open what is good. Two
properties are put in its place:

- that a number is finite. The texts of finite numbers are numerals that
  denote them, and a reading that finds the nearest number takes them
  back. This is what validity gives, and what this module is about.
- that a reading takes the number back from its own numeral. A reading
  need not find the nearest number, so this is the condition under which
  the round trip of a query holds for a reading of any kind.

Both are handed through the writers by the laws of codecs, which mention
`good` and nothing else about numbers.

# Validity

One lemma for each entity, from constants up to whole queries. Each takes
the check of the entity apart by its rule and hands the parts to their own
lemmas. Where a rule asks for more than finiteness it is used to get that:
the fraction of a percentile lies between zero and one, and a number in
that interval is finite.
-/
import TypedSelect.Proofs.Validity

namespace TypedSelect

open Validation (Writable)

-- ========================================================= definitions

section

variable (good : Double → Prop)

/-- A whole number is never in question; the other kind must be good. -/
def Number.AllFloats : Number → Prop
  | int _ => True
  | float x => good x

/-- A constant that is a floating point number must be good. -/
def Literal.AllFloats : Literal → Prop
  | float x => good x
  | _ => True

/-- Every constant on the right side. -/
def Comparand.AllFloats : Comparand → Prop
  | list values => ∀ v ∈ values, v.AllFloats good
  | scalar v => v.AllFloats good

def Operand.AllFloats : Operand → Prop
  | column _ => True
  | number n => n.AllFloats good

def Arithmetic.AllFloats (a : Arithmetic) : Prop :=
  a.left.AllFloats good ∧ a.right.AllFloats good

def Comparison.AllFloats (p : Comparison) : Prop := ∀ c ∈ p.value, c.AllFloats good

def Between.AllFloats (p : Between) : Prop := p.low.AllFloats good ∧ p.high.AllFloats good

def Condition.AllFloats : Condition → Prop
  | simple p => p.AllFloats good
  | columns _ => True
  | between p => p.AllFloats good

def ConditionGroup.AllFloats (g : ConditionGroup) : Prop :=
  ∀ c ∈ g.conditions, c.AllFloats good

def AggregateInput.AllFloats : AggregateInput → Prop
  | column _ => True
  | arithmetic a => a.AllFloats good

/-- The numbers of the input, and the fraction of a percentile. -/
def AggregateExpr.AllFloats (e : AggregateExpr) : Prop :=
  (∀ i ∈ e.input, i.AllFloats good) ∧ ∀ x ∈ e.percentile, good x

/-- A window has one constant, the value where there is no row to look at. -/
def WindowExpr.AllFloats (e : WindowExpr) : Prop := ∀ v ∈ e.default, v.AllFloats good

def CaseResult.AllFloats : CaseResult → Prop
  | column _ => True
  | literal v => v.AllFloats good

def CaseBranch.AllFloats (b : CaseBranch) : Prop :=
  b.condition.AllFloats good ∧ b.result.AllFloats good

def CaseExpr.AllFloats (e : CaseExpr) : Prop :=
  (∀ b ∈ e.branches, b.AllFloats good) ∧ ∀ r ∈ e.otherwise, r.AllFloats good

def BinaryArithmetic.AllFloats (e : BinaryArithmetic) : Prop := e.arithmetic.AllFloats good

def CompoundArithmetic.AllFloats (e : CompoundArithmetic) : Prop :=
  e.inner.AllFloats good ∧ e.outer.AllFloats good

def SelectExpr.AllFloats : SelectExpr → Prop
  | column _ => True
  | binary e => e.AllFloats good
  | compound e => e.AllFloats good
  | aggregate e => e.AllFloats good
  | window e => e.AllFloats good
  | case e => e.AllFloats good

def Filter.AllFloats (w : Filter) : Prop :=
  (∀ g ∈ w.groups, g.AllFloats good) ∧ ∀ p ∈ w.between, p.AllFloats good

def ScalarSubquery.AllFloats (s : ScalarSubquery) : Prop :=
  s.aggregate.AllFloats good ∧ ∀ w ∈ s.filter, w.AllFloats good

def SubqueryCondition.AllFloats (p : SubqueryCondition) : Prop := p.subquery.AllFloats good

/-- A filter at the top has the numbers of any filter and those of its
subqueries. -/
def TopFilter.AllFloats (w : TopFilter) : Prop :=
  w.toFilter.AllFloats good ∧ ∀ p ∈ w.subqueries, p.AllFloats good

def DerivedTable.AllFloats (d : DerivedTable) : Prop :=
  (∀ e ∈ d.select, e.AllFloats good) ∧ ∀ w ∈ d.filter, w.AllFloats good

def Join.AllFloats (j : Join) : Prop := ∀ g ∈ j.on, g.AllFloats good

/-- The numbers that joins are made on, and those of a derived table. -/
def FromClause.AllFloats (f : FromClause) : Prop :=
  (∀ j ∈ f.joins, j.AllFloats good) ∧ ∀ d ∈ f.derived, d.AllFloats good

def HavingCondition.AllFloats (p : HavingCondition) : Prop := p.value.AllFloats good

def Having.AllFloats (h : Having) : Prop := ∀ p ∈ h.conditions, p.AllFloats good

/-- Every floating point number in the query is good. -/
def Query.AllFloats (q : Query) : Prop :=
  (∀ e ∈ q.select, e.AllFloats good) ∧ q.source.AllFloats good ∧
    (∀ w ∈ q.filter, w.AllFloats good) ∧ ∀ h ∈ q.having, h.AllFloats good

end

/-- Neither infinite nor not-a-number. -/
abbrev Double.Finite (x : Double) : Prop := x.isFinite = true

-- ============================================================ validity

/-- A constant that can be written is finite if it is a number at all. -/
theorem Literal.finite_of_writable {v : Literal} (h : Writable v) :
    v.AllFloats Double.Finite := by
  cases v with
  | float x => exact h
  | _ => trivial

/-- An operand that is a number is checked for it under any name. -/
theorem Operand.finite_of_validate {e : Entity} {field : String} {o : Operand}
    (h : o.validate e field = .ok ()) : o.AllFloats Double.Finite := by
  cases o with
  | column c => trivial
  | number n =>
      have hn := (validate_eq_ok.1 h).2 n rfl
      cases n with
      | int i => trivial
      | float x => exact hn

theorem Arithmetic.finite_of_validate {e : Entity} {a : Arithmetic}
    (h : a.validate e = .ok ()) : a.AllFloats Double.Finite := by
  obtain ⟨hleft, hright, -⟩ := validate_eq_ok.1 h
  exact ⟨Operand.finite_of_validate hleft, Operand.finite_of_validate hright⟩

theorem CompoundArithmetic.finite_of_validate {e : CompoundArithmetic}
    (h : e.validate = .ok ()) : e.AllFloats Double.Finite := by
  obtain ⟨hleft, hright, houter, -⟩ := validate_eq_ok.1 h
  exact ⟨⟨Operand.finite_of_validate hleft, Operand.finite_of_validate hright⟩,
    Operand.finite_of_validate houter⟩

/-- The right side is none, a list or one constant, and the rule of the
operator has each constant checked. -/
theorem Comparison.finite_of_validate {p : Comparison} (h : p.validate = .ok ()) :
    p.AllFloats Double.Finite := by
  intro c hc
  obtain ⟨column, op, value⟩ := p
  obtain rfl : value = some c := hc
  rcases validateValue_eq_ok.1 (validate_eq_ok.1 h).2 with
    ⟨-, hnone⟩ | ⟨-, -, values, hvalues, -, hall⟩ | ⟨-, -, v, hv, -, hwritable⟩
  · cases hnone
  · cases hvalues
    exact fun v hv => Literal.finite_of_writable (hall v hv)
  · cases hv
    exact Literal.finite_of_writable hwritable

theorem Between.finite_of_validate {p : Between} (h : p.validate = .ok ()) :
    p.AllFloats Double.Finite := by
  obtain ⟨-, hlow, hhigh⟩ := validate_eq_ok.1 h
  exact ⟨Literal.finite_of_writable hlow, Literal.finite_of_writable hhigh⟩

/-- Two of the three kinds of tests hold constants. -/
theorem Condition.finite_of_validate {c : Condition} (h : c.validate = .ok ()) :
    c.AllFloats Double.Finite := by
  cases c with
  | simple p => exact Comparison.finite_of_validate h
  | columns p => trivial
  | between p => exact Between.finite_of_validate h

/-- The tests of a group are checked one by one. -/
theorem ConditionGroup.finite_of_validate {g : ConditionGroup} (h : g.validate = .ok ()) :
    g.AllFloats Double.Finite :=
  fun c hc => Condition.finite_of_validate ((validate_eq_ok.1 h).2 c hc)

/-- The input of an aggregate holds numbers only if it is an operation. -/
theorem AggregateInput.finite_of_validate {i : AggregateInput} (h : i.validate = .ok ()) :
    i.AllFloats Double.Finite := by
  cases i with
  | column c => trivial
  | arithmetic a => exact Arithmetic.finite_of_validate h

/-- A fraction lies between zero and one, so it is finite. -/
theorem AggregateExpr.finite_of_validate {e : AggregateExpr} (h : e.validate = .ok ()) :
    e.AllFloats Double.Finite := by
  obtain ⟨-, hinput, -, hpercentile⟩ := validate_eq_ok.1 h
  refine ⟨fun i hi => ?_, fun x hx => ?_⟩
  · exact AggregateInput.finite_of_validate ((validateInput_eq_ok.1 hinput).1 i hi)
  · exact Double.isFinite_of_inUnitInterval ((validatePercentile_eq_ok.1 hpercentile).2 x hx)

/-- The value for a missing row is checked as a constant, whatever the
function. -/
theorem WindowExpr.finite_of_validate {e : WindowExpr} (h : e.validate = .ok ()) :
    e.AllFloats Double.Finite := by
  obtain ⟨-, -, hoffset, -⟩ := validate_eq_ok.1 h
  exact fun v hv => Literal.finite_of_writable ((validateOffset_eq_ok.1 hoffset).2.2 v hv)

/-- A result is a column or a constant that can be written. -/
theorem CaseResult.finite_of_validate {r : CaseResult} (h : r.validate = .ok ()) :
    r.AllFloats Double.Finite := by
  cases r with
  | column c => trivial
  | literal v => exact Literal.finite_of_writable ((validate_eq_ok.1 h).2 v rfl)

theorem CaseBranch.finite_of_validate {b : CaseBranch} (h : b.validate = .ok ()) :
    b.AllFloats Double.Finite := by
  obtain ⟨hcondition, hresult⟩ := validate_eq_ok.1 h
  exact ⟨Comparison.finite_of_validate hcondition, CaseResult.finite_of_validate hresult⟩

theorem CaseExpr.finite_of_validate {e : CaseExpr} (h : e.validate = .ok ()) :
    e.AllFloats Double.Finite := by
  obtain ⟨-, hbranches, hotherwise, -⟩ := validate_eq_ok.1 h
  exact ⟨fun b hb => CaseBranch.finite_of_validate (hbranches b hb),
    fun r hr => CaseResult.finite_of_validate (hotherwise r hr)⟩

/-- Five of the six kinds of items can hold numbers. -/
theorem SelectExpr.finite_of_validate {e : SelectExpr} (h : e.validate = .ok ()) :
    e.AllFloats Double.Finite := by
  cases e with
  | column e => trivial
  | binary e => exact Arithmetic.finite_of_validate (BinaryArithmetic.validate_eq_ok.1 h).1
  | compound e => exact CompoundArithmetic.finite_of_validate h
  | aggregate e => exact AggregateExpr.finite_of_validate h
  | window e => exact WindowExpr.finite_of_validate h
  | case e => exact CaseExpr.finite_of_validate h

theorem Filter.finite_of_validate {w : Filter} (h : w.validate = .ok ()) :
    w.AllFloats Double.Finite := by
  obtain ⟨-, hgroups, hbetween⟩ := validate_eq_ok.1 h
  exact ⟨fun g hg => ConditionGroup.finite_of_validate (hgroups g hg),
    fun p hp => Between.finite_of_validate (hbetween p hp)⟩

/-- A subquery has an aggregate and may have a filter. -/
theorem ScalarSubquery.finite_of_validate {s : ScalarSubquery} (h : s.validate = .ok ()) :
    s.AllFloats Double.Finite := by
  obtain ⟨-, haggregate, hfilter⟩ := validate_eq_ok.1 h
  exact ⟨AggregateExpr.finite_of_validate haggregate,
    fun w hw => Filter.finite_of_validate (hfilter w hw)⟩

/-- A filter at the top is a filter with subqueries beside it. -/
theorem TopFilter.finite_of_validate {w : TopFilter} (h : w.validate = .ok ()) :
    w.AllFloats Double.Finite := by
  obtain ⟨-, hgroups, hbetween, hsubqueries⟩ := validate_eq_ok.1 h
  refine ⟨⟨fun g hg => ConditionGroup.finite_of_validate (hgroups g hg),
    fun p hp => Between.finite_of_validate (hbetween p hp)⟩, fun p hp => ?_⟩
  obtain ⟨-, -, -, hsubquery⟩ := SubqueryCondition.validate_eq_ok.1 (hsubqueries p hp)
  exact ScalarSubquery.finite_of_validate hsubquery

/-- A derived table has items and may have a filter. -/
theorem DerivedTable.finite_of_validate {d : DerivedTable} (h : d.validate = .ok ()) :
    d.AllFloats Double.Finite := by
  obtain ⟨-, -, hselect, hfilter⟩ := validate_eq_ok.1 h
  exact ⟨fun e he => SelectExpr.finite_of_validate (hselect e he),
    fun w hw => Filter.finite_of_validate (hfilter w hw)⟩

/-- What a join is made on is made of groups of tests. -/
theorem Join.finite_of_validate {j : Join} (h : j.validate = .ok ()) :
    j.AllFloats Double.Finite :=
  fun g hg => ConditionGroup.finite_of_validate ((validate_eq_ok.1 h).2.2 g hg)

/-- A derived table is checked where there is one; then there is no table. -/
theorem FromClause.finite_of_validate {f : FromClause} (h : f.validate = .ok ()) :
    f.AllFloats Double.Finite := by
  obtain ⟨hsource, hjoins⟩ := validate_eq_ok.1 h
  refine ⟨fun j hj => Join.finite_of_validate (hjoins j hj), fun d hd => ?_⟩
  rcases validateSource_eq_ok.1 hsource with ⟨_, -, hnone, -⟩ | ⟨d', -, hd', -, hvalid⟩
  · rw [hnone] at hd
    cases hd
  · rw [hd'] at hd
    cases hd
    exact DerivedTable.finite_of_validate hvalid

/-- The constants that groups of rows are compared with. -/
theorem Having.finite_of_validate {h : Having} (hvalid : h.validate = .ok ()) :
    h.AllFloats Double.Finite := by
  intro p hp
  obtain ⟨-, -, -, -, hvalue⟩ :=
    HavingCondition.validate_eq_ok.1 ((validate_eq_ok.1 hvalid).2 p hp)
  exact Literal.finite_of_writable hvalue

/-- A valid query has finite numbers only. The clauses that are missing here
hold none: a limit has whole numbers, and a sort has columns and names. -/
theorem Query.finite_of_validate {q : Query} (h : q.validate = .ok ()) :
    q.AllFloats Double.Finite := by
  obtain ⟨-, hselect, hsource, hfilter, -, hhaving, -⟩ := validate_eq_ok.1 h
  exact ⟨fun e he => SelectExpr.finite_of_validate (hselect e he),
    FromClause.finite_of_validate hsource,
    fun w hw => TopFilter.finite_of_validate (hfilter w hw),
    fun c hc => Having.finite_of_validate (hhaving c hc)⟩

end TypedSelect
