/-
What the rules of validity promise.

One statement for each entity, which says that a value is valid exactly
when its own rule and those of its parts hold. The proofs about valid
queries take a value apart with these and never open a check.

# Equivalences

All are equivalences. From left to right they are used wherever something
is proved of valid queries: that they have SQL, that their numbers are
finite, that their JSON conforms to the schema. From right to left they
show that a change keeps validity: another spelling of a name, another
string, another kind of filter. The characterization by rules of single
nodes needs both directions.

# Faults and their order

A check names the first fault it meets, and in which order it looks is
part of what the program does. Nothing of it is left here, since passing
does not depend on the order. The rules therefore list the conditions as
the check makes them, so that a change of a check is a change of one
conjunct.

# How they are proved

The combinators of checks come to conjunctions and statements about all
elements by the simp lemmas of the module on outcomes, so a rule without
cases is what simp makes of the check. Where a check looks at a part that
may be missing, or at the kind of a value, the proof makes that case
distinction first.
-/
import TypedSelect.Proofs.Outcome
import TypedSelect.Query.Validity

namespace TypedSelect

open Check

-- ==================================================== names and values

namespace Validation

/-- A name is valid if it is an identifier, whatever it is the name of. -/
@[simp] theorem identifier_eq_ok {e : Entity} {name : String} :
    identifier e name = .ok () ↔ isIdentifier name = true := by
  simp [identifier]

/-- A constant that can be written in SQL and in JSON. -/
def Writable : Literal → Prop
  | .float x => x.isFinite = true
  | .string s => Char.ofNat 0 ∉ s.toList
  | _ => True

/-- A constant is valid if it can be written. The entity and the field only
appear in the error. -/
@[simp] theorem literal_eq_ok {e : Entity} {field : String} {v : Literal} :
    literal e field v = .ok () ↔ Writable v := by
  cases v <;> simp [literal, Writable]

end Validation

open Validation (Writable)

/-- A fraction is finite. -/
theorem Double.isFinite_of_inUnitInterval {x : Double} (h : x.inUnitInterval = true) :
    x.isFinite = true := by
  cases x with
  | finite negative x => rfl
  | infinite negative => cases h
  | nan => cases h

/-- A column reference is valid if its qualifier is an identifier, should it
have one. The column comes from a vocabulary. -/
theorem QualifiedColumn.validate_eq_ok {c : QualifiedColumn} :
    c.validate = .ok () ↔ ∀ q ∈ c.qualifier, isIdentifier q = true := by
  simp [validate]

/-- A sort key is a valid column, or a name that is an identifier. That the
name belongs to an item is for the query to say. -/
theorem OrderItem.validate_eq_ok {i : OrderItem} :
    i.validate = .ok () ↔
      (∀ c, i.key = .column c → c.validate = .ok ()) ∧
        ∀ name, i.key = .output name → isIdentifier name = true := by
  unfold validate
  cases i.key <;> simp

/-- An operand is a valid column or a finite number. Being zero is the
business of the operation that divides by it. -/
theorem Operand.validate_eq_ok {e : Entity} {field : String} {o : Operand} :
    o.validate e field = .ok () ↔
      (∀ c, o = .column c → c.validate = .ok ()) ∧
        ∀ n, o = .number n → n.isFinite = true := by
  cases o <;> simp [validate]

-- ========================================================= expressions

/-- An operation has valid operands, and the right one may be divided by if
it is divided by. -/
theorem Arithmetic.validate_eq_ok {e : Entity} {a : Arithmetic} :
    a.validate e = .ok () ↔
      a.left.validate e "left" = .ok () ∧ a.right.validate e "right" = .ok () ∧
        a.right.validateDivisor e "right" a.op = .ok () := by
  simp [validate]

/-- An operation as an item has a name besides. -/
theorem BinaryArithmetic.validate_eq_ok {b : BinaryArithmetic} :
    b.validate = .ok () ↔
      b.arithmetic.validate .binaryArithmetic = .ok () ∧
        isIdentifier b.aliasName = true := by
  simp [validate]

/-- Three operands, two of which may be divisors, and a name. The operands
are checked before the divisors. -/
theorem CompoundArithmetic.validate_eq_ok {c : CompoundArithmetic} :
    c.validate = .ok () ↔
      c.inner.left.validate .compoundArithmetic "inner_left" = .ok () ∧
      c.inner.right.validate .compoundArithmetic "inner_right" = .ok () ∧
      c.outer.validate .compoundArithmetic "outer" = .ok () ∧
      c.inner.right.validateDivisor .compoundArithmetic "inner_right" c.inner.op = .ok () ∧
      c.outer.validateDivisor .compoundArithmetic "outer" c.op = .ok () ∧
      isIdentifier c.aliasName = true := by
  simp [validate]

/-- A column as an item may have a qualifier and a name of its own. -/
theorem ColumnExpr.validate_eq_ok {e : ColumnExpr} :
    e.validate = .ok () ↔
      (∀ q ∈ e.qualifier, isIdentifier q = true) ∧
        ∀ name ∈ e.aliasName, isIdentifier name = true := by
  simp [validate]

/-- An aggregate has a name, an input that goes with the function, no
DISTINCT with a percentile, and a fraction if the function takes one. -/
theorem AggregateExpr.validate_eq_ok {a : AggregateExpr} :
    a.validate = .ok () ↔
      isIdentifier a.aliasName = true ∧ a.validateInput = .ok () ∧
        (a.function.isPercentile = true → a.distinct = false) ∧
        a.validatePercentile = .ok () := by
  simp [validate, Decidable.imp_iff_not_or]

/-- The input is valid where there is one; without one the function counts
rows, and all of them. -/
theorem AggregateExpr.validateInput_eq_ok {a : AggregateExpr} :
    a.validateInput = .ok () ↔
      (∀ input ∈ a.input, input.validate = .ok ()) ∧
        (a.input = none → a.function = .count ∧ a.distinct = false) := by
  unfold validateInput
  cases a.input <;> simp

/-- There is a fraction exactly if the function needs one, and it lies
between zero and one. -/
theorem AggregateExpr.validatePercentile_eq_ok {a : AggregateExpr} :
    a.validatePercentile = .ok () ↔
      (a.function.requiresFraction = true ↔ a.percentile.isSome = true) ∧
        ∀ p ∈ a.percentile, p.inUnitInterval = true := by
  unfold validatePercentile
  cases a.percentile with
  | none => simp
  | some p => cases hf : a.function.requiresFraction <;> simp

/-- A window has a name, an argument and an offset that go with the function,
valid columns to partition by and keys to sort by. -/
theorem WindowExpr.validate_eq_ok {w : WindowExpr} :
    w.validate = .ok () ↔
      isIdentifier w.aliasName = true ∧ w.validateArgument = .ok () ∧
        w.validateOffset = .ok () ∧
        (∀ c ∈ w.partitionBy, c.validate = .ok ()) ∧
        ∀ i ∈ w.orderBy, w.validateOrder i = .ok () := by
  simp [validate]

/-- A function that ranks takes no argument. The others take a column, and
only a count goes without. -/
theorem WindowExpr.validateArgument_eq_ok {w : WindowExpr} :
    w.validateArgument = .ok () ↔
      (∀ c ∈ w.column, w.function.isRanking = false ∧ c.validate = .ok ()) ∧
        (w.column = none → w.function.isRanking = true ∨ w.function = .count) := by
  unfold validateArgument
  cases w.column <;> simp

/-- An offset and a default need a function that looks at another row. The
default must be a constant that can be written even so. -/
theorem WindowExpr.validateOffset_eq_ok {w : WindowExpr} :
    w.validateOffset = .ok () ↔
      (w.function.isOffset = true ∨ w.offset = none) ∧
        (w.function.isOffset = true ∨ w.default = none) ∧
        ∀ v ∈ w.default, Writable v := by
  simp [validateOffset]

/-- No function that ranks rows looks at another one. -/
theorem WindowFunction.isOffset_of_isRanking {f : WindowFunction} (h : f.isRanking = true) :
    f.isOffset = false := by
  cases f <;> first | rfl | cases h

/-- A function that looks at no other row has neither offset nor default. -/
theorem WindowExpr.noOffset_of_valid {w : WindowExpr} (h : w.validateOffset = .ok ())
    (hf : w.function.isOffset = false) : w.offset = none ∧ w.default = none := by
  obtain ⟨hoffset, hdefault, -⟩ := validateOffset_eq_ok.1 h
  exact ⟨hoffset.resolve_left (Bool.eq_false_iff.1 hf),
    hdefault.resolve_left (Bool.eq_false_iff.1 hf)⟩

/-- A key of a window is a column, and valid as such. There are no names to
sort by, since the items of the query are not computed yet. -/
theorem WindowExpr.validateOrder_eq_ok {w : WindowExpr} {i : OrderItem} :
    w.validateOrder i = .ok () ↔
      ∃ c, i.key = .column c ∧ c.validate = .ok () := by
  unfold validateOrder OrderItem.validate
  cases i.key <;> simp

/-- A result is a valid column or a constant that can be written. -/
theorem CaseResult.validate_eq_ok {r : CaseResult} :
    r.validate = .ok () ↔
      (∀ c, r = .column c → c.validate = .ok ()) ∧
        ∀ v, r = .literal v → Writable v := by
  cases r <;> simp [validate]

-- ========================================================== predicates

/-- A comparison has a valid column and a right side for its operator. -/
theorem Comparison.validate_eq_ok {p : Comparison} :
    p.validate = .ok () ↔ p.column.validate = .ok () ∧ p.validateValue = .ok () := by
  simp [validate]

/-- The right side fits the operator: nothing, a list that is not empty,
or one constant, all of them writable. -/
theorem Comparison.validateValue_eq_ok {p : Comparison} :
    p.validateValue = .ok () ↔
      (p.op.takesNothing = true ∧ p.value = none) ∨
      (p.op.takesNothing = false ∧ p.op.takesList = true ∧
        ∃ values, p.value = some (.list values) ∧ values ≠ [] ∧
          ∀ v ∈ values, Writable v) ∨
      (p.op.takesNothing = false ∧ p.op.takesList = false ∧
        ∃ v, p.value = some (.scalar v) ∧
          (p.op.takesPattern = true → v.isString = true) ∧ Writable v) := by
  unfold validateValue
  cases hn : p.op.takesNothing with
  | true => simp
  | false =>
      cases hv : p.value with
      | none => simp
      | some comparand =>
          cases comparand with
          | list values => simp
          | scalar v => simp [Decidable.imp_iff_not_or]

/-- A branch has a valid test and a valid result. -/
theorem CaseBranch.validate_eq_ok {b : CaseBranch} :
    b.validate = .ok () ↔ b.condition.validate = .ok () ∧ b.result.validate = .ok () := by
  simp [validate]

/-- A CASE has a branch, valid branches, a valid result otherwise and a name.
-/
theorem CaseExpr.validate_eq_ok {c : CaseExpr} :
    c.validate = .ok () ↔
      c.branches ≠ [] ∧ (∀ b ∈ c.branches, b.validate = .ok ()) ∧
        (∀ r ∈ c.otherwise, r.validate = .ok ()) ∧
        isIdentifier c.aliasName = true := by
  simp [validate]

theorem ColumnComparison.validate_eq_ok {p : ColumnComparison} :
    p.validate = .ok () ↔
      p.left.validate = .ok () ∧ p.right.validate = .ok () ∧ p.op.isOrdering = true := by
  simp [validate]

/-- A range has a valid column and two ends that can be written. Nothing asks
for the lower end to be the lower one. -/
theorem Between.validate_eq_ok {p : Between} :
    p.validate = .ok () ↔
      p.column.validate = .ok () ∧ Writable p.low ∧ Writable p.high := by
  simp [validate]

/-- A group has a test, and its tests are valid. -/
theorem ConditionGroup.validate_eq_ok {g : ConditionGroup} :
    g.validate = .ok () ↔
      g.conditions ≠ [] ∧ ∀ c ∈ g.conditions, c.validate = .ok () := by
  simp [validate]

-- ============================================================= filters

/-- A filter tests something, and its groups and ranges are valid. -/
theorem Filter.validate_eq_ok {w : Filter} :
    w.validate = .ok () ↔
      w.isEmpty = false ∧ (∀ g ∈ w.groups, g.validate = .ok ()) ∧
        ∀ p ∈ w.between, p.validate = .ok () := by
  simp [validate]

/-- A subquery may have a name for its table; its aggregate and its filter
are valid. -/
theorem ScalarSubquery.validate_eq_ok {s : ScalarSubquery} :
    s.validate = .ok () ↔
      (∀ name ∈ s.aliasName, isIdentifier name = true) ∧
        s.aggregate.validate = .ok () ∧ ∀ w ∈ s.filter, w.validate = .ok () := by
  simp [validate]

/-- A test against a subquery orders or takes a list, and it takes a list if
the subquery is grouped, as that has a row for each group. -/
theorem SubqueryCondition.validate_eq_ok {p : SubqueryCondition} :
    p.validate = .ok () ↔
      p.column.validate = .ok () ∧ (p.op.isOrdering || p.op.takesList) = true ∧
        (p.subquery.groupBy.isEmpty || p.op.takesList) = true ∧
        p.subquery.validate = .ok () := by
  simp [validate]

/-- A filter with subqueries tests something, and all it tests is valid. -/
theorem TopFilter.validate_eq_ok {w : TopFilter} :
    w.validate = .ok () ↔
      w.isEmpty = false ∧ (∀ g ∈ w.groups, g.validate = .ok ()) ∧
        (∀ p ∈ w.between, p.validate = .ok ()) ∧
        ∀ p ∈ w.subqueries, p.validate = .ok () := by
  simp [validate]

-- ============================================================= clauses

/-- A join has groups to be made on, valid ones, and may have a name. -/
theorem Join.validate_eq_ok {j : Join} :
    j.validate = .ok () ↔
      j.on ≠ [] ∧ (∀ name ∈ j.aliasName, isIdentifier name = true) ∧
        ∀ g ∈ j.on, g.validate = .ok () := by
  simp [validate]

/-- A derived table selects something and has a name, and its items and its
filter are valid. -/
theorem DerivedTable.validate_eq_ok {d : DerivedTable} :
    d.validate = .ok () ↔
      d.select ≠ [] ∧ isIdentifier d.aliasName = true ∧
        (∀ e ∈ d.select, e.validate = .ok ()) ∧
        ∀ w ∈ d.filter, w.validate = .ok () := by
  simp [validate]

/-- The rows come from one table under a good name, or from one valid
derived table. -/
theorem FromClause.validateSource_eq_ok {f : FromClause} :
    f.validateSource = .ok () ↔
      (∃ table, f.table = some table ∧ f.derived = none ∧
        ∀ name ∈ f.aliasName, isIdentifier name = true) ∨
      ∃ d, f.table = none ∧ f.derived = some d ∧ f.aliasName = none ∧
        d.validate = .ok () := by
  unfold validateSource
  cases f.table <;> cases f.derived <;> simp

/-- A source is valid if its first table and its joins are. -/
theorem FromClause.validate_eq_ok {f : FromClause} :
    f.validate = .ok () ↔
      f.validateSource = .ok () ∧ ∀ j ∈ f.joins, j.validate = .ok () := by
  simp [validate]

theorem GroupBy.validate_eq_ok {g : GroupBy} : g.validate = .ok () ↔ g.columns ≠ [] := by
  simp [validate]

/-- A test on a group of rows has no percentile, a column unless it counts
rows, an operator that orders, and a constant that can be written. -/
theorem HavingCondition.validate_eq_ok {p : HavingCondition} :
    p.validate = .ok () ↔
      p.function.isPercentile = false ∧ (∀ c ∈ p.column, c.validate = .ok ()) ∧
        (p.column = none → p.function = .count) ∧ p.op.isOrdering = true ∧
        Writable p.value := by
  unfold validate validateColumn
  cases p.column <;> simp

/-- HAVING has a test, and its tests are valid. -/
theorem Having.validate_eq_ok {h : Having} :
    h.validate = .ok () ↔
      h.conditions ≠ [] ∧ ∀ p ∈ h.conditions, p.validate = .ok () := by
  simp [validate]

/-- A sort has a key, and its keys are valid. -/
theorem OrderBy.validate_eq_ok {o : OrderBy} :
    o.validate = .ok () ↔
      o.items ≠ [] ∧ ∀ i ∈ o.items, i.validate = .ok () := by
  simp [validate]

/-- A query selects something, its clauses are valid, and each name it sorts
by is the name of an item. LIMIT holds nothing that could be wrong. -/
theorem Query.validate_eq_ok {q : Query} :
    q.validate = .ok () ↔
      q.select ≠ [] ∧ (∀ e ∈ q.select, e.validate = .ok ()) ∧
        q.source.validate = .ok () ∧
        (∀ w ∈ q.filter, w.validate = .ok ()) ∧
        (∀ g ∈ q.groupBy, g.validate = .ok ()) ∧
        (∀ h ∈ q.having, h.validate = .ok ()) ∧
        ∀ o ∈ q.orderBy, o.validate = .ok () ∧
          ∀ i ∈ o.items, i.validateAgainst q.selectAliases = .ok () := by
  simp [validate]

end TypedSelect
