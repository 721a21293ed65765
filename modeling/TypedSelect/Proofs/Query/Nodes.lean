/-
Validity, node by node.

A query is a tree of entities, down to the names, texts and numbers that a
caller wrote. `Node` is the type of all of them, `parts` what stands
directly in a node, and `Rule` what a node must keep when its parts are
left aside. A validation walks the tree by hand, entity by entity; here it
is shown to reach every node, so that what it promises can be read off the
rules: whatever occurs anywhere in a valid query keeps its own.

# Occurring and being sound

A node occurs in a whole if a chain of parts leads from the whole to it
(`Has`), so that a name inside a test inside a subquery of a filter occurs
in the query. A node is sound if everything that occurs in it keeps its
rule, and this unfolds by one step: a node is sound exactly if it keeps its
own rule and its parts are sound (`sound_iff`). Nothing else about chains
is used.

# Rules

A rule has four parts, and most nodes have only some of them: the lists
that must have an element do, the operator goes with what it stands
between, a function has the arguments it takes, and no number that is
divided by is zero. Names, texts and floating point numbers are nodes too,
and their rules are what may be emitted, what SQL can hold in a string, and
being finite. The rules are written down a second time here, apart from
the checks: that the two agree is what is proved.

# One equivalence for each entity

`X.validate_iff_sound` says that the check of an entity passes exactly if
its node is sound, from constants up to whole queries. The statement of
the rule in the module on validity has on its left what the check does; on
the right the soundness of the node is unfolded once. In most cases simp
sees that the two are one list of conditions. Where their order differs or
a condition is stated another way, the conditions are named and put
together again.

Only one rule is left that is not about a node: a name to sort by is the
name of an item. It compares two parts of the query that lie far apart,
and stands beside soundness in the last statement.

# Numbers

Two conditions are given as facts about numbers and not as the truth
values that the checks compute: what is divided by is not zero in any of
its three spellings, and a fraction has a value between zero and one.
-/
import Mathlib.Algebra.Order.Field.Basic
import Mathlib.Algebra.Order.Field.Power
import Mathlib.Data.Rat.Cast.Order
import Mathlib.Logic.Relation
import TypedSelect.Proofs.Validity

namespace TypedSelect

open Relation (ReflTransGen)
open Validation (Writable)

-- ============================================================== numbers

namespace Double

/-- The value of a number, if it is finite. -/
def value? : Double → Option ℚ
  | finite negative x => some ((if negative then -1 else 1) * x.mantissa * 2 ^ x.exponent)
  | _ => none

/-- The number zero of this sign. -/
def zero (negative : Bool) : Double := finite negative .zero

/-- A floating point number is zero in two ways, with either sign. Its
magnitude has no mantissa, and then there is one exponent it can have. -/
theorem isZero_iff {x : Double} : x.isZero = true ↔ ∃ negative, x = zero negative := by
  cases x with
  | finite negative x =>
      constructor
      · intro h
        have hm : x.mantissa = 0 := eq_of_beq h
        have he : x.exponent = -1074 := x.canonical.resolve_left (by omega)
        obtain ⟨mantissa, exponent, _, _, _, _⟩ := x
        subst hm he
        exact ⟨negative, rfl⟩
      · rintro ⟨_, h⟩
        cases h
        rfl
  | infinite negative => simp [isZero, zero]
  | nan => simp [isZero, zero]

/-- The exact fraction of a magnitude is its value. -/
theorem fraction_eq (x : Magnitude) :
    (x.fraction.1 : ℚ) / x.fraction.2 = x.mantissa * 2 ^ x.exponent := by
  unfold Magnitude.fraction
  simp only [Nat.pow_eq, Nat.cast_mul, Nat.cast_pow, Nat.cast_ofNat]
  rw [mul_div_assoc, ← zpow_natCast, ← zpow_natCast, ← zpow_sub₀ two_ne_zero]
  congr 2
  omega

/-- The values between zero and one. The check compares a numerator with a
denominator, and lets a negative zero pass as the zero that it is. -/
theorem inUnitInterval_iff {x : Double} :
    x.inUnitInterval = true ↔ ∃ v, x.value? = some v ∧ 0 ≤ v ∧ v ≤ 1 := by
  cases x with
  | infinite negative => simp [inUnitInterval, value?]
  | nan => simp [inUnitInterval, value?]
  | finite negative x =>
      -- everything is compared after multiplying with the denominator
      have hden : (0 : ℚ) < x.fraction.2 := by simp [Magnitude.fraction]
      have hle : x.fraction.1 ≤ x.fraction.2 ↔ (x.mantissa * 2 ^ x.exponent : ℚ) ≤ 1 := by
        rw [← fraction_eq, div_le_one₀ hden, Nat.cast_le]
      have hpow : (0 : ℚ) < 2 ^ x.exponent := zpow_pos two_pos _
      rcases Nat.eq_zero_or_pos x.mantissa with hm | hm
      · simp [inUnitInterval, value?, hm]
      · have hpos : (0 : ℚ) < x.mantissa * 2 ^ x.exponent := mul_pos (Nat.cast_pos.2 hm) hpow
        have hne : x.mantissa ≠ 0 := hm.ne'
        cases negative with
        | true =>
            have hneg : -(x.mantissa * 2 ^ x.exponent : ℚ) < 0 := neg_lt_zero.2 hpos
            simp [inUnitInterval, value?, hne, hneg.not_ge]
        | false => simp [inUnitInterval, value?, hne, hle, hpos.le]

end Double

/-- Zero is written in three ways. -/
theorem Number.isZero_iff {n : Number} :
    n.isZero = true ↔ n = .int 0 ∨ ∃ negative, n = .float (.zero negative) := by
  cases n with
  | int i => simp [isZero]
  | float x => simp [isZero, Double.isZero_iff]

-- ================================================================ nodes

/-- Anything that can stand in a query and has a rule or a part. -/
inductive Node where
  | name (s : String)
  | text (s : String)
  | float (x : Double)
  | number (n : Number)
  | literal (v : Literal)
  | column (c : QualifiedColumn)
  | orderItem (i : OrderItem)
  | operand (o : Operand)
  | arithmetic (a : Arithmetic)
  | columnExpr (e : ColumnExpr)
  | binary (e : BinaryArithmetic)
  | compound (e : CompoundArithmetic)
  | aggregateInput (input : AggregateInput)
  | aggregate (e : AggregateExpr)
  | window (e : WindowExpr)
  | caseResult (r : CaseResult)
  | comparison (p : Comparison)
  | caseBranch (b : CaseBranch)
  | case (e : CaseExpr)
  | item (e : SelectExpr)
  | columnComparison (p : ColumnComparison)
  | between (p : Between)
  | condition (p : Condition)
  | group (g : ConditionGroup)
  | filter (w : Filter)
  | subquery (s : ScalarSubquery)
  | subqueryCondition (p : SubqueryCondition)
  | topFilter (w : TopFilter)
  | join (j : Join)
  | derived (d : DerivedTable)
  | source (f : FromClause)
  | groupBy (g : GroupBy)
  | havingCondition (p : HavingCondition)
  | having (h : Having)
  | orderBy (o : OrderBy)
  | query (q : Query)

namespace Node

/-- The constants of a right side. -/
@[simp] def constants : Comparand → List Node
  | .list values => values.map literal
  | .scalar v => [literal v]

/-- What stands directly in a node: every field that has a rule or a part. -/
@[simp] def parts : Node → List Node
  | name _ | text _ | float _ => []
  | number (.int _) => []
  | number (.float x) => [float x]
  | literal (.float x) => [float x]
  | literal (.string s) => [text s]
  | literal _ => []
  | column c => c.qualifier.toList.map name
  | orderItem ⟨.column c, _, _⟩ => [column c]
  | orderItem ⟨.output s, _, _⟩ => [name s]
  | operand (.column c) => [column c]
  | operand (.number n) => [number n]
  | arithmetic a => [operand a.left, operand a.right]
  | columnExpr e => e.qualifier.toList.map name ++ e.aliasName.toList.map name
  | binary e => [arithmetic e.arithmetic, name e.aliasName]
  | compound e => [arithmetic e.inner, operand e.outer, name e.aliasName]
  | aggregateInput (.column c) => [column c]
  | aggregateInput (.arithmetic a) => [arithmetic a]
  | aggregate e =>
    name e.aliasName :: e.input.toList.map aggregateInput ++ e.percentile.toList.map float
  | window e =>
    name e.aliasName :: e.column.toList.map column ++ e.default.toList.map literal ++
      e.partitionBy.map column ++ e.orderBy.map orderItem
  | caseResult (.column c) => [column c]
  | caseResult (.literal v) => [literal v]
  | comparison p => column p.column :: p.value.toList.flatMap constants
  | caseBranch b => [comparison b.condition, caseResult b.result]
  | case e =>
    e.branches.map caseBranch ++ e.otherwise.toList.map caseResult ++ [name e.aliasName]
  | item (.column e) => [columnExpr e]
  | item (.binary e) => [binary e]
  | item (.compound e) => [compound e]
  | item (.aggregate e) => [aggregate e]
  | item (.window e) => [window e]
  | item (.case e) => [case e]
  | columnComparison p => [column p.left, column p.right]
  | between p => [column p.column, literal p.low, literal p.high]
  | condition (.simple p) => [comparison p]
  | condition (.columns p) => [columnComparison p]
  | condition (.between p) => [between p]
  | group g => g.conditions.map condition
  | filter w => w.groups.map group ++ w.between.map between
  | subquery s =>
    s.aliasName.toList.map name ++ aggregate s.aggregate :: s.filter.toList.map filter
  | subqueryCondition p => [column p.column, subquery p.subquery]
  | topFilter w =>
    w.groups.map group ++ w.between.map between ++ w.subqueries.map subqueryCondition
  | join j => j.aliasName.toList.map name ++ j.on.map group
  | derived d => name d.aliasName :: d.select.map item ++ d.filter.toList.map filter
  | source f =>
    f.aliasName.toList.map name ++ f.derived.toList.map derived ++ f.joins.map join
  | groupBy _ => []
  | havingCondition p => p.column.toList.map column ++ [literal p.value]
  | having h => h.conditions.map havingCondition
  | orderBy o => o.items.map orderItem
  | query q =>
    q.select.map item ++ source q.source :: q.filter.toList.map topFilter ++
      q.groupBy.toList.map groupBy ++ q.having.toList.map having ++
      q.orderBy.toList.map orderBy

/-- Where a node occurs: in the whole, in a part of it, in a part of a
part, and so on. -/
def Has : Node → Node → Prop := ReflTransGen fun whole part => part ∈ whole.parts

-- ================================================================ rules

/-- The number that an operation divides by, if it does. -/
def divisorsOf : ArithmeticOp → Operand → List Number
  | .div, .number n => [n]
  | _, _ => []

/-- The numbers that a node itself divides by. -/
@[simp] def divisors : Node → List Number
  | arithmetic a => divisorsOf a.op a.right
  | compound e => divisorsOf e.op e.outer
  | _ => []

/-- The lists that must have an element have one. A filter needs a group,
a range or a subquery, whichever. -/
@[simp] def Filled : Node → Prop
  | comparison p => p.value ≠ some (.list [])
  | case e => e.branches ≠ []
  | group g => g.conditions ≠ []
  | filter w => w.groups ≠ [] ∨ w.between ≠ []
  | topFilter w => w.groups ≠ [] ∨ w.between ≠ [] ∨ w.subqueries ≠ []
  | join j => j.on ≠ []
  | derived d => d.select ≠ []
  | groupBy g => g.columns ≠ []
  | having h => h.conditions ≠ []
  | orderBy o => o.items ≠ []
  | query q => q.select ≠ []
  | _ => True

/-- The operator is of a class that is allowed where it stands. -/
@[simp] def OperatorFits : Node → Prop
  | comparison p =>
    match p.value with
    | none => p.op.takesNothing = true
    | some (.list _) => p.op.takesList = true
    | some (.scalar v) =>
      p.op.isOrdering = true ∨ p.op.takesPattern = true ∧ v.isString = true
  | columnComparison p => p.op.isOrdering = true
  | subqueryCondition p =>
    p.op.isOrdering = true ∧ p.subquery.groupBy = [] ∨ p.op.takesList = true
  | havingCondition p => p.op.isOrdering = true
  | _ => True

/-- A function has the arguments it takes and no others. -/
@[simp] def ArgumentsFit : Node → Prop
  | aggregate e =>
    (e.input = none → e.function = .count ∧ e.distinct = false) ∧
      (e.function.isPercentile = true → e.distinct = false) ∧
      (e.function.requiresFraction = true ↔ e.percentile.isSome = true) ∧
      ∀ p ∈ e.percentile, p.inUnitInterval = true
  | window e =>
    (e.function.isRanking = true → e.column = none) ∧
      (e.column = none → e.function.isRanking = true ∨ e.function = .count) ∧
      (e.function.isOffset = true ∨ e.offset = none ∧ e.default = none) ∧
      ∀ i ∈ e.orderBy, ∃ c, i.key = .column c
  | havingCondition p =>
    p.function.isPercentile = false ∧ (p.column = none → p.function = .count)
  | source f =>
    (f.table.isSome = true ↔ f.derived = none) ∧ (f.derived ≠ none → f.aliasName = none)
  | _ => True

/-- What a node must keep by itself. -/
@[simp] def Rule : Node → Prop
  | name s => isIdentifier s = true
  | text s => Char.ofNat 0 ∉ s.toList
  | float x => x.isFinite = true
  | n => n.Filled ∧ n.OperatorFits ∧ n.ArgumentsFit ∧ ∀ d ∈ n.divisors, d.isZero = false

/-- Every node that occurs in this one keeps its rule. -/
def Sound (n : Node) : Prop := ∀ m, n.Has m → m.Rule

/-- A node is sound if it keeps its rule and its parts are sound. A chain of
parts is empty, or its first step leads to a part. -/
theorem sound_iff {n : Node} : n.Sound ↔ n.Rule ∧ ∀ p ∈ n.parts, p.Sound := by
  constructor
  · intro h
    exact ⟨h n .refl, fun p hp m hm => h m (.head hp hm)⟩
  · intro ⟨hrule, hparts⟩ m hm
    rcases hm.cases_head with rfl | ⟨p, hp, hm⟩
    · exact hrule
    · exact hparts p hp m hm

/-- A name has no parts, so it is sound if it is an identifier. -/
@[simp] theorem sound_name {s : String} : (name s).Sound ↔ isIdentifier s = true := by
  rw [sound_iff]
  simp

/-- The text of a string must not hold the character zero. -/
@[simp] theorem sound_text {s : String} : (text s).Sound ↔ Char.ofNat 0 ∉ s.toList := by
  rw [sound_iff]
  simp

/-- A floating point number is sound if it is finite. -/
@[simp] theorem sound_float {x : Double} : (float x).Sound ↔ x.isFinite = true := by
  rw [sound_iff]
  simp

end Node

-- ==================================================== names and values

/-- A number of either kind is sound if it is finite; a whole one always is. -/
@[simp] theorem Number.sound_iff {n : Number} : (Node.number n).Sound ↔ n.isFinite = true := by
  rw [Node.sound_iff]
  cases n <;> simp [isFinite]

/-- A constant is sound if it can be written. -/
@[simp] theorem Literal.sound_iff {v : Literal} : (Node.literal v).Sound ↔ Writable v := by
  rw [Node.sound_iff]
  cases v <;> simp [Writable]

/-- A column reference has its qualifier as its only part. -/
theorem QualifiedColumn.validate_iff_sound {c : QualifiedColumn} :
    c.validate = .ok () ↔ (Node.column c).Sound := by
  rw [Node.sound_iff, validate_eq_ok]
  simp

/-- A sort key has a column or a name as its part. -/
theorem OrderItem.validate_iff_sound {i : OrderItem} :
    i.validate = .ok () ↔ (Node.orderItem i).Sound := by
  rw [Node.sound_iff, validate_eq_ok]
  obtain ⟨key, _, _⟩ := i
  cases key <;> simp [QualifiedColumn.validate_iff_sound]

-- ========================================================= expressions

/-- An operand has a column or a number as its part. -/
theorem Operand.validate_iff_sound {e : Entity} {field : String} {o : Operand} :
    o.validate e field = .ok () ↔ (Node.operand o).Sound := by
  rw [Node.sound_iff, validate_eq_ok]
  cases o <;> simp [QualifiedColumn.validate_iff_sound]

/-- An operand may be divided by unless it is a number and zero. A column may
be zero in a row, and nothing can be said about that here. -/
theorem Operand.validateDivisor_eq_ok {e : Entity} {field : String} {op : ArithmeticOp}
    {o : Operand} : o.validateDivisor e field op = .ok () ↔
      ∀ d ∈ Node.divisorsOf op o, d.isZero = false := by
  cases o <;> cases op <;> simp [validateDivisor, Node.divisorsOf]

/-- An operation is sound if both operands are and it divides by no zero. -/
theorem Node.sound_arithmetic {a : Arithmetic} :
    (Node.arithmetic a).Sound ↔
      ((Node.operand a.left).Sound ∧ (Node.operand a.right).Sound) ∧
        ∀ d ∈ divisorsOf a.op a.right, d.isZero = false := by
  rw [sound_iff]
  simp [and_comm]

/-- An operation checks both operands and then whether it divides by zero. -/
theorem Arithmetic.validate_iff_sound {e : Entity} {a : Arithmetic} :
    a.validate e = .ok () ↔ (Node.arithmetic a).Sound := by
  rw [validate_eq_ok, Operand.validate_iff_sound, Operand.validate_iff_sound,
    Operand.validateDivisor_eq_ok, Node.sound_arithmetic, and_assoc]

/-- The two names that a column may have, before it and behind it. -/
theorem ColumnExpr.validate_iff_sound {e : ColumnExpr} :
    e.validate = .ok () ↔ (Node.columnExpr e).Sound := by
  rw [Node.sound_iff, validate_eq_ok]
  simp [or_imp, forall_and]

theorem BinaryArithmetic.validate_iff_sound {e : BinaryArithmetic} :
    e.validate = .ok () ↔ (Node.binary e).Sound := by
  rw [Node.sound_iff, validate_eq_ok]
  simp [Arithmetic.validate_iff_sound]

/-- An operation on an operation. The check goes over the three operands
first and over the two divisors afterwards; the inner divisor is a matter of
the inner operation here. -/
theorem CompoundArithmetic.validate_iff_sound {e : CompoundArithmetic} :
    e.validate = .ok () ↔ (Node.compound e).Sound := by
  have hsound : (Node.compound e).Sound ↔
      (∀ d ∈ Node.divisorsOf e.op e.outer, d.isZero = false) ∧
        (Node.arithmetic e.inner).Sound ∧ (Node.operand e.outer).Sound ∧
        isIdentifier e.aliasName = true := by
    rw [Node.sound_iff]
    simp
  rw [hsound, validate_eq_ok, Node.sound_arithmetic]
  simp only [Operand.validate_iff_sound, Operand.validateDivisor_eq_ok]
  constructor
  · rintro ⟨hleft, hright, houter, hinner, hdivisor, hname⟩
    exact ⟨hdivisor, ⟨⟨hleft, hright⟩, hinner⟩, houter, hname⟩
  · rintro ⟨hdivisor, ⟨⟨hleft, hright⟩, hinner⟩, houter, hname⟩
    exact ⟨hleft, hright, houter, hinner, hdivisor, hname⟩

theorem AggregateInput.validate_iff_sound {input : AggregateInput} :
    input.validate = .ok () ↔ (Node.aggregateInput input).Sound := by
  rw [Node.sound_iff]
  cases input <;>
    simp [validate, QualifiedColumn.validate_iff_sound, Arithmetic.validate_iff_sound]

/-- An aggregate has the arguments that its function takes. Its fraction
occurs twice: it lies between zero and one by the rule of the aggregate, and
it is finite by its own. -/
theorem AggregateExpr.validate_iff_sound {e : AggregateExpr} :
    e.validate = .ok () ↔ (Node.aggregate e).Sound := by
  have hsound : (Node.aggregate e).Sound ↔ (Node.aggregate e).ArgumentsFit ∧
      isIdentifier e.aliasName = true ∧
      (∀ input ∈ e.input, (Node.aggregateInput input).Sound) ∧
      ∀ p ∈ e.percentile, p.isFinite = true := by
    rw [Node.sound_iff]
    simp [or_imp, forall_and]
  rw [hsound, validate_eq_ok, validateInput_eq_ok, validatePercentile_eq_ok]
  simp only [AggregateInput.validate_iff_sound]
  constructor
  · rintro ⟨hname, ⟨hinput, hbare⟩, hdistinct, hfraction, hunit⟩
    -- a fraction is a part as well, and as such it is finite
    have hfinite : ∀ p ∈ e.percentile, p.isFinite = true := fun p hp =>
      Double.isFinite_of_inUnitInterval (hunit p hp)
    exact ⟨⟨hbare, hdistinct, hfraction, hunit⟩, hname, hinput, hfinite⟩
  · rintro ⟨⟨hbare, hdistinct, hfraction, hunit⟩, hname, hinput, -⟩
    exact ⟨hname, ⟨hinput, hbare⟩, hdistinct, hfraction, hunit⟩

/-- A key of a window is a column, and sound as a sort key. -/
theorem WindowExpr.validateOrder_iff_sound {e : WindowExpr} {i : OrderItem} :
    e.validateOrder i = .ok () ↔
      (∃ c, i.key = .column c) ∧ (Node.orderItem i).Sound := by
  rw [← OrderItem.validate_iff_sound, validateOrder]
  split <;> simp [*]

/-- A window has the arguments that its function takes, and its keys are
columns. The check asks these things part by part, the rule all at once. -/
theorem WindowExpr.validate_iff_sound {e : WindowExpr} :
    e.validate = .ok () ↔ (Node.window e).Sound := by
  have hsound : (Node.window e).Sound ↔ (Node.window e).ArgumentsFit ∧
      isIdentifier e.aliasName = true ∧ (∀ c ∈ e.column, (Node.column c).Sound) ∧
      (∀ v ∈ e.default, Writable v) ∧ (∀ c ∈ e.partitionBy, (Node.column c).Sound) ∧
      ∀ i ∈ e.orderBy, (Node.orderItem i).Sound := by
    rw [Node.sound_iff]
    simp [or_imp, forall_and, and_assoc]
  -- the check of the argument is made for the column, if there is one
  have hranking : (e.function.isRanking = true → e.column = none) ↔
      ∀ c ∈ e.column, e.function.isRanking = false := by
    cases e.column <;> simp
  rw [hsound, validate_eq_ok, validateArgument_eq_ok, validateOffset_eq_ok]
  simp only [QualifiedColumn.validate_iff_sound, validateOrder_iff_sound, Node.ArgumentsFit,
    hranking]
  constructor
  · rintro ⟨hname, ⟨hcolumn, hbare⟩, ⟨hoffset, hnone, hdefault⟩, hpartition, horder⟩
    have hlooks : e.function.isOffset = true ∨ e.offset = none ∧ e.default = none :=
      or_and_left.2 ⟨hoffset, hnone⟩
    exact ⟨⟨fun c hc => (hcolumn c hc).1, hbare, hlooks, fun i hi => (horder i hi).1⟩, hname,
      fun c hc => (hcolumn c hc).2, hdefault, hpartition, fun i hi => (horder i hi).2⟩
  · rintro ⟨⟨hfits, hbare, hlooks, hkeys⟩, hname, hcolumn, hdefault, hpartition, horder⟩
    obtain ⟨hoffset, hnone⟩ := or_and_left.1 hlooks
    exact ⟨hname, ⟨fun c hc => ⟨hfits c hc, hcolumn c hc⟩, hbare⟩, ⟨hoffset, hnone, hdefault⟩,
      hpartition, fun i hi => ⟨hkeys i hi, horder i hi⟩⟩

theorem CaseResult.validate_iff_sound {r : CaseResult} :
    r.validate = .ok () ↔ (Node.caseResult r).Sound := by
  rw [Node.sound_iff, validate_eq_ok]
  cases r <;> simp [QualifiedColumn.validate_iff_sound]

-- ========================================================== predicates

theorem ComparisonOp.takesNothing_of_takesList {op : ComparisonOp} (h : op.takesList = true) :
    op.takesNothing = false := by
  cases op <;> first | rfl | cases h

/-- What is left for a single constant: an operator that orders, or one that
takes a pattern, if the constant is one. -/
theorem ComparisonOp.takesScalar_iff {op : ComparisonOp} {b : Prop} :
    (op.takesNothing = false ∧ op.takesList = false ∧ (op.takesPattern = true → b)) ↔
      op.isOrdering = true ∨ op.takesPattern = true ∧ b := by
  cases op <;> simp [takesNothing, takesList, takesPattern, isOrdering]

/-- A comparison has a right side that goes with its operator. The check asks
the operator what it takes; the rule looks at the right side and asks what
operators go with it. -/
theorem Comparison.validate_iff_sound {p : Comparison} :
    p.validate = .ok () ↔ (Node.comparison p).Sound := by
  have hsound : (Node.comparison p).Sound ↔
      (Node.comparison p).Filled ∧ (Node.comparison p).OperatorFits ∧
        (Node.column p.column).Sound ∧ ∀ n c, c ∈ p.value → n ∈ Node.constants c → n.Sound := by
    rw [Node.sound_iff]
    simp [or_imp, forall_and, and_assoc]
  rw [hsound, validate_eq_ok, validateValue_eq_ok, QualifiedColumn.validate_iff_sound]
  obtain ⟨column, op, value⟩ := p
  -- what the operator takes is settled by what stands on the right
  rcases value with _ | values | v
  · simp [and_comm]
  · cases hlist : op.takesList with
    | false => simp [hlist]
    | true => simp [hlist, ComparisonOp.takesNothing_of_takesList hlist, and_left_comm]
  · simp only [Node.Filled, Node.OperatorFits, ← ComparisonOp.takesScalar_iff]
    constructor
    · rintro ⟨hcolumn, h⟩
      simp only [reduceCtorEq, and_false, false_and, exists_false, false_or,
        Option.some.injEq, Comparand.scalar.injEq, exists_eq_left'] at h
      obtain ⟨hnothing, hlist, hpattern, hv⟩ := h
      exact ⟨by simp, ⟨hnothing, hlist, hpattern⟩, hcolumn, by simpa using hv⟩
    · rintro ⟨-, ⟨hnothing, hlist, hpattern⟩, hcolumn, hv⟩
      have hwritable : Writable v := by simpa using hv
      exact ⟨hcolumn, .inr (.inr ⟨hnothing, hlist, v, rfl, hpattern, hwritable⟩)⟩

theorem CaseBranch.validate_iff_sound {b : CaseBranch} :
    b.validate = .ok () ↔ (Node.caseBranch b).Sound := by
  rw [Node.sound_iff, validate_eq_ok]
  simp [Comparison.validate_iff_sound, CaseResult.validate_iff_sound]

/-- A CASE has a branch, and its parts are sound. -/
theorem CaseExpr.validate_iff_sound {e : CaseExpr} :
    e.validate = .ok () ↔ (Node.case e).Sound := by
  rw [Node.sound_iff, validate_eq_ok]
  simp [CaseBranch.validate_iff_sound, CaseResult.validate_iff_sound, or_imp, forall_and]

/-- An item of any kind has the entity of its kind as its part. -/
theorem SelectExpr.validate_iff_sound {e : SelectExpr} :
    e.validate = .ok () ↔ (Node.item e).Sound := by
  rw [Node.sound_iff]
  cases e <;>
    simp [validate, ColumnExpr.validate_iff_sound, BinaryArithmetic.validate_iff_sound,
      CompoundArithmetic.validate_iff_sound, AggregateExpr.validate_iff_sound,
      WindowExpr.validate_iff_sound, CaseExpr.validate_iff_sound]

/-- A comparison of two columns has an operator that orders, and its columns
are sound as they are anywhere else. -/
theorem ColumnComparison.validate_iff_sound {p : ColumnComparison} :
    p.validate = .ok () ↔ (Node.columnComparison p).Sound := by
  have hsound : (Node.columnComparison p).Sound ↔ p.op.isOrdering = true ∧
      (Node.column p.left).Sound ∧ (Node.column p.right).Sound := by
    rw [Node.sound_iff]
    simp
  rw [hsound, validate_eq_ok, QualifiedColumn.validate_iff_sound,
    QualifiedColumn.validate_iff_sound]
  constructor
  · rintro ⟨hleft, hright, hop⟩
    exact ⟨hop, hleft, hright⟩
  · rintro ⟨hop, hleft, hright⟩
    exact ⟨hleft, hright, hop⟩

/-- A range has three parts and no rule of its own. -/
theorem Between.validate_iff_sound {p : Between} :
    p.validate = .ok () ↔ (Node.between p).Sound := by
  rw [Node.sound_iff, validate_eq_ok]
  simp [QualifiedColumn.validate_iff_sound]

/-- A test of any kind has the entity of its kind as its part. -/
theorem Condition.validate_iff_sound {p : Condition} :
    p.validate = .ok () ↔ (Node.condition p).Sound := by
  rw [Node.sound_iff]
  cases p <;>
    simp [validate, Comparison.validate_iff_sound, ColumnComparison.validate_iff_sound,
      Between.validate_iff_sound]

/-- A group has a test, and its tests are sound. -/
theorem ConditionGroup.validate_iff_sound {g : ConditionGroup} :
    g.validate = .ok () ↔ (Node.group g).Sound := by
  rw [Node.sound_iff, validate_eq_ok]
  simp [Condition.validate_iff_sound]

-- ============================================================= filters

/-- A filter tests something if it has a group or a range. -/
theorem Filter.isEmpty_eq_false {w : Filter} :
    w.isEmpty = false ↔ w.groups ≠ [] ∨ w.between ≠ [] := by
  simp [isEmpty, Decidable.imp_iff_not_or]

/-- A filter tests something, and its groups and ranges are sound. -/
theorem Filter.validate_iff_sound {w : Filter} :
    w.validate = .ok () ↔ (Node.filter w).Sound := by
  rw [Node.sound_iff, validate_eq_ok, isEmpty_eq_false]
  simp [ConditionGroup.validate_iff_sound, Between.validate_iff_sound, or_imp, forall_and]

/-- A subquery has no rule of its own, only parts that may be missing. -/
theorem ScalarSubquery.validate_iff_sound {s : ScalarSubquery} :
    s.validate = .ok () ↔ (Node.subquery s).Sound := by
  rw [Node.sound_iff, validate_eq_ok]
  simp [AggregateExpr.validate_iff_sound, Filter.validate_iff_sound, or_imp, forall_and]

/-- A test against a subquery has an operator that orders or one that takes a
list, and the latter if the subquery is grouped. -/
theorem SubqueryCondition.validate_iff_sound {p : SubqueryCondition} :
    p.validate = .ok () ↔ (Node.subqueryCondition p).Sound := by
  have hsound : (Node.subqueryCondition p).Sound ↔
      (Node.subqueryCondition p).OperatorFits ∧ (Node.column p.column).Sound ∧
        (Node.subquery p.subquery).Sound := by
    rw [Node.sound_iff]
    simp
  -- a subquery that is grouped has a row for each group, as a list has elements
  have hfits : (Node.subqueryCondition p).OperatorFits ↔
      (p.op.isOrdering || p.op.takesList) = true ∧
        (p.subquery.groupBy.isEmpty || p.op.takesList) = true := by
    simp [and_or_right]
  rw [hsound, hfits, validate_eq_ok, QualifiedColumn.validate_iff_sound,
    ScalarSubquery.validate_iff_sound]
  constructor
  · rintro ⟨hcolumn, hop, hgrouped, hsubquery⟩
    exact ⟨⟨hop, hgrouped⟩, hcolumn, hsubquery⟩
  · rintro ⟨⟨hop, hgrouped⟩, hcolumn, hsubquery⟩
    exact ⟨hcolumn, hop, hgrouped, hsubquery⟩

/-- With subqueries there is a third way to test something. -/
theorem TopFilter.isEmpty_eq_false {w : TopFilter} :
    w.isEmpty = false ↔ w.groups ≠ [] ∨ w.between ≠ [] ∨ w.subqueries ≠ [] := by
  simp [isEmpty, Filter.isEmpty, Decidable.imp_iff_not_or, or_assoc]

/-- A filter with subqueries tests something, and all its parts are sound. -/
theorem TopFilter.validate_iff_sound {w : TopFilter} :
    w.validate = .ok () ↔ (Node.topFilter w).Sound := by
  rw [Node.sound_iff, validate_eq_ok, isEmpty_eq_false]
  simp [ConditionGroup.validate_iff_sound, Between.validate_iff_sound,
    SubqueryCondition.validate_iff_sound, or_imp, forall_and]

-- ============================================================= clauses

theorem Join.validate_iff_sound {j : Join} :
    j.validate = .ok () ↔ (Node.join j).Sound := by
  rw [Node.sound_iff, validate_eq_ok]
  simp [ConditionGroup.validate_iff_sound, or_imp, forall_and]

theorem DerivedTable.validate_iff_sound {d : DerivedTable} :
    d.validate = .ok () ↔ (Node.derived d).Sound := by
  rw [Node.sound_iff, validate_eq_ok]
  simp [SelectExpr.validate_iff_sound, Filter.validate_iff_sound, or_imp, forall_and]

/-- A source has a table or a derived table, and a name only with a table.
The cases are those of the three parts that may be missing. -/
theorem FromClause.validate_iff_sound {f : FromClause} :
    f.validate = .ok () ↔ (Node.source f).Sound := by
  rw [Node.sound_iff, validate_eq_ok, validateSource_eq_ok]
  obtain ⟨table, aliasName, joins, derived⟩ := f
  cases table <;> cases derived <;> cases aliasName <;>
    simp [DerivedTable.validate_iff_sound, Join.validate_iff_sound, or_imp, forall_and]

/-- Grouping has a column, and columns have no rule. -/
theorem GroupBy.validate_iff_sound {g : GroupBy} :
    g.validate = .ok () ↔ (Node.groupBy g).Sound := by
  rw [Node.sound_iff, validate_eq_ok]
  simp

/-- A test on a group of rows has no percentile, a column unless it counts
rows, and an operator that orders. -/
theorem HavingCondition.validate_iff_sound {p : HavingCondition} :
    p.validate = .ok () ↔ (Node.havingCondition p).Sound := by
  have hsound : (Node.havingCondition p).Sound ↔ p.op.isOrdering = true ∧
      (Node.havingCondition p).ArgumentsFit ∧ (∀ c ∈ p.column, (Node.column c).Sound) ∧
      Writable p.value := by
    rw [Node.sound_iff]
    simp [or_imp, forall_and, and_assoc]
  rw [hsound, validate_eq_ok]
  simp only [QualifiedColumn.validate_iff_sound, Node.ArgumentsFit]
  constructor
  · rintro ⟨hfunction, hcolumn, hbare, hop, hvalue⟩
    exact ⟨hop, ⟨hfunction, hbare⟩, hcolumn, hvalue⟩
  · rintro ⟨hop, ⟨hfunction, hbare⟩, hcolumn, hvalue⟩
    exact ⟨hfunction, hcolumn, hbare, hop, hvalue⟩

/-- HAVING has a test, and its tests are sound. -/
theorem Having.validate_iff_sound {h : Having} :
    h.validate = .ok () ↔ (Node.having h).Sound := by
  rw [Node.sound_iff, validate_eq_ok]
  simp [HavingCondition.validate_iff_sound]

/-- A sort has a key, and its keys are sound. -/
theorem OrderBy.validate_iff_sound {o : OrderBy} :
    o.validate = .ok () ↔ (Node.orderBy o).Sound := by
  rw [Node.sound_iff, validate_eq_ok]
  simp [OrderItem.validate_iff_sound]

/-- A key fits the outputs unless it is a name that is none of theirs. -/
theorem OrderItem.validateAgainst_eq_ok {outputs : List String} {i : OrderItem} :
    i.validateAgainst outputs = .ok () ↔ ∀ name, i.key = .output name → name ∈ outputs := by
  unfold validateAgainst
  cases i.key <;> simp

/-- A query is valid if every node in it keeps its rule and the sort names
outputs that exist. -/
theorem Query.validate_iff_sound {q : Query} :
    q.validate = .ok () ↔ (Node.query q).Sound ∧
      ∀ o ∈ q.orderBy, ∀ i ∈ o.items, ∀ name, i.key = .output name → name ∈ q.selectAliases := by
  rw [Node.sound_iff, validate_eq_ok]
  simp [SelectExpr.validate_iff_sound, FromClause.validate_iff_sound,
    TopFilter.validate_iff_sound, GroupBy.validate_iff_sound, Having.validate_iff_sound,
    OrderBy.validate_iff_sound, OrderItem.validateAgainst_eq_ok, or_imp, forall_and, and_assoc]

-- ========================================================= main results

namespace Node

variable {n : Node}

/-- The first part of a rule. The three kinds of leaves have rules of another
form, and nothing to be filled. -/
theorem Rule.filled (h : n.Rule) : n.Filled := by
  cases n with
  | name s => trivial
  | text s => trivial
  | float x => trivial
  | _ => exact h.1

/-- The second part, which leaves do not have either. -/
theorem Rule.operatorFits (h : n.Rule) : n.OperatorFits := by
  cases n with
  | name s => trivial
  | text s => trivial
  | float x => trivial
  | _ => exact h.2.1

theorem Rule.argumentsFit (h : n.Rule) : n.ArgumentsFit := by
  cases n with
  | name s => trivial
  | text s => trivial
  | float x => trivial
  | _ => exact h.2.2.1

theorem Rule.divisor_ne_zero (h : n.Rule) {d : Number} (hd : d ∈ n.divisors) :
    d.isZero = false := by
  cases n with
  | name s => cases hd
  | text s => cases hd
  | float x => cases hd
  | _ => exact h.2.2.2 d hd

end Node

namespace Query

/-- What holds of everything that occurs in a query: what a caller named can
be emitted, what a caller wrote as a constant can be written in SQL, and the
lists, divisions and operators are ones that SQL has a meaning for. -/
structure Checked (q : Query) : Prop where
  names : ∀ s, (Node.query q).Has (.name s) → isIdentifier s = true
  floats : ∀ x, (Node.query q).Has (.float x) → x.isFinite = true
  percentiles : ∀ e, (Node.query q).Has (.aggregate e) →
    ∀ p ∈ e.percentile, ∃ v, p.value? = some v ∧ 0 ≤ v ∧ v ≤ 1
  texts : ∀ s, (Node.query q).Has (.text s) → Char.ofNat 0 ∉ s.toList
  divisors : ∀ n, (Node.query q).Has n → ∀ d ∈ n.divisors,
    d ≠ .int 0 ∧ ∀ negative, d ≠ .float (.zero negative)
  lists : ∀ n, (Node.query q).Has n → n.Filled
  operators : ∀ n, (Node.query q).Has n → n.OperatorFits

/-- What soundness gives, as facts about a query and its numbers. Each field
is soundness at one kind of node, wherever in the query the node occurs. -/
theorem checked_of_sound {q : Query} (h : (Node.query q).Sound) : q.Checked where
  names s hs := h _ hs
  floats x hx := h _ hx
  percentiles e he p hp := Double.inUnitInterval_iff.1 ((h _ he).argumentsFit.2.2.2 p hp)
  texts s hs := h _ hs
  divisors n hn d hd := by
    have hzero : ¬ d.isZero = true := by
      rw [(h n hn).divisor_ne_zero hd]
      decide
    rw [Number.isZero_iff, not_or, not_exists] at hzero
    exact hzero
  lists n hn := (h n hn).filled
  operators n hn := (h n hn).operatorFits

/-- A query is valid exactly when everything that occurs in it keeps its own
rule and each alias it is sorted by is an alias of its select list; and then
it is checked throughout. -/
theorem validation_reaches_every_node (q : Query) :
    (q.validate = .ok () ↔
      (∀ n, (Node.query q).Has n → n.Rule) ∧
        ∀ o ∈ q.orderBy, ∀ i ∈ o.items, ∀ name, i.key = .output name →
          name ∈ q.selectAliases) ∧
    (q.validate = .ok () → q.Checked) :=
  ⟨validate_iff_sound, fun h => checked_of_sound (validate_iff_sound.1 h).1⟩

end Query

end TypedSelect
