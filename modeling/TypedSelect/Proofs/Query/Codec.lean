/-
The codecs of constants, expressions and clauses are lawful.

A lawful codec reads back what it writes, in whatever place the value
stands, and what it writes is printable at some depth. The law is kept by
each way to build a codec, and each codec here is built from members or
from tagged variants. So a proof follows the definition of its codec: one
line for each member, in the order of the definition, and then two things
that the definition does not say.

# What is left to say

One is that the fields of the entity are the members and nothing else
(`hmake`), which is true by computation. The other is which members can
hold floating point numbers (`hkept`): a value whose numbers are all good
hands each member the numbers that are its own, and a member without
numbers asks for nothing. That the names of a record are different, and
the tag of a choice none of them, is decided on the spot.

# Depth

The depth counts the arrays and objects that the JSON of the entity nests
at most, `depth` being what is left around it. A record is one level more
than its deepest member, a list one more than its elements. The numbers in
the statements add up along the tree to `Query.jsonDepth`, which is far
below the limit of the reader.

# Constants

A constant is not built from members, since its kind is told by the kind
of its JSON. A whole number is read as one if it has 64 bits and as a
floating point number if not; what is written as a whole number has 64
bits. A right side that is a list is told from a single constant by being
an array.
-/
import TypedSelect.Proofs.Floats
import TypedSelect.Proofs.Json.Codec
import TypedSelect.Query.Codec.Clause

namespace TypedSelect

open Codec Members Variants

variable {good : Double → Prop} {depth : Nat}

-- ======================================================= vocabularies

instance : LawfulVocabulary Table where
  symbolNamed?_name a := by cases a <;> rfl

instance : LawfulVocabulary Column where
  symbolNamed?_name a := by cases a <;> rfl

instance : LawfulVocabulary ArithmeticOp where
  symbolNamed?_name a := by cases a <;> rfl

instance : LawfulVocabulary ComparisonOp where
  symbolNamed?_name a := by cases a <;> rfl

instance : LawfulVocabulary AggregateFunction where
  symbolNamed?_name a := by cases a <;> rfl

instance : LawfulVocabulary WindowFunction where
  symbolNamed?_name a := by cases a <;> rfl

instance : LawfulVocabulary JoinType where
  symbolNamed?_name a := by cases a <;> rfl

instance : LawfulVocabulary Logic where
  symbolNamed?_name a := by cases a <;> rfl

instance : LawfulVocabulary Direction where
  symbolNamed?_name a := by cases a <;> rfl

instance : LawfulVocabulary NullsOrder where
  symbolNamed?_name a := by cases a <;> rfl

-- ========================================================== constants

/-- A whole number of 64 bits is recognized as one. -/
theorem int64?_toInt (n : Int64) : int64? n.toInt = some n := by
  have hge : Int64.minValue.toInt ≤ n.toInt := Int64.minValue_le_toInt n
  have hle : n.toInt ≤ Int64.maxValue.toInt := Int64.toInt_le n
  unfold int64?
  rw [if_pos ⟨hge, hle⟩, Int64.ofInt_toInt]

/-- And it is in the range of numbers that JSON text keeps exactly. -/
theorem inRange_int64 (n : Int64) : Json.InRange n.toInt := by
  have hle : n.toInt ≤ Int64.maxValue.toInt := Int64.toInt_le n
  exact ⟨Int64.minValue_le_toInt n,
    hle.trans_lt (by decide : Int64.maxValue.toInt < (UInt64.size : Int))⟩

/-- A whole number is read as one if it has 64 bits, and as the nearest
floating point number if it has not. -/
theorem Number.decodeAt_int (place : Place) (i : Int) :
    Number.codec.decodeAt place (.int i) =
      some (((int64? i).map Number.int).getD (.float (.ofInt i))) := by
  unfold Number.codec
  dsimp only
  cases int64? i <;> rfl

/-- A number is read back as the kind it is written as. A whole number is one
in JSON too, and one of the other kind has a form of its own there. -/
theorem Number.lawful_codec : Number.codec.Lawful good (Number.AllFloats good) depth where
  reads place n := by
    cases n with
    | int n =>
        show Number.codec.decodeAt place (.int n.toInt) = some (Number.int n)
        rw [decodeAt_int, int64?_toInt]
        rfl
    | float x => rfl
  solid n h := by cases n <;> cases h
  prints n hn := by
    cases n with
    | int n => exact .int depth (inRange_int64 n)
    | float x => exact .float depth hn

/-- The four kinds of constants are four kinds of JSON, or two kinds of
numbers. -/
theorem Literal.lawful_codec : Literal.codec.Lawful good (Literal.AllFloats good) depth where
  reads place v := by
    cases v with
    | bool b => rfl
    | string s => rfl
    | int n =>
        have hnumber : Number.codec.Lawful good (Number.AllFloats good) depth :=
          Number.lawful_codec
        show (Number.codec.decodeAt place (Number.codec.encode (.int n))).map ofNumber = _
        rw [hnumber.reads]
        rfl
    | float x => rfl
  solid v h := by cases v <;> cases h
  prints v hv := by
    cases v with
    | bool b => exact .bool depth b
    | string s => exact .str depth s
    | int n => exact .int depth (inRange_int64 n)
    | float x => exact .float depth hv

/-- A constant is never taken for a list of constants. The two are not
tagged, and the reader tells them by whether a list stands there. -/
theorem Comparand.lawful_codec :
    Comparand.codec.Lawful good (Comparand.AllFloats good) (depth + 1) := by
  have hscalar : Literal.codec.Lawful good (Literal.AllFloats good) (depth + 1) :=
    Literal.lawful_codec
  have hlist : (Codec.list Literal.codec).Lawful good
      (fun values => ∀ v ∈ values, v.AllFloats good) (depth + 1) := Literal.lawful_codec.list
  refine ⟨?_, ?_, ?_⟩
  · intro place c
    cases c with
    | list values =>
        show ((Codec.list Literal.codec).decodeAt place
          ((Codec.list Literal.codec).encode values)).map Comparand.list = _
        rw [hlist.reads]
        rfl
    | scalar v =>
        have hread := hscalar.reads place v
        -- a constant is written as no list, so it is read as a constant
        cases v <;> exact congrArg (Option.map Comparand.scalar) hread
  · intro c
    cases c with
    | list values => exact hlist.solid values
    | scalar v => exact hscalar.solid v
  · intro c hc
    cases c with
    | list values => exact hlist.prints values hc
    | scalar v => exact hscalar.prints v hc

-- ================================================= columns and sorting

/-- The members of a column reference stand in three records, so they have a
law of their own. -/
theorem QualifiedColumn.lawful_members :
    QualifiedColumn.members.Lawful good (fun _ => True) depth := by
  apply Members.Lawful.iso
  case h =>
    apply (lawful_optional lawful_text "table_alias").and
    exact lawful_required lawful_symbol "column"
  case hmake => exact fun _ => rfl
  case hkept => exact fun _ _ => ⟨fun _ _ => trivial, trivial⟩

/-- As a record a column reference is one level. -/
theorem QualifiedColumn.lawful_codec :
    QualifiedColumn.codec.Lawful good (fun _ => True) (depth + 1) :=
  QualifiedColumn.lawful_members.record (by decide)

/-- An operand is a column or a number, by its tag. The tag is written as the
first member and is taken off before the rest is read. -/
theorem Operand.lawful_codec :
    Operand.codec.Lawful good (Operand.AllFloats good) (depth + 1) := by
  apply Variants.Lawful.tagged _ (by decide)
  apply Variants.Lawful.iso
  case h =>
    apply (lawful_one QualifiedColumn.lawful_members "column" (by decide)).or
    exact lawful_one (lawful_required Number.lawful_codec "value") "number" (by decide)
  case hmake =>
    intro o
    cases o <;> rfl
  case hkept =>
    intro o ho
    cases o with
    | column c => trivial
    | number n => exact ho

/-- A sort key is a column or a name, by its tag. There is no number in
either, so nothing is asked of the key. -/
theorem SortKey.lawful_codec : SortKey.codec.Lawful good (fun _ => True) (depth + 1) := by
  apply Variants.Lawful.tagged _ (by decide)
  apply Variants.Lawful.iso
  case h =>
    apply (lawful_one QualifiedColumn.lawful_members "column" (by decide)).or
    exact lawful_one (lawful_required lawful_text "name") "alias" (by decide)
  case hmake =>
    intro k
    cases k <;> rfl
  case hkept =>
    intro k _
    cases k <;> trivial

/-- A direction that is left out is the descending one. -/
theorem OrderItem.lawful_codec : OrderItem.codec.Lawful good (fun _ => True) (depth + 2) := by
  apply Members.Lawful.record _ (by decide)
  apply Members.Lawful.iso
  case h =>
    apply (lawful_required SortKey.lawful_codec "column").and
    apply (lawful_defaulted lawful_symbol "direction" Direction.desc).and
    exact lawful_optional lawful_symbol "nulls"
  case hmake => exact fun _ => rfl
  case hkept => exact fun _ _ => ⟨trivial, trivial, fun _ _ => trivial⟩

-- ========================================================= arithmetic

/-- The members of an operation, which stand in two kinds of records. -/
theorem Arithmetic.lawful_members :
    Arithmetic.members.Lawful good (Arithmetic.AllFloats good) (depth + 1) := by
  apply Members.Lawful.iso
  case h =>
    apply (lawful_required Operand.lawful_codec "left").and
    apply (lawful_required lawful_symbol "op").and
    exact lawful_required Operand.lawful_codec "right"
  case hmake => exact fun _ => rfl
  case hkept =>
    rintro _ ⟨hleft, hright⟩
    exact ⟨hleft, trivial, hright⟩

/-- Those of an operation and a name behind them. -/
theorem BinaryArithmetic.lawful_members :
    BinaryArithmetic.members.Lawful good (BinaryArithmetic.AllFloats good) (depth + 1) := by
  apply Members.Lawful.iso
  case h =>
    apply Arithmetic.lawful_members.and
    exact lawful_required lawful_text "alias"
  case hmake => exact fun _ => rfl
  case hkept => exact fun _ he => ⟨he, trivial⟩

/-- Six members, three of which can hold a number. The numbers of the whole
are those of the three. -/
theorem CompoundArithmetic.lawful_members :
    CompoundArithmetic.members.Lawful good (CompoundArithmetic.AllFloats good) (depth + 1) := by
  apply Members.Lawful.iso
  case h =>
    apply (lawful_required Operand.lawful_codec "inner_left").and
    apply (lawful_required lawful_symbol "inner_op").and
    apply (lawful_required Operand.lawful_codec "inner_right").and
    apply (lawful_required lawful_symbol "outer_op").and
    apply (lawful_required Operand.lawful_codec "outer").and
    exact lawful_required lawful_text "alias"
  case hmake => exact fun _ => rfl
  case hkept =>
    rintro _ ⟨⟨hleft, hright⟩, houter⟩
    exact ⟨hleft, trivial, hright, trivial, houter, trivial⟩

-- ========================================================= predicates

/-- A comparison holds its numbers on the right side. -/
theorem Comparison.lawful_members :
    Comparison.members.Lawful good (Comparison.AllFloats good) (depth + 1) := by
  apply Members.Lawful.iso
  case h =>
    apply (lawful_required QualifiedColumn.lawful_codec "column").and
    apply (lawful_required lawful_symbol "operator").and
    exact lawful_optional Comparand.lawful_codec "value"
  case hmake => exact fun _ => rfl
  case hkept => exact fun _ hp => ⟨trivial, trivial, hp⟩

/-- Two columns and an operator; there is nothing to keep. -/
theorem ColumnComparison.lawful_members :
    ColumnComparison.members.Lawful good (fun _ => True) (depth + 1) := by
  apply Members.Lawful.iso
  case h =>
    apply (lawful_required QualifiedColumn.lawful_codec "left").and
    apply (lawful_required lawful_symbol "operator").and
    exact lawful_required QualifiedColumn.lawful_codec "right"
  case hmake => exact fun _ => rfl
  case hkept => exact fun _ _ => ⟨trivial, trivial, trivial⟩

theorem Between.lawful_members :
    Between.members.Lawful good (Between.AllFloats good) (depth + 1) := by
  apply Members.Lawful.iso
  case h =>
    apply (lawful_required QualifiedColumn.lawful_codec "column").and
    apply (lawful_required Literal.lawful_codec "low").and
    exact lawful_required Literal.lawful_codec "high"
  case hmake => exact fun _ => rfl
  case hkept =>
    rintro _ ⟨hlow, hhigh⟩
    exact ⟨trivial, hlow, hhigh⟩

/-- As a record, which is how a filter holds its ranges. -/
theorem Between.lawful_codec :
    Between.codec.Lawful good (Between.AllFloats good) (depth + 2) :=
  Between.lawful_members.record (by decide)

/-- A test of one of three kinds. Where it stands among the tests of a group
its tag tells which. -/
theorem Condition.lawful_codec :
    Condition.codec.Lawful good (Condition.AllFloats good) (depth + 2) := by
  apply Variants.Lawful.tagged _ (by decide)
  apply Variants.Lawful.iso
  case h =>
    apply (lawful_one Comparison.lawful_members "simple" (by decide)).or
    apply (lawful_one ColumnComparison.lawful_members "column_comparison" (by decide)).or
    exact lawful_one Between.lawful_members "between" (by decide)
  case hmake =>
    intro c
    cases c <;> rfl
  case hkept =>
    intro c hc
    cases c with
    | simple p => exact hc
    -- comparing columns involves no numbers
    | columns p => trivial
    | between p => exact hc

/-- Its own object and the list of its tests are two levels above a test. -/
theorem ConditionGroup.lawful_codec :
    ConditionGroup.codec.Lawful good (ConditionGroup.AllFloats good) (depth + 4) := by
  apply Members.Lawful.record _ (by decide)
  apply Members.Lawful.iso
  case h =>
    apply (lawful_required Condition.lawful_codec.list "conditions").and
    exact lawful_defaulted lawful_symbol "logic" Logic.and
  case hmake => exact fun _ => rfl
  case hkept => exact fun _ hg => ⟨hg, trivial⟩

-- ======================================================== select list

theorem ColumnExpr.lawful_members : ColumnExpr.members.Lawful good (fun _ => True) depth := by
  apply Members.Lawful.iso
  case h =>
    apply (lawful_optional lawful_text "table_alias").and
    apply (lawful_required lawful_symbol "column").and
    exact lawful_optional lawful_text "alias"
  case hmake => exact fun _ => rfl
  case hkept => exact fun _ _ => ⟨fun _ _ => trivial, trivial, fun _ _ => trivial⟩

/-- An input is a column or an operation, by its tag. An operation has
operands with tags of their own, which is one more level. -/
theorem AggregateInput.lawful_codec :
    AggregateInput.codec.Lawful good (AggregateInput.AllFloats good) (depth + 2) := by
  apply Variants.Lawful.tagged _ (by decide)
  apply Variants.Lawful.iso
  case h =>
    apply (lawful_one QualifiedColumn.lawful_members "column" (by decide)).or
    exact lawful_one Arithmetic.lawful_members "arithmetic" (by decide)
  case hmake =>
    intro i
    cases i <;> rfl
  case hkept =>
    intro i hi
    cases i with
    | column c => trivial
    | arithmetic a => exact hi

/-- An aggregate holds the numbers of its input and a fraction. DISTINCT is
written only where it is set. -/
theorem AggregateExpr.lawful_members :
    AggregateExpr.members.Lawful good (AggregateExpr.AllFloats good) (depth + 2) := by
  apply Members.Lawful.iso
  case h =>
    apply (lawful_required lawful_symbol "function").and
    apply (lawful_optional AggregateInput.lawful_codec "input").and
    apply (lawful_marked "distinct").and
    apply (lawful_optional lawful_double "percentile").and
    exact lawful_required lawful_text "alias"
  case hmake => exact fun _ => rfl
  case hkept =>
    rintro _ ⟨hinput, hpercentile⟩
    exact ⟨trivial, hinput, trivial, hpercentile, trivial⟩

/-- Seven members. The offset is a whole number of 32 bits, so the only one
that can hold a floating point number is the default. -/
theorem WindowExpr.lawful_members :
    WindowExpr.members.Lawful good (WindowExpr.AllFloats good) (depth + 3) := by
  apply Members.Lawful.iso
  case h =>
    apply (lawful_required lawful_symbol "function").and
    apply (lawful_optional QualifiedColumn.lawful_codec "column").and
    apply (lawful_listed QualifiedColumn.lawful_codec "partition_by").and
    apply (lawful_listed OrderItem.lawful_codec "order_by").and
    apply (lawful_optional lawful_word32 "offset").and
    apply (lawful_optional Literal.lawful_codec "default").and
    exact lawful_required lawful_text "alias"
  case hmake => exact fun _ => rfl
  case hkept =>
    intro _ hdefault
    exact ⟨trivial, fun _ _ => trivial, fun _ _ => trivial, fun _ _ => trivial,
      fun _ _ => trivial, hdefault, trivial⟩

/-- A result is a column or a constant, by its tag. A constant may be a
floating point number, and that has to be one that is read back. -/
theorem CaseResult.lawful_codec :
    CaseResult.codec.Lawful good (CaseResult.AllFloats good) (depth + 1) := by
  apply Variants.Lawful.tagged _ (by decide)
  apply Variants.Lawful.iso
  case h =>
    apply (lawful_one QualifiedColumn.lawful_members "column" (by decide)).or
    exact lawful_one (lawful_required Literal.lawful_codec "value") "literal" (by decide)
  case hmake =>
    intro r
    cases r <;> rfl
  case hkept =>
    intro r hr
    cases r with
    | column c => trivial
    | literal v => exact hr

/-- The test of a branch is a comparison, as a record without a tag. -/
theorem CaseBranch.lawful_codec :
    CaseBranch.codec.Lawful good (CaseBranch.AllFloats good) (depth + 3) := by
  apply Members.Lawful.record _ (by decide)
  apply Members.Lawful.iso
  case h =>
    apply (lawful_required (Comparison.lawful_members.record (by decide)) "condition").and
    exact lawful_required CaseResult.lawful_codec "result"
  case hmake => exact fun _ => rfl
  case hkept => exact fun _ hb => hb

/-- The branches and what holds otherwise can hold numbers, the name cannot. -/
theorem CaseExpr.lawful_members :
    CaseExpr.members.Lawful good (CaseExpr.AllFloats good) (depth + 4) := by
  apply Members.Lawful.iso
  case h =>
    apply (lawful_required CaseBranch.lawful_codec.list "branches").and
    apply (lawful_optional CaseResult.lawful_codec "else_result").and
    exact lawful_required lawful_text "alias"
  case hmake => exact fun _ => rfl
  case hkept =>
    rintro _ ⟨hbranches, hotherwise⟩
    exact ⟨hbranches, hotherwise, trivial⟩

/-- An item of one of six kinds. The deepest is a CASE: its branches are a
list of records that hold a comparison with a list. -/
theorem SelectExpr.lawful_codec :
    SelectExpr.codec.Lawful good (SelectExpr.AllFloats good) (depth + 5) := by
  apply Variants.Lawful.tagged _ (by decide)
  apply Variants.Lawful.iso
  case h =>
    apply (lawful_one ColumnExpr.lawful_members "column" (by decide)).or
    apply (lawful_one BinaryArithmetic.lawful_members "binary_arithmetic" (by decide)).or
    apply (lawful_one CompoundArithmetic.lawful_members "compound_arithmetic" (by decide)).or
    apply (lawful_one AggregateExpr.lawful_members "aggregate" (by decide)).or
    apply (lawful_one WindowExpr.lawful_members "window" (by decide)).or
    exact lawful_one CaseExpr.lawful_members "case" (by decide)
  case hmake =>
    intro e
    cases e <;> rfl
  case hkept =>
    intro e he
    cases e with
    | column e => trivial
    | _ => exact he

-- ============================================================ filters

/-- A filter nests six levels: its object, the list of its groups, a group,
the list of its tests, a test, and a column or a list of constants. -/
theorem Filter.lawful_codec : Filter.codec.Lawful good (Filter.AllFloats good) (depth + 6) := by
  apply Members.Lawful.record _ (by decide)
  apply Members.Lawful.iso
  case h =>
    apply (lawful_listed ConditionGroup.lawful_codec "groups").and
    apply (lawful_listed Between.lawful_codec "between").and
    exact lawful_defaulted lawful_symbol "group_logic" Logic.and
  case hmake => exact fun _ => rfl
  case hkept =>
    rintro _ ⟨hgroups, hbetween⟩
    exact ⟨hgroups, hbetween, trivial⟩

theorem ScalarSubquery.lawful_codec :
    ScalarSubquery.codec.Lawful good (ScalarSubquery.AllFloats good) (depth + 7) := by
  apply Members.Lawful.record _ (by decide)
  apply Members.Lawful.iso
  case h =>
    apply (lawful_required lawful_symbol "table").and
    apply (lawful_optional lawful_text "table_alias").and
    apply (lawful_required (AggregateExpr.lawful_members.record (by decide)) "aggregate").and
    apply (lawful_optional Filter.lawful_codec "where").and
    exact lawful_listed lawful_symbol "group_by"
  case hmake => exact fun _ => rfl
  case hkept =>
    rintro _ ⟨haggregate, hfilter⟩
    exact ⟨trivial, fun _ _ => trivial, haggregate, hfilter, fun _ _ => trivial⟩

/-- And the test against it one level around that. -/
theorem SubqueryCondition.lawful_codec :
    SubqueryCondition.codec.Lawful good (SubqueryCondition.AllFloats good) (depth + 8) := by
  apply Members.Lawful.record _ (by decide)
  apply Members.Lawful.iso
  case h =>
    apply (lawful_required QualifiedColumn.lawful_codec "column").and
    apply (lawful_required lawful_symbol "operator").and
    exact lawful_required ScalarSubquery.lawful_codec "subquery"
  case hmake => exact fun _ => rfl
  case hkept => exact fun _ hp => ⟨trivial, trivial, hp⟩

/-- A filter with subqueries: its object and the list of subqueries are two
levels around a test against one. -/
theorem TopFilter.lawful_codec :
    TopFilter.codec.Lawful good (TopFilter.AllFloats good) (depth + 10) := by
  apply Members.Lawful.record _ (by decide)
  apply Members.Lawful.iso
  case h =>
    apply (lawful_listed ConditionGroup.lawful_codec "groups").and
    apply (lawful_listed Between.lawful_codec "between").and
    apply (lawful_listed SubqueryCondition.lawful_codec "subqueries").and
    exact lawful_defaulted lawful_symbol "group_logic" Logic.and
  case hmake => exact fun _ => rfl
  case hkept =>
    rintro _ ⟨⟨hgroups, hbetween⟩, hsubqueries⟩
    exact ⟨hgroups, hbetween, hsubqueries, trivial⟩

-- ============================================================ sources

/-- A derived table is around a list of items, which nest as deep as a
filter. -/
theorem DerivedTable.lawful_codec :
    DerivedTable.codec.Lawful good (DerivedTable.AllFloats good) (depth + 7) := by
  apply Members.Lawful.record _ (by decide)
  apply Members.Lawful.iso
  case h =>
    apply (lawful_required SelectExpr.lawful_codec.list "select").and
    apply (lawful_required lawful_symbol "from_table").and
    apply (lawful_required lawful_text "alias").and
    apply (lawful_optional Filter.lawful_codec "where").and
    exact lawful_listed lawful_symbol "group_by"
  case hmake => exact fun _ => rfl
  case hkept =>
    rintro _ ⟨hselect, hfilter⟩
    exact ⟨hselect, trivial, trivial, hfilter, fun _ _ => trivial⟩

/-- A join is made on a list of groups, as a filter has one. -/
theorem Join.lawful_codec : Join.codec.Lawful good (Join.AllFloats good) (depth + 6) := by
  apply Members.Lawful.record _ (by decide)
  apply Members.Lawful.iso
  case h =>
    apply (lawful_required lawful_symbol "join_type").and
    apply (lawful_required lawful_symbol "table").and
    apply (lawful_optional lawful_text "table_alias").and
    exact lawful_required ConditionGroup.lawful_codec.list "on_conditions"
  case hmake => exact fun _ => rfl
  case hkept => exact fun _ hj => ⟨trivial, trivial, fun _ _ => trivial, hj⟩

/-- The source of the rows, with its joins and a derived table. The depth is
that of the derived table, which has a select list of its own. -/
theorem FromClause.lawful_codec :
    FromClause.codec.Lawful good (FromClause.AllFloats good) (depth + 8) := by
  apply Members.Lawful.record _ (by decide)
  apply Members.Lawful.iso
  case h =>
    apply (lawful_optional lawful_symbol "table").and
    apply (lawful_optional lawful_text "table_alias").and
    apply (lawful_listed Join.lawful_codec "joins").and
    exact lawful_optional DerivedTable.lawful_codec "derived"
  case hmake => exact fun _ => rfl
  case hkept =>
    rintro _ ⟨hjoins, hderived⟩
    exact ⟨fun _ _ => trivial, fun _ _ => trivial, hjoins, hderived⟩

-- ====================================================== other clauses

theorem GroupBy.lawful_codec : GroupBy.codec.Lawful good (fun _ => True) (depth + 2) :=
  ((lawful_required lawful_symbol.list "columns").iso
    (fun _ => rfl) fun _ _ _ _ => trivial).record (by decide)

/-- The constant that a group of rows is compared with can be a number. -/
theorem HavingCondition.lawful_codec :
    HavingCondition.codec.Lawful good (HavingCondition.AllFloats good) (depth + 2) := by
  apply Members.Lawful.record _ (by decide)
  apply Members.Lawful.iso
  case h =>
    apply (lawful_required lawful_symbol "function").and
    apply (lawful_optional QualifiedColumn.lawful_codec "column").and
    apply (lawful_required lawful_symbol "operator").and
    exact lawful_required Literal.lawful_codec "value"
  case hmake => exact fun _ => rfl
  case hkept => exact fun _ hp => ⟨trivial, fun _ _ => trivial, trivial, hp⟩

theorem Having.lawful_codec : Having.codec.Lawful good (Having.AllFloats good) (depth + 4) := by
  apply Members.Lawful.record _ (by decide)
  apply Members.Lawful.iso
  case h =>
    apply (lawful_required HavingCondition.lawful_codec.list "conditions").and
    exact lawful_defaulted lawful_symbol "logic" Logic.and
  case hmake => exact fun _ => rfl
  case hkept => exact fun _ hh => ⟨hh, trivial⟩

/-- The keys of a sort, in a list; none of them holds a number. -/
theorem OrderBy.lawful_codec : OrderBy.codec.Lawful good (fun _ => True) (depth + 4) :=
  ((lawful_required OrderItem.lawful_codec.list "items").iso
    (fun _ => rfl) fun _ _ _ _ => trivial).record (by decide)

/-- Two whole numbers of 64 bits. An offset that is left out is zero. -/
theorem Limit.lawful_codec : Limit.codec.Lawful good (fun _ => True) (depth + 1) := by
  apply Members.Lawful.record _ (by decide)
  apply Members.Lawful.iso
  case h =>
    apply (lawful_required lawful_word64 "limit").and
    exact lawful_defaulted lawful_word64 "offset" 0
  case hmake => exact fun _ => rfl
  case hkept => exact fun _ _ => ⟨trivial, trivial⟩

-- ============================================================== query

/-- How deep the JSON of a query nests. Its deepest part is a filter inside
a subquery: the query, its WHERE, the list of the subqueries, a test
against one of them and the subquery itself are five levels, and a filter
has six, down to the columns and the lists of constants in its tests. -/
def Query.jsonDepth : Nat := 5 + 6

/-- The codec of queries is lawful. A query with good numbers only is printed
at any depth that leaves room for its own. -/
theorem Query.lawful_codec :
    Query.codec.Lawful good (Query.AllFloats good) (depth + Query.jsonDepth) := by
  apply Members.Lawful.record _ (by decide)
  apply Members.Lawful.iso
  case h =>
    apply (lawful_required SelectExpr.lawful_codec.list "select").and
    apply (lawful_required FromClause.lawful_codec "from").and
    apply (lawful_optional TopFilter.lawful_codec "where").and
    apply (lawful_optional GroupBy.lawful_codec "group_by").and
    apply (lawful_optional Having.lawful_codec "having").and
    apply (lawful_optional OrderBy.lawful_codec "order_by").and
    exact lawful_optional Limit.lawful_codec "limit"
  case hmake => exact fun _ => rfl
  case hkept =>
    rintro _ ⟨hselect, hsource, hfilter, hhaving⟩
    exact ⟨hselect, hsource, hfilter, fun _ _ => trivial, hhaving, fun _ _ => trivial,
      fun _ _ => trivial⟩

end TypedSelect
