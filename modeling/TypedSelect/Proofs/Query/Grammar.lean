/-
The grammar of queries, and that their codecs follow it.

A grammar says what JSON a codec takes and, for each member of a record,
what may be left out and what stands for it then. It is data, so that a
statement about every text that is read as a query can speak of it: which
members a text may have, what the JSON of a text is rewritten to, and where
a member too many is refused.

# The grammars

Each lists the members of its record in their order, as they are written.
The presence of a member is one of five: it is required, it is optional
and null says the same as nothing, it has a default, it is a list that is
left out where it is empty, or it is a mark that is left out where it is
not set. A choice has its tag and its cases. Where members are shared
between records, as those of a column reference, their list has a name.

# Following

A codec follows a grammar if what it reads is rewritten by the grammar to
what it writes, and if a member that is put into what it reads is one that
the grammar has room for. Both are kept by each way to build a codec, so
the proof of each codec lists its members in order, as the grammar does.
The two lists are matched by unification, so a member that is missing on
either side, or stands in another place, makes the proof fail.

# Constants

The codecs of constants tell kinds apart by the kind of the JSON and are
not built from members. For them the rewriting is shown case by case. The
only rewriting that does something is that of a whole number too large for
64 bits, which is read as a floating point number and written as one.
-/
import TypedSelect.Proofs.Json.Follows
import TypedSelect.Proofs.Query.RoundTrip

namespace TypedSelect

open Codec Members Variants

-- ============================================================ grammars

namespace Grammar

/-- A symbol of a vocabulary. -/
def symbolOf (α : Type) [Vocabulary α] : Grammar := .symbol (Vocabulary.names α)

/-- A truth value, a text or a number. -/
def literal : Grammar := .either .truth (.either .text .number)

/-- A list of constants, or one. -/
def comparand : Grammar := .either (.list literal) literal

def qualifiedColumnFields : List Field :=
  [("table_alias", .optional, .text), ("column", .required, symbolOf Column)]

def qualifiedColumn : Grammar := .record qualifiedColumnFields

def operand : Grammar :=
  .tagged "kind" [
    ("column", qualifiedColumnFields),
    ("number", [("value", .required, .number)])]

def sortKey : Grammar :=
  .tagged "kind" [
    ("column", qualifiedColumnFields),
    ("alias", [("name", .required, .text)])]

def orderItem : Grammar :=
  .record [
    ("column", .required, sortKey),
    ("direction", .defaulted (.str "DESC"), symbolOf Direction),
    ("nulls", .optional, symbolOf NullsOrder)]

def arithmeticFields : List Field :=
  [("left", .required, operand), ("op", .required, symbolOf ArithmeticOp),
    ("right", .required, operand)]

def binaryArithmeticFields : List Field := arithmeticFields ++ [("alias", .required, .text)]

def compoundArithmeticFields : List Field :=
  [("inner_left", .required, operand), ("inner_op", .required, symbolOf ArithmeticOp),
    ("inner_right", .required, operand), ("outer_op", .required, symbolOf ArithmeticOp),
    ("outer", .required, operand), ("alias", .required, .text)]

def comparisonFields : List Field :=
  [("column", .required, qualifiedColumn), ("operator", .required, symbolOf ComparisonOp),
    ("value", .optional, comparand)]

def columnComparisonFields : List Field :=
  [("left", .required, qualifiedColumn), ("operator", .required, symbolOf ComparisonOp),
    ("right", .required, qualifiedColumn)]

def betweenFields : List Field :=
  [("column", .required, qualifiedColumn), ("low", .required, literal),
    ("high", .required, literal)]

def condition : Grammar :=
  .tagged "type" [
    ("simple", comparisonFields),
    ("column_comparison", columnComparisonFields),
    ("between", betweenFields)]

/-- What joins tests: AND where nothing is said. -/
def connective (name : String) : Field := (name, .defaulted (.str "AND"), symbolOf Logic)

def conditionGroup : Grammar :=
  .record [("conditions", .required, .list condition), connective "logic"]

def columnExprFields : List Field :=
  [("table_alias", .optional, .text), ("column", .required, symbolOf Column),
    ("alias", .optional, .text)]

def aggregateInput : Grammar :=
  .tagged "kind" [("column", qualifiedColumnFields), ("arithmetic", arithmeticFields)]

def aggregateExprFields : List Field :=
  [("function", .required, symbolOf AggregateFunction), ("input", .optional, aggregateInput),
    ("distinct", .marked, .truth), ("percentile", .optional, .fraction),
    ("alias", .required, .text)]

def windowExprFields : List Field :=
  [("function", .required, symbolOf WindowFunction), ("column", .optional, qualifiedColumn),
    ("partition_by", .listed, .list qualifiedColumn), ("order_by", .listed, .list orderItem),
    ("offset", .optional, .whole), ("default", .optional, literal),
    ("alias", .required, .text)]

def caseResult : Grammar :=
  .tagged "kind" [
    ("column", qualifiedColumnFields),
    ("literal", [("value", .required, literal)])]

def caseBranch : Grammar :=
  .record [("condition", .required, .record comparisonFields), ("result", .required, caseResult)]

def caseExprFields : List Field :=
  [("branches", .required, .list caseBranch), ("else_result", .optional, caseResult),
    ("alias", .required, .text)]

def selectExpr : Grammar :=
  .tagged "type" [
    ("column", columnExprFields),
    ("binary_arithmetic", binaryArithmeticFields),
    ("compound_arithmetic", compoundArithmeticFields),
    ("aggregate", aggregateExprFields),
    ("window", windowExprFields),
    ("case", caseExprFields)]

def filter : Grammar :=
  .record [
    ("groups", .listed, .list conditionGroup),
    ("between", .listed, .list (.record betweenFields)),
    connective "group_logic"]

def scalarSubquery : Grammar :=
  .record [
    ("table", .required, symbolOf Table),
    ("table_alias", .optional, .text),
    ("aggregate", .required, .record aggregateExprFields),
    ("where", .optional, filter),
    ("group_by", .listed, .list (symbolOf Column))]

def subqueryCondition : Grammar :=
  .record [
    ("column", .required, qualifiedColumn),
    ("operator", .required, symbolOf ComparisonOp),
    ("subquery", .required, scalarSubquery)]

def topFilter : Grammar :=
  .record [
    ("groups", .listed, .list conditionGroup),
    ("between", .listed, .list (.record betweenFields)),
    ("subqueries", .listed, .list subqueryCondition),
    connective "group_logic"]

def derivedTable : Grammar :=
  .record [
    ("select", .required, .list selectExpr),
    ("from_table", .required, symbolOf Table),
    ("alias", .required, .text),
    ("where", .optional, filter),
    ("group_by", .listed, .list (symbolOf Column))]

def join : Grammar :=
  .record [
    ("join_type", .required, symbolOf JoinType),
    ("table", .required, symbolOf Table),
    ("table_alias", .optional, .text),
    ("on_conditions", .required, .list conditionGroup)]

def fromClause : Grammar :=
  .record [
    ("table", .optional, symbolOf Table),
    ("table_alias", .optional, .text),
    ("joins", .listed, .list join),
    ("derived", .optional, derivedTable)]

def groupBy : Grammar := .record [("columns", .required, .list (symbolOf Column))]

def havingCondition : Grammar :=
  .record [
    ("function", .required, symbolOf AggregateFunction),
    ("column", .optional, qualifiedColumn),
    ("operator", .required, symbolOf ComparisonOp),
    ("value", .required, literal)]

def having : Grammar :=
  .record [("conditions", .required, .list havingCondition), connective "logic"]

def orderBy : Grammar := .record [("items", .required, .list orderItem)]

def limit : Grammar :=
  .record [("limit", .required, .whole), ("offset", .defaulted (.int 0), .whole)]

/-- A query. -/
def query : Grammar :=
  .record [
    ("select", .required, .list selectExpr),
    ("from", .required, fromClause),
    ("where", .optional, topFilter),
    ("group_by", .optional, groupBy),
    ("having", .optional, having),
    ("order_by", .optional, orderBy),
    ("limit", .optional, limit)]

end Grammar

-- ========================================================== constants

/-- A whole number has 64 bits if it lies between the least and the greatest
of them. -/
theorem int64?_eq (i : Int) : int64? i =
    if Int64.minValue.toInt ≤ i ∧ i ≤ Int64.maxValue.toInt then some (.ofInt i) else none := rfl

/-- A number stays what it is, unless it is whole and too large: then it
becomes the floating point number that it is read as. There is nowhere in a
number to put a member. -/
theorem Number.follows_codec : Number.codec.Follows .number where
  rewrites {_ j n} h := by
    cases j with
    | int i =>
        rw [Number.decodeAt_int, int64?_eq] at h
        -- beyond 64 bits a whole number is read as a floating point number
        by_cases hi : Int64.minValue.toInt ≤ i ∧ i ≤ Int64.maxValue.toInt
        · rw [if_pos hi] at h
          cases h
          have hlow : -2 ^ 63 ≤ i := hi.1
          have hhigh : i < 2 ^ 63 := Int.lt_of_le_sub_one hi.2
          show Grammar.Rewrites true .number _ (.int i) (.int (Int64.ofInt i).toInt)
          rw [Int64.toInt_ofInt_of_le hlow hhigh]
          exact .int hi.1 hi.2
        · rw [if_neg hi] at h
          cases h
          exact .wideInt (by omega)
    | float x =>
        cases h
        exact .float _
    | _ => cases h
  fills {_ _ j _ _ _} h hins _ := by
    cases j with
    | int i => cases hins
    | float x => cases hins
    | _ => cases h

/-- What is read as a constant is a truth value, a text or a number, and the
constant is of that kind. -/
theorem Literal.decodeAt_eq_some {place : Place} {j : Json} {v : Literal}
    (h : Literal.codec.decodeAt place j = some v) :
    (∃ b, j = .bool b ∧ v = .bool b) ∨ (∃ s, j = .str s ∧ v = .string s) ∨
      ∃ n, Number.codec.decodeAt place j = some n ∧ v = ofNumber n := by
  cases j with
  | bool b =>
      cases h
      exact .inl ⟨b, rfl, rfl⟩
  | str s =>
      cases h
      exact .inr (.inl ⟨s, rfl, rfl⟩)
  | _ =>
      unfold Literal.codec at h
      dsimp only at h
      obtain ⟨n, hn, rfl⟩ := Option.map_eq_some_iff.1 h
      exact .inr (.inr ⟨n, hn, rfl⟩)

/-- A constant follows the grammar of its kind, and the kinds do not overlap.
A whole number that has too many bits is followed as a floating point number.
-/
theorem Literal.follows_codec : Literal.codec.Follows Grammar.literal where
  rewrites h := by
    rcases decodeAt_eq_some h with ⟨b, rfl, rfl⟩ | ⟨s, rfl, rfl⟩ | ⟨n, hn, rfl⟩
    · exact .first (.truth b)
    · exact .second (.first (.text s))
    · have hnumber := Number.follows_codec.rewrites hn
      cases n <;> exact .second (.second hnumber)
  fills h hins h' := by
    rcases decodeAt_eq_some h with ⟨b, rfl, rfl⟩ | ⟨s, rfl, rfl⟩ | ⟨n, hn, rfl⟩
    · cases hins
    · cases hins
    · rcases decodeAt_eq_some h' with ⟨b, rfl, rfl⟩ | ⟨s, rfl, rfl⟩ | ⟨n', hn', rfl⟩
      · cases hins
      · cases hins
      · exact .second (.second (Number.follows_codec.fills hn hins hn'))

/-- What is read as a right side is a list that is read as a list of
constants, or anything else that is read as one. -/
theorem Comparand.decodeAt_eq_some {place : Place} {j : Json} {c : Comparand}
    (h : Comparand.codec.decodeAt place j = some c) :
    (∃ values, (Codec.list Literal.codec).decodeAt place j = some values ∧ c = .list values) ∨
      ∃ v, Literal.codec.decodeAt place j = some v ∧ c = .scalar v := by
  cases j with
  | arr items =>
      have hlist : ((Codec.list Literal.codec).decodeAt place _).map Comparand.list = some c := h
      obtain ⟨values, hvalues, rfl⟩ := Option.map_eq_some_iff.1 hlist
      exact .inl ⟨values, hvalues, rfl⟩
  | _ =>
      unfold Comparand.codec at h
      dsimp only at h
      obtain ⟨v, hv, rfl⟩ := Option.map_eq_some_iff.1 h
      exact .inr ⟨v, hv, rfl⟩

/-- A list is read as a list of constants and anything else as one constant.
No tag is needed, since no constant is a list. -/
theorem Comparand.follows_codec : Comparand.codec.Follows Grammar.comparand where
  rewrites h := by
    rcases decodeAt_eq_some h with ⟨values, hvalues, rfl⟩ | ⟨v, hv, rfl⟩
    · exact .first (Literal.follows_codec.list.rewrites hvalues)
    · exact .second (Literal.follows_codec.rewrites hv)
  fills h hins h' := by
    rcases decodeAt_eq_some h with ⟨values, hvalues, rfl⟩ | ⟨v, hv, rfl⟩
    · rcases decodeAt_eq_some h' with ⟨values', hvalues', rfl⟩ | ⟨v', hv', rfl⟩
      · exact .first (Literal.follows_codec.list.fills hvalues hins hvalues')
      · cases hins <;> first | cases hvalues | cases hv'
    · rcases decodeAt_eq_some h' with ⟨values', hvalues', rfl⟩ | ⟨v', hv', rfl⟩
      · cases hins <;> first | cases hvalues' | cases hv
      · exact .second (Literal.follows_codec.fills hv hins hv')

-- ================================================= columns and sorting

theorem QualifiedColumn.follows_members :
    QualifiedColumn.members.Follows Grammar.qualifiedColumnFields := by
  refine Members.Follows.iso ?_ fun _ => rfl
  refine (follows_optional follows_text "table_alias").and ?_
  exact follows_required follows_symbol "column"

theorem QualifiedColumn.follows_codec : QualifiedColumn.codec.Follows Grammar.qualifiedColumn :=
  QualifiedColumn.follows_members.record (by decide)

theorem Operand.follows_codec : Operand.codec.Follows Grammar.operand := by
  refine Variants.Follows.tagged (Variants.Follows.iso ?cases ?view) "kind"
  case cases =>
    refine (follows_one QualifiedColumn.follows_members "column" (by decide)).or ?_
    exact follows_one (follows_required Number.follows_codec "value") "number" (by decide)
  case view =>
    intro o
    rcases o with _ | _ <;> rfl

theorem SortKey.follows_codec : SortKey.codec.Follows Grammar.sortKey := by
  refine Variants.Follows.tagged (Variants.Follows.iso ?cases ?view) "kind"
  case cases =>
    refine (follows_one QualifiedColumn.follows_members "column" (by decide)).or ?_
    exact follows_one (follows_required follows_text "name") "alias" (by decide)
  case view =>
    intro k
    rcases k with _ | _ <;> rfl

/-- A direction and a place for nulls may be left out. -/
theorem OrderItem.follows_codec : OrderItem.codec.Follows Grammar.orderItem := by
  refine Members.Follows.record (Members.Follows.iso ?_ fun _ => rfl) (by decide)
  refine (follows_required SortKey.follows_codec "column").and ?_
  refine (follows_defaulted follows_symbol "direction" Direction.desc).and ?_
  exact follows_optional follows_symbol "nulls"

-- ========================================================= arithmetic

theorem Arithmetic.follows_members : Arithmetic.members.Follows Grammar.arithmeticFields := by
  refine Members.Follows.iso ?_ fun _ => rfl
  refine (follows_required Operand.follows_codec "left").and ?_
  refine (follows_required follows_symbol "op").and ?_
  exact follows_required Operand.follows_codec "right"

theorem BinaryArithmetic.follows_members :
    BinaryArithmetic.members.Follows Grammar.binaryArithmeticFields := by
  refine Members.Follows.iso ?_ fun _ => rfl
  refine Arithmetic.follows_members.and ?_
  exact follows_required follows_text "alias"

theorem CompoundArithmetic.follows_members :
    CompoundArithmetic.members.Follows Grammar.compoundArithmeticFields := by
  refine Members.Follows.iso ?_ fun _ => rfl
  refine (follows_required Operand.follows_codec "inner_left").and ?_
  refine (follows_required follows_symbol "inner_op").and ?_
  refine (follows_required Operand.follows_codec "inner_right").and ?_
  refine (follows_required follows_symbol "outer_op").and ?_
  refine (follows_required Operand.follows_codec "outer").and ?_
  exact follows_required follows_text "alias"

-- ========================================================= predicates

/-- The right side may be left out, for the operators that take none. -/
theorem Comparison.follows_members : Comparison.members.Follows Grammar.comparisonFields := by
  refine Members.Follows.iso ?_ fun _ => rfl
  refine (follows_required QualifiedColumn.follows_codec "column").and ?_
  refine (follows_required follows_symbol "operator").and ?_
  exact follows_optional Comparand.follows_codec "value"

theorem ColumnComparison.follows_members :
    ColumnComparison.members.Follows Grammar.columnComparisonFields := by
  refine Members.Follows.iso ?_ fun _ => rfl
  refine (follows_required QualifiedColumn.follows_codec "left").and ?_
  refine (follows_required follows_symbol "operator").and ?_
  exact follows_required QualifiedColumn.follows_codec "right"

theorem Between.follows_members : Between.members.Follows Grammar.betweenFields := by
  refine Members.Follows.iso ?_ fun _ => rfl
  refine (follows_required QualifiedColumn.follows_codec "column").and ?_
  refine (follows_required Literal.follows_codec "low").and ?_
  exact follows_required Literal.follows_codec "high"

theorem Between.follows_codec : Between.codec.Follows (.record Grammar.betweenFields) :=
  Between.follows_members.record (by decide)

/-- A test by its tag, which is one of three. -/
theorem Condition.follows_codec : Condition.codec.Follows Grammar.condition := by
  refine Variants.Follows.tagged (Variants.Follows.iso ?cases ?view) "type"
  case cases =>
    refine (follows_one Comparison.follows_members "simple" (by decide)).or ?_
    refine (follows_one ColumnComparison.follows_members "column_comparison" (by decide)).or ?_
    exact follows_one Between.follows_members "between" (by decide)
  case view =>
    intro c
    rcases c with _ | _ | _ <;> rfl

theorem ConditionGroup.follows_codec : ConditionGroup.codec.Follows Grammar.conditionGroup := by
  refine Members.Follows.record (Members.Follows.iso ?_ fun _ => rfl) (by decide)
  refine (follows_required Condition.follows_codec.list "conditions").and ?_
  exact follows_defaulted follows_symbol "logic" Logic.and

-- ======================================================== select list

/-- The qualifier and the name of a column may be left out. -/
theorem ColumnExpr.follows_members : ColumnExpr.members.Follows Grammar.columnExprFields := by
  refine Members.Follows.iso ?_ fun _ => rfl
  refine (follows_optional follows_text "table_alias").and ?_
  refine (follows_required follows_symbol "column").and ?_
  exact follows_optional follows_text "alias"

theorem AggregateInput.follows_codec : AggregateInput.codec.Follows Grammar.aggregateInput := by
  refine Variants.Follows.tagged (Variants.Follows.iso ?cases ?view) "kind"
  case cases =>
    refine (follows_one QualifiedColumn.follows_members "column" (by decide)).or ?_
    exact follows_one Arithmetic.follows_members "arithmetic" (by decide)
  case view =>
    intro i
    rcases i with _ | _ <;> rfl

/-- An aggregate may have an input, a mark and a fraction. -/
theorem AggregateExpr.follows_members :
    AggregateExpr.members.Follows Grammar.aggregateExprFields := by
  refine Members.Follows.iso ?_ fun _ => rfl
  refine (follows_required follows_symbol "function").and ?_
  refine (follows_optional AggregateInput.follows_codec "input").and ?_
  refine (follows_marked "distinct").and ?_
  refine (follows_optional follows_double "percentile").and ?_
  exact follows_required follows_text "alias"

/-- Only the function and the name of a window are required. -/
theorem WindowExpr.follows_members : WindowExpr.members.Follows Grammar.windowExprFields := by
  refine Members.Follows.iso ?_ fun _ => rfl
  refine (follows_required follows_symbol "function").and ?_
  refine (follows_optional QualifiedColumn.follows_codec "column").and ?_
  refine (follows_listed QualifiedColumn.follows_codec "partition_by").and ?_
  refine (follows_listed OrderItem.follows_codec "order_by").and ?_
  refine (follows_optional follows_word32 "offset").and ?_
  refine (follows_optional Literal.follows_codec "default").and ?_
  exact follows_required follows_text "alias"

theorem CaseResult.follows_codec : CaseResult.codec.Follows Grammar.caseResult := by
  refine Variants.Follows.tagged (Variants.Follows.iso ?cases ?view) "kind"
  case cases =>
    refine (follows_one QualifiedColumn.follows_members "column" (by decide)).or ?_
    exact follows_one (follows_required Literal.follows_codec "value") "literal" (by decide)
  case view =>
    intro r
    rcases r with _ | _ <;> rfl

/-- A branch holds its test as a record without a tag. -/
theorem CaseBranch.follows_codec : CaseBranch.codec.Follows Grammar.caseBranch := by
  refine Members.Follows.record (Members.Follows.iso ?_ fun _ => rfl) (by decide)
  refine (follows_required (Comparison.follows_members.record (by decide)) "condition").and ?_
  exact follows_required CaseResult.follows_codec "result"

/-- What holds otherwise may be left out, the branches may not. -/
theorem CaseExpr.follows_members : CaseExpr.members.Follows Grammar.caseExprFields := by
  refine Members.Follows.iso ?_ fun _ => rfl
  refine (follows_required CaseBranch.follows_codec.list "branches").and ?_
  refine (follows_optional CaseResult.follows_codec "else_result").and ?_
  exact follows_required follows_text "alias"

/-- An item by its tag, which is one of six. The tag may be given by its
position where tags of that kind are admitted. -/
theorem SelectExpr.follows_codec : SelectExpr.codec.Follows Grammar.selectExpr := by
  refine Variants.Follows.tagged (Variants.Follows.iso ?cases ?view) "type"
  case cases =>
    refine (follows_one ColumnExpr.follows_members "column" (by decide)).or ?_
    refine (follows_one BinaryArithmetic.follows_members "binary_arithmetic" (by decide)).or ?_
    refine (follows_one CompoundArithmetic.follows_members "compound_arithmetic" (by decide)).or ?_
    refine (follows_one AggregateExpr.follows_members "aggregate" (by decide)).or ?_
    refine (follows_one WindowExpr.follows_members "window" (by decide)).or ?_
    exact follows_one CaseExpr.follows_members "case" (by decide)
  case view =>
    intro e
    rcases e with _ | _ | _ | _ | _ | _ <;> rfl

-- ============================================================ filters

/-- Everything in a filter may be left out as far as its JSON goes. That it
tests something is for the check to ask. -/
theorem Filter.follows_codec : Filter.codec.Follows Grammar.filter := by
  refine Members.Follows.record (Members.Follows.iso ?_ fun _ => rfl) (by decide)
  refine (follows_listed ConditionGroup.follows_codec "groups").and ?_
  refine (follows_listed Between.follows_codec "between").and ?_
  exact follows_defaulted follows_symbol "group_logic" Logic.and

/-- A subquery may have a name, a filter and a grouping. -/
theorem ScalarSubquery.follows_codec : ScalarSubquery.codec.Follows Grammar.scalarSubquery := by
  refine Members.Follows.record (Members.Follows.iso ?_ fun _ => rfl) (by decide)
  refine (follows_required follows_symbol "table").and ?_
  refine (follows_optional follows_text "table_alias").and ?_
  refine (follows_required (AggregateExpr.follows_members.record (by decide)) "aggregate").and ?_
  refine (follows_optional Filter.follows_codec "where").and ?_
  exact follows_listed follows_symbol "group_by"

/-- All members of a test against a subquery are required. -/
theorem SubqueryCondition.follows_codec :
    SubqueryCondition.codec.Follows Grammar.subqueryCondition := by
  refine Members.Follows.record (Members.Follows.iso ?_ fun _ => rfl) (by decide)
  refine (follows_required QualifiedColumn.follows_codec "column").and ?_
  refine (follows_required follows_symbol "operator").and ?_
  exact follows_required ScalarSubquery.follows_codec "subquery"

/-- A filter with a list of subqueries before the connective. -/
theorem TopFilter.follows_codec : TopFilter.codec.Follows Grammar.topFilter := by
  refine Members.Follows.record (Members.Follows.iso ?_ fun _ => rfl) (by decide)
  refine (follows_listed ConditionGroup.follows_codec "groups").and ?_
  refine (follows_listed Between.follows_codec "between").and ?_
  refine (follows_listed SubqueryCondition.follows_codec "subqueries").and ?_
  exact follows_defaulted follows_symbol "group_logic" Logic.and

-- ============================================================ sources

/-- A derived table may have a filter and a grouping. -/
theorem DerivedTable.follows_codec : DerivedTable.codec.Follows Grammar.derivedTable := by
  refine Members.Follows.record (Members.Follows.iso ?_ fun _ => rfl) (by decide)
  refine (follows_required SelectExpr.follows_codec.list "select").and ?_
  refine (follows_required follows_symbol "from_table").and ?_
  refine (follows_required follows_text "alias").and ?_
  refine (follows_optional Filter.follows_codec "where").and ?_
  exact follows_listed follows_symbol "group_by"

/-- A join may have a name for its table. -/
theorem Join.follows_codec : Join.codec.Follows Grammar.join := by
  refine Members.Follows.record (Members.Follows.iso ?_ fun _ => rfl) (by decide)
  refine (follows_required follows_symbol "join_type").and ?_
  refine (follows_required follows_symbol "table").and ?_
  refine (follows_optional follows_text "table_alias").and ?_
  exact follows_required ConditionGroup.follows_codec.list "on_conditions"

/-- Table and derived table may both be left out as far as the JSON goes. -/
theorem FromClause.follows_codec : FromClause.codec.Follows Grammar.fromClause := by
  refine Members.Follows.record (Members.Follows.iso ?_ fun _ => rfl) (by decide)
  refine (follows_optional follows_symbol "table").and ?_
  refine (follows_optional follows_text "table_alias").and ?_
  refine (follows_listed Join.follows_codec "joins").and ?_
  exact follows_optional DerivedTable.follows_codec "derived"

-- ====================================================== other clauses

theorem GroupBy.follows_codec : GroupBy.codec.Follows Grammar.groupBy :=
  ((follows_required follows_symbol.list "columns").iso fun _ => rfl).record (by decide)

/-- A test on a group of rows may have a column. -/
theorem HavingCondition.follows_codec : HavingCondition.codec.Follows Grammar.havingCondition := by
  refine Members.Follows.record (Members.Follows.iso ?_ fun _ => rfl) (by decide)
  refine (follows_required follows_symbol "function").and ?_
  refine (follows_optional QualifiedColumn.follows_codec "column").and ?_
  refine (follows_required follows_symbol "operator").and ?_
  exact follows_required Literal.follows_codec "value"

/-- A connective that is left out is AND here too. -/
theorem Having.follows_codec : Having.codec.Follows Grammar.having := by
  refine Members.Follows.record (Members.Follows.iso ?_ fun _ => rfl) (by decide)
  refine (follows_required HavingCondition.follows_codec.list "conditions").and ?_
  exact follows_defaulted follows_symbol "logic" Logic.and

theorem OrderBy.follows_codec : OrderBy.codec.Follows Grammar.orderBy :=
  ((follows_required OrderItem.follows_codec.list "items").iso fun _ => rfl).record (by decide)

theorem Limit.follows_codec : Limit.codec.Follows Grammar.limit := by
  refine Members.Follows.record (Members.Follows.iso ?_ fun _ => rfl) (by decide)
  refine (follows_required follows_word64 "limit").and ?_
  exact follows_defaulted follows_word64 "offset" 0

-- ============================================================== query

/-- The codec of queries follows the grammar of queries. -/
theorem Query.follows_codec : Query.codec.Follows Grammar.query := by
  refine Members.Follows.record (Members.Follows.iso ?_ fun _ => rfl) (by decide)
  refine (follows_required SelectExpr.follows_codec.list "select").and ?_
  refine (follows_required FromClause.follows_codec "from").and ?_
  refine (follows_optional TopFilter.follows_codec "where").and ?_
  refine (follows_optional GroupBy.follows_codec "group_by").and ?_
  refine (follows_optional Having.follows_codec "having").and ?_
  refine (follows_optional OrderBy.follows_codec "order_by").and ?_
  exact follows_optional Limit.follows_codec "limit"

end TypedSelect
