/-
A query does not depend on how its text is presented.

A text can say the same thing in several ways: with the members of an
object in another order, with null in place of a member that may be left
out, with a default spelled out, with an array of values in place of an
object, and with any blanks between tokens. That a query is the same for
all of them is put together from two statements. What a text says does not
depend on its blanks, and a codec reads the same from JSON that is restated
by the rules of `Grammar.Restates`, one step or many.

# Steady codecs

A codec is steady if it reads the same from either of two restatements.
The property is kept by each way to build a codec, so that each codec here
is shown to be steady member by member, in the order of its definition,
like the proofs that it is lawful and that it follows its grammar. Only a
default needs a word: the value that stands for a missing member must be
what the member is read as from its default in the grammar.

Constants are presented in one way only; for them there is nothing to show
(`steady_plain`).

# Depth

The reader refuses JSON that nests too deep, and restating could make it
deeper, so one text could be refused where another is read. It does not
come to that: what was read as a query nests no deeper than the grammar of
queries does (`nested_of_decode`), which is far less than the reader
allows, and a restatement of it is read as a query as well.
-/
import Mathlib.Logic.Relation
import TypedSelect.Proofs.Json.Presentation
import TypedSelect.Proofs.Query.Grammar

namespace TypedSelect

open Codec Members Variants

-- ========================================================== constants

theorem Number.steady_codec : Number.codec.Steady .number := steady_plain fun _ _ h => by cases h

theorem Literal.steady_codec : Literal.codec.Steady Grammar.literal :=
  steady_plain fun _ _ h => by cases h

/-- And a list of constants: its elements keep their order. -/
theorem Comparand.steady_codec : Comparand.codec.Steady Grammar.comparand :=
  steady_plain fun _ _ h => by cases h

-- ================================================= columns and sorting

/-- A qualifier that is left out may be null. -/
theorem QualifiedColumn.steady_members :
    QualifiedColumn.members.Steady Grammar.qualifiedColumnFields := by
  refine Members.Steady.iso ?_ _ _
  refine (steady_optional steady_text "table_alias").and ?_
  exact steady_required steady_symbol "column"

theorem QualifiedColumn.steady_codec : QualifiedColumn.codec.Steady Grammar.qualifiedColumn :=
  QualifiedColumn.steady_members.record (by decide)

/-- The restatement of a choice leaves its tag alone and restates the record
under it. -/
theorem Operand.steady_codec : Operand.codec.Steady Grammar.operand := by
  refine Variants.Steady.tagged (Variants.Steady.iso ?_ _ _) (by decide) "kind"
  refine (steady_one QualifiedColumn.steady_members "column" (by decide)).or ?_
  exact steady_one (steady_required Number.steady_codec "value") "number" (by decide)

theorem SortKey.steady_codec : SortKey.codec.Steady Grammar.sortKey := by
  refine Variants.Steady.tagged (Variants.Steady.iso ?_ _ _) (by decide) "kind"
  refine (steady_one QualifiedColumn.steady_members "column" (by decide)).or ?_
  exact steady_one (steady_required steady_text "name") "alias" (by decide)

/-- A direction may be spelled out where it is the default. -/
theorem OrderItem.steady_codec : OrderItem.codec.Steady Grammar.orderItem := by
  refine Members.Steady.record (Members.Steady.iso ?_ _ _) (by decide)
  refine (steady_required SortKey.steady_codec "column").and ?_
  refine (steady_defaulted steady_symbol "direction" Direction.desc fun _ => rfl).and ?_
  exact steady_optional steady_symbol "nulls"

-- ========================================================= arithmetic

theorem Arithmetic.steady_members : Arithmetic.members.Steady Grammar.arithmeticFields := by
  refine Members.Steady.iso ?_ _ _
  refine (steady_required Operand.steady_codec "left").and ?_
  refine (steady_required steady_symbol "op").and ?_
  exact steady_required Operand.steady_codec "right"

theorem BinaryArithmetic.steady_members :
    BinaryArithmetic.members.Steady Grammar.binaryArithmeticFields := by
  refine Members.Steady.iso ?_ _ _
  refine Arithmetic.steady_members.and ?_
  exact steady_required steady_text "alias"

theorem CompoundArithmetic.steady_members :
    CompoundArithmetic.members.Steady Grammar.compoundArithmeticFields := by
  refine Members.Steady.iso ?_ _ _
  refine (steady_required Operand.steady_codec "inner_left").and ?_
  refine (steady_required steady_symbol "inner_op").and ?_
  refine (steady_required Operand.steady_codec "inner_right").and ?_
  refine (steady_required steady_symbol "outer_op").and ?_
  refine (steady_required Operand.steady_codec "outer").and ?_
  exact steady_required steady_text "alias"

-- ========================================================= predicates

/-- A right side that is left out may be null. -/
theorem Comparison.steady_members : Comparison.members.Steady Grammar.comparisonFields := by
  refine Members.Steady.iso ?_ _ _
  refine (steady_required QualifiedColumn.steady_codec "column").and ?_
  refine (steady_required steady_symbol "operator").and ?_
  exact steady_optional Comparand.steady_codec "value"

theorem ColumnComparison.steady_members :
    ColumnComparison.members.Steady Grammar.columnComparisonFields := by
  refine Members.Steady.iso ?_ _ _
  refine (steady_required QualifiedColumn.steady_codec "left").and ?_
  refine (steady_required steady_symbol "operator").and ?_
  exact steady_required QualifiedColumn.steady_codec "right"

/-- A column that may be presented in several ways, and two constants. -/
theorem Between.steady_members : Between.members.Steady Grammar.betweenFields := by
  refine Members.Steady.iso ?_ _ _
  refine (steady_required QualifiedColumn.steady_codec "column").and ?_
  refine (steady_required Literal.steady_codec "low").and ?_
  exact steady_required Literal.steady_codec "high"

theorem Between.steady_codec : Between.codec.Steady (.record Grammar.betweenFields) :=
  Between.steady_members.record (by decide)

theorem Condition.steady_codec : Condition.codec.Steady Grammar.condition := by
  refine Variants.Steady.tagged (Variants.Steady.iso ?_ _ _) (by decide) "type"
  refine (steady_one Comparison.steady_members "simple" (by decide)).or ?_
  refine (steady_one ColumnComparison.steady_members "column_comparison" (by decide)).or ?_
  exact steady_one Between.steady_members "between" (by decide)

/-- AND may be spelled out, and every test restated. -/
theorem ConditionGroup.steady_codec : ConditionGroup.codec.Steady Grammar.conditionGroup := by
  refine Members.Steady.record (Members.Steady.iso ?_ _ _) (by decide)
  refine (steady_required Condition.steady_codec.list "conditions").and ?_
  exact steady_defaulted steady_symbol "logic" Logic.and fun _ => rfl

-- ======================================================== select list

theorem ColumnExpr.steady_members : ColumnExpr.members.Steady Grammar.columnExprFields := by
  refine Members.Steady.iso ?_ _ _
  refine (steady_optional steady_text "table_alias").and ?_
  refine (steady_required steady_symbol "column").and ?_
  exact steady_optional steady_text "alias"

theorem AggregateInput.steady_codec : AggregateInput.codec.Steady Grammar.aggregateInput := by
  refine Variants.Steady.tagged (Variants.Steady.iso ?_ _ _) (by decide) "kind"
  refine (steady_one QualifiedColumn.steady_members "column" (by decide)).or ?_
  exact steady_one Arithmetic.steady_members "arithmetic" (by decide)

/-- A mark that is not set may be written as false. -/
theorem AggregateExpr.steady_members :
    AggregateExpr.members.Steady Grammar.aggregateExprFields := by
  refine Members.Steady.iso ?_ _ _
  refine (steady_required steady_symbol "function").and ?_
  refine (steady_optional AggregateInput.steady_codec "input").and ?_
  refine (steady_marked "distinct").and ?_
  refine (steady_optional steady_double "percentile").and ?_
  exact steady_required steady_text "alias"

/-- A list that is empty may be left out, and what is optional may be null. -/
theorem WindowExpr.steady_members : WindowExpr.members.Steady Grammar.windowExprFields := by
  refine Members.Steady.iso ?_ _ _
  refine (steady_required steady_symbol "function").and ?_
  refine (steady_optional QualifiedColumn.steady_codec "column").and ?_
  refine (steady_listed QualifiedColumn.steady_codec "partition_by").and ?_
  refine (steady_listed OrderItem.steady_codec "order_by").and ?_
  refine (steady_optional steady_word32 "offset").and ?_
  refine (steady_optional Literal.steady_codec "default").and ?_
  exact steady_required steady_text "alias"

theorem CaseResult.steady_codec : CaseResult.codec.Steady Grammar.caseResult := by
  refine Variants.Steady.tagged (Variants.Steady.iso ?_ _ _) (by decide) "kind"
  refine (steady_one QualifiedColumn.steady_members "column" (by decide)).or ?_
  exact steady_one (steady_required Literal.steady_codec "value") "literal" (by decide)

/-- A test and a result, each presented for itself. -/
theorem CaseBranch.steady_codec : CaseBranch.codec.Steady Grammar.caseBranch := by
  refine Members.Steady.record (Members.Steady.iso ?_ _ _) (by decide)
  refine (steady_required (Comparison.steady_members.record (by decide)) "condition").and ?_
  exact steady_required CaseResult.steady_codec "result"

theorem CaseExpr.steady_members : CaseExpr.members.Steady Grammar.caseExprFields := by
  refine Members.Steady.iso ?_ _ _
  refine (steady_required CaseBranch.steady_codec.list "branches").and ?_
  refine (steady_optional CaseResult.steady_codec "else_result").and ?_
  exact steady_required steady_text "alias"

theorem SelectExpr.steady_codec : SelectExpr.codec.Steady Grammar.selectExpr := by
  refine Variants.Steady.tagged (Variants.Steady.iso ?_ _ _) (by decide) "type"
  refine (steady_one ColumnExpr.steady_members "column" (by decide)).or ?_
  refine (steady_one BinaryArithmetic.steady_members "binary_arithmetic" (by decide)).or ?_
  refine (steady_one CompoundArithmetic.steady_members "compound_arithmetic" (by decide)).or ?_
  refine (steady_one AggregateExpr.steady_members "aggregate" (by decide)).or ?_
  refine (steady_one WindowExpr.steady_members "window" (by decide)).or ?_
  exact steady_one CaseExpr.steady_members "case" (by decide)

-- ============================================================ filters

/-- The lists of a filter may be left out where they are empty. -/
theorem Filter.steady_codec : Filter.codec.Steady Grammar.filter := by
  refine Members.Steady.record (Members.Steady.iso ?_ _ _) (by decide)
  refine (steady_listed ConditionGroup.steady_codec "groups").and ?_
  refine (steady_listed Between.steady_codec "between").and ?_
  exact steady_defaulted steady_symbol "group_logic" Logic.and fun _ => rfl

theorem ScalarSubquery.steady_codec : ScalarSubquery.codec.Steady Grammar.scalarSubquery := by
  refine Members.Steady.record (Members.Steady.iso ?_ _ _) (by decide)
  refine (steady_required steady_symbol "table").and ?_
  refine (steady_optional steady_text "table_alias").and ?_
  refine (steady_required (AggregateExpr.steady_members.record (by decide)) "aggregate").and ?_
  refine (steady_optional Filter.steady_codec "where").and ?_
  exact steady_listed steady_symbol "group_by"

/-- A column and a subquery, each presented for itself. -/
theorem SubqueryCondition.steady_codec :
    SubqueryCondition.codec.Steady Grammar.subqueryCondition := by
  refine Members.Steady.record (Members.Steady.iso ?_ _ _) (by decide)
  refine (steady_required QualifiedColumn.steady_codec "column").and ?_
  refine (steady_required steady_symbol "operator").and ?_
  exact steady_required ScalarSubquery.steady_codec "subquery"

theorem TopFilter.steady_codec : TopFilter.codec.Steady Grammar.topFilter := by
  refine Members.Steady.record (Members.Steady.iso ?_ _ _) (by decide)
  refine (steady_listed ConditionGroup.steady_codec "groups").and ?_
  refine (steady_listed Between.steady_codec "between").and ?_
  refine (steady_listed SubqueryCondition.steady_codec "subqueries").and ?_
  exact steady_defaulted steady_symbol "group_logic" Logic.and fun _ => rfl

-- ============================================================ sources

/-- A derived table, with its items and its filter. -/
theorem DerivedTable.steady_codec : DerivedTable.codec.Steady Grammar.derivedTable := by
  refine Members.Steady.record (Members.Steady.iso ?_ _ _) (by decide)
  refine (steady_required SelectExpr.steady_codec.list "select").and ?_
  refine (steady_required steady_symbol "from_table").and ?_
  refine (steady_required steady_text "alias").and ?_
  refine (steady_optional Filter.steady_codec "where").and ?_
  exact steady_listed steady_symbol "group_by"

/-- A join and the groups it is made on. -/
theorem Join.steady_codec : Join.codec.Steady Grammar.join := by
  refine Members.Steady.record (Members.Steady.iso ?_ _ _) (by decide)
  refine (steady_required steady_symbol "join_type").and ?_
  refine (steady_required steady_symbol "table").and ?_
  refine (steady_optional steady_text "table_alias").and ?_
  exact steady_required ConditionGroup.steady_codec.list "on_conditions"

/-- Each part of a source may be left out or null. -/
theorem FromClause.steady_codec : FromClause.codec.Steady Grammar.fromClause := by
  refine Members.Steady.record (Members.Steady.iso ?_ _ _) (by decide)
  refine (steady_optional steady_symbol "table").and ?_
  refine (steady_optional steady_text "table_alias").and ?_
  refine (steady_listed Join.steady_codec "joins").and ?_
  exact steady_optional DerivedTable.steady_codec "derived"

-- ====================================================== other clauses

/-- A list of symbols has one presentation, the record around it has several.
-/
theorem GroupBy.steady_codec : GroupBy.codec.Steady Grammar.groupBy :=
  ((steady_required steady_symbol.list "columns").iso _ _).record (by decide)

/-- A column that is left out may be null. -/
theorem HavingCondition.steady_codec : HavingCondition.codec.Steady Grammar.havingCondition := by
  refine Members.Steady.record (Members.Steady.iso ?_ _ _) (by decide)
  refine (steady_required steady_symbol "function").and ?_
  refine (steady_optional QualifiedColumn.steady_codec "column").and ?_
  refine (steady_required steady_symbol "operator").and ?_
  exact steady_required Literal.steady_codec "value"

theorem Having.steady_codec : Having.codec.Steady Grammar.having := by
  refine Members.Steady.record (Members.Steady.iso ?_ _ _) (by decide)
  refine (steady_required HavingCondition.steady_codec.list "conditions").and ?_
  exact steady_defaulted steady_symbol "logic" Logic.and fun _ => rfl

/-- The keys keep their order, and each may be restated. -/
theorem OrderBy.steady_codec : OrderBy.codec.Steady Grammar.orderBy :=
  ((steady_required OrderItem.steady_codec.list "items").iso _ _).record (by decide)

theorem Limit.steady_codec : Limit.codec.Steady Grammar.limit := by
  refine Members.Steady.record (Members.Steady.iso ?_ _ _) (by decide)
  refine (steady_required steady_word64 "limit").and ?_
  exact steady_defaulted steady_word64 "offset" 0 fun _ => rfl

-- ============================================================== query

/-- A query is read the same from either presentation. -/
theorem Query.steady_codec : Query.codec.Steady Grammar.query := by
  refine Members.Steady.record (Members.Steady.iso ?_ _ _) (by decide)
  refine (steady_required SelectExpr.steady_codec.list "select").and ?_
  refine (steady_required FromClause.steady_codec "from").and ?_
  refine (steady_optional TopFilter.steady_codec "where").and ?_
  refine (steady_optional GroupBy.steady_codec "group_by").and ?_
  refine (steady_optional Having.steady_codec "having").and ?_
  refine (steady_optional OrderBy.steady_codec "order_by").and ?_
  exact steady_optional Limit.steady_codec "limit"

namespace Query

open Json (Nested Numeral TextOf)

variable {reading : Numeral.Reading} {j j' : Json} {q : Query} {t t' : String}

/-- Any number of restatements, one after the other. Each is read as the
query that the one before it is read as. -/
theorem decode_of_restates (h : Relation.ReflTransGen Grammar.query.Restates j j')
    (hq : codec.decode j = some q) : codec.decode j' = some q := by
  induction h with
  | refl => exact hq
  | tail _ hstep ih => exact steady_codec hstep ih

/-- What is read as a query is no deeper than the reader allows, and so far
below its limit that the number of levels is settled by computation. -/
theorem nested_of_decode (hq : codec.decode j = some q) : Nested Json.nestingLimit j :=
  (follows_codec.rewrites hq).nested.mono (by decide)

/-- The second text presents what the first one says: apart from the blanks
and the spelling of scalars, there are only restatements between the two. -/
def Presents (reading : Numeral.Reading) (t t' : String) : Prop :=
  ∃ j j', TextOf reading j t ∧ Relation.ReflTransGen Grammar.query.Restates j j' ∧
    TextOf reading j' t'

-- ============================================================ a sample

/-- A query of one item with a limit, its members by name. -/
def limitedJson (item source limit : Json) : Json :=
  .obj [("select", .arr [item]), ("from", source), ("limit", limit)]

/-- Its three members are presented each for itself. -/
theorem restates_limitedJson {item item' source source' limit limit' : Json}
    (hitem : Grammar.selectExpr.Restates item item')
    (hsource : Grammar.fromClause.Restates source source')
    (hlimit : Grammar.limit.Restates limit limit') :
    Relation.ReflTransGen Grammar.query.Restates (limitedJson item source limit)
      (limitedJson item' source' limit') := by
  have hfirst : Grammar.query.Restates (limitedJson item source limit)
      (limitedJson item' source limit) := .value [] _ (.head _) (.item [] [] hitem)
  have hsecond : Grammar.query.Restates (limitedJson item' source limit)
      (limitedJson item' source' limit) := .value [_] _ (.tail _ (.head _)) hsource
  have hthird : Grammar.query.Restates (limitedJson item' source' limit)
      (limitedJson item' source' limit') :=
    .value [_, _] [] (List.mem_of_getElem? (i := 6) rfl) hlimit
  exact ((Relation.ReflTransGen.single hfirst).tail hsecond).tail hthird

/-- A query by name. -/
def named : String :=
  "\x7b\"select\":[\x7b\"type\":\"column\",\"column\":\"price\"\x7d]," ++
    "\"from\":\x7b\"table\":\"product_offers\"\x7d,\"limit\":\x7b\"limit\":5\x7d\x7d"

theorem parse_named : Json.parse? named = some (limitedJson
    (.obj [("type", .str "column"), ("column", .str "price")])
    (.obj [("table", .str "product_offers")]) (.obj [("limit", .int 5)])) := by
  rfl

/-- The same query by position, but for its source, with what the other
text leaves out. -/
def positional : String :=
  "[[[\"column\", null, \"price\", null]],\n" ++
    " \x7b\"joins\": [], \"table\": \"product_offers\"\x7d,\n" ++
    " null, null, null, null, [5, 0]]\n"

theorem parse_positional : Json.parse? positional = some (.arr [
    .arr [.arr [.str "column", .null, .str "price", .null]],
    .obj [("joins", .arr []), ("table", .str "product_offers")],
    .null, .null, .null, .null, .arr [.int 5, .int 0]]) := by
  rfl

theorem presents_named : Presents Numeral.toDouble? named positional := by
  obtain ⟨hnamed, -⟩ := Json.parseWith?_eq_some_iff.1 parse_named
  obtain ⟨hpositional, -⟩ := Json.parseWith?_eq_some_iff.1 parse_positional
  have hitem : Grammar.selectExpr.Restates
      (.obj [("type", .str "column"), ("column", .str "price")])
      (.arr [.str "column", .null, .str "price", .null]) := by
    have huntags : Untags "type" (.obj [("type", .str "column"), ("column", .str "price")])
        (.str "column") (.obj [("column", .str "price")]) :=
      @Untags.object _ [] _ _ (by decide)
    have hbody : (Grammar.record Grammar.columnExprFields).Restates
        (.obj [("column", .str "price")]) (.arr [.null, .str "price", .null]) :=
      .positions (.cons (.inr ⟨rfl, rfl⟩) (.cons (.inl rfl) (.cons (.inr ⟨rfl, rfl⟩) .nil)))
    exact .choice huntags .positions (.name (.head _)) (.head _) hbody
  have hsource : Grammar.fromClause.Restates (.obj [("table", .str "product_offers")])
      (.obj [("joins", .arr []), ("table", .str "product_offers")]) :=
    .add (.tail _ (.tail _ (.head _))) rfl (by decide)
  have hlimit : Grammar.limit.Restates (.obj [("limit", .int 5)]) (.arr [.int 5, .int 0]) :=
    .positions (.cons (.inl rfl) (.cons (.inr ⟨rfl, rfl⟩) .nil))
  refine ⟨_, _, hnamed, (restates_limitedJson hitem hsource hlimit).tail ?_, hpositional⟩
  exact .positions (.cons (.inl rfl) (.cons (.inl rfl) (.cons (.inr ⟨rfl, rfl⟩)
    (.cons (.inr ⟨rfl, rfl⟩) (.cons (.inr ⟨rfl, rfl⟩) (.cons (.inr ⟨rfl, rfl⟩)
      (.cons (.inl rfl) .nil)))))))

-- ======================================================== main results

/-- Whatever the reading of numbers, a text that is read as a query is a
presentation of itself, and every presentation of it is read as the query
and passes or fails the checks as the text does. -/
theorem presentations_read_alike (h : codec.readWith reading t = some q) :
    Presents reading t t ∧ ∀ t', Presents reading t t' →
      codec.readWith reading t' = some q ∧ ofJsonWith reading t' = ofJsonWith reading t := by
  obtain ⟨j, hj, hq⟩ := Option.bind_eq_some_iff.1 h
  obtain ⟨htext, -⟩ := Json.parseWith?_eq_some_iff.1 hj
  refine ⟨⟨j, j, htext, .refl, htext⟩, ?_⟩
  rintro t' ⟨j₁, j', htext₁, hsteps, htext'⟩
  obtain rfl := htext.unique htext₁
  have hq' := decode_of_restates hsteps hq
  have hread : codec.readWith reading t' = some q := by
    unfold Codec.readWith
    rw [Json.parseWith?_eq_some_iff.2 ⟨htext', nested_of_decode hq'⟩]
    exact hq'
  refine ⟨hread, ?_⟩
  unfold ofJsonWith
  rw [hread, h]

/-- The text by position is a presentation of the text by name. -/
theorem named_reads_alike :
    codec.read named = some ⟨[.column ⟨none, .price, none⟩], .ofTable .productOffers, none, none,
        none, none, some ⟨5, 0⟩⟩ ∧
      codec.read positional = codec.read named ∧ ofJson positional = ofJson named := by
  have hread : codec.read named = some ⟨[.column ⟨none, .price, none⟩], .ofTable .productOffers,
      none, none, none, none, some ⟨5, 0⟩⟩ := congrArg (·.bind codec.decode) parse_named
  obtain ⟨-, halike⟩ := presentations_read_alike hread
  obtain ⟨hpositional, hchecked⟩ := halike positional presents_named
  exact ⟨hread, hpositional.trans hread.symm, hchecked⟩

end Query

end TypedSelect
