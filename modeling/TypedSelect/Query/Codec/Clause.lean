/-
The JSON form of clauses and queries.

The records are read and written like those of the expressions. A
query's text is decoded whole: a text that is no JSON, or JSON of
another shape, is no query.
-/
import TypedSelect.Json.Reader
import TypedSelect.Json.Writer
import TypedSelect.Query.Basic
import TypedSelect.Query.Codec.Expression

namespace TypedSelect

open Members

-- ============================================================ filters

/-- A filter without subqueries. -/
def Filter.codec : Codec Filter :=
  (((listed "groups" ConditionGroup.codec).and
    ((listed "between" Between.codec).and
      (defaulted "group_logic" Codec.symbol Logic.and))).iso
    (fun (g, b, l) => ⟨g, b, l⟩)
    (fun w => (w.groups, w.between, w.logic))).record

/-- A subquery. -/
def ScalarSubquery.codec : Codec ScalarSubquery :=
  (((required "table" Codec.symbol).and
    ((optional "table_alias" Codec.text).and
      ((required "aggregate" AggregateExpr.members.record).and
        ((optional "where" Filter.codec).and
          (listed "group_by" Codec.symbol))))).iso
    (fun (t, n, a, w, g) => ⟨t, n, a, w, g⟩)
    (fun s => (s.table, s.aliasName, s.aggregate, s.filter, s.groupBy))).record

/-- A test against a subquery. -/
def SubqueryCondition.codec : Codec SubqueryCondition :=
  (((required "column" QualifiedColumn.codec).and
    ((required "operator" Codec.symbol).and
      (required "subquery" ScalarSubquery.codec))).iso
    (fun (c, o, s) => ⟨c, o, s⟩)
    (fun p => (p.column, p.op, p.subquery))).record

/-- A filter with subqueries. -/
def TopFilter.codec : Codec TopFilter :=
  (((listed "groups" ConditionGroup.codec).and
    ((listed "between" Between.codec).and
      ((listed "subqueries" SubqueryCondition.codec).and
        (defaulted "group_logic" Codec.symbol Logic.and)))).iso
    (fun (g, b, s, l) => ⟨⟨g, b, l⟩, s⟩)
    (fun w => (w.groups, w.between, w.subqueries, w.logic))).record

-- ============================================================ sources

/-- A derived table. -/
def DerivedTable.codec : Codec DerivedTable :=
  (((required "select" (Codec.list SelectExpr.codec)).and
    ((required "from_table" Codec.symbol).and
      ((required "alias" Codec.text).and
        ((optional "where" Filter.codec).and
          (listed "group_by" Codec.symbol))))).iso
    (fun (s, t, n, w, g) => ⟨s, t, n, w, g⟩)
    (fun d => (d.select, d.table, d.aliasName, d.filter, d.groupBy))).record

/-- A join. -/
def Join.codec : Codec Join :=
  (((required "join_type" Codec.symbol).and
    ((required "table" Codec.symbol).and
      ((optional "table_alias" Codec.text).and
        (required "on_conditions" (Codec.list ConditionGroup.codec))))).iso
    (fun (k, t, n, o) => ⟨k, t, n, o⟩)
    (fun j => (j.type, j.table, j.aliasName, j.on))).record

/-- A source of rows. -/
def FromClause.codec : Codec FromClause :=
  (((optional "table" Codec.symbol).and
    ((optional "table_alias" Codec.text).and
      ((listed "joins" Join.codec).and (optional "derived" DerivedTable.codec)))).iso
    (fun (t, n, j, d) => ⟨t, n, j, d⟩)
    (fun f => (f.table, f.aliasName, f.joins, f.derived))).record

-- ====================================================== other clauses

/-- The columns that make a group. -/
def GroupBy.codec : Codec GroupBy :=
  ((required "columns" (Codec.list Codec.symbol)).iso GroupBy.mk GroupBy.columns).record

/-- A test on a group. -/
def HavingCondition.codec : Codec HavingCondition :=
  (((required "function" Codec.symbol).and
    ((optional "column" QualifiedColumn.codec).and
      ((required "operator" Codec.symbol).and (required "value" Literal.codec)))).iso
    (fun (f, c, o, v) => ⟨f, c, o, v⟩)
    (fun p => (p.function, p.column, p.op, p.value))).record

/-- Tests on groups. -/
def Having.codec : Codec Having :=
  (((required "conditions" (Codec.list HavingCondition.codec)).and
    (defaulted "logic" Codec.symbol Logic.and)).iso
    (fun (c, l) => ⟨c, l⟩)
    (fun h => (h.conditions, h.logic))).record

/-- The keys of a sort. -/
def OrderBy.codec : Codec OrderBy :=
  ((required "items" (Codec.list OrderItem.codec)).iso OrderBy.mk OrderBy.items).record

/-- A limit on the rows. -/
def Limit.codec : Codec Limit :=
  (((required "limit" Codec.word64).and (defaulted "offset" Codec.word64 0)).iso
    (fun (n, m) => ⟨n, m⟩)
    (fun l => (l.limit, l.offset))).record

-- ============================================================== query

/-- A query. -/
def Query.codec : Codec Query :=
  (((required "select" (Codec.list SelectExpr.codec)).and
    ((required "from" FromClause.codec).and
      ((optional "where" TopFilter.codec).and
        ((optional "group_by" GroupBy.codec).and
          ((optional "having" Having.codec).and
            ((optional "order_by" OrderBy.codec).and
              (optional "limit" Limit.codec))))))).iso
    (fun (s, f, w, g, h, o, l) => ⟨s, f, w, g, h, o, l⟩)
    (fun q => (q.select, q.source, q.filter, q.groupBy, q.having, q.orderBy, q.limit))).record

namespace Codec

/-- The value a JSON text denotes under some reading of numbers. -/
def readWith {α : Type} (reading : Json.Numeral.Reading) (c : Codec α)
    (source : String) : Option α :=
  (Json.parseWith? reading source).bind c.decode

/-- The value a JSON text denotes. -/
def read {α : Type} (c : Codec α) (source : String) : Option α :=
  c.readWith Json.Numeral.toDouble? source

/-- The compact JSON text of a value. -/
def write {α : Type} (c : Codec α) (a : α) : String := (c.encode a).text

end Codec

/-- The compact JSON text of a query. -/
def Query.toJson (q : Query) : String := Query.codec.write q

/-- The indented JSON text of a query. -/
def Query.toPrettyJson (q : Query) : String := (Query.codec.encode q).prettyText

end TypedSelect
