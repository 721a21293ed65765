/-
The JSON schema of queries, one definition for each entity.

A definition says what the JSON form of an entity looks like: which
members it has, which of them must be there, and that it has no others.
Entities refer to each other by name. No entity contains itself, so every
definition has a form without references.
-/
import TypedSelect.Schema.Inline

namespace TypedSelect

namespace Schema

open Json (object strings)

-- ============================================================= pieces

/-- The dialect the schemas are written in. -/
def dialect : String := "https://json-schema.org/draft/2020-12/schema"

/-- The reference to an entity's definition. -/
def pointerTo (e : Entity) : String := DefinitionKey.pointer ⟨.defs, e.name⟩

/-- The schema that refers to an entity. -/
def ref (e : Entity) : Json := object [(referenceKey, .str (pointerTo e))]

/-- A schema that asks for a type and more. -/
def typed (type : String) (keywords : List (String × Json)) : Json :=
  object (("type", .str type) :: keywords)

/-- A list of an entity. -/
def arrayOf (e : Entity) : Json := typed "array" [("items", ref e)]

/-- A list of an entity with one element at least. -/
def nonEmptyArrayOf (e : Entity) : Json :=
  typed "array" [("items", ref e), ("minItems", .int 1)]

/-- A name: its shape and its length. -/
def identifier : Json :=
  typed "string" [("pattern", .str "^[A-Za-z_][A-Za-z0-9_]*$"), ("maxLength", .int 63)]

/-- A whole number that is not negative. -/
def count : Json := typed "integer" [("minimum", .int 0)]

/-- A fixed text. -/
def constant (value : String) : Json := object [("const", .str value)]

/-- Exactly one of some schemas. -/
def oneOf (options : List Json) : Json := object [("oneOf", .arr options)]

/-- The names of a vocabulary. -/
def symbols (α : Type) [Vocabulary α] : Json :=
  typed "string"
    [("enum", strings ((Vocabulary.all (α := α)).map Vocabulary.name))]

/-- The members of a record and the names of those that must be there. -/
structure Shape where
  properties : List (String × Json)
  required : List String

/-- A record with these members and no others. -/
def Shape.closed (s : Shape) : Json :=
  typed "object"
    [("properties", object s.properties), ("required", strings s.required),
      ("additionalProperties", .bool false)]

/-- The same record with a tag. -/
def Shape.tagged (s : Shape) (key value : String) : Json :=
  Shape.closed ⟨(key, constant value) :: s.properties, key :: s.required⟩

-- ============================================================ records

/-- The members of a column reference. -/
def qualifiedColumn : Shape :=
  ⟨[("table_alias", identifier), ("column", ref .column)], ["column"]⟩

/-- The members of a column item. -/
def columnExpr : Shape :=
  ⟨[("table_alias", identifier), ("column", ref .column), ("alias", identifier)],
    ["column"]⟩

/-- The members of arithmetic on two operands. -/
def arithmetic : Shape :=
  ⟨[("left", ref .operand), ("op", ref .arithmeticOp), ("right", ref .operand)],
    ["left", "op", "right"]⟩

/-- The members of arithmetic with a name. -/
def binaryArithmetic : Shape :=
  ⟨arithmetic.properties ++ [("alias", identifier)], arithmetic.required ++ ["alias"]⟩

/-- The members of arithmetic inside arithmetic. -/
def compoundArithmetic : Shape :=
  ⟨[("inner_left", ref .operand), ("inner_op", ref .arithmeticOp),
      ("inner_right", ref .operand), ("outer_op", ref .arithmeticOp),
      ("outer", ref .operand), ("alias", identifier)],
    ["inner_left", "inner_op", "inner_right", "outer_op", "outer", "alias"]⟩

/-- The members of an aggregate. -/
def aggregateExpr : Shape :=
  ⟨[("function", ref .aggregateFunction), ("input", ref .aggregateInput),
      ("distinct", typed "boolean" []),
      ("percentile", typed "number" [("minimum", .int 0), ("maximum", .int 1)]),
      ("alias", identifier)],
    ["function", "alias"]⟩

/-- The members of a window function. -/
def windowExpr : Shape :=
  ⟨[("function", ref .windowFunction), ("column", ref .qualifiedColumn),
      ("partition_by", arrayOf .qualifiedColumn), ("order_by", arrayOf .orderItem),
      ("offset", count), ("default", ref .literal), ("alias", identifier)],
    ["function", "alias"]⟩

/-- The members of a CASE. -/
def caseExpr : Shape :=
  ⟨[("branches", nonEmptyArrayOf .caseBranch), ("else_result", ref .caseResult),
      ("alias", identifier)],
    ["branches", "alias"]⟩

/-- The members of a test against constants. -/
def comparison : Shape :=
  ⟨[("column", ref .qualifiedColumn), ("operator", ref .comparisonOp),
      ("value", ref .comparand)],
    ["column", "operator"]⟩

/-- The members of a test between columns. -/
def columnComparison : Shape :=
  ⟨[("left", ref .qualifiedColumn), ("operator", ref .comparisonOp),
      ("right", ref .qualifiedColumn)],
    ["left", "operator", "right"]⟩

/-- The members of a test against a range. -/
def between : Shape :=
  ⟨[("column", ref .qualifiedColumn), ("low", ref .literal), ("high", ref .literal)],
    ["column", "low", "high"]⟩

/-- The members of a filter. -/
def filter : Shape :=
  ⟨[("groups", arrayOf .conditionGroup), ("between", arrayOf .between),
      ("group_logic", ref .logic)], []⟩

/-- The members of a filter with subqueries. -/
def topFilter : Shape :=
  ⟨filter.properties ++ [("subqueries", arrayOf .subqueryCondition)], []⟩

/-- A source of rows: a table or a derived table, and only a table may
have an alias beside it. -/
def fromClause : Json :=
  typed "object"
    [("properties", object
        [("table", ref .table), ("table_alias", identifier), ("joins", arrayOf .join),
          ("derived", ref .derivedTable)]),
      ("oneOf", .arr
        [object [("required", strings ["table"]),
            ("not", object [("required", strings ["derived"])])],
          object [("required", strings ["derived"]),
            ("not", object [("anyOf", .arr
              [object [("required", strings ["table"])],
                object [("required", strings ["table_alias"])]])])]]),
      ("additionalProperties", .bool false)]

-- ======================================================== definitions

/-- The schema of an entity, with references to the others. -/
def ofEntity : Entity → Json
  | .table => symbols Table
  | .column => symbols Column
  | .arithmeticOp => symbols ArithmeticOp
  | .comparisonOp => symbols ComparisonOp
  | .aggregateFunction => symbols AggregateFunction
  | .windowFunction => symbols WindowFunction
  | .joinType => symbols JoinType
  | .logic => symbols Logic
  | .direction => symbols Direction
  | .nullsOrder => symbols NullsOrder
  | .number => typed "number" []
  | .literal => object [("type", strings ["boolean", "number", "string"])]
  | .comparand => object [("anyOf", .arr [ref .literal, nonEmptyArrayOf .literal])]
  | .qualifiedColumn => qualifiedColumn.closed
  | .operand => oneOf
      [qualifiedColumn.tagged "kind" "column",
        Shape.tagged ⟨[("value", ref .number)], ["value"]⟩ "kind" "number"]
  | .sortKey => oneOf
      [qualifiedColumn.tagged "kind" "column",
        Shape.tagged ⟨[("name", identifier)], ["name"]⟩ "kind" "alias"]
  | .orderItem => Shape.closed
      ⟨[("column", ref .sortKey), ("direction", ref .direction),
        ("nulls", ref .nullsOrder)], ["column"]⟩
  | .columnExpr => columnExpr.closed
  | .binaryArithmetic => binaryArithmetic.closed
  | .compoundArithmetic => compoundArithmetic.closed
  | .arithmetic => arithmetic.closed
  | .aggregateInput => oneOf
      [qualifiedColumn.tagged "kind" "column", arithmetic.tagged "kind" "arithmetic"]
  | .aggregateExpr => aggregateExpr.closed
  | .windowExpr => windowExpr.closed
  | .caseResult => oneOf
      [qualifiedColumn.tagged "kind" "column",
        Shape.tagged ⟨[("value", ref .literal)], ["value"]⟩ "kind" "literal"]
  | .caseBranch => Shape.closed
      ⟨[("condition", ref .comparison), ("result", ref .caseResult)],
        ["condition", "result"]⟩
  | .caseExpr => caseExpr.closed
  | .selectExpr => oneOf
      [columnExpr.tagged "type" "column",
        binaryArithmetic.tagged "type" "binary_arithmetic",
        compoundArithmetic.tagged "type" "compound_arithmetic",
        aggregateExpr.tagged "type" "aggregate",
        windowExpr.tagged "type" "window",
        caseExpr.tagged "type" "case"]
  | .comparison => comparison.closed
  | .columnComparison => columnComparison.closed
  | .between => between.closed
  | .condition => oneOf
      [comparison.tagged "type" "simple",
        columnComparison.tagged "type" "column_comparison",
        between.tagged "type" "between"]
  | .conditionGroup => Shape.closed
      ⟨[("conditions", nonEmptyArrayOf .condition), ("logic", ref .logic)],
        ["conditions"]⟩
  | .filter => filter.closed
  | .scalarSubquery => Shape.closed
      ⟨[("table", ref .table), ("table_alias", identifier),
        ("aggregate", ref .aggregateExpr), ("where", ref .filter),
        ("group_by", arrayOf .column)], ["table", "aggregate"]⟩
  | .subqueryCondition => Shape.closed
      ⟨[("column", ref .qualifiedColumn), ("operator", ref .comparisonOp),
        ("subquery", ref .scalarSubquery)], ["column", "operator", "subquery"]⟩
  | .topFilter => topFilter.closed
  | .join => Shape.closed
      ⟨[("join_type", ref .joinType), ("table", ref .table),
        ("table_alias", identifier),
        ("on_conditions", nonEmptyArrayOf .conditionGroup)],
        ["join_type", "table", "on_conditions"]⟩
  | .derivedTable => Shape.closed
      ⟨[("select", nonEmptyArrayOf .selectExpr), ("from_table", ref .table),
        ("alias", identifier), ("where", ref .filter), ("group_by", arrayOf .column)],
        ["select", "from_table", "alias"]⟩
  | .fromClause => fromClause
  | .groupBy => Shape.closed ⟨[("columns", nonEmptyArrayOf .column)], ["columns"]⟩
  | .havingCondition => Shape.closed
      ⟨[("function", ref .aggregateFunction), ("column", ref .qualifiedColumn),
        ("operator", ref .comparisonOp), ("value", ref .literal)],
        ["function", "operator", "value"]⟩
  | .having => Shape.closed
      ⟨[("conditions", nonEmptyArrayOf .havingCondition), ("logic", ref .logic)],
        ["conditions"]⟩
  | .orderBy => Shape.closed ⟨[("items", nonEmptyArrayOf .orderItem)], ["items"]⟩
  | .limit => Shape.closed ⟨[("limit", count), ("offset", count)], ["limit"]⟩
  | .query => Shape.closed
      ⟨[("select", nonEmptyArrayOf .selectExpr), ("from", ref .fromClause),
        ("where", ref .topFilter), ("group_by", ref .groupBy),
        ("having", ref .having), ("order_by", ref .orderBy), ("limit", ref .limit)],
        ["select", "from"]⟩

/-- The definitions of all entities. -/
def definitions : Json :=
  object ((Vocabulary.all (α := Entity)).map fun e => (e.name, ofEntity e))

-- ========================================================== documents

/-- The schema of a query, with the definitions it refers to. -/
def query : Json :=
  object
    [("$schema", .str dialect), ("title", .str Entity.query.name),
      (referenceKey, .str (pointerTo .query)), (Section.defs.name, definitions)]

/-- The names of all entities, sorted. -/
def entityNames : List String :=
  match definitions with
  | .obj members => members.map Prod.fst
  | _ => []

/-- The schema of an entity without references, under its name. -/
def entity (name : String) : Except SchemaError Json :=
  match (Vocabulary.all (α := Entity)).find? fun e => e.name == name with
  | none => .error (.unknownDefinition name)
  | some e =>
    inline (object
      [("title", .str name), (referenceKey, .str (pointerTo e)),
        (Section.defs.name, definitions)])

end Schema

end TypedSelect
