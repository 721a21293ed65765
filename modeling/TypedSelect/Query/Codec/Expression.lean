/-
The JSON form of constants and expressions.

Each codec lists the members of its record in the order in which they
are written, and which is also their order in the list form. The
choices carry their tag in the member `kind` or `type`.
-/
import TypedSelect.Json.Codec
import TypedSelect.Query.Expression

namespace TypedSelect

open Members Variants

-- ========================================================== constants

/-- The whole number of 64 bits with this value, if it has one. -/
def int64? (i : Int) : Option Int64 :=
  if Int64.minValue.toInt ≤ i ∧ i ≤ Int64.maxValue.toInt then some (.ofInt i) else none

/-- A number; whole ones that do not fit 64 bits are floating point. -/
def Number.codec : Codec Number where
  decodeAt
    | _, .int i =>
      match int64? i with
      | some n => some (.int n)
      | none => some (.float (.ofInt i))
    | _, .float x => some (.float x)
    | _, _ => none
  encode
    | .int n => .int n.toInt
    | .float x => .float x

/-- A truth value, a text or a number. -/
def Literal.codec : Codec Literal where
  decodeAt
    | _, .bool b => some (.bool b)
    | _, .str s => some (.string s)
    | place, j => (Number.codec.decodeAt place j).map Literal.ofNumber
  encode
    | .bool b => .bool b
    | .string s => .str s
    | .int n => .int n.toInt
    | .float x => .float x

/-- A list of constants, or one. -/
def Comparand.codec : Codec Comparand where
  decodeAt
    | place, .arr items => ((Codec.list Literal.codec).decodeAt place (.arr items)).map .list
    | place, j => (Literal.codec.decodeAt place j).map .scalar
  encode
    | .list values => (Codec.list Literal.codec).encode values
    | .scalar value => Literal.codec.encode value

-- ================================================= columns and sorting

/-- The members of a column reference. -/
def QualifiedColumn.members : Members QualifiedColumn :=
  ((optional "table_alias" Codec.text).and (required "column" Codec.symbol)).iso
    (fun (q, c) => ⟨q, c⟩) (fun r => (r.qualifier, r.column))

/-- A column reference. -/
def QualifiedColumn.codec : Codec QualifiedColumn := QualifiedColumn.members.record

/-- An operand: the kind `column` or `number`. -/
def Operand.codec : Codec Operand :=
  tagged "kind" <|
    ((one "column" QualifiedColumn.members).or
      (one "number" (required "value" Number.codec))).iso
    (fun
      | .inl c => .column c
      | .inr n => .number n)
    (fun
      | .column c => .inl c
      | .number n => .inr n)

/-- A sort key: the kind `column` or `alias`. -/
def SortKey.codec : Codec SortKey :=
  tagged "kind" <|
    ((one "column" QualifiedColumn.members).or
      (one "alias" (required "name" Codec.text))).iso
    (fun
      | .inl c => .column c
      | .inr name => .output name)
    (fun
      | .column c => .inl c
      | .output name => .inr name)

/-- One key of a sort; it descends unless it says otherwise. -/
def OrderItem.codec : Codec OrderItem :=
  (((required "column" SortKey.codec).and
    ((defaulted "direction" Codec.symbol Direction.desc).and
      (optional "nulls" Codec.symbol))).iso
    (fun (k, d, n) => ⟨k, d, n⟩)
    (fun i => (i.key, i.direction, i.nulls))).record

-- ========================================================= arithmetic

/-- The members of arithmetic on two operands. -/
def Arithmetic.members : Members Arithmetic :=
  ((required "left" Operand.codec).and
    ((required "op" Codec.symbol).and (required "right" Operand.codec))).iso
    (fun (l, o, r) => ⟨l, o, r⟩)
    (fun a => (a.left, a.op, a.right))

/-- Arithmetic on two operands. -/
def Arithmetic.codec : Codec Arithmetic := Arithmetic.members.record

/-- The members of arithmetic with a name. -/
def BinaryArithmetic.members : Members BinaryArithmetic :=
  (Arithmetic.members.and (required "alias" Codec.text)).iso
    (fun (a, n) => ⟨a, n⟩)
    (fun e => (e.arithmetic, e.aliasName))

/-- The members of arithmetic inside arithmetic. -/
def CompoundArithmetic.members : Members CompoundArithmetic :=
  ((required "inner_left" Operand.codec).and
    ((required "inner_op" Codec.symbol).and
      ((required "inner_right" Operand.codec).and
        ((required "outer_op" Codec.symbol).and
          ((required "outer" Operand.codec).and (required "alias" Codec.text)))))).iso
    (fun (l, o, r, outerOp, outer, n) => ⟨⟨l, o, r⟩, outerOp, outer, n⟩)
    (fun e => (e.inner.left, e.inner.op, e.inner.right, e.op, e.outer, e.aliasName))

-- ========================================================= predicates

/-- The members of a test against constants. -/
def Comparison.members : Members Comparison :=
  ((required "column" QualifiedColumn.codec).and
    ((required "operator" Codec.symbol).and (optional "value" Comparand.codec))).iso
    (fun (c, o, v) => ⟨c, o, v⟩)
    (fun p => (p.column, p.op, p.value))

/-- A test against constants. -/
def Comparison.codec : Codec Comparison := Comparison.members.record

/-- The members of a test between columns. -/
def ColumnComparison.members : Members ColumnComparison :=
  ((required "left" QualifiedColumn.codec).and
    ((required "operator" Codec.symbol).and
      (required "right" QualifiedColumn.codec))).iso
    (fun (l, o, r) => ⟨l, o, r⟩)
    (fun p => (p.left, p.op, p.right))

/-- A test between columns. -/
def ColumnComparison.codec : Codec ColumnComparison := ColumnComparison.members.record

/-- The members of a test against a range. -/
def Between.members : Members Between :=
  ((required "column" QualifiedColumn.codec).and
    ((required "low" Literal.codec).and (required "high" Literal.codec))).iso
    (fun (c, l, h) => ⟨c, l, h⟩)
    (fun p => (p.column, p.low, p.high))

/-- A test against a range. -/
def Between.codec : Codec Between := Between.members.record

/-- A predicate: the type `simple`, `column_comparison` or `between`. -/
def Condition.codec : Codec Condition :=
  tagged "type" <|
    ((one "simple" Comparison.members).or
      ((one "column_comparison" ColumnComparison.members).or
        (one "between" Between.members))).iso
    (fun
      | .inl p => .simple p
      | .inr (.inl p) => .columns p
      | .inr (.inr p) => .between p)
    (fun
      | .simple p => .inl p
      | .columns p => .inr (.inl p)
      | .between p => .inr (.inr p))

/-- Predicates under one connective. -/
def ConditionGroup.codec : Codec ConditionGroup :=
  (((required "conditions" (Codec.list Condition.codec)).and
    (defaulted "logic" Codec.symbol Logic.and)).iso
    (fun (c, l) => ⟨c, l⟩)
    (fun g => (g.conditions, g.logic))).record

-- ======================================================== select list

/-- The members of a column item. -/
def ColumnExpr.members : Members ColumnExpr :=
  ((optional "table_alias" Codec.text).and
    ((required "column" Codec.symbol).and (optional "alias" Codec.text))).iso
    (fun (q, c, n) => ⟨q, c, n⟩)
    (fun e => (e.qualifier, e.column, e.aliasName))

/-- The input of an aggregate: the kind `column` or `arithmetic`. -/
def AggregateInput.codec : Codec AggregateInput :=
  tagged "kind" <|
    ((one "column" QualifiedColumn.members).or
      (one "arithmetic" Arithmetic.members)).iso
    (fun
      | .inl c => .column c
      | .inr a => .arithmetic a)
    (fun
      | .column c => .inl c
      | .arithmetic a => .inr a)

/-- The members of an aggregate. -/
def AggregateExpr.members : Members AggregateExpr :=
  ((required "function" Codec.symbol).and
    ((optional "input" AggregateInput.codec).and
      ((marked "distinct").and
        ((optional "percentile" Codec.double).and (required "alias" Codec.text))))).iso
    (fun (f, i, d, p, n) => ⟨f, i, d, p, n⟩)
    (fun e => (e.function, e.input, e.distinct, e.percentile, e.aliasName))

/-- The members of a window function. -/
def WindowExpr.members : Members WindowExpr :=
  ((required "function" Codec.symbol).and
    ((optional "column" QualifiedColumn.codec).and
      ((listed "partition_by" QualifiedColumn.codec).and
        ((listed "order_by" OrderItem.codec).and
          ((optional "offset" Codec.word32).and
            ((optional "default" Literal.codec).and
              (required "alias" Codec.text))))))).iso
    (fun (f, c, p, o, k, d, n) => ⟨f, c, p, o, k, d, n⟩)
    (fun e =>
      (e.function, e.column, e.partitionBy, e.orderBy, e.offset, e.default, e.aliasName))

/-- What a CASE yields: the kind `column` or `literal`. -/
def CaseResult.codec : Codec CaseResult :=
  tagged "kind" <|
    ((one "column" QualifiedColumn.members).or
      (one "literal" (required "value" Literal.codec))).iso
    (fun
      | .inl c => .column c
      | .inr v => .literal v)
    (fun
      | .column c => .inl c
      | .literal v => .inr v)

/-- One branch of a CASE. -/
def CaseBranch.codec : Codec CaseBranch :=
  (((required "condition" Comparison.codec).and
    (required "result" CaseResult.codec)).iso
    (fun (c, r) => ⟨c, r⟩)
    (fun b => (b.condition, b.result))).record

/-- The members of a CASE. -/
def CaseExpr.members : Members CaseExpr :=
  ((required "branches" (Codec.list CaseBranch.codec)).and
    ((optional "else_result" CaseResult.codec).and (required "alias" Codec.text))).iso
    (fun (b, r, n) => ⟨b, r, n⟩)
    (fun e => (e.branches, e.otherwise, e.aliasName))

/-- An item of a select list, by its type. -/
def SelectExpr.codec : Codec SelectExpr :=
  tagged "type" <|
    ((one "column" ColumnExpr.members).or
      ((one "binary_arithmetic" BinaryArithmetic.members).or
        ((one "compound_arithmetic" CompoundArithmetic.members).or
          ((one "aggregate" AggregateExpr.members).or
            ((one "window" WindowExpr.members).or
              (one "case" CaseExpr.members)))))).iso
    (fun
      | .inl e => .column e
      | .inr (.inl e) => .binary e
      | .inr (.inr (.inl e)) => .compound e
      | .inr (.inr (.inr (.inl e))) => .aggregate e
      | .inr (.inr (.inr (.inr (.inl e)))) => .window e
      | .inr (.inr (.inr (.inr (.inr e)))) => .case e)
    (fun
      | .column e => .inl e
      | .binary e => .inr (.inl e)
      | .compound e => .inr (.inr (.inl e))
      | .aggregate e => .inr (.inr (.inr (.inl e)))
      | .window e => .inr (.inr (.inr (.inr (.inl e))))
      | .case e => .inr (.inr (.inr (.inr (.inr e)))))

end TypedSelect
