/-
A query with its names in lower case.

SQL reads an unquoted name in lower case, so two queries that differ in
the case of letters of their names only are one query to it. They are
those that `Query.folded` makes equal: it puts every name that a caller
chose in lower case and leaves the rest alone. The names of tables and
columns of the vocabulary are in lower case to begin with.

# Letters

Folding is character by character. The 26 capital letters are the only
ones that it changes, so a statement about all characters is one about 26
of them, by computation, and about characters that stay
(`toLower_cases`). It keeps whether a character may start or continue an
identifier, and how many bytes it takes.

# Validity

The rules of validity look at a name through what folding keeps: its
characters up to case, and its size. Reserved words are compared up to
case as well. So no rule tells a query from the folded one, and this is
one simp lemma for each entity, in the order in which entities contain
each other.

There is one exception, and it is missing from this list on purpose. That
a key of a sort names an output is checked letter for letter, so the rule
of the whole query is not kept by folding. The lemma for `OrderBy` is the
last one here, and what is left is settled where the exception is stated.
-/
import TypedSelect.Proofs.Characters
import TypedSelect.Proofs.Validity

namespace TypedSelect

-- ============================================================== names

/-- A character that is no capital letter stays as it is. -/
theorem toLower_of_not_isUpper {c : Char} (h : c.isUpper = false) : c.toLower = c := by
  refine dif_neg fun hc => ?_
  rw [isUpper_iff.2 hc] at h
  cases h

/-- What holds of the 26 upper case letters and of every character in lower
case holds of every character. -/
theorem toLower_cases {p : Char → Prop} (c : Char) (hupper : ∀ n < 26, p (Char.ofNat (65 + n)))
    (hlower : ∀ c, c.toLower = c → p c) : p c := by
  cases h : c.isUpper with
  | true =>
      obtain ⟨hlo, hhi⟩ := isUpper_iff.1 h
      have hlo : 65 ≤ c.toNat := hlo
      have hhi : c.toNat ≤ 90 := hhi
      have hletter := hupper (c.toNat - 65) (by omega)
      rwa [Nat.add_sub_cancel' hlo, Char.ofNat_toNat] at hletter
  | false => exact hlower c (toLower_of_not_isUpper h)

theorem toLower_toLower (c : Char) : c.toLower.toLower = c.toLower := by
  induction c using toLower_cases with
  | hupper n hn => revert n; decide
  | hlower c h => rw [h, h]

/-- A capital letter and its small letter take one byte each. -/
theorem utf8Size_toLower (c : Char) : c.toLower.utf8Size = c.utf8Size := by
  induction c using toLower_cases with
  | hupper n hn => revert n; decide
  | hlower c h => rw [h]

/-- What may start an identifier may do so in either case. -/
theorem startsIdentifier_toLower (c : Char) :
    startsIdentifier c.toLower = startsIdentifier c := by
  induction c using toLower_cases with
  | hupper n hn => revert n; decide
  | hlower c h => rw [h]

theorem continuesIdentifier_toLower (c : Char) :
    continuesIdentifier c.toLower = continuesIdentifier c := by
  induction c using toLower_cases with
  | hupper n hn => revert n; decide
  | hlower c h => rw [h]

/-- A name in lower case. -/
def lowered (name : String) : String := .ofList (foldCase name)

/-- A name in lower case compares like the name. -/
theorem foldCase_lowered (name : String) : foldCase (lowered name) = foldCase name := by
  rw [foldCase, lowered, String.toList_ofList, foldCase, List.map_map]
  exact List.map_congr_left fun c _ => toLower_toLower c

/-- Two names are one to SQL where they are equal in lower case. -/
theorem lowered_eq_lowered {a b : String} : lowered a = lowered b ↔ sameName a b = true := by
  rw [lowered, lowered, String.ofList_inj, sameName_iff]

/-- Putting both in lower case does not make two names one. -/
@[simp] theorem sameName_lowered (a b : String) :
    sameName (lowered a) (lowered b) = sameName a b := by
  rw [sameName, foldCase_lowered, foldCase_lowered, sameName]

/-- A table's own name is in lower case. -/
theorem lowered_table (t : Table) : lowered t.name = t.name := by
  cases t <;> rfl

/-- The size of a name is the sum over its characters, and lower case has the
size of upper case in each. So the bound on the size of a name is the same. -/
theorem utf8ByteSize_lowered (name : String) :
    (lowered name).utf8ByteSize = name.utf8ByteSize := by
  have hlist : ∀ l : List Char,
      (String.ofList (l.map Char.toLower)).utf8ByteSize = (String.ofList l).utf8ByteSize := by
    intro l
    induction l with
    | nil => rfl
    | cons c l ih =>
        rw [List.map_cons, String.ofList_cons, String.ofList_cons, String.utf8ByteSize_append,
          String.utf8ByteSize_append, String.utf8ByteSize_singleton,
          String.utf8ByteSize_singleton, utf8Size_toLower, ih]
  rw [lowered, foldCase, hlist, String.ofList_toList]

/-- The shape of a name is a matter of its characters, one by one. -/
theorem isIdentifierShape_lowered (l : List Char) :
    isIdentifierShape (l.map Char.toLower) = isIdentifierShape l := by
  cases l with
  | nil => rfl
  | cons c l =>
      have hrest : continuesIdentifier ∘ Char.toLower = continuesIdentifier :=
        funext continuesIdentifier_toLower
      rw [List.map_cons, isIdentifierShape, isIdentifierShape, startsIdentifier_toLower,
        List.all_map, hrest]

/-- The case of its letters does not make a name one that can be emitted,
nor one that cannot. -/
@[simp] theorem isIdentifier_lowered (name : String) :
    isIdentifier (lowered name) = isIdentifier name := by
  have hreserved : isReserved (lowered name) = isReserved name := by
    unfold isReserved sameName
    rw [foldCase_lowered]
  rw [isIdentifier, utf8ByteSize_lowered, hreserved, lowered, String.toList_ofList, foldCase,
    isIdentifierShape_lowered, isIdentifier]

-- ======================================================== expressions

/-- A node with the names that a caller chose in lower case. -/
def QualifiedColumn.folded (c : QualifiedColumn) : QualifiedColumn :=
  { c with qualifier := c.qualifier.map lowered }

@[inherit_doc QualifiedColumn.folded]
def SortKey.folded : SortKey → SortKey
  | column c => column c.folded
  | output name => output (lowered name)

@[inherit_doc QualifiedColumn.folded]
def OrderItem.folded (i : OrderItem) : OrderItem := { i with key := i.key.folded }

@[inherit_doc QualifiedColumn.folded]
def Operand.folded : Operand → Operand
  | column c => column c.folded
  | number n => number n

@[inherit_doc QualifiedColumn.folded]
def Arithmetic.folded (a : Arithmetic) : Arithmetic := ⟨a.left.folded, a.op, a.right.folded⟩

@[inherit_doc QualifiedColumn.folded]
def BinaryArithmetic.folded (b : BinaryArithmetic) : BinaryArithmetic :=
  ⟨b.arithmetic.folded, lowered b.aliasName⟩

@[inherit_doc QualifiedColumn.folded]
def CompoundArithmetic.folded (c : CompoundArithmetic) : CompoundArithmetic :=
  ⟨c.inner.folded, c.op, c.outer.folded, lowered c.aliasName⟩

@[inherit_doc QualifiedColumn.folded]
def ColumnExpr.folded (e : ColumnExpr) : ColumnExpr :=
  ⟨e.qualifier.map lowered, e.column, e.aliasName.map lowered⟩

@[inherit_doc QualifiedColumn.folded]
def AggregateInput.folded : AggregateInput → AggregateInput
  | column c => column c.folded
  | arithmetic a => arithmetic a.folded

@[inherit_doc QualifiedColumn.folded]
def AggregateExpr.folded (a : AggregateExpr) : AggregateExpr :=
  { a with input := a.input.map AggregateInput.folded, aliasName := lowered a.aliasName }

@[inherit_doc QualifiedColumn.folded]
def WindowExpr.folded (w : WindowExpr) : WindowExpr :=
  { w with
    column := w.column.map QualifiedColumn.folded
    partitionBy := w.partitionBy.map QualifiedColumn.folded
    orderBy := w.orderBy.map OrderItem.folded
    aliasName := lowered w.aliasName }

@[inherit_doc QualifiedColumn.folded]
def CaseResult.folded : CaseResult → CaseResult
  | column c => column c.folded
  | literal v => literal v

@[inherit_doc QualifiedColumn.folded]
def Comparison.folded (p : Comparison) : Comparison := { p with column := p.column.folded }

@[inherit_doc QualifiedColumn.folded]
def CaseBranch.folded (b : CaseBranch) : CaseBranch := ⟨b.condition.folded, b.result.folded⟩

@[inherit_doc QualifiedColumn.folded]
def CaseExpr.folded (c : CaseExpr) : CaseExpr :=
  ⟨c.branches.map CaseBranch.folded, c.otherwise.map CaseResult.folded, lowered c.aliasName⟩

@[inherit_doc QualifiedColumn.folded]
def SelectExpr.folded : SelectExpr → SelectExpr
  | column e => column e.folded
  | binary e => binary e.folded
  | compound e => compound e.folded
  | aggregate e => aggregate e.folded
  | window e => window e.folded
  | case e => case e.folded

-- ============================================================ clauses

@[inherit_doc QualifiedColumn.folded]
def ColumnComparison.folded (p : ColumnComparison) : ColumnComparison :=
  ⟨p.left.folded, p.op, p.right.folded⟩

@[inherit_doc QualifiedColumn.folded]
def Between.folded (p : Between) : Between := { p with column := p.column.folded }

@[inherit_doc QualifiedColumn.folded]
def Condition.folded : Condition → Condition
  | simple p => simple p.folded
  | columns p => columns p.folded
  | between p => between p.folded

@[inherit_doc QualifiedColumn.folded]
def ConditionGroup.folded (g : ConditionGroup) : ConditionGroup :=
  { g with conditions := g.conditions.map Condition.folded }

@[inherit_doc QualifiedColumn.folded]
def Filter.folded (w : Filter) : Filter :=
  ⟨w.groups.map ConditionGroup.folded, w.between.map Between.folded, w.logic⟩

@[inherit_doc QualifiedColumn.folded]
def ScalarSubquery.folded (s : ScalarSubquery) : ScalarSubquery :=
  ⟨s.table, s.aliasName.map lowered, s.aggregate.folded, s.filter.map Filter.folded, s.groupBy⟩

@[inherit_doc QualifiedColumn.folded]
def SubqueryCondition.folded (p : SubqueryCondition) : SubqueryCondition :=
  ⟨p.column.folded, p.op, p.subquery.folded⟩

@[inherit_doc QualifiedColumn.folded]
def TopFilter.folded (w : TopFilter) : TopFilter :=
  ⟨w.toFilter.folded, w.subqueries.map SubqueryCondition.folded⟩

@[inherit_doc QualifiedColumn.folded]
def Join.folded (j : Join) : Join :=
  ⟨j.type, j.table, j.aliasName.map lowered, j.on.map ConditionGroup.folded⟩

@[inherit_doc QualifiedColumn.folded]
def DerivedTable.folded (d : DerivedTable) : DerivedTable :=
  ⟨d.select.map SelectExpr.folded, d.table, lowered d.aliasName, d.filter.map Filter.folded,
    d.groupBy⟩

@[inherit_doc QualifiedColumn.folded]
def FromClause.folded (f : FromClause) : FromClause :=
  ⟨f.table, f.aliasName.map lowered, f.joins.map Join.folded, f.derived.map DerivedTable.folded⟩

@[inherit_doc QualifiedColumn.folded]
def HavingCondition.folded (p : HavingCondition) : HavingCondition :=
  { p with column := p.column.map QualifiedColumn.folded }

@[inherit_doc QualifiedColumn.folded]
def Having.folded (h : Having) : Having :=
  { h with conditions := h.conditions.map HavingCondition.folded }

@[inherit_doc QualifiedColumn.folded]
def OrderBy.folded (o : OrderBy) : OrderBy := ⟨o.items.map OrderItem.folded⟩

/-- A query with the names that a caller chose in lower case: aliases of
tables, of subqueries and of outputs, qualifiers, and the outputs that a
sort names. -/
def Query.folded (q : Query) : Query :=
  { q with
    select := q.select.map SelectExpr.folded
    source := q.source.folded
    filter := q.filter.map TopFilter.folded
    having := q.having.map Having.folded
    orderBy := q.orderBy.map OrderBy.folded }

-- =========================================================== validity

/-- The rules hold of a node when they hold of it in lower case. -/
@[simp] theorem QualifiedColumn.validate_folded {c : QualifiedColumn} :
    c.folded.validate = .ok () ↔ c.validate = .ok () := by
  simp [validate_eq_ok, folded]

/-- A name to sort by is an identifier in either case. Whether an output has
that name is not asked here. -/
@[simp] theorem OrderItem.validate_folded {i : OrderItem} :
    i.folded.validate = .ok () ↔ i.validate = .ok () := by
  unfold validate folded SortKey.folded
  cases i.key <;> simp

@[simp] theorem Operand.validate_folded {e : Entity} {field : String} {o : Operand} :
    o.folded.validate e field = .ok () ↔ o.validate e field = .ok () := by
  cases o <;> simp [validate, folded]

/-- What may be divided by does not depend on names at all. -/
@[simp] theorem Operand.validateDivisor_folded {e : Entity} {field : String} {op : ArithmeticOp}
    {o : Operand} : o.folded.validateDivisor e field op = o.validateDivisor e field op := by
  cases o <;> rfl

/-- The operation stays, and the operands are as valid as before. -/
@[simp] theorem Arithmetic.validate_folded {e : Entity} {a : Arithmetic} :
    a.folded.validate e = .ok () ↔ a.validate e = .ok () := by
  simp [validate_eq_ok, folded]

/-- An input is a column or an operation on columns. -/
@[simp] theorem AggregateInput.validate_folded {input : AggregateInput} :
    input.folded.validate = .ok () ↔ input.validate = .ok () := by
  cases input <;> simp [validate, folded]

/-- Which arguments a function takes is not a matter of names. -/
@[simp] theorem AggregateExpr.validate_folded {a : AggregateExpr} :
    a.folded.validate = .ok () ↔ a.validate = .ok () := by
  simp [validate_eq_ok, validateInput_eq_ok, validatePercentile_eq_ok, folded]

/-- The keys of a window stay columns, and its lists stay as long. -/
@[simp] theorem WindowExpr.validate_folded {w : WindowExpr} :
    w.folded.validate = .ok () ↔ w.validate = .ok () := by
  have horder : ∀ i : OrderItem, (∃ c, i.folded.key = .column c ∧ c.validate = .ok ()) ↔
      ∃ c, i.key = .column c ∧ c.validate = .ok () := by
    intro i
    unfold OrderItem.folded SortKey.folded
    cases i.key <;> simp
  simp [validate_eq_ok, validateArgument_eq_ok, validateOffset_eq_ok, validateOrder_eq_ok,
    folded, horder]

@[simp] theorem CaseResult.validate_folded {r : CaseResult} :
    r.folded.validate = .ok () ↔ r.validate = .ok () := by
  cases r <;> simp [validate, folded]

/-- The right side holds constants only, so the operator fits it as before. -/
@[simp] theorem Comparison.validate_folded {p : Comparison} :
    p.folded.validate = .ok () ↔ p.validate = .ok () := by
  have hvalue : p.folded.validateValue = p.validateValue := rfl
  rw [validate_eq_ok, validate_eq_ok, hvalue, folded, QualifiedColumn.validate_folded]

/-- An item of any kind, by the lemma of its kind. Validity does not look at
the case of any name, but for the reserved words, which it folds itself. -/
@[simp] theorem SelectExpr.validate_folded {e : SelectExpr} :
    e.folded.validate = .ok () ↔ e.validate = .ok () := by
  cases e with
  | column e => simp [validate, folded, ColumnExpr.validate_eq_ok, ColumnExpr.folded]
  | binary e => simp [validate, folded, BinaryArithmetic.validate_eq_ok, BinaryArithmetic.folded]
  | compound e =>
      simp [validate, folded, CompoundArithmetic.validate_eq_ok, CompoundArithmetic.folded,
        Arithmetic.folded]
  | aggregate e => exact AggregateExpr.validate_folded
  | window e => exact WindowExpr.validate_folded
  | case e =>
      simp [validate, folded, CaseExpr.validate_eq_ok, CaseExpr.folded,
        CaseBranch.validate_eq_ok, CaseBranch.folded]

@[simp] theorem Between.validate_folded {p : Between} :
    p.folded.validate = .ok () ↔ p.validate = .ok () := by
  simp [validate_eq_ok, folded]

/-- A group has as many tests as before, and each is as valid. -/
@[simp] theorem ConditionGroup.validate_folded {g : ConditionGroup} :
    g.folded.validate = .ok () ↔ g.validate = .ok () := by
  have hcondition : ∀ c : Condition, c.folded.validate = .ok () ↔ c.validate = .ok () := by
    intro c
    cases c with
    | simple p => exact Comparison.validate_folded
    | columns p =>
        simp [Condition.validate, Condition.folded, ColumnComparison.validate_eq_ok,
          ColumnComparison.folded]
    | between p => exact Between.validate_folded
  simp [validate_eq_ok, folded, hcondition]

@[simp] theorem Filter.validate_folded {w : Filter} :
    w.folded.validate = .ok () ↔ w.validate = .ok () := by
  simp [validate_eq_ok, folded, isEmpty]

/-- The operator and the grouping are as they were. -/
@[simp] theorem SubqueryCondition.validate_folded {p : SubqueryCondition} :
    p.folded.validate = .ok () ↔ p.validate = .ok () := by
  simp [validate_eq_ok, folded, ScalarSubquery.validate_eq_ok, ScalarSubquery.folded]

@[simp] theorem TopFilter.validate_folded {w : TopFilter} :
    w.folded.validate = .ok () ↔ w.validate = .ok () := by
  simp [validate_eq_ok, folded, isEmpty, Filter.folded, Filter.isEmpty]

/-- A join has its name and its groups folded. -/
@[simp] theorem Join.validate_folded {j : Join} :
    j.folded.validate = .ok () ↔ j.validate = .ok () := by
  simp [validate_eq_ok, folded]

/-- A derived table has a name that is an identifier in either case. -/
@[simp] theorem DerivedTable.validate_folded {d : DerivedTable} :
    d.folded.validate = .ok () ↔ d.validate = .ok () := by
  simp [validate_eq_ok, folded]

/-- Which parts a source has is not a matter of names. -/
@[simp] theorem FromClause.validate_folded {f : FromClause} :
    f.folded.validate = .ok () ↔ f.validate = .ok () := by
  simp [validate_eq_ok, validateSource_eq_ok, folded]

@[simp] theorem Having.validate_folded {h : Having} :
    h.folded.validate = .ok () ↔ h.validate = .ok () := by
  simp [validate_eq_ok, folded, HavingCondition.validate_eq_ok, HavingCondition.folded]

/-- The keys of a sort by themselves. That they name outputs is a rule of the
query, and that one compares letter for letter. -/
@[simp] theorem OrderBy.validate_folded {o : OrderBy} :
    o.folded.validate = .ok () ↔ o.validate = .ok () := by
  simp [validate_eq_ok, folded]

end TypedSelect
