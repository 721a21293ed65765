/-
Select items and predicates read back.

For each renderer there is a reader, and one lemma: what a valid node is
written as is read as its canonical form. Where nodes of several kinds may
stand, the reader tells them apart by what comes first.

# The shape of the statements

A rendering may fail, so each lemma says what holds of its row if there is
one (`Yields`). It says that the reader takes the row's tokens and nothing
more, unless the row is followed by a token with which it would go on.
Where the reader of a larger node has to choose, the lemma also says how
the row begins.

# Names behind the call

Aggregates, arithmetic and CASE are read without their names, which follow
behind AS in a select list and are not written in a subquery or in HAVING.
Their readers find them with the empty name, and the reader of a select
item adds it. So their lemmas are about the canonical form with its name
taken out.

# Two spellings of one call

A count of distinct values can be asked for in two ways, and so can a
median. Each pair is written alike, and the reader finds the form that is
canonical (`AggregateExpr.merged`). In the same way the function over a
window that has the name of an aggregate is read as an aggregate first,
and becomes a window when OVER comes next.

# Predicates

A predicate begins with a column, and what is tested is known from the
tokens behind it. In the filter of a query a subquery may stand on the
right, and the reader has to tell it from a list of constants, which also
begins with a parenthesis. `Condition.ReadsAs` is what a predicate's row
has to be for that: a column, its operator, and a right side that is no
subquery.
-/
import TypedSelect.Proofs.Sql.Reading.Term

namespace TypedSelect

open Reader
open Traced (Yields yields_pure yields_then yields_each)
open Validation (Writable)

section

variable {s : Scope}

-- ========================================================= arithmetic

/-- Reads a column or a number. -/
def Operand.read : Reader Operand :=
  branch (starts Token.isNumeric) (do return .number (← Number.read))
    (do return .column (← QualifiedColumn.read))

/-- Reads `(left op right)`. -/
def Arithmetic.read : Reader Arithmetic := Reader.parens do
  let left ← Operand.read
  let op ← ArithmeticOp.read
  return ⟨left, op, ← Operand.read⟩

/-- Reads `((left op right) op outer)`, which has no name yet. -/
def CompoundArithmetic.read : Reader CompoundArithmetic := Reader.parens do
  let inner ← Arithmetic.read
  let op ← ArithmeticOp.read
  return ⟨inner, op, ← Operand.read, ""⟩

theorem Token.isNumeric_of_isName {t : Token} (h : t.isName = true) : t.isNumeric = false := by
  cases t with
  | identifier text => rfl
  | _ => cases h

/-- A column is written as it is. -/
theorem Scope.render_yields (s : Scope) (c : QualifiedColumn) :
    (s.render c).Yields fun row => row = c.sql := by
  unfold render
  split
  · exact yields_pure rfl
  · exact yields_then fun _ => Traced.yields_fail _

/-- A column or a number is read back, and neither begins with a parenthesis.
-/
theorem Operand.render_reads {e : Entity} {field : String} {o : Operand}
    (h : o.validate e field = .ok ()) :
    (o.render s).Yields fun row => Reads Operand.read row.tokens o.canonical [.mark '.'] ∧
      Begins (fun t => t.isName || t.isNumeric) row.tokens := by
  obtain ⟨hcolumn, hnumber⟩ := validate_eq_ok.1 h
  cases o with
  | column c =>
      intro row hrow
      obtain rfl := s.render_yields c row hrow
      have hbegins := QualifiedColumn.begins (hcolumn c rfl)
      refine ⟨.starts_no (c.reads.map column) hbegins fun _ => Token.isNumeric_of_isName, ?_⟩
      exact hbegins.mono fun _ ht => Bool.or_eq_true_iff.2 (.inl ht)
  | number n =>
      have hn := hnumber n rfl
      refine yields_pure ⟨.mono (.starts_yes ((Number.reads hn).map number) (Number.begins hn))
        (List.nil_subset _), ?_⟩
      exact (Number.begins hn).mono fun _ ht => Bool.or_eq_true_iff.2 (.inr ht)

/-- An operation is read back with its operands. It begins with one
parenthesis, which tells it from an operation on an operation. -/
theorem Arithmetic.render_reads {e : Entity} {field field' : String} {a : Arithmetic}
    (hl : a.left.validate e field = .ok ()) (hr : a.right.validate e field' = .ok ()) :
    (a.render s).Yields fun row => Reads Arithmetic.read row.tokens a.canonical [] ∧
      ∃ tail, row.tokens = .mark '(' :: tail ∧
        Begins (fun t => t.isName || t.isNumeric) tail := by
  refine (Operand.render_reads hl).bind fun left hleft => ?_
  refine (Operand.render_reads hr).bind fun right hright => yields_pure ?_
  rw [Sql.tokens_parens, Sql.tokens_spaced]
  refine ⟨.parens ?_ (by decide : Token.mark ')' ∉ [.mark '.']), _, rfl, hleft.2.append.append⟩
  exact hleft.1.bind (a.op.reads.bind (hright.1.map_nil _) closes_free)
    (a.op.begins.append.closes (by decide))

/-- An operation on an operation is read back but for its name. It begins
with two parentheses. -/
theorem CompoundArithmetic.render_reads {c : CompoundArithmetic} (h : c.validate = .ok ()) :
    (c.render s).Yields fun row =>
      Reads CompoundArithmetic.read row.tokens { c.canonical with aliasName := "" } [] ∧
        ∃ tail, row.tokens = .mark '(' :: .mark '(' :: tail := by
  obtain ⟨hl, hr, houter, -⟩ := validate_eq_ok.1 h
  refine (Arithmetic.render_reads hl hr).bind fun inner hinner => ?_
  refine (Operand.render_reads houter).bind fun outer hout => yields_pure ?_
  rw [Sql.tokens_parens, Sql.tokens_spaced]
  refine ⟨.parens ?_ (by decide : Token.mark ')' ∉ [.mark '.']), ?_⟩
  · exact hinner.1.bind (c.op.reads.bind (hout.1.map_nil _) closes_free) closes_free
  · obtain ⟨tail, htail, -⟩ := hinner.2
    rw [List.flatMap_cons, htail]
    exact ⟨_, rfl⟩

-- ========================================================== aggregates

/-- Reads what an aggregate looks at. -/
def AggregateInput.read : Reader AggregateInput :=
  branch (next [.mark '(']) (do return .arithmetic (← Arithmetic.read))
    (do return .column (← QualifiedColumn.read))

/-- The functions with a name of their own in SQL. -/
def AggregateFunction.called : List AggregateFunction :=
  [.count, .sum, .avg, .min, .max, .stddev, .stddevPop, .variance, .varPop, .percentileCont,
    .percentileDisc]

/-- The function with this name in SQL. -/
def AggregateFunction.base : AggregateFunction → AggregateFunction
  | countDistinct => count
  | median => percentileCont
  | f => f

/-- Reads the name of an aggregate. -/
def AggregateFunction.read : Reader AggregateFunction :=
  oneOf (fun f => [.identifier f.sqlName]) called

/-- Reads the argument of an aggregate, and whether it is DISTINCT. -/
def AggregateExpr.readArgument : Reader (Option AggregateInput × Bool) :=
  branch (next [.operator "*"]) (do expect (.operator "*"); return (none, false))
    (branch (next [.identifier "DISTINCT"])
      (do keyword "DISTINCT"; return (some (← AggregateInput.read), true))
      (do return (some (← AggregateInput.read), false)))

/-- Reads the call of an aggregate, which has no name yet. -/
def AggregateExpr.readCall : Reader AggregateExpr := do
  let f ← AggregateFunction.read
  if f.isPercentile then
    let p ← Reader.parens Double.read
    keyword "WITHIN"
    keyword "GROUP"
    let input ← Reader.parens (do keyword "ORDER"; keyword "BY"; AggregateInput.read)
    return ⟨f, some input, false, some p, ""⟩
  else
    let argument ← Reader.parens readArgument
    return AggregateExpr.merged ⟨f, argument.1, argument.2, none, ""⟩

/-- An aggregate is read by its name in SQL, as the function that has this
name of its own. -/
theorem AggregateFunction.reads (f : AggregateFunction) :
    Reads AggregateFunction.read [.identifier f.sqlName] f.base [] := by
  have hname : f.sqlName = f.base.sqlName := by cases f <;> rfl
  rw [hname]
  exact .oneOf_word AggregateFunction.sqlName (by decide) (by cases f <;> decide)

/-- A column is read back as the input of an aggregate. -/
theorem AggregateInput.reads_column {c : QualifiedColumn} (h : c.validate = .ok ()) :
    Reads AggregateInput.read c.sql.tokens (.column c) [.mark '.'] ∧
      Begins (fun t => t.isName || t == .mark '(') c.sql.tokens :=
  ⟨.next_no_of_begins (c.reads.map column) (c.begins h) (by decide),
    (c.begins h).mono fun _ ht => Bool.or_eq_true_iff.2 (.inl ht)⟩

/-- The input of an aggregate, or the star of a plain count. Which of the two
it is decides what the reader of the call has to expect. -/
theorem AggregateExpr.renderInput_reads {a : AggregateExpr} (h : a.validateInput = .ok ()) :
    (a.renderInput s).Yields fun row =>
      (∃ input, a.input = some input ∧
        Reads AggregateInput.read row.tokens input.canonical [.mark '.'] ∧
        Begins (fun t => t.isName || t == .mark '(') row.tokens) ∨
      (a.input = none ∧ a.function = .count ∧ a.distinct = false ∧
        row.tokens = [.operator "*"]) := by
  obtain ⟨hinput, hnone⟩ := validateInput_eq_ok.1 h
  unfold renderInput
  cases hi : a.input with
  | none =>
      dsimp only
      split
      · exact yields_pure (.inr ⟨rfl, (hnone hi).1, (hnone hi).2, rfl⟩)
      · exact Traced.yields_fail _
  | some input =>
      have hvalid := hinput input hi
      cases input with
      | column c =>
          intro row hrow
          obtain rfl := s.render_yields c row hrow
          exact .inl ⟨_, rfl, AggregateInput.reads_column hvalid⟩
      | arithmetic e =>
          obtain ⟨hl, hr, -⟩ := Arithmetic.validate_eq_ok.1 hvalid
          refine fun row hrow => .inl ⟨_, rfl, ?_⟩
          obtain ⟨hread, tail, htail, -⟩ := Arithmetic.render_reads hl hr row hrow
          rw [htail] at hread ⊢
          exact ⟨.mono (.next_yes (hread.map AggregateInput.arithmetic)
            (List.mem_singleton_self _)) (List.nil_subset _), begins_cons (by decide)⟩

section

variable {f : AggregateFunction} {argument input : Sql} {i : AggregateInput}

/-- A call whose argument stands in the parentheses. -/
theorem AggregateExpr.reads_call (hf : f.base.isPercentile = false)
    {value : Option AggregateInput × Bool}
    (h : Reads AggregateExpr.readArgument argument.tokens value [.mark '.']) :
    Reads readCall (Sql.call f.sqlName argument).tokens
      (merged ⟨f.base, value.1, value.2, none, ""⟩) [] := by
  rw [Sql.tokens_call]
  refine f.reads.bind ?_ closes_free
  rw [if_neg (by rw [hf]; exact Bool.false_ne_true)]
  exact (Reads.parens h (by decide)).map _

/-- An argument that is neither a star nor behind DISTINCT. -/
theorem AggregateExpr.reads_argument (h : Reads AggregateInput.read input.tokens i [.mark '.'])
    (hbegins : Begins (fun t => t.isName || t == .mark '(') input.tokens) :
    Reads AggregateExpr.readArgument input.tokens (some i, false) [.mark '.'] :=
  .next_no_of_begins (.next_no_of_begins (h.map fun i => (some i, false)) hbegins (by decide))
    hbegins (by decide)

theorem AggregateExpr.reads_distinct (h : Reads AggregateInput.read input.tokens i [.mark '.']) :
    Reads AggregateExpr.readArgument
      (Sql.tokens (Sql.spaced [Sql.words ["DISTINCT"], input])) (some i, true) [.mark '.'] := by
  rw [Sql.tokens_spaced]
  refine .next_no (.next_yes (.expect ?_) (List.mem_singleton_self _)) (by decide)
  exact h.map_nil fun i => (some i, true)

/-- A percentile is read with its fraction and with the input that it is
taken over. -/
theorem AggregateExpr.reads_percentile (hf : f.base.isPercentile = true) {fraction : Sql}
    {p : Double} (hp : Reads Double.read fraction.tokens p [])
    (h : Reads AggregateInput.read input.tokens i [.mark '.']) :
    Reads readCall (Sql.percentile f.sqlName fraction input).tokens
      ⟨f.base, some i, false, some p, ""⟩ [] := by
  rw [Sql.percentile, Sql.tokens_spaced, List.flatMap_cons, Sql.tokens_call]
  refine f.reads.bind ?_ closes_free
  rw [if_pos hf]
  refine (Reads.parens hp List.not_mem_nil).bind ?_ closes_free
  have hsort : Reads (do keyword "ORDER"; keyword "BY"; AggregateInput.read)
      (Sql.tokens (Sql.spaced [Sql.words ["ORDER", "BY"], input])) i [.mark '.'] := by
    rw [Sql.tokens_spaced]
    refine .expect (.expect ?_)
    show Reads _ (input.tokens ++ []) _ _
    rwa [List.append_nil]
  refine .expect (.expect ?_)
  show Reads _ (Sql.tokens (Sql.parens _) ++ []) _ _
  rw [Sql.tokens_parens]
  exact (Reads.parens hsort (by decide)).map_nil _

end

/-- A median is a percentile of one half. -/
theorem Sql.reads_half : Reads Double.read Sql.half.tokens .half [] := by
  have := reads_numeral Double.ofText false "0.5"
  rwa [show Double.ofText false "0.5" = .half from by decide +kernel] at this

/-- The canonical form of an aggregate does not look at its name. -/
theorem AggregateExpr.merged_name (a : AggregateExpr) (aliasName : String) :
    { a.merged with aliasName } = merged { a with aliasName } := by
  obtain ⟨function, input, distinct, percentile, name⟩ := a
  cases function with
  | count => cases distinct <;> rfl
  | _ => rfl

/-- All but four functions are called by their own names and take no
fraction. -/
theorem AggregateFunction.plain {f : AggregateFunction} (hcont : f ≠ .percentileCont)
    (hdisc : f ≠ .percentileDisc) (hmedian : f ≠ .median) (hcount : f ≠ .countDistinct) :
    f.base = f ∧ f.isPercentile = false ∧ f.requiresFraction = false := by
  cases f <;> first | exact ⟨rfl, rfl, rfl⟩ | contradiction

/-- The call of an aggregate is read as the aggregate without its name. It
begins with the name of a function and a parenthesis, as no column does. -/
theorem AggregateExpr.renderCall_reads {a : AggregateExpr} (h : a.validate = .ok ()) :
    (a.renderCall s).Yields fun row =>
      Reads AggregateExpr.readCall row.tokens { a.canonical with aliasName := "" } [] ∧
        ∃ tail, row.tokens = .identifier a.function.sqlName :: .mark '(' :: tail := by
  obtain ⟨-, hinput, hdistinct, hpercentile⟩ := validate_eq_ok.1 h
  obtain ⟨hfraction, hunit⟩ := validatePercentile_eq_ok.1 hpercentile
  rw [canonical, merged_name]
  refine (renderInput_reads hinput).bind fun row hrow => ?_
  obtain ⟨function, input, distinct, percentile, aliasName⟩ := a
  dsimp only at hrow hfraction hunit hdistinct ⊢
  have hsome : function.requiresFraction = true →
      ∃ p, percentile = some p ∧ Reads Double.read p.sql.tokens p [] := by
    intro hf
    obtain ⟨p, hp⟩ := Option.isSome_iff_exists.1 (hfraction.1 hf)
    exact ⟨p, hp, Double.reads (Double.isFinite_of_inUnitInterval (hunit p hp))⟩
  have hno : function.requiresFraction = false → percentile = none := fun hf =>
    Option.not_isSome_iff_eq_none.1 fun hsome => Bool.false_ne_true (hf ▸ hfraction.2 hsome)
  -- there is an input, or the call is a plain count of rows
  rcases hrow with ⟨i, rfl, hread, hbegins⟩ | ⟨rfl, rfl, rfl, hstar⟩
  · have hargument := reads_argument hread hbegins
    have hvalues := reads_distinct hread
    split
    · obtain ⟨p, rfl, hp⟩ := hsome rfl
      obtain rfl := hdistinct rfl
      exact yields_pure ⟨reads_percentile (f := .percentileCont) rfl hp hread, _, rfl⟩
    · obtain ⟨p, rfl, hp⟩ := hsome rfl
      obtain rfl := hdistinct rfl
      exact yields_pure ⟨reads_percentile (f := .percentileDisc) rfl hp hread, _, rfl⟩
    · obtain rfl := hdistinct rfl
      exact yields_pure ⟨reads_percentile (f := .median) rfl Sql.reads_half hread, _, rfl⟩
    · obtain rfl : percentile = none := hno rfl
      exact yields_pure ⟨reads_call (f := .countDistinct) rfl hvalues, _, rfl⟩
    next hcont hdisc hmedian hcount =>
      obtain ⟨hbase, hplain, hfree⟩ := AggregateFunction.plain hcont hdisc hmedian hcount
      obtain rfl : percentile = none := hno hfree
      cases distinct with
      | false =>
          have := reads_call (f := function) (hbase.symm ▸ hplain) hargument
          rw [hbase] at this
          exact yields_pure ⟨this, _, rfl⟩
      | true =>
          have := reads_call (f := function) (hbase.symm ▸ hplain) hvalues
          rw [hbase] at this
          exact yields_pure ⟨this, _, rfl⟩
  · obtain rfl : percentile = none := hno rfl
    have hargument : Reads AggregateExpr.readArgument row.tokens (none, false) [.mark '.'] := by
      rw [hstar]
      exact .next_yes (.expect (.pure _ _)) (List.mem_singleton_self _)
    exact yields_pure ⟨reads_call (f := .count) rfl hargument, _, rfl⟩

-- =============================================================== sort

/-- Reads a sort key; a column without a table is a name. -/
def SortKey.read : Reader SortKey :=
  branch (second (.mark '.')) (do return .column (← QualifiedColumn.read))
    (do return .output (← name))

/-- Reads a direction. -/
def Direction.read : Reader Direction := oneOf (fun d => [.identifier d.name]) Vocabulary.all

/-- Reads the place of the nulls behind its first word. -/
def NullsOrder.read : Reader NullsOrder := oneOf (fun o => [.identifier o.name]) Vocabulary.all

/-- Reads `key direction [NULLS place]`. -/
def OrderItem.read (key : Reader SortKey) : Reader OrderItem := do
  let k ← key
  let direction ← Direction.read
  return ⟨k, direction, ← optional (.identifier "NULLS") NullsOrder.read⟩

theorem Direction.reads (d : Direction) : Reads Direction.read [.identifier d.name] d [] :=
  .oneOf_word Direction.name (by decide) (by cases d <;> decide)

/-- The place of the nulls is one keyword behind NULLS. -/
theorem NullsOrder.reads (o : NullsOrder) : Reads NullsOrder.read [.identifier o.name] o [] :=
  .oneOf_word NullsOrder.name (by decide) (by cases o <;> decide)

/-- A sort key is read as its canonical form, so a column without a table is
read as a name of the select list. -/
theorem SortKey.render_reads (k : SortKey) :
    (k.render s).Yields fun row => Reads SortKey.read row.tokens k.canonical [.mark '.'] := by
  have hname : ∀ text, Reads SortKey.read [.identifier text] (output text) [.mark '.'] := by
    intro text
    refine .branch_no (.mono ((reads_name text).map output) (List.nil_subset _)) ?_
    exact fun rest hrest => next_eq_false hrest (List.Subset.refl _)
  cases k with
  | column c =>
      intro row hrow
      obtain rfl := s.render_yields c row hrow
      obtain ⟨_ | q, c⟩ := c
      · exact hname c.name
      · exact .branch_yes ((QualifiedColumn.reads ⟨some q, c⟩).map column) fun _ => rfl
  | output text => exact yields_pure (hname text)

/-- A sort key that a reader finds in some form makes an item with that
key. -/
theorem OrderItem.render_reads {i : OrderItem} {key : Reader SortKey} {k : SortKey}
    (h : (i.key.render s).Yields fun row => Reads key row.tokens k [.mark '.']) :
    (i.render s).Yields fun row =>
      Reads (OrderItem.read key) row.tokens { i with key := k } [.identifier "NULLS"] := by
  refine h.bind fun row hrow => yields_pure ?_
  rw [Sql.tokens_spaced]
  have hnulls : Reads (optional (.identifier "NULLS") NullsOrder.read)
      ((i.nulls.map NullsOrder.sql).toList.flatMap Sql.tokens) i.nulls [.identifier "NULLS"] := by
    cases i.nulls with
    | none => exact .optional_none (List.mem_singleton_self _)
    | some o => exact .mono (.optional_some o.reads) (List.nil_subset _)
  exact hrow.bind (i.direction.reads.bind (hnulls.map _) closes_free) (closes_cons (by simp))

-- ============================================================ windows

/-- The functions that only a window has. -/
def WindowFunction.own : List WindowFunction := [.rank, .denseRank, .rowNumber, .lag, .lead]

/-- Reads the name of a function that only a window has. -/
def WindowFunction.read : Reader WindowFunction := oneOf (fun f => [.identifier f.name]) own

/-- The function over a window with the name of an aggregate. -/
def AggregateFunction.window? : AggregateFunction → Option WindowFunction
  | count => some .count
  | sum => some .sum
  | avg => some .avg
  | min => some .min
  | max => some .max
  | _ => none

/-- A window that is everything. -/
def WindowExpr.unbounded (f : WindowFunction) (column : Option QualifiedColumn) : WindowExpr :=
  ⟨f, column, [], [], none, none, ""⟩

/-- The call of an aggregate as one of a function over a window, which
takes a column at most. -/
def AggregateExpr.window? (a : AggregateExpr) : Option WindowExpr :=
  match a.function.window?, a.input with
  | some f, none => some (.unbounded f none)
  | some f, some (.column c) => some (.unbounded f (some c))
  | _, _ => none

/-- Reads the offset and the default of a function that looks at another
row; without an offset that is the next one. -/
def WindowExpr.readOffset : Reader (UInt32 × Option Literal) := do
  let offset ← optional (.mark ',') nat
  return (.ofNat (offset.getD 1), ← optional (.mark ',') Literal.read)

/-- Reads the arguments of a function that only a window has. -/
def WindowExpr.readArguments (f : WindowFunction) : Reader WindowExpr :=
  if f.isOffset then do
    let column ← QualifiedColumn.read
    let offset ← readOffset
    return { unbounded f (some column) with offset := some offset.1, default := offset.2 }
  else return unbounded f none

namespace Reader

/-- Reads the list behind two words, if the first of them comes next. -/
def byList {α : Type} (word : String) (read : Reader α) : Reader (List α) := do
  return (← optional (.identifier word) (do keyword "BY"; list read)).getD []

end Reader

/-- Reads a sort key that is a column. -/
def WindowExpr.columnKey : Reader SortKey := do return .column (← QualifiedColumn.read)

/-- Reads `OVER (...) AS name` behind the call of a function. -/
def WindowExpr.readOver (w : WindowExpr) : Reader WindowExpr := do
  keyword "OVER"
  let window ← Reader.parens (do
    let partition ← byList "PARTITION" QualifiedColumn.read
    return (partition, ← byList "ORDER" (OrderItem.read columnKey)))
  return { w with partitionBy := window.1, orderBy := window.2, aliasName := ← asName }

/-- The functions that only a window has are those that rank and those that
look at another row. -/
theorem WindowFunction.mem_own (f : WindowFunction) :
    f ∈ own ↔ f.isRanking = true ∨ f.isOffset = true := by
  cases f <;> decide

/-- A function that only a window has is read by its name. -/
theorem WindowFunction.reads {f : WindowFunction} (h : f ∈ own) :
    Reads WindowFunction.read [.identifier f.name] f [] :=
  .oneOf_word WindowFunction.name (by decide) h

/-- A list that is not written when it is empty. It is read as empty unless
its word comes next, so that word must not follow. -/
theorem reads_byList {α β : Type} {word : String} {read : Reader β} {f : α → β} {l : List α}
    {rows : List Sql} {more : List Token}
    (h : List.Forall₂ (fun a row => Reads read (Sql.tokens row) (f a) more) l rows)
    (hcomma : .mark ',' ∉ more) :
    Reads (byList word read) ((Sql.clauseUnlessEmpty [word, "BY"] rows).flatMap Sql.tokens)
      (l.map f) (.identifier word :: .mark ',' :: more) := by
  cases h with
  | nil => exact (Reads.optional_none (List.mem_cons_self ..)).map (·.getD [])
  | cons hrow hrows =>
      have hlist := reads_listed (List.cons_ne_nil _ _) (.cons hrow hrows) hcomma
      have hclause := Reads.optional_some (t := .identifier word)
        (.expect (t := .identifier "BY") (f := fun _ => list read) hlist)
      have := (hclause.map (·.getD [])).mono (List.subset_cons_self (.identifier word) _)
      rw [Sql.clauseUnlessEmpty, List.isEmpty_cons, if_neg Bool.false_ne_true,
        List.flatMap_singleton, Sql.tokens_spaced]
      show Reads _ (.identifier word :: .identifier "BY" :: (Sql.tokens (Sql.listed _) ++ [])) _ _
      rwa [List.append_nil]

/-- A list that is not written when it is empty begins with its word. -/
theorem head_clauseUnlessEmpty (word : String) (rows : List Sql) :
    ∀ t ∈ ((Sql.clauseUnlessEmpty [word, "BY"] rows).flatMap Sql.tokens).head?,
      t = .identifier word := by
  cases rows with
  | nil => rintro t ⟨⟩
  | cons row rows =>
      rw [Sql.clauseUnlessEmpty, List.isEmpty_cons, if_neg Bool.false_ne_true,
        List.flatMap_singleton, Sql.tokens_spaced]
      rintro t ⟨⟩
      rfl

/-- The sort keys of a window are columns and stay columns, whether there is
a table before them or not. -/
theorem WindowExpr.renderOrderItem_reads (i : OrderItem) :
    (renderOrderItem s i).Yields fun row =>
      Reads (OrderItem.read columnKey) row.tokens i [.identifier "NULLS"] := by
  unfold renderOrderItem
  split
  · exact Traced.yields_fail _
  next c hk =>
    have hkey : (i.key.render s).Yields fun row =>
        Reads columnKey row.tokens i.key [.mark '.'] := by
      rw [hk]
      intro row hrow
      obtain rfl := s.render_yields c row hrow
      exact c.reads.map _
    exact OrderItem.render_reads hkey

/-- The two lists of a window, either of which may be missing. The first ends
where the word of the second comes. -/
theorem WindowExpr.reads_lists {partition : List QualifiedColumn} {order : List OrderItem}
    {columns items : List Sql}
    (hcolumns : List.Forall₂ (fun c row =>
      Reads QualifiedColumn.read (Sql.tokens row) c [.mark '.']) partition columns)
    (hitems : List.Forall₂ (fun i row =>
      Reads (OrderItem.read columnKey) (Sql.tokens row) i [.identifier "NULLS"]) order items) :
    Reads (do
        let partition ← byList "PARTITION" QualifiedColumn.read
        return (partition, ← byList "ORDER" (OrderItem.read columnKey)))
      (Sql.tokens (Sql.spaced (Sql.clauseUnlessEmpty ["PARTITION", "BY"] columns ++
        Sql.clauseUnlessEmpty ["ORDER", "BY"] items)))
      (partition, order)
      [.identifier "ORDER", .mark ',', .identifier "NULLS", .identifier "PARTITION",
        .mark '.'] := by
  have hpart : Reads (byList "PARTITION" QualifiedColumn.read) _ _ _ :=
    reads_byList (f := id) hcolumns (by decide)
  have hsort : Reads (byList "ORDER" (OrderItem.read columnKey)) _ _ _ :=
    reads_byList (f := id) hitems (by decide)
  -- a list of columns ends before the word ORDER
  have hclosed : Closes [.identifier "PARTITION", .mark ',', .mark '.']
      ((Sql.clauseUnlessEmpty ["ORDER", "BY"] items).flatMap Sql.tokens)
      [.identifier "ORDER", .mark ',', .identifier "NULLS", .identifier "PARTITION",
        .mark '.'] := by
    refine closes_of_head (fun t ht => ?_) (by decide)
    rw [head_clauseUnlessEmpty "ORDER" items t ht]
    decide
  have hlists := hpart.bind
    (f := fun partition => do return (partition, ← byList "ORDER" (OrderItem.read columnKey)))
    ((hsort.mono (by decide)).map _) hclosed
  rwa [List.map_id, List.map_id, ← List.flatMap_append, ← Sql.tokens_spaced] at hlists

/-- A window is read onto whatever function stands in front of it. It begins
with OVER, which tells the call from that of an aggregate. -/
theorem WindowExpr.renderOver_reads {w : WindowExpr} :
    (w.renderOver s).Yields fun row =>
      Begins (fun t => decide (t ∈ [Token.identifier "OVER"])) row.tokens ∧
      ∀ w' : WindowExpr, Reads w'.readOver
        (row.tokens ++ [.identifier "AS", .identifier w.aliasName])
        { w' with
          partitionBy := w.partitionBy
          orderBy := w.orderBy
          aliasName := w.aliasName } [] := by
  have hcolumn : ∀ c ∈ w.partitionBy, (s.render c).Yields fun row =>
      Reads QualifiedColumn.read row.tokens c [.mark '.'] := by
    intro c _ row hrow
    obtain rfl := s.render_yields c row hrow
    exact c.reads
  refine (yields_each hcolumn).bind fun columns hcolumns => ?_
  refine (yields_each fun i _ => renderOrderItem_reads i).bind fun items hitems =>
    yields_pure ?_
  have hlists := reads_lists hcolumns hitems
  rw [Sql.tokens_spaced]
  refine ⟨begins_cons (by decide), fun w' => .expect ?_⟩
  show Reads _ (Sql.tokens (Sql.parens _) ++ [] ++ _) _ _
  rw [Sql.tokens_parens, List.append_nil]
  exact (Reads.parens hlists (by decide)).bind ((reads_asName w.aliasName).map _) closes_free

/-- Each argument behind the column has a comma in front of it. There are
four cases, since both arguments may be missing, and an offset of one is not
written where no default follows it. -/
theorem WindowExpr.reads_offset {w : WindowExpr} (h : ∀ v ∈ w.default, Writable v) :
    Reads WindowExpr.readOffset
      (w.offsetArguments.flatMap fun row => .mark ',' :: Sql.tokens row)
      (w.offset.getD 1, w.default.map Literal.canonical) [.mark ','] := by
  have hoffset : ∀ n : UInt32, Reads (optional (.mark ',') nat)
      (.mark ',' :: (Sql.int n.toNat).tokens) (some n.toNat) [] :=
    fun n => .optional_some (reads_nat n.toNat)
  have hnone : ∀ {α : Type} (read : Reader α),
      Reads (optional (.mark ',') read) [] none [.mark ','] :=
    fun read => .optional_none (List.mem_singleton_self _)
  unfold offsetArguments
  cases hd : w.default with
  | some d =>
      have hdefault : Reads (optional (.mark ',') Literal.read) (.mark ',' :: d.sql.tokens)
          (some d.canonical) [.mark ','] :=
        .mono (.optional_some (Literal.reads (h d hd))) (List.nil_subset _)
      have := (hoffset (w.offset.getD 1)).bind (f := fun o => do
        return (UInt32.ofNat (o.getD 1), ← optional (.mark ',') Literal.read))
        (hdefault.map _) closes_free
      -- before a default the offset is always written, also where it is left out or one
      rw [Option.getD_some, UInt32.ofNat_toNat] at this
      show Reads _ ((.mark ',' :: Sql.tokens _) ++ ((.mark ',' :: d.sql.tokens) ++ [])) _ _
      rwa [List.append_nil]
  | none =>
      cases ho : w.offset with
      | none => exact (hnone nat).bind ((hnone Literal.read).map _) (closes_nil fun _ ht => ht)
      | some n =>
          dsimp only
          split
          next hone =>
            -- an offset of one is not written, and an offset that is missing is read as
            -- one
            rw [eq_of_beq hone]
            exact (hnone nat).bind ((hnone Literal.read).map _) (closes_nil fun _ ht => ht)
          next =>
            have := (hoffset n).bind (f := fun o => do
              return (UInt32.ofNat (o.getD 1), ← optional (.mark ',') Literal.read))
              ((hnone Literal.read).map _) closes_free
            rw [Option.getD_some, UInt32.ofNat_toNat] at this
            exact this

/-- The function with its arguments in their canonical form, over a window
that is everything. -/
def WindowExpr.called (w : WindowExpr) : WindowExpr :=
  { unbounded w.function w.column with
    offset := if w.function.isOffset then some (w.offset.getD 1) else w.offset
    default := w.default.map Literal.canonical }

/-- A function that looks at no other row has at most a column. -/
theorem WindowExpr.called_eq {w : WindowExpr} (h : w.validateOffset = .ok ())
    (hf : w.function.isOffset = false) : w.called = unbounded w.function w.column := by
  obtain ⟨hoffset, hdefault⟩ := noOffset_of_valid h hf
  rw [called, hf, hoffset, hdefault]
  rfl

theorem WindowExpr.reads_ranking {w : WindowExpr} (h : w.validateOffset = .ok ())
    (hranking : w.function.isRanking = true) (hcolumn : w.column = none) :
    Reads (readArguments w.function) (Sql.tokens []) w.called [.mark '.', .mark ','] := by
  have hf := WindowFunction.isOffset_of_isRanking hranking
  rw [called_eq h hf, hcolumn, readArguments, if_neg (Bool.eq_false_iff.1 hf)]
  exact .pure _ _

/-- An offset function has its column, its offset and its default in the
parentheses. An offset that is left out is one. -/
theorem WindowExpr.reads_lookAt {w : WindowExpr} (hdefault : ∀ v ∈ w.default, Writable v)
    (hf : w.function.isOffset = true) {c : QualifiedColumn} (hcolumn : w.column = some c) :
    Reads (readArguments w.function) (Sql.tokens (Sql.listed (c.sql :: w.offsetArguments)))
      w.called [.mark '.', .mark ','] := by
  rw [called, readArguments, if_pos hf, if_pos hf, hcolumn, Sql.listed, Sql.tokens_separated]
  have hclosed : Closes [.mark '.']
      (w.offsetArguments.flatMap fun row => .mark ',' :: Sql.tokens row)
      [.mark '.', .mark ','] := by
    refine closes_of_head ?_ (by decide)
    cases w.offsetArguments with
    | nil => rintro t ⟨⟩
    | cons row rows => rintro t ⟨⟩; decide
  exact c.reads.bind (((reads_offset hdefault).mono (by decide)).map _) hclosed

/-- What stands between the parentheses of a function: the arguments of a
function that only a window has, or else those of an aggregate. -/
theorem WindowExpr.renderArguments_reads {w : WindowExpr}
    (hargument : w.validateArgument = .ok ()) (hoffset : w.validateOffset = .ok ()) :
    (w.renderArguments s).Yields fun row =>
      (w.function ∈ WindowFunction.own ∧
        Reads (readArguments w.function) row.tokens w.called [.mark '.', .mark ',']) ∨
      (w.function ∉ WindowFunction.own ∧
        Reads AggregateExpr.readArgument row.tokens (w.column.map .column, false)
          [.mark '.']) := by
  obtain ⟨hcolumn, -⟩ := validateArgument_eq_ok.1 hargument
  obtain ⟨-, -, hwritable⟩ := validateOffset_eq_ok.1 hoffset
  unfold renderArguments
  split
  next hranking =>
    split
    · exact Traced.yields_fail _
    next hc =>
      exact yields_pure (.inl ⟨w.function.mem_own.2 (.inl hranking),
        reads_ranking hoffset hranking hc⟩)
  next hranking =>
    split
    next c hc =>
      intro row hrow
      obtain ⟨column, hrender, hrow⟩ := Traced.bind_eq_ok hrow
      obtain rfl := s.render_yields c column hrender
      cases hrow
      cases hf : w.function.isOffset with
      | true =>
          rw [if_pos rfl]
          exact .inl ⟨w.function.mem_own.2 (.inr hf), reads_lookAt hwritable hf hc⟩
      | false =>
          -- the function is none of a window's own, so the reader takes it for an
          -- aggregate
          have hown : w.function ∉ WindowFunction.own := by
            rw [WindowFunction.mem_own, hf]
            exact fun h => h.elim hranking Bool.false_ne_true
          refine .inr ⟨hown, ?_⟩
          obtain ⟨hread, hbegins⟩ := AggregateInput.reads_column (hcolumn c hc).2
          rw [hc]
          exact AggregateExpr.reads_argument hread hbegins
    next hc =>
      split
      next hf =>
        rw [hc, eq_of_beq hf]
        exact yields_pure (.inr ⟨by decide,
          .next_yes (.expect (.pure _ _)) (List.mem_singleton_self _)⟩)
      next => exact Traced.yields_fail _

-- ========================================================== predicates

/-- Reads a column or a constant. -/
def CaseResult.read : Reader CaseResult :=
  branch (starts Token.isConstant) (do return .literal (← Literal.read))
    (do return .column (← QualifiedColumn.read))

/-- The test of a column against a constant or against a column. -/
def CaseResult.test (c : QualifiedColumn) (op : ComparisonOp) : CaseResult → Condition
  | literal v => .simple ⟨c, op, some (.scalar v)⟩
  | column d => .columns ⟨c, op, d⟩

namespace Condition

/-- Reads `BETWEEN low AND high` behind a column. -/
def readRange (c : QualifiedColumn) : Reader Condition := do
  keyword "BETWEEN"
  let low ← Literal.read
  keyword "AND"
  return between ⟨c, low, ← Literal.read⟩

/-- Reads the right side of a test. -/
def readRight (c : QualifiedColumn) (op : ComparisonOp) : Reader Condition :=
  if op.takesNothing then return simple ⟨c, op, none⟩
  else if op.takesList then do
    return simple ⟨c, op, some (.list (← Reader.parens (list Literal.read)))⟩
  else do return (← CaseResult.read).test c op

/-- Reads one predicate. -/
def read : Reader Condition := do
  let c ← QualifiedColumn.read
  branch (next [.identifier "BETWEEN"]) (readRange c) (do readRight c (← ComparisonOp.read))

/-- The test of a column against constants. -/
def comparison? : Condition → Option Comparison
  | simple p => some p
  | _ => none

end Condition

/-- A subquery comes next. -/
def Reader.startsSubquery (tokens : List Token) : Bool :=
  next [.mark '('] tokens && second (.identifier "SELECT") tokens

/-- A row that reads as a predicate: a column, and behind it a range, or an
operator and a right side that is no subquery. -/
inductive Condition.ReadsAs (p : Condition) : List Token → Prop
  | range (c : QualifiedColumn) {tail : List Token} (hc : c.validate = .ok ())
      (h : Reads (readRange c) (.identifier "BETWEEN" :: tail) p []) :
      ReadsAs p (c.sql.tokens ++ .identifier "BETWEEN" :: tail)
  | test (c : QualifiedColumn) (op : ComparisonOp) {right : List Token}
      (hc : c.validate = .ok ()) (h : Reads (readRight c op) right p [.mark '.'])
      (hright : ∀ rest, Ends [.mark '('] rest → startsSubquery (right ++ rest) = false) :
      ReadsAs p (c.sql.tokens ++ (op.sql.tokens ++ right))

/-- A row that reads as a predicate is read as that predicate. -/
theorem Condition.ReadsAs.reads {p : Condition} {row : List Token} (h : p.ReadsAs row) :
    Reads Condition.read row p [.mark '.'] := by
  cases h with
  | range c hc h =>
      exact c.reads.bind (.mono (.next_yes h (List.mem_singleton_self _)) (List.nil_subset _))
        (closes_cons (by decide))
  | test c op hc h hright =>
      refine c.reads.bind (.next_no_of_begins (op.reads.bind h closes_free) op.begins.append ?_)
        (op.begins.append.closes (by decide))
      decide

/-- A predicate begins with its column. -/
theorem Condition.ReadsAs.begins {p : Condition} {row : List Token} (h : p.ReadsAs row) :
    Begins Token.isName row := by
  cases h with
  | range c hc h => exact (c.begins hc).append
  | test c op hc h hright => exact (c.begins hc).append

theorem CaseResult.reads_literal {v : Literal} (h : Writable v) :
    Reads CaseResult.read v.sql.tokens (.literal v.canonical) [] :=
  .starts_yes ((Literal.reads h).map literal) (Literal.begins h)

/-- A column is read as a result, since no constant begins with a name. -/
theorem CaseResult.reads_column {c : QualifiedColumn} (h : c.validate = .ok ()) :
    Reads CaseResult.read c.sql.tokens (.column c) [.mark '.'] :=
  .starts_no (c.reads.map column) (c.begins h) fun _ => Token.isConstant_of_isName

theorem startsSubquery_of_begins {kind : Token → Bool} {row : List Token}
    (h : Begins kind row) (hkind : kind (.mark '(') = false) (rest : List Token) :
    startsSubquery (row ++ rest) = false :=
  Bool.and_eq_false_iff.2 (.inl (h.next_eq_false (by simp [hkind])))

/-- A list of constants is no subquery. -/
theorem startsSubquery_list {v : Literal} (h : Writable v) (values : List Literal)
    (rest : List Token) : startsSubquery
      ((Sql.parens (Sql.listed ((v :: values).map Literal.sql))).tokens ++ rest) = false := by
  obtain ⟨t, tail, hrow, ht⟩ := Literal.begins h
  have hne : t ∉ [Token.identifier "SELECT"] := not_mem_of_kind ht (by decide)
  rw [Sql.tokens_parens, List.map_cons, Sql.listed, Sql.tokens_separated, hrow]
  exact Bool.and_eq_false_iff.2 (.inr (decide_eq_false hne))

/-- The right side of a test, behind its operator. The reader knows from the
operator whether to expect nothing, a list or a single constant. -/
theorem Comparison.renderValue_reads {p : Comparison} (h : p.validateValue = .ok ()) :
    p.renderValue.Yields fun row => ∃ right, row.tokens = p.op.sql.tokens ++ right ∧
      (∀ c, Reads (Condition.readRight c p.op) right
        (.simple ⟨c, p.op, p.value.map Comparand.canonical⟩) [.mark '.']) ∧
      ∀ rest, Ends [.mark '('] rest → startsSubquery (right ++ rest) = false := by
  unfold renderValue
  -- no right side, a list or one constant, as the operator asks for
  rcases validateValue_eq_ok.1 h with ⟨hn, hv⟩ | ⟨hn, hl, values, hv, hne, hw⟩ |
    ⟨hn, hl, v, hv, -, hw⟩
  · simp only [hn, hv, if_true]
    refine yields_pure ⟨[], (List.append_nil _).symm, fun c => ?_, fun rest hrest => ?_⟩
    · unfold Condition.readRight
      rw [if_pos hn]
      exact .pure _ _
    · exact Bool.and_eq_false_iff.2 (.inl (next_eq_false hrest (List.Subset.refl _)))
  · obtain ⟨v, values, rfl⟩ := List.exists_cons_of_ne_nil hne
    simp only [hn, hl, hv, List.isEmpty_cons, Bool.false_eq_true, if_false]
    refine yields_pure ⟨_, Sql.tokens_spaced _, fun c => ?_, fun rest _ => ?_⟩
    · have hrows : List.Forall₂ (fun v row => Reads Literal.read (Sql.tokens row) v.canonical [])
          (v :: values) ((v :: values).map Literal.sql) :=
        List.forall₂_map_right_iff.2 (List.forall₂_same.2 fun v hv => v.reads (hw v hv))
      have hlist := reads_listed (List.cons_ne_nil _ _) hrows List.not_mem_nil
      unfold Condition.readRight
      rw [if_neg (by rw [hn]; exact Bool.false_ne_true), if_pos hl]
      show Reads _ (Sql.tokens (Sql.parens _) ++ []) _ _
      rw [Sql.tokens_parens]
      exact ((Reads.parens hlist (by decide)).mono (List.nil_subset _)).map_nil _
    · show startsSubquery ((Sql.tokens (Sql.parens _) ++ []) ++ rest) = false
      rw [List.append_nil]
      exact startsSubquery_list (hw v (List.mem_cons_self ..)) values rest
  · simp only [hn, hl, hv, Bool.false_eq_true, if_false]
    refine yields_pure ⟨_, Sql.tokens_spaced _, fun c => ?_, fun rest _ => ?_⟩
    · unfold Condition.readRight
      rw [if_neg (by rw [hn]; exact Bool.false_ne_true),
        if_neg (by rw [hl]; exact Bool.false_ne_true)]
      exact ((CaseResult.reads_literal hw).mono (List.nil_subset _)).map_nil _
    · exact startsSubquery_of_begins (Literal.begins hw).append (by decide) rest

/-- A test of a column against constants is read back. Its right side is no
subquery, as the reader of a filter has to know. -/
theorem Comparison.render_reads {p : Comparison} (h : p.validate = .ok ()) :
    (p.render s).Yields fun row => (Condition.simple p.canonical).ReadsAs row.tokens := by
  obtain ⟨hcolumn, hvalue⟩ := validate_eq_ok.1 h
  intro row hrow
  obtain ⟨column, hc, hrow⟩ := Traced.bind_eq_ok hrow
  obtain ⟨value, hv, hrow⟩ := Traced.bind_eq_ok hrow
  cases hrow
  obtain rfl := s.render_yields p.column column hc
  obtain ⟨right, htokens, hread, hright⟩ := renderValue_reads hvalue value hv
  rw [Sql.tokens_spaced]
  show Condition.ReadsAs _ (p.column.sql.tokens ++ (value.tokens ++ []))
  rw [List.append_nil, htokens]
  exact .test p.column p.op hcolumn (hread p.column) hright

/-- A test of a column against a column is read back. Validity excludes the
operators that take a list or nothing, which would be read in another way. -/
theorem ColumnComparison.render_reads {p : ColumnComparison} (h : p.validate = .ok ()) :
    (p.render s).Yields fun row => (Condition.columns p).ReadsAs row.tokens := by
  obtain ⟨hl, hr, hop⟩ := validate_eq_ok.1 h
  intro row hrow
  obtain ⟨left, hleft, hrow⟩ := Traced.bind_eq_ok hrow
  obtain ⟨right, hright, hrow⟩ := Traced.bind_eq_ok hrow
  cases hrow
  obtain rfl := s.render_yields p.left left hleft
  obtain rfl := s.render_yields p.right right hright
  rw [Sql.tokens_spaced]
  show Condition.ReadsAs _ (p.left.sql.tokens ++ (p.op.sql.tokens ++ (p.right.sql.tokens ++ [])))
  rw [List.append_nil]
  have hplain : p.op.takesNothing = false ∧ p.op.takesList = false := by
    cases hp : p.op <;> rw [hp] at hop <;> first | exact ⟨rfl, rfl⟩ | cases hop
  refine .test p.left p.op hl ?_ fun rest _ =>
    startsSubquery_of_begins (p.right.begins hr) (by decide) rest
  unfold Condition.readRight
  rw [if_neg (by rw [hplain.1]; exact Bool.false_ne_true),
    if_neg (by rw [hplain.2]; exact Bool.false_ne_true)]
  exact (CaseResult.reads_column hr).map _

/-- A range is read back, and told from a test by its keyword. -/
theorem Between.render_reads {p : Between} (h : p.validate = .ok ()) :
    (p.render s).Yields fun row => (Condition.between p.canonical).ReadsAs row.tokens := by
  obtain ⟨hcolumn, hlow, hhigh⟩ := validate_eq_ok.1 h
  intro row hrow
  obtain ⟨column, hc, hrow⟩ := Traced.bind_eq_ok hrow
  cases hrow
  obtain rfl := s.render_yields p.column column hc
  rw [Sql.tokens_spaced]
  refine .range p.column hcolumn (.expect ?_)
  exact (Literal.reads hlow).bind (.expect ((Literal.reads hhigh).map_nil _)) closes_free

/-- A predicate of any kind is read back as its canonical form. -/
theorem Condition.render_reads {p : Condition} (h : p.validate = .ok ()) :
    (p.render s).Yields fun row => p.canonical.ReadsAs row.tokens := by
  cases p with
  | simple p => exact Comparison.render_reads h
  | columns p => exact ColumnComparison.render_reads h
  | between p => exact Between.render_reads h

-- =============================================================== case

/-- Reads `WHEN ... THEN ...`. -/
def CaseBranch.read : Reader CaseBranch := do
  keyword "WHEN"
  let p ← Condition.read
  let condition ← lift p.comparison?
  keyword "THEN"
  return ⟨condition, ← CaseResult.read⟩

/-- Reads the result when no branch applies. -/
def CaseExpr.readElse : Reader (Option CaseResult) :=
  branch (next [.identifier "NULL"]) (do keyword "NULL"; return none)
    (do return some (← CaseResult.read))

/-- Reads `CASE ... ELSE ... END`, which has no name yet. -/
def CaseExpr.read : Reader CaseExpr := do
  keyword "CASE"
  let branches ← many [.identifier "WHEN"] CaseBranch.read
  keyword "ELSE"
  let otherwise ← readElse
  keyword "END"
  return ⟨branches, otherwise, ""⟩

/-- A result is no keyword. It begins with a name or like a constant, and so
it is not taken for the NULL of an ELSE that is left out. -/
theorem CaseResult.render_reads {r : CaseResult} (h : r.validate = .ok ()) :
    (r.render s).Yields fun row => Reads CaseResult.read row.tokens r.canonical [.mark '.'] ∧
      Begins (fun t => t.isName || t.isConstant) row.tokens := by
  obtain ⟨hcolumn, hvalue⟩ := validate_eq_ok.1 h
  cases r with
  | column c =>
      intro row hrow
      obtain rfl := s.render_yields c row hrow
      refine ⟨reads_column (hcolumn c rfl), ?_⟩
      exact (c.begins (hcolumn c rfl)).mono fun _ ht => Bool.or_eq_true_iff.2 (.inl ht)
  | literal v =>
      have hv := hvalue v rfl
      refine yields_pure ⟨(reads_literal hv).mono (List.nil_subset _), ?_⟩
      exact (Literal.begins hv).mono fun _ ht => Bool.or_eq_true_iff.2 (.inr ht)

/-- A branch of a CASE is read back. Its test is one against constants, and
the reader refuses any other. -/
theorem CaseBranch.render_reads {b : CaseBranch} (h : b.validate = .ok ()) :
    (b.render s).Yields fun row =>
      Begins (fun t => decide (t ∈ [Token.identifier "WHEN"])) row.tokens ∧
        Reads CaseBranch.read row.tokens b.canonical [.mark '.'] := by
  obtain ⟨hcondition, hresult⟩ := validate_eq_ok.1 h
  refine (Comparison.render_reads hcondition).bind fun condition hc => ?_
  refine (CaseResult.render_reads hresult).bind fun result hr => yields_pure ?_
  rw [Sql.tokens_spaced]
  refine ⟨begins_cons (by decide), .expect ?_⟩
  exact hc.reads.bind (.lift rfl (.expect (hr.1.map_nil _))) (closes_cons (by decide))

/-- The ELSE of a CASE is read back, where NULL stands for no result. -/
theorem CaseExpr.renderElse_reads {c : CaseExpr} (h : ∀ r ∈ c.otherwise, r.validate = .ok ()) :
    (c.renderElse s).Yields fun row =>
      Reads readElse row.tokens (c.otherwise.map CaseResult.canonical) [.mark '.'] := by
  unfold renderElse
  cases ho : c.otherwise with
  | none => exact yields_pure (.next_yes (.expect (.pure _ _)) (List.mem_singleton_self _))
  | some r =>
      intro row hrow
      obtain ⟨hread, hbegins⟩ := CaseResult.render_reads (h r ho) row hrow
      exact .next_no_of_begins (hread.map some) hbegins (by decide)

/-- A CASE is read back but for its name. The branches go on while WHEN comes
next, and what comes next behind them is ELSE. -/
theorem CaseExpr.render_reads {c : CaseExpr} (h : c.validate = .ok ()) :
    (c.render s).Yields fun row =>
      Reads CaseExpr.read row.tokens { c.canonical with aliasName := "" } [] ∧
        ∃ tail, row.tokens = .identifier "CASE" :: tail := by
  obtain ⟨-, hbranches, hotherwise, -⟩ := validate_eq_ok.1 h
  unfold render
  split
  · exact Traced.yields_fail _
  refine (yields_each fun b hb => CaseBranch.render_reads (hbranches b hb)).bind
    fun rows hrows => ?_
  refine (renderElse_reads hotherwise).bind fun otherwise ho => yields_pure ?_
  have hall : ReadsAll [.identifier "WHEN"] CaseBranch.read (c.branches.map CaseBranch.canonical)
      (rows.map Sql.tokens) [.mark '.'] :=
    List.forall₂_map_left_iff.2 (List.forall₂_map_right_iff.2 hrows)
  rw [Sql.tokens_spaced, List.flatMap_append, List.flatMap_append, List.append_assoc]
  refine ⟨.expect ?_, _, rfl⟩
  refine (Reads.many hall (by decide)).bind (.expect ?_) (closes_cons (by decide))
  exact ho.bind (.expect (.pure _ _)) (closes_cons (by decide))

-- ======================================================== select list

/-- Reads the call of an aggregate or of a function over a window, and the
name behind it. -/
def SelectExpr.readCall : Reader SelectExpr :=
  branch (next (WindowFunction.own.map fun f => .identifier f.name))
    (do
      let f ← WindowFunction.read
      let w ← Reader.parens (WindowExpr.readArguments f)
      return .window (← w.readOver))
    (do
      let a ← AggregateExpr.readCall
      branch (next [.identifier "OVER"])
        (do
          let w ← lift a.window?
          return .window (← w.readOver))
        (do return .aggregate { a with aliasName := ← asName }))

/-- Reads a column, perhaps under a new name. -/
def ColumnExpr.read : Reader ColumnExpr := do
  let c ← QualifiedColumn.read
  return ⟨c.qualifier, c.column, ← optional (.identifier "AS") name⟩

/-- Reads an item of a select list. Only arithmetic begins with a
parenthesis, and only a call has one behind its first token. -/
def SelectExpr.read : Reader SelectExpr :=
  branch (next [.identifier "CASE"])
    (do
      let e ← CaseExpr.read
      return .case { e with aliasName := ← asName })
    (branch (next [.mark '('])
      (branch (second (.mark '('))
        (do
          let e ← CompoundArithmetic.read
          return .compound { e with aliasName := ← asName })
        (do
          let e ← Arithmetic.read
          return .binary ⟨e, ← asName⟩))
      (branch (second (.mark '(')) readCall (do return .column (← ColumnExpr.read))))

/-- The tokens with which an item of a select list would go on. -/
def SelectExpr.more : List Token := [.mark '.', .mark '(', .identifier "AS"]

/-- Every other function over a window has the name of an aggregate, of one
that is plain: it takes no fraction and has no second spelling. -/
theorem WindowFunction.aggregate {f : WindowFunction} (h : f ∉ own) :
    ∃ g : AggregateFunction, g.window? = some f ∧ g.sqlName = f.name ∧ g.base = g ∧
      g.isPercentile = false ∧
      ∀ i p a, AggregateExpr.merged ⟨g, i, false, p, a⟩ = ⟨g, i, false, p, a⟩ := by
  cases f with
  | sum => exact ⟨.sum, rfl, rfl, rfl, rfl, fun _ _ _ => rfl⟩
  | avg => exact ⟨.avg, rfl, rfl, rfl, rfl, fun _ _ _ => rfl⟩
  | min => exact ⟨.min, rfl, rfl, rfl, rfl, fun _ _ _ => rfl⟩
  | max => exact ⟨.max, rfl, rfl, rfl, rfl, fun _ _ _ => rfl⟩
  | count => exact ⟨.count, rfl, rfl, rfl, rfl, fun _ _ _ => rfl⟩
  | _ => exact absurd (by decide) h

/-- A function over a window is read back, by way of the arguments of its own
or by way of the aggregate with its name. -/
theorem WindowExpr.render_reads {w : WindowExpr} (h : w.validate = .ok ()) :
    (w.render s).Yields fun row => Reads SelectExpr.readCall row.tokens (.window w.canonical) [] ∧
      ∃ tail, row.tokens = .identifier w.function.name :: .mark '(' :: tail := by
  obtain ⟨-, hargument, hoffset, -⟩ := validate_eq_ok.1 h
  intro row hrow
  obtain ⟨body, hbody, hrow⟩ := Traced.bind_eq_ok hrow
  cases hrow
  obtain ⟨arguments, ha, hbody⟩ := Traced.bind_eq_ok hbody
  obtain ⟨window, hw, hbody⟩ := Traced.bind_eq_ok hbody
  cases hbody
  obtain ⟨hbegins, hover⟩ := renderOver_reads window hw
  rw [Sql.tokens_named, Sql.tokens_spaced, List.flatMap_cons, Sql.tokens_call,
    List.flatMap_singleton, List.append_assoc]
  refine ⟨?_, _, rfl⟩
  rcases renderArguments_reads hargument hoffset arguments ha with ⟨hown, hread⟩ | ⟨hown, hread⟩
  · refine .next_yes ?_ (List.mem_map_of_mem hown)
    exact (WindowFunction.reads hown).bind
      ((Reads.parens hread (by decide)).bind ((hover _).map _) closes_free) closes_free
  · obtain ⟨g, hwindow, hname, hbase, hplain, hmerged⟩ := WindowFunction.aggregate hown
    have hcall := AggregateExpr.reads_call (f := g) (hbase.symm ▸ hplain) hread
    rw [hname, hbase, hmerged, Sql.tokens_call] at hcall
    -- the name is that of an aggregate, and `OVER` behind the call makes it a window
    have hother : Token.identifier w.function.name ∉
        WindowFunction.own.map fun f => .identifier f.name := by
      revert hown
      cases w.function <;> decide
    have hcolumn : AggregateExpr.window? ⟨g, w.column.map .column, false, none, ""⟩ =
        some (unbounded w.function w.column) := by
      unfold AggregateExpr.window?
      rw [hwindow]
      cases w.column <;> rfl
    -- only the functions of a window alone have an offset or a default
    have hf : w.function.isOffset = false :=
      Bool.eq_false_iff.2 fun hf => hown (w.function.mem_own.2 (.inr hf))
    have hcanonical : w.canonical =
        { w.called with
          partitionBy := w.partitionBy
          orderBy := w.orderBy
          aliasName := w.aliasName } := rfl
    rw [hcanonical, called_eq hoffset hf]
    refine .next_no (hcall.bind (.starts_yes (.lift hcolumn ?_) hbegins.append) closes_free) hother
    exact (hover _).map _

/-- Behind a qualifier comes a point, and behind a column what follows. -/
theorem QualifiedColumn.second_eq_false {c : QualifiedColumn} {rest : List Token}
    (h : Ends [.mark '('] rest) : second (.mark '(') (c.sql.tokens ++ rest) = false := by
  obtain ⟨_ | q, column⟩ := c
  · exact next_eq_false h (List.Subset.refl _)
  · rfl

/-- The name of an item that may have none. -/
theorem reads_optionalName (aliasName : Option String) :
    Reads (optional (.identifier "AS") name)
      (aliasName.toList.flatMap fun text => [.identifier "AS", .identifier text]) aliasName
      SelectExpr.more ∧
    Closes [.mark '.', .mark '(']
      (aliasName.toList.flatMap fun text => [.identifier "AS", .identifier text])
      SelectExpr.more := by
  cases aliasName with
  | none => exact ⟨.optional_none (by decide), closes_nil (by decide)⟩
  | some text =>
      exact ⟨.mono (.optional_some (reads_name text)) (List.nil_subset _),
        closes_cons (by decide)⟩

/-- A column of a select list is read back. It is told from a call by what
stands behind its name. -/
theorem ColumnExpr.render_reads {e : ColumnExpr} (h : e.validate = .ok ()) :
    (e.render s).Yields fun row =>
      Reads SelectExpr.read row.tokens (.column e) SelectExpr.more := by
  obtain ⟨hqualifier, -⟩ := validate_eq_ok.1 h
  intro row hrow
  obtain ⟨column, hc, hrow⟩ := Traced.bind_eq_ok hrow
  obtain rfl := s.render_yields e.source column hc
  have htokens : row.tokens = e.source.sql.tokens ++
      (e.aliasName.toList.flatMap fun text => [.identifier "AS", .identifier text]) := by
    cases ha : e.aliasName with
    | none =>
        rw [ha] at hrow
        cases hrow
        exact (List.append_nil _).symm
    | some text =>
        rw [ha] at hrow
        cases hrow
        exact Sql.tokens_named _ _
  have hbegins : Begins Token.isName e.source.sql.tokens :=
    QualifiedColumn.begins (QualifiedColumn.validate_eq_ok.2 hqualifier)
  obtain ⟨hname, hclosed⟩ := reads_optionalName e.aliasName
  rw [htokens]
  refine .next_no_of_begins (.next_no_of_begins (.branch_no ?_ fun rest hrest => ?_)
    hbegins.append (by decide)) hbegins.append (by decide)
  · have hread := e.source.reads.bind (f := fun c => do
      return ColumnExpr.mk c.qualifier c.column (← optional (.identifier "AS") name))
      (hname.map _) fun rest hrest => (hclosed rest hrest).mono (by decide)
    exact hread.map SelectExpr.column
  -- no parenthesis follows the column, so it is not read as a call
  · rw [List.append_assoc]
    exact QualifiedColumn.second_eq_false ((hclosed rest hrest).mono (by decide))

/-- An item that begins with a call. -/
theorem SelectExpr.reads_call {e : SelectExpr} {text : String} {tail : List Token}
    (h : Reads readCall (.identifier text :: .mark '(' :: tail) e []) (htext : text ≠ "CASE") :
    Reads SelectExpr.read (.identifier text :: .mark '(' :: tail) e [] :=
  .next_no (.next_no (.branch_yes h fun _ => rfl) (by simp)) (by simpa using htext)

/-- The canonical form of an aggregate has the same name. -/
theorem AggregateExpr.aliasName_merged (a : AggregateExpr) : a.merged.aliasName = a.aliasName := by
  obtain ⟨function, input, distinct, percentile, name⟩ := a
  cases function with
  | count => cases distinct <;> rfl
  | _ => rfl

/-- Behind the call of an aggregate comes its name. No OVER does, so the call
is not read as a window. -/
theorem AggregateExpr.reads_named {a : AggregateExpr} {body : List Token}
    (hread : Reads AggregateExpr.readCall body { a.canonical with aliasName := "" } [])
    (hbody : ∃ tail, body = .identifier a.function.sqlName :: .mark '(' :: tail) :
    Reads SelectExpr.read (body ++ [.identifier "AS", .identifier a.aliasName])
      (.aggregate a.canonical) [] := by
  obtain ⟨tail, rfl⟩ := hbody
  have hother : Token.identifier a.function.sqlName ∉
      WindowFunction.own.map fun f => .identifier f.name := by
    cases a.function <;> decide
  have hname : a.canonical =
      { { a.canonical with aliasName := "" } with aliasName := a.aliasName } := by
    have : a.canonical.aliasName = a.aliasName := aliasName_merged _
    rw [← this]
  rw [hname]
  refine SelectExpr.reads_call (.next_no (hread.bind ?_ closes_free) hother)
    (by cases a.function <;> decide)
  exact .next_no ((reads_asName a.aliasName).map _) (by decide)

/-- An item of a select list is read back as its canonical form. The kinds
are told apart by their first two tokens, but for an aggregate over a window,
which OVER tells from a plain one. -/
theorem SelectExpr.render_reads {e : SelectExpr} (h : e.validate = .ok ()) :
    (e.render s).Yields fun row => Reads SelectExpr.read row.tokens e.canonical more := by
  cases e with
  | column e => exact ColumnExpr.render_reads h
  | binary e =>
      obtain ⟨harithmetic, -⟩ := BinaryArithmetic.validate_eq_ok.1 h
      obtain ⟨hl, hr, -⟩ := Arithmetic.validate_eq_ok.1 harithmetic
      refine (Arithmetic.render_reads hl hr).bind fun body hbody => yields_pure ?_
      obtain ⟨hread, tail, htail, hbegins⟩ := hbody
      rw [Sql.tokens_named]
      rw [htail] at hread ⊢
      refine .mono (.next_no (.next_yes (.branch_no ?_ fun rest _ => ?_)
        (List.mem_singleton_self _)) (by decide)) (List.nil_subset _)
      · exact hread.bind ((reads_asName e.aliasName).map _) closes_free
      -- only one parenthesis opens, which tells it from an operation on an operation
      · exact hbegins.append.next_eq_false (by decide)
  | compound e =>
      refine (CompoundArithmetic.render_reads h).bind fun body hbody => yields_pure ?_
      obtain ⟨hread, tail, htail⟩ := hbody
      rw [Sql.tokens_named]
      rw [htail] at hread ⊢
      refine .mono (.next_no (.next_yes (.branch_yes ?_ fun _ => rfl)
        (List.mem_singleton_self _)) (by decide)) (List.nil_subset _)
      exact hread.bind ((reads_asName e.aliasName).map _) closes_free
  | aggregate e =>
      refine (AggregateExpr.renderCall_reads h).bind fun body hbody => yields_pure ?_
      rw [Sql.tokens_named]
      exact (AggregateExpr.reads_named hbody.1 hbody.2).mono (List.nil_subset _)
  | window e =>
      intro row hrow
      obtain ⟨hread, tail, htail⟩ := WindowExpr.render_reads h row hrow
      rw [htail] at hread ⊢
      exact (reads_call hread (by cases e.function <;> decide)).mono (List.nil_subset _)
  | case e =>
      refine (CaseExpr.render_reads h).bind fun body hbody => yields_pure ?_
      obtain ⟨hread, tail, htail⟩ := hbody
      rw [Sql.tokens_named]
      rw [htail] at hread ⊢
      refine .mono (.next_yes ?_ (List.mem_singleton_self _)) (List.nil_subset _)
      exact hread.bind ((reads_asName e.aliasName).map _) closes_free

end

end TypedSelect
