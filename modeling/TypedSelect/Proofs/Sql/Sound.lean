/-
The SQL of a valid query is a sound row.

One lemma for each renderer: what a valid node is written as keeps its
tokens, matches its parentheses, and holds the strings of the node in
order. Validity is what makes this true: unquoted names have the shape of
names, and numbers are finite, so they are written as digits. The strings
may hold anything.

# The shape of the statements

A rendering may fail where a name is not in scope, so the lemmas say what
holds of its row if there is one (`Yields`). Each has the same hypothesis,
that the node is valid, which is taken apart by the lemma that says what
the validator of the node demands, and each is put together from the
lemmas of the parts by the constructions of rows. Most nodes have no
strings; those that do are constants, and whatever constants stand in: the
right side of a test, a range, a result of a CASE, the default of an
offset function.

# Names

Names are written as they are, without quotes, so all of them must have
the shape of a name. Those of columns, tables and functions do by their
tables; those of the caller, which are aliases and qualifiers, do because
the validator has looked at them. The reserved words play no part here: a
reserved word is scanned as a word like any other.

# Where lexemes touch

Two renderers write lexemes side by side without a blank, a comma or a
parenthesis between them: the point of a qualified column, and the minus
of a negative number. The point is a punctuation mark, and in front of the
minus there is a blank or an opening parenthesis, never an operator, so it
opens no comment.
-/
import TypedSelect.Proofs.Double.Shortest
import TypedSelect.Proofs.Sql.Row
import TypedSelect.Proofs.Strings
import TypedSelect.Proofs.Outcome
import TypedSelect.Sql.Statement

namespace TypedSelect

open Scan (IsNumeral)
open Sql (Sound AllSound)
open Traced (Yields yields_pure yields_then yields_each)
open Validation (Writable)

-- ============================================================== names

/-- What the validator admits as a name has the shape of a name, and is no
reserved word besides. -/
theorem shape_of_isIdentifier {name : String} (h : isIdentifier name = true) :
    isIdentifierShape name.toList = true := by
  simp only [isIdentifier, Bool.and_eq_true] at h
  exact h.1.1

/-- The name of every column has the shape of a name. -/
theorem Column.shape (c : Column) : isIdentifierShape c.name.toList = true := by
  cases c <;> decide

/-- The name of every table has the shape of a name. -/
theorem Table.shape (t : Table) : isIdentifierShape t.name.toList = true := by
  cases t <;> decide

/-- The name of every aggregate in SQL has the shape of a name. -/
theorem AggregateFunction.shape (f : AggregateFunction) :
    isIdentifierShape f.sqlName.toList = true := by
  cases f <;> decide

/-- The name of every function over a window has the shape of a name. -/
theorem WindowFunction.shape (f : WindowFunction) :
    isIdentifierShape f.name.toList = true := by
  cases f <;> decide

/-- Fixed keywords, each of which has the shape of a name. -/
theorem Sql.Sound.keywords {names : List String}
    (h : names.all (fun name => isIdentifierShape name.toList) = true) :
    Sound (Sql.words names) [] :=
  .words fun name hname => List.all_eq_true.1 h name hname

-- ========================================================== constants

namespace Sql

/-- A minus sign ends before a digit, so the two are scanned as a sign and a
number. A reader of SQL takes them for a negative number. -/
theorem Sound.signed {text : String} (negative : Bool) (h : IsNumeral text.toList) :
    Sound (signed negative [.number text]) [] := by
  cases negative with
  | false => exact .number h
  | true =>
      have hsign : Sound [.sign "-"] [] := .sign (by decide) (by decide)
      apply hsign.append (.number h)
      rintro a ⟨⟩ b ⟨⟩ c hc
      obtain ⟨whole, part, htext, hne, hwhole, -⟩ := h
      obtain ⟨d, whole, rfl⟩ := List.exists_cons_of_ne_nil hne
      have hcd : c = d := by
        rw [show (Lexeme.number text).chars = text.toList from rfl, htext] at hc
        simpa using hc.symm
      have hdigit : c.isDigit = true := hcd ▸ hwhole d (List.mem_cons_self ..)
      -- a minus would go on with another operator character, and a digit is none
      have hop : Scan.isOperator c = false := by
        cases hc : Scan.isOperator c with
        | false => rfl
        | true =>
            have := Scan.of_isOperator (p := fun d => !d.isDigit) hc (by decide)
            rw [hdigit] at this
            cases this
      simp [Lexeme.endsBefore, hop]

/-- A whole number without a sign is written as digits. -/
theorem isNumeral_toString (n : Nat) : IsNumeral (toString n).toList := by
  refine ⟨Nat.toDigits 10 n, [], ?_, Nat.toDigits_ne_nil,
    allDigits_toDigits n, .inl rfl⟩
  rw [List.append_nil]
  exact Nat.toList_repr

/-- A whole number is digits, with a minus before it if it is negative. -/
theorem int_sound (i : Int) : Sound (Sql.int i) [] :=
  .signed _ (isNumeral_toString _)

end Sql

namespace Double

/-- The plain form of a magnitude is digits, with a point among them or not.
There is no exponent, which would be scanned as a name. -/
theorem isNumeral_plainMagnitude (x : Magnitude) : IsNumeral (plainMagnitude x) := by
  obtain ⟨hne, hwhole, hpart⟩ := (x.shortest .up).positional_digits
  unfold plainMagnitude
  split
  next whole heq =>
    rw [heq] at hne hwhole
    exact ⟨whole, [], (List.append_nil _).symm, hne, hwhole, .inl rfl⟩
  next whole part hnil heq =>
    rw [heq] at hne hwhole hpart
    exact ⟨whole, '.' :: part, rfl, hne, hwhole, .inr ⟨part, rfl, hnil, hpart⟩⟩

/-- A finite number is written as digits. One that is not finite is written
as a word, which is why the validator refuses it. -/
theorem sql_sound {x : Double} (h : x.isFinite = true) : Sound x.sql [] := by
  cases x with
  | finite negative m =>
      have htext : IsNumeral (unsignedText (.finite negative m)).toList := by
        rw [unsignedText, String.toList_ofList]
        exact isNumeral_plainMagnitude m
      exact Sql.Sound.signed negative htext
  | infinite negative => cases h
  | nan => cases h

end Double

/-- A number is whole or a floating point number. -/
theorem Number.sql_sound {n : Number} (h : n.isFinite = true) : Sound n.sql [] := by
  cases n with
  | int i => exact Sql.int_sound _
  | float x => exact Double.sql_sound h

/-- A constant holds the string that it is, or none. -/
theorem Literal.sql_sound {v : Literal} (h : Writable v) : Sound v.sql v.strings := by
  cases v with
  | bool b => cases b <;> exact .word (by decide)
  | int i => exact Sql.int_sound _
  | float x => exact Double.sql_sound h
  | string s => exact .string s

-- ============================================================ columns

/-- A point ends a qualifier and is ended by any name. The qualifier has been
looked at by the validator, and the column has its name from a table. -/
theorem QualifiedColumn.sql_sound {c : QualifiedColumn} (h : c.validate = .ok ()) :
    Sound c.sql [] := by
  rw [validate_eq_ok] at h
  have hcolumn : Sound [.word c.column.name] [] := .word c.column.shape
  unfold sql
  cases hq : c.qualifier with
  | none => exact hcolumn
  | some q =>
      have hname : Sound [.word q] [] := .word (shape_of_isIdentifier (h q hq))
      have hpoint : Sound [.sign "."] [] := .sign (by decide) (by decide)
      refine hname.append (hpoint.append hcolumn ?_) ?_
      · rintro a ⟨⟩ b -
        exact Sql.fits_mark (by decide) b
      · rintro a ⟨⟩ b ⟨⟩ d hd
        have : d = '.' := by simpa [Lexeme.chars] using hd.symm
        subst this
        rfl

theorem Sql.columns_sound (columns : List Column) : Sound (Sql.columns columns) [] := by
  refine .listed (.silent fun row hrow => ?_)
  obtain ⟨c, -, rfl⟩ := List.mem_map.1 hrow
  exact .word c.shape

/-- A table, under a name that has been looked at or under its own. -/
theorem Sql.table_sound {table : Table} {aliasName : Option String}
    (h : ∀ name ∈ aliasName, isIdentifier name = true) :
    Sound (Sql.table table aliasName) [] := by
  have htable : Sound [.word table.name] [] := .word table.shape
  cases aliasName with
  | none => exact htable
  | some name => exact htable.named (shape_of_isIdentifier (h name rfl))

theorem ArithmeticOp.sql_sound (op : ArithmeticOp) : Sound op.sql [] := by
  cases op <;> exact .sign (by decide) (by decide)

/-- A comparison operator is one sign, or one to three keywords. -/
theorem ComparisonOp.sql_sound (op : ComparisonOp) : Sound op.sql [] := by
  cases op <;>
    first
    | exact .sign (by decide) (by decide)
    | exact .keywords (by decide)

theorem Sql.Sound.join (logic : Logic) {rows : List Sql} {strings : List String}
    (h : AllSound rows strings) : Sound (logic.join rows) strings :=
  .separated (separator_word (by cases logic <;> decide)) h

theorem NullsOrder.sql_sound (o : NullsOrder) : Sound o.sql [] := by
  cases o <;> exact .keywords (by decide)

/-- The two keywords are written as the phrase that the vocabulary has for
the place, with one blank between them. -/
theorem NullsOrder.text_sql (o : NullsOrder) : Sql.text o.sql = o.sqlName := by
  cases o with
  | first => rfl
  | last => rfl

-- ========================================================= expressions

section

variable {s : Scope}

/-- A column reference is written as the caller spelled it. -/
theorem Scope.render_sound {c : QualifiedColumn} (h : c.validate = .ok ()) :
    (s.render c).Yields fun row => Sound row [] := by
  unfold Scope.render
  split
  · exact yields_pure (c.sql_sound h)
  · exact yields_then fun _ => Traced.yields_fail _

/-- An operand is a column or a finite number. -/
theorem Operand.render_sound {e : Entity} {field : String} {o : Operand}
    (h : o.validate e field = .ok ()) :
    (o.render s).Yields fun row => Sound row [] := by
  obtain ⟨hcolumn, hnumber⟩ := validate_eq_ok.1 h
  cases o with
  | column c => exact Scope.render_sound (hcolumn c rfl)
  | number n => exact yields_pure (n.sql_sound (hnumber n rfl))

/-- An operator between two rows, in parentheses. -/
theorem Sql.operation_sound (op : ArithmeticOp) {left right : Sql} (hl : Sound left [])
    (hr : Sound right []) : Sound (parens (spaced [left, op.sql, right])) [] :=
  Sound.parens (.spaced (.skip hl (.skip op.sql_sound (.last hr))))

theorem Arithmetic.render_sound {e : Entity} {field field' : String} {a : Arithmetic}
    (hl : a.left.validate e field = .ok ()) (hr : a.right.validate e field' = .ok ()) :
    (a.render s).Yields fun row => Sound row [] :=
  (Operand.render_sound hl).bind fun _ hleft =>
    (Operand.render_sound hr).bind fun _ hright =>
      yields_pure (Sql.operation_sound a.op hleft hright)

/-- An operation on an operation, in parentheses within parentheses. -/
theorem CompoundArithmetic.render_sound {c : CompoundArithmetic}
    (h : c.validate = .ok ()) : (c.render s).Yields fun row => Sound row [] := by
  obtain ⟨hl, hr, houter, -⟩ := validate_eq_ok.1 h
  exact (Arithmetic.render_sound hl hr).bind fun _ hinner =>
    (Operand.render_sound houter).bind fun _ hout =>
      yields_pure (Sql.operation_sound c.op hinner hout)

-- ========================================================== aggregates

/-- The star of a count of rows is one operator, and it stands between
parentheses. -/
theorem Sql.star_sound : Sound [.sign "*"] [] := .sign (by decide) (by decide)

/-- The input of an aggregate is a column, an operation, or the star. Without
an input the rendering fails for all but a plain count. -/
theorem AggregateExpr.renderInput_sound {a : AggregateExpr}
    (h : a.validateInput = .ok ()) :
    (a.renderInput s).Yields fun row => Sound row [] := by
  obtain ⟨hinput, -⟩ := validateInput_eq_ok.1 h
  unfold renderInput
  cases hi : a.input with
  | none =>
      dsimp only
      split
      · exact yields_pure Sql.star_sound
      · exact Traced.yields_fail _
  | some input =>
      have hvalid := hinput input hi
      cases input with
      | column c => exact Scope.render_sound hvalid
      | arithmetic e =>
          obtain ⟨hl, hr, -⟩ := Arithmetic.validate_eq_ok.1 hvalid
          exact Arithmetic.render_sound hl hr

/-- A percentile has its fraction in parentheses of its own, before the order
it is taken in. -/
theorem Sql.percentile_sound {f : AggregateFunction} {fraction input : Sql}
    (hf : Sound fraction []) (hi : Sound input []) :
    Sound (percentile f.sqlName fraction input) [] := by
  have hgroup : Sound (words ["WITHIN", "GROUP"]) [] := .keywords (by decide)
  have horder : Sound (words ["ORDER", "BY"]) [] := .keywords (by decide)
  have hsort : Sound (parens (spaced [words ["ORDER", "BY"], input])) [] :=
    Sound.parens (.spaced (.skip horder (.last hi)))
  exact .spaced (.skip (.call f.shape hf) (.skip hgroup (.last hsort)))

theorem Sql.distinctCall_sound {f : AggregateFunction} {argument : Sql}
    (h : Sound argument []) : Sound (distinctCall f.sqlName argument) [] :=
  .call f.shape (.spaced (.skip (.keywords (by decide)) (.last h)))

theorem Sql.half_sound : Sound half [] := by
  refine .number ⟨['0'], ['.', '5'], by decide, List.cons_ne_nil _ _,
    List.forall_mem_singleton.2 rfl, .inr ⟨['5'], rfl, List.cons_ne_nil _ _,
      List.forall_mem_singleton.2 rfl⟩⟩

/-- The call of an aggregate, which is written in one of three ways: as a
percentile, with DISTINCT, or as it is. -/
theorem AggregateExpr.renderCall_sound {a : AggregateExpr} (h : a.validate = .ok ()) :
    (a.renderCall s).Yields fun row => Sound row [] := by
  obtain ⟨-, hinput, -, hpercentile⟩ := validate_eq_ok.1 h
  have hfinite : ∀ p ∈ a.percentile, p.isFinite = true := fun p hp =>
    Double.isFinite_of_inUnitInterval ((validatePercentile_eq_ok.1 hpercentile).2 p hp)
  refine (renderInput_sound hinput).bind fun input hi => ?_
  split
  · split
    next p hp => exact yields_pure (Sql.percentile_sound (Double.sql_sound (hfinite p hp)) hi)
    next => exact Traced.yields_fail _
  · split
    next p hp => exact yields_pure (Sql.percentile_sound (Double.sql_sound (hfinite p hp)) hi)
    next => exact Traced.yields_fail _
  · exact yields_pure (Sql.percentile_sound Sql.half_sound hi)
  · exact yields_pure (Sql.distinctCall_sound hi)
  · apply yields_pure
    split
    · exact Sql.distinctCall_sound hi
    · exact .call a.function.shape hi

-- ====================================================== sort, windows

/-- A sort key, which is a column or a name, with its direction, and with the
place of the nulls where it is given. -/
theorem OrderItem.render_sound {i : OrderItem} (h : i.validate = .ok ()) :
    (i.render s).Yields fun row => Sound row [] := by
  obtain ⟨hcolumn, hname⟩ := validate_eq_ok.1 h
  have hkey : (i.key.render s).Yields fun row => Sound row [] := by
    cases hk : i.key with
    | column c => exact Scope.render_sound (hcolumn c hk)
    | output name => exact yields_pure (.word (shape_of_isIdentifier (hname name hk)))
  refine hkey.bind fun key hkey => yields_pure ?_
  have hdirection : Sound (Sql.words [i.direction.name]) [] := by
    cases i.direction <;> exact .keywords (by decide)
  refine .spaced (.skip hkey (.skip hdirection (.silent fun row hrow => ?_)))
  obtain ⟨o, -, rfl⟩ := Option.map_eq_some_iff.1 (Option.mem_toList.1 hrow)
  exact o.sql_sound

/-- The default of an offset function is the only constant of a window. The
offset before it is a number and has no string. -/
theorem WindowExpr.offsetArguments_sound {w : WindowExpr}
    (h : ∀ v ∈ w.default, Writable v) : AllSound w.offsetArguments w.strings := by
  unfold offsetArguments strings
  cases hd : w.default with
  | some v =>
      rw [Option.toList_some, List.flatMap_singleton]
      exact .skip (Sql.int_sound _) (.last (v.sql_sound (h v hd)))
  | none =>
      refine .silent fun row hrow => ?_
      cases ho : w.offset with
      | none => rw [ho] at hrow; cases hrow
      | some n =>
          rw [ho] at hrow
          dsimp only at hrow
          split at hrow
          · cases hrow
          · rw [List.mem_singleton.1 hrow]
            exact Sql.int_sound _

/-- The arguments of a function over a window hold the string of its default.
A ranking function has no arguments and an offset function up to three. -/
theorem WindowExpr.renderArguments_sound {w : WindowExpr}
    (hargument : w.validateArgument = .ok ()) (hoffset : w.validateOffset = .ok ()) :
    (w.renderArguments s).Yields fun row => Sound row w.strings := by
  obtain ⟨hcolumn, -⟩ := validateArgument_eq_ok.1 hargument
  obtain ⟨-, -, hwritable⟩ := validateOffset_eq_ok.1 hoffset
  -- a function without a default has no strings
  have hsilent : w.function.isOffset = false → w.strings = [] := by
    intro hf
    rw [strings, (noOffset_of_valid hoffset hf).2]
    rfl
  unfold renderArguments
  split
  next hranking =>
    split
    · exact Traced.yields_fail _
    · rw [hsilent (WindowFunction.isOffset_of_isRanking hranking)]
      exact yields_pure .nil
  · split
    next c hc =>
      refine (Scope.render_sound (hcolumn c hc).2).bind fun column hc => yields_pure ?_
      cases hf : w.function.isOffset with
      | true => exact .listed (.skip hc (offsetArguments_sound hwritable))
      | false =>
          rw [hsilent hf]
          exact hc
    · split
      next hcount =>
        rw [hsilent (by rw [eq_of_beq hcount]; rfl)]
        exact yields_pure Sql.star_sound
      · exact Traced.yields_fail _

/-- A list behind its keywords, or nothing at all where the list is empty. -/
theorem Sql.clauseUnlessEmpty_sound {keywords : List String} {rows : List Sql}
    (hk : Sound (words keywords) []) (h : ∀ row ∈ rows, Sound row []) :
    AllSound (clauseUnlessEmpty keywords rows) [] := by
  unfold clauseUnlessEmpty
  split
  · exact .nil
  · exact .last (.spaced (.skip hk (.last (.listed (.silent h)))))

/-- Elements that are each written without strings give rows without strings.
-/
theorem Sql.silent_of_forall₂ {α : Type} {l : List α} {rows : List Sql}
    (h : List.Forall₂ (fun _ row => Sound row []) l rows) : ∀ row ∈ rows, Sound row [] := by
  induction h with
  | nil => simp
  | cons h hrest ih => exact List.forall_mem_cons.2 ⟨h, ih⟩

/-- The window itself is a list of columns and one of sort keys, and has no
strings. -/
theorem WindowExpr.renderOver_sound {w : WindowExpr}
    (hpartition : ∀ c ∈ w.partitionBy, c.validate = .ok ())
    (horder : ∀ i ∈ w.orderBy, w.validateOrder i = .ok ()) :
    (w.renderOver s).Yields fun row => Sound row [] := by
  have hitem : ∀ i ∈ w.orderBy,
      (renderOrderItem s i).Yields fun row => Sound row [] := by
    intro i hi
    have hvalid := horder i hi
    unfold renderOrderItem
    unfold validateOrder at hvalid
    split
    -- a key that names an output has no SQL in a window
    · exact Traced.yields_fail _
    next c hk =>
      rw [hk] at hvalid
      exact OrderItem.render_sound hvalid
  refine (yields_each fun c hc => Scope.render_sound (hpartition c hc)).bind
    fun columns hcolumns => ?_
  refine (yields_each hitem).bind fun items hitems => yields_pure ?_
  have hpart : AllSound (Sql.clauseUnlessEmpty ["PARTITION", "BY"] columns) [] :=
    Sql.clauseUnlessEmpty_sound (.keywords (by decide)) (Sql.silent_of_forall₂ hcolumns)
  have hsort : AllSound (Sql.clauseUnlessEmpty ["ORDER", "BY"] items) [] :=
    Sql.clauseUnlessEmpty_sound (.keywords (by decide)) (Sql.silent_of_forall₂ hitems)
  exact .spaced (.skip (.keywords (by decide))
    (.last (Sql.Sound.parens (.spaced (hpart.append hsort)))))

theorem WindowExpr.render_sound {w : WindowExpr} (h : w.validate = .ok ()) :
    (w.render s).Yields fun row => Sound row w.strings := by
  obtain ⟨hname, hargument, hoffset, hpartition, horder⟩ := validate_eq_ok.1 h
  have hcall : (w.renderCall s).Yields fun row => Sound row w.strings := by
    refine (renderArguments_sound hargument hoffset).bind fun arguments ha => ?_
    refine (renderOver_sound hpartition horder).bind fun window hw => yields_pure ?_
    have := AllSound.cons (Sound.call w.function.shape ha) (.last hw)
    rw [List.append_nil] at this
    exact .spaced this
  exact hcall.bind fun body hbody =>
    yields_pure (hbody.named (shape_of_isIdentifier hname))

-- ========================================================== predicates

/-- The right side of an operator holds the constants of the test. There is a
case for no constant, one for a list and one for a single constant. -/
theorem Comparison.renderValue_sound {p : Comparison} (h : p.validateValue = .ok ()) :
    p.renderValue.Yields fun row => Sound row p.strings := by
  unfold renderValue strings
  rcases validateValue_eq_ok.1 h with ⟨hn, hv⟩ | ⟨hn, hl, values, hv, hne, hw⟩ |
    ⟨hn, hl, v, hv, -, hw⟩
  · simp only [hn, hv, if_true]
    exact yields_pure p.op.sql_sound
  · have hne' : values.isEmpty = false := by simpa using hne
    simp only [hn, hl, hv, hne', Bool.false_eq_true, if_false, Option.toList_some,
      List.flatMap_singleton, Comparand.strings]
    have hvalues : AllSound (values.map Literal.sql) (values.flatMap Literal.strings) :=
      .of_forall₂ (List.forall₂_map_right_iff.2
        (List.forall₂_same.2 fun v hv => v.sql_sound (hw v hv)))
    exact yields_pure (.spaced (.skip p.op.sql_sound
      (.last (Sql.Sound.parens (.listed hvalues)))))
  · simp only [hn, hl, hv, Bool.false_eq_true, if_false, Option.toList_some,
      List.flatMap_singleton, Comparand.strings]
    exact yields_pure (.spaced (.skip p.op.sql_sound (.last (v.sql_sound hw))))

/-- A test of a column against a constant or a list of constants. -/
theorem Comparison.render_sound {p : Comparison} (h : p.validate = .ok ()) :
    (p.render s).Yields fun row => Sound row p.strings := by
  obtain ⟨hcolumn, hvalue⟩ := validate_eq_ok.1 h
  exact (Scope.render_sound hcolumn).bind fun _ hc =>
    (renderValue_sound hvalue).bind fun _ hv =>
      yields_pure (.spaced (.skip hc (.last hv)))

theorem ColumnComparison.render_sound {p : ColumnComparison} (h : p.validate = .ok ()) :
    (p.render s).Yields fun row => Sound row [] := by
  obtain ⟨hleft, hright, -⟩ := validate_eq_ok.1 h
  exact (Scope.render_sound hleft).bind fun _ hl =>
    (Scope.render_sound hright).bind fun _ hr =>
      yields_pure (.spaced (.skip hl (.skip p.op.sql_sound (.last hr))))

/-- A range holds the strings of its two ends, the lower one first. -/
theorem Between.render_sound {p : Between} (h : p.validate = .ok ()) :
    (p.render s).Yields fun row => Sound row p.strings := by
  obtain ⟨hcolumn, hlow, hhigh⟩ := validate_eq_ok.1 h
  refine (Scope.render_sound hcolumn).bind fun _ hc => yields_pure ?_
  exact .spaced (.skip hc (.skip (.keywords (by decide))
    (.cons (p.low.sql_sound hlow) (.skip (.keywords (by decide))
      (.last (p.high.sql_sound hhigh))))))

theorem Condition.render_sound {c : Condition} (h : c.validate = .ok ()) :
    (c.render s).Yields fun row => Sound row c.strings := by
  cases c with
  | simple p => exact Comparison.render_sound h
  | columns p => exact ColumnComparison.render_sound h
  | between p => exact Between.render_sound h

-- ================================================================ case

/-- A result of a CASE is a column or a constant. -/
theorem CaseResult.render_sound {r : CaseResult} (h : r.validate = .ok ()) :
    (r.render s).Yields fun row => Sound row r.strings := by
  obtain ⟨hcolumn, hliteral⟩ := validate_eq_ok.1 h
  cases r with
  | column c => exact Scope.render_sound (hcolumn c rfl)
  | literal v => exact yields_pure (v.sql_sound (hliteral v rfl))

/-- A branch holds the strings of its test and then those of its result. -/
theorem CaseBranch.render_sound {b : CaseBranch} (h : b.validate = .ok ()) :
    (b.render s).Yields fun row => Sound row b.strings := by
  obtain ⟨hcondition, hresult⟩ := validate_eq_ok.1 h
  refine (Comparison.render_sound hcondition).bind fun _ hc => ?_
  refine (CaseResult.render_sound hresult).bind fun _ hr => yields_pure ?_
  exact .spaced (.skip (.keywords (by decide)) (.cons hc
    (.skip (.keywords (by decide)) (.last hr))))

/-- A CASE holds the strings of its branches and then that of its ELSE. Where
the ELSE is left out NULL is written, which is a keyword. -/
theorem CaseExpr.render_sound {c : CaseExpr} (h : c.validate = .ok ()) :
    (c.render s).Yields fun row => Sound row c.strings := by
  obtain ⟨-, hbranches, hotherwise, -⟩ := validate_eq_ok.1 h
  have helse : (c.renderElse s).Yields fun row =>
      Sound row (c.otherwise.toList.flatMap CaseResult.strings) := by
    unfold renderElse
    cases ho : c.otherwise with
    | none => exact yields_pure (.keywords (by decide))
    | some r =>
        rw [Option.toList_some, List.flatMap_singleton]
        exact CaseResult.render_sound (hotherwise r ho)
  unfold render
  split
  · exact Traced.yields_fail _
  · refine (yields_each fun b hb => CaseBranch.render_sound (hbranches b hb)).bind
      fun branches hb => ?_
    refine helse.bind fun otherwise ho => yields_pure ?_
    have hcase : AllSound [Sql.words ["CASE"]] [] := .last (.keywords (by decide))
    have hword : Sound (Sql.words ["ELSE"]) [] := .keywords (by decide)
    have hend : AllSound [Sql.words ["END"]] [] := .last (.keywords (by decide))
    have hrest := AllSound.skip hword (AllSound.cons ho hend)
    rw [List.append_nil] at hrest
    exact .spaced ((hcase.append (.of_forall₂ hb)).append hrest)

-- ========================================================= select list

/-- A column of a select list, under its own name or another. -/
theorem ColumnExpr.render_sound {e : ColumnExpr} (h : e.validate = .ok ()) :
    (e.render s).Yields fun row => Sound row [] := by
  obtain ⟨hqualifier, hname⟩ := validate_eq_ok.1 h
  have hsource : e.source.validate = .ok () :=
    QualifiedColumn.validate_eq_ok.2 hqualifier
  refine (Scope.render_sound hsource).bind fun _ hc => yields_pure ?_
  split
  next name hn => exact hc.named (shape_of_isIdentifier (hname name hn))
  next => exact hc

/-- An item of a select list holds the strings of its window or its
CASE. -/
theorem SelectExpr.render_sound {e : SelectExpr} (h : e.validate = .ok ()) :
    (e.render s).Yields fun row => Sound row e.strings := by
  cases e with
  | column e => exact ColumnExpr.render_sound h
  | binary e =>
      obtain ⟨harithmetic, hname⟩ := BinaryArithmetic.validate_eq_ok.1 h
      obtain ⟨hl, hr, -⟩ := Arithmetic.validate_eq_ok.1 harithmetic
      exact (Arithmetic.render_sound hl hr).bind fun _ hbody =>
        yields_pure (hbody.named (shape_of_isIdentifier hname))
  | compound e =>
      obtain ⟨-, -, -, -, -, hname⟩ := CompoundArithmetic.validate_eq_ok.1 h
      exact (CompoundArithmetic.render_sound h).bind fun _ hbody =>
        yields_pure (hbody.named (shape_of_isIdentifier hname))
  | aggregate e =>
      have hname := (AggregateExpr.validate_eq_ok.1 h).1
      exact (AggregateExpr.renderCall_sound h).bind fun _ hbody =>
        yields_pure (hbody.named (shape_of_isIdentifier hname))
  | window e => exact WindowExpr.render_sound h
  | case e =>
      obtain ⟨-, -, -, hname⟩ := CaseExpr.validate_eq_ok.1 h
      exact (CaseExpr.render_sound h).bind fun _ hbody =>
        yields_pure (hbody.named (shape_of_isIdentifier hname))

-- ============================================================= filters

/-- The predicates of a group with its connective between them. -/
theorem ConditionGroup.renderBody_sound {g : ConditionGroup} (h : g.validate = .ok ()) :
    (g.renderBody s).Yields fun row => Sound row g.strings := by
  obtain ⟨-, hall⟩ := validate_eq_ok.1 h
  unfold renderBody
  split
  · exact Traced.yields_fail _
  · exact (yields_each fun c hc => Condition.render_sound (hall c hc)).bind
      fun _ hrows => yields_pure (.join g.logic (.of_forall₂ hrows))

/-- A group of several predicates is in parentheses, and one alone is not. -/
theorem ConditionGroup.render_sound {g : ConditionGroup} (h : g.validate = .ok ()) :
    (g.render s).Yields fun row => Sound row g.strings := by
  refine (renderBody_sound h).bind fun body hbody => yields_pure ?_
  split
  · exact hbody.parens
  · exact hbody

/-- The conditions of a join hold the strings of their groups in order, with
parentheses around each of several groups. -/
theorem Join.renderOn_sound {groups : List ConditionGroup}
    (h : ∀ g ∈ groups, g.validate = .ok ()) :
    (renderOn s groups).Yields fun row =>
      Sound row (groups.flatMap ConditionGroup.strings) := by
  match groups with
  | [] => exact Traced.yields_fail _
  | [g] =>
      rw [List.flatMap_singleton]
      exact ConditionGroup.renderBody_sound (h g (List.mem_singleton_self g))
  | g :: g' :: rest =>
      refine (yields_each fun g hg => ConditionGroup.renderBody_sound (h g hg)).bind
        fun bodies hbodies => yields_pure ?_
      have hparens : AllSound (bodies.map Sql.parens) _ :=
        .of_forall₂ (List.forall₂_map_right_iff.2 (hbodies.imp fun _ _ hbody => hbody.parens))
      exact .join .and hparens

/-- The parts of a filter are its groups, and behind them its ranges. -/
theorem Filter.renderParts_sound {w : Filter} (hg : ∀ g ∈ w.groups, g.validate = .ok ())
    (hb : ∀ p ∈ w.between, p.validate = .ok ()) :
    (w.renderParts s).Yields fun parts => AllSound parts w.strings :=
  (yields_each fun g hm => ConditionGroup.render_sound (hg g hm)).bind fun _ hgroups =>
    (yields_each fun p hm => Between.render_sound (hb p hm)).bind fun _ hranges =>
      yields_pure ((AllSound.of_forall₂ hgroups).append (.of_forall₂ hranges))

/-- The parts of a filter with its connective between them. -/
theorem Sql.joinParts_sound {e : Entity} {logic : Logic} {parts : List Sql}
    {strings : List String} (h : AllSound parts strings) :
    (joinParts e logic parts).Yields fun row => Sound row strings := by
  unfold joinParts
  split
  · exact Traced.yields_fail _
  · exact yields_pure (.join logic h)

theorem Filter.render_sound {w : Filter} (h : w.validate = .ok ()) :
    (w.render s).Yields fun row => Sound row w.strings := by
  obtain ⟨-, hgroups, hranges⟩ := validate_eq_ok.1 h
  exact (renderParts_sound hgroups hranges).bind fun _ hparts =>
    Sql.joinParts_sound hparts

/-- A filter that may be missing holds its strings if it is there. -/
theorem Filter.renderOptional_sound {w : Option Filter}
    (h : ∀ f ∈ w, f.validate = .ok ()) :
    (renderOptional s w).Yields fun rows =>
      AllSound rows (w.toList.flatMap Filter.strings) := by
  cases w with
  | none => exact yields_pure .nil
  | some f =>
      rw [Option.toList_some, List.flatMap_singleton]
      exact (Filter.render_sound (h f rfl)).bind fun _ hbody =>
        yields_pure (.skip (.keywords (by decide)) (.last hbody))

theorem Sql.groupBy_sound (columns : List Column) : AllSound (Sql.groupBy columns) [] := by
  unfold Sql.groupBy
  split
  · exact .nil
  · exact .skip (.keywords (by decide)) (.last (Sql.columns_sound columns))

-- ========================================================== subqueries

/-- A subquery in its parentheses. The row inside of them is stated apart, as
the test of an operator looks at what begins there. -/
theorem ScalarSubquery.render_body_sound {q : ScalarSubquery} (h : q.validate = .ok ()) :
    (q.render s).Yields fun row => ∃ body, row = Sql.parens body ∧ Sound body q.strings := by
  obtain ⟨hname, haggregate, hfilter⟩ := validate_eq_ok.1 h
  refine yields_then fun inner => ?_
  refine (AggregateExpr.renderCall_sound haggregate).bind fun aggregate ha => ?_
  refine (Filter.renderOptional_sound hfilter).bind fun filter hf => yields_pure ?_
  have hfrom : AllSound [Sql.words ["SELECT"], aggregate, Sql.words ["FROM"],
      Sql.table q.table q.aliasName] [] :=
    .skip (.keywords (by decide)) (.skip ha (.skip (.keywords (by decide))
      (.last (Sql.table_sound hname))))
  have hall := (hfrom.append hf).append (Sql.groupBy_sound q.groupBy)
  rw [List.nil_append, List.append_nil] at hall
  exact ⟨_, rfl, .spaced hall⟩

theorem ScalarSubquery.render_sound {q : ScalarSubquery} (h : q.validate = .ok ()) :
    (q.render s).Yields fun row => Sound row q.strings := by
  intro row hrow
  obtain ⟨body, rfl, hbody⟩ := render_body_sound h row hrow
  exact Sql.Sound.parens hbody

theorem SubqueryCondition.render_sound {p : SubqueryCondition} (h : p.validate = .ok ()) :
    (p.render s).Yields fun row => Sound row p.strings := by
  obtain ⟨hcolumn, -, -, hsubquery⟩ := validate_eq_ok.1 h
  exact (Scope.render_sound hcolumn).bind fun _ hc =>
    (ScalarSubquery.render_sound hsubquery).bind fun _ hq =>
      yields_pure (.spaced (.skip hc (.skip p.op.sql_sound (.last hq))))

/-- The filter of a query: its groups, its ranges and then its subqueries. -/
theorem TopFilter.render_sound {w : TopFilter} (h : w.validate = .ok ()) :
    (w.render s).Yields fun row => Sound row w.strings := by
  obtain ⟨-, hgroups, hranges, hsubqueries⟩ := validate_eq_ok.1 h
  refine (Filter.renderParts_sound hgroups hranges).bind fun parts hparts => ?_
  refine (yields_each fun p hp => SubqueryCondition.render_sound (hsubqueries p hp)).bind
    fun subqueries hsubs => ?_
  exact Sql.joinParts_sound (hparts.append (.of_forall₂ hsubs))

-- ============================================================= sources

/-- A derived table holds the strings of its items, then of its filter. Its
name is one that the validator has looked at. -/
theorem DerivedTable.render_sound (settings : Settings) {d : DerivedTable}
    (h : d.validate = .ok ()) :
    (d.render settings).Yields fun row => Sound row d.strings := by
  obtain ⟨-, hname, hselect, hfilter⟩ := validate_eq_ok.1 h
  unfold render
  split
  · exact Traced.yields_fail _
  refine yields_then fun inner => ?_
  refine (yields_each fun e he => SelectExpr.render_sound (hselect e he)).bind
    fun items hitems => ?_
  refine (Filter.renderOptional_sound hfilter).bind fun filter hf => yields_pure ?_
  have htable : Sound (Sql.table d.table none) [] := Sql.table_sound (by simp)
  have hfrom : AllSound [Sql.words ["FROM"], Sql.table d.table none] [] :=
    .skip (.keywords (by decide)) (.last htable)
  have hlist : Sound (Sql.listed items) (d.select.flatMap SelectExpr.strings) :=
    .listed (.of_forall₂ hitems)
  have hselected : AllSound
      ([Sql.words ["SELECT"], Sql.listed items, Sql.words ["FROM"], Sql.table d.table none])
      (d.select.flatMap SelectExpr.strings) := by
    have := AllSound.skip (.keywords (by decide) : Sound (Sql.words ["SELECT"]) [])
      (AllSound.cons hlist hfrom)
    rwa [List.append_nil] at this
  -- the strings of the items come first, then those of the filter, and a grouping has
  -- none
  have hall := (hselected.append hf).append (Sql.groupBy_sound d.groupBy)
  rw [List.append_nil] at hall
  have hbody := Sql.Sound.parens (.spaced hall)
  exact hbody.named (shape_of_isIdentifier hname)

/-- The source of a query holds the strings of its derived table, if it is
one. -/
theorem FromClause.renderTable_sound (settings : Settings) {f : FromClause}
    (h : f.validateSource = .ok ()) :
    (f.renderTable settings).Yields fun p =>
      Sound p.1 (f.derived.toList.flatMap DerivedTable.strings) := by
  unfold renderTable
  rcases validateSource_eq_ok.1 h with ⟨table, ht, hd, hname⟩ | ⟨d, ht, hd, -, hvalid⟩
  · rw [ht, hd]
    refine yields_then fun s => ?_
    exact yields_pure (Sql.table_sound hname)
  · rw [ht, hd, Option.toList_some, List.flatMap_singleton]
    refine (DerivedTable.render_sound settings hvalid).bind fun body hbody => ?_
    exact yields_then fun s =>
      yields_pure hbody

theorem Join.render_sound {j : Join} (h : j.validate = .ok ()) :
    (j.render s).Yields fun p => Sound p.1 j.strings := by
  obtain ⟨-, hname, hon⟩ := validate_eq_ok.1 h
  refine yields_then fun inner => ?_
  refine (renderOn_sound hon).bind fun on ho => yields_pure ?_
  have hjoin : Sound (Sql.words [j.type.name, "JOIN"]) [] := by
    cases j.type <;> exact .keywords (by decide)
  exact .spaced (.skip hjoin (.skip (Sql.table_sound hname)
    (.skip (.keywords (by decide)) (.last ho))))

/-- The joins of a query, one after the other, each in the scope that those
before it have left. -/
theorem Join.renderAll_sound {joins : List Join} :
    ∀ s : Scope, (∀ j ∈ joins, j.validate = .ok ()) →
      (renderAll s joins).Yields fun p => AllSound p.1 (joins.flatMap Join.strings) := by
  induction joins with
  | nil => intro s _; exact yields_pure .nil
  | cons j rest ih =>
      intro s h
      refine (Join.render_sound (h j (List.mem_cons_self ..))).bind fun p hp => ?_
      refine (ih p.2 fun j' hj => h j' (List.mem_cons_of_mem _ hj)).bind fun p' hp' => ?_
      exact yields_pure (.cons hp hp')

/-- The source with its joins, each of them a line. -/
theorem FromClause.render_sound (settings : Settings) {f : FromClause}
    (h : f.validate = .ok ()) :
    (f.render settings).Yields fun p => AllSound p.1 f.strings := by
  obtain ⟨hsource, hjoins⟩ := validate_eq_ok.1 h
  refine (renderTable_sound settings hsource).bind fun p hp => ?_
  refine (Join.renderAll_sound p.2 hjoins).bind fun p' hp' => ?_
  refine yields_then fun _ => yields_pure ?_
  exact .cons (.spaced (.skip (.keywords (by decide)) (.last hp))) hp'

-- ============================================================= clauses

/-- The items of a select list with commas between them. -/
theorem SelectExpr.renderList_sound {items : List SelectExpr}
    (h : ∀ e ∈ items, e.validate = .ok ()) :
    (renderList s items).Yields fun row =>
      Sound row (items.flatMap SelectExpr.strings) := by
  unfold renderList
  split
  · exact Traced.yields_fail _
  refine (yields_each fun e he => SelectExpr.render_sound (h e he)).bind
    fun rows hrows => ?_
  refine yields_then fun _ => yields_pure ?_
  have hitems : Sound (Sql.separated Sql.itemSeparator rows) _ :=
    .separated (Sql.separator_comma ⟨by decide, by decide⟩) (.of_forall₂ hrows)
  exact .spaced (.skip (.keywords (by decide)) (.last hitems))

/-- The call in a test on a group has no strings, and the constant that it is
tested against may be one. -/
theorem HavingCondition.renderCall_sound {p : HavingCondition} (h : p.validate = .ok ()) :
    (p.renderCall s).Yields fun row => Sound row [] := by
  obtain ⟨-, hcolumn, -⟩ := validate_eq_ok.1 h
  have hinput : (p.renderColumn s).Yields fun row => Sound row [] := by
    unfold renderColumn
    split
    next c hc => exact Scope.render_sound (hcolumn c hc)
    · split
      · exact yields_pure Sql.star_sound
      · exact Traced.yields_fail _
  refine hinput.bind fun column hc => ?_
  split
  · exact yields_pure (Sql.distinctCall_sound hc)
  · split
    · exact Traced.yields_fail _
    · exact yields_pure (.call p.function.shape hc)

theorem HavingCondition.render_sound {p : HavingCondition} (h : p.validate = .ok ()) :
    (p.render s).Yields fun row => Sound row p.strings := by
  obtain ⟨-, -, -, -, hvalue⟩ := validate_eq_ok.1 h
  exact (renderCall_sound h).bind fun _ hcall =>
    yields_pure (.spaced (.skip hcall (.skip p.op.sql_sound
      (.last (p.value.sql_sound hvalue)))))

/-- The tests on groups, with the connective between them. -/
theorem Having.render_sound {h : Having} (hv : h.validate = .ok ()) :
    (h.render s).Yields fun row => Sound row h.strings := by
  obtain ⟨-, hall⟩ := validate_eq_ok.1 hv
  unfold render
  split
  · exact Traced.yields_fail _
  refine (yields_each fun p hp => HavingCondition.render_sound (hall p hp)).bind
    fun rows hrows => yields_pure ?_
  exact .spaced (.skip (.keywords (by decide)) (.last (.join h.logic (.of_forall₂ hrows))))

theorem GroupBy.render_sound (g : GroupBy) :
    g.render.Yields fun row => Sound row [] := by
  unfold render
  split
  · exact Traced.yields_fail _
  · exact yields_pure (.spaced (Sql.groupBy_sound g.columns))

theorem OrderBy.render_sound {o : OrderBy} (h : o.validate = .ok ()) :
    (o.render s).Yields fun row => Sound row [] := by
  obtain ⟨-, hall⟩ := validate_eq_ok.1 h
  unfold render
  split
  · exact Traced.yields_fail _
  refine (yields_each fun i hi => OrderItem.render_sound (hall i hi)).bind
    fun rows hrows => yields_pure ?_
  exact .spaced (.skip (.keywords (by decide))
    (.last (.listed (.silent (Sql.silent_of_forall₂ hrows)))))

/-- A limit, with an offset that is left out where it is zero. -/
theorem Limit.sql_sound (l : Limit) : Sound l.sql [] := by
  have hlimit : AllSound [Sql.words ["LIMIT"], Sql.int l.limit.toNat] [] :=
    .skip (.keywords (by decide)) (.last (Sql.int_sound _))
  have hoffset : AllSound [Sql.words ["OFFSET"], Sql.int l.offset.toNat] [] :=
    .skip (.keywords (by decide)) (.last (Sql.int_sound _))
  unfold sql
  dsimp only
  split
  · exact .spaced hlimit
  · exact .spaced (hlimit.append hoffset)

end

/-- A line for a clause that is there, which holds its strings. -/
theorem Sql.optionalLine_sound {α : Type} {clause : PlainClause} {render : α → Traced Sql}
    {strings : α → List String} {o : Option α}
    (h : ∀ a ∈ o, (render a).Yields fun row => Sound row (strings a)) :
    (optionalLine clause render o).Yields fun rows =>
      AllSound rows (o.toList.flatMap strings) := by
  cases o with
  | none => exact yields_pure .nil
  | some a =>
      rw [Option.toList_some, List.flatMap_singleton]
      refine (h a rfl).bind fun line hline => ?_
      exact yields_then fun _ =>
        yields_pure (.last hline)

/-- A line for a clause without strings, if it is there. -/
theorem Sql.optionalLine_silent {α : Type} {clause : PlainClause} {render : α → Traced Sql}
    {o : Option α} (h : ∀ a ∈ o, (render a).Yields fun row => Sound row []) :
    (optionalLine clause render o).Yields fun rows => AllSound rows [] := by
  intro rows hrows
  have := optionalLine_sound h rows hrows
  rwa [List.flatMap_eq_nil_iff.2 fun _ _ => rfl] at this

-- =============================================================== query

/-- The lines of a valid query hold its strings in order. The order is that
of the lines, and not that in which they are rendered. -/
theorem Query.renderLines_sound (settings : Settings) {q : Query}
    (h : q.validate = .ok ()) :
    (q.renderLines settings).Yields fun lines => AllSound lines q.strings := by
  obtain ⟨-, hselect, hsource, hfilter, -, hhaving, horder⟩ := validate_eq_ok.1 h
  refine (FromClause.render_sound settings hsource).bind fun p hp => ?_
  refine (SelectExpr.renderList_sound hselect).bind fun select hs => ?_
  have htop : ∀ w ∈ q.filter, (w.renderClause p.2).Yields fun row => Sound row w.strings :=
    fun w hw => (TopFilter.render_sound (hfilter w hw)).bind fun _ hbody =>
      yields_pure (.spaced (.skip (.keywords (by decide)) (.last hbody)))
  refine (Sql.optionalLine_sound htop).bind fun filter hf => ?_
  refine (Sql.optionalLine_silent fun g _ => g.render_sound).bind fun groupBy hg => ?_
  refine (Sql.optionalLine_sound fun h hh => Having.render_sound (hhaving h hh)).bind
    fun having hh => ?_
  refine (Sql.optionalLine_silent fun o ho => OrderBy.render_sound (horder o ho).1).bind
    fun orderBy ho => yields_pure ?_
  have hlimit : AllSound (q.limit.map Limit.sql).toList [] := by
    refine .silent fun row hrow => ?_
    obtain ⟨l, -, rfl⟩ := Option.map_eq_some_iff.1 (Option.mem_toList.1 hrow)
    exact l.sql_sound
  -- the select list is the first line, though the source is rendered before it
  have hfront := ((AllSound.last hs).append hp).append hf
  have hall := (((hfront.append hg).append hh).append ho).append hlimit
  simp only [List.append_nil] at hall
  exact hall

end TypedSelect
