/-
Constants, columns and operators read back.

A row is read through its tokens, so first come the tokens of every
construction of the renderer: blanks leave none. A number is read by its
text and is found in its canonical form; a name before a point is a
qualifier, and no name is a keyword, because names are not reserved.

# Readers

For each renderer there is a reader of tokens, and for the two a lemma:
what a valid node is written as is read as its canonical form
(`Reads`), and the rest is left. The readers are written from the grammar
of the text and not from the renderers, and they decide by the next few
tokens, never by trying.

# What may follow

A reader that takes as much as it can would go on with some tokens: a
column would go on with a point, a list with a comma. So each lemma has a
list of tokens with which the piece would go on, and says what is read
before anything else. These lists grow from the inside out: the piece that
is put together from others goes on with what its last part goes on with,
and with what may follow it itself.

# What comes first

Where nodes of several kinds may stand, a reader looks at the first token
(`Begins`). A number begins with digits or a minus, a constant of another
kind with a string or one of two keywords, and a column with a name. That
these differ is the fact about names above: TRUE and FALSE are reserved,
so no column begins with them.
-/
import TypedSelect.Proofs.Query.Canonical
import TypedSelect.Proofs.Sql.Reader
import TypedSelect.Proofs.Sql.Sound

namespace TypedSelect

open Reader
open Validation (Writable)

-- ============================================================= tokens

namespace Sql

@[simp] theorem tokens_nil : tokens [] = [] := rfl

@[simp] theorem tokens_word (text : String) (row : Sql) :
    tokens (.word text :: row) = .identifier text :: row.tokens := rfl

/-- Behind the first row stands the separator before every other one. -/
theorem tokens_separated (separator row : Sql) (rows : List Sql) :
    tokens (separated separator (row :: rows)) =
      row.tokens ++ rows.flatMap fun r => separator.tokens ++ r.tokens := by
  induction rows generalizing row with
  | nil => exact (List.append_nil _).symm
  | cons r rows ih =>
      rw [separated, tokens_append, tokens_append, ih, List.flatMap_cons, List.append_assoc,
        List.append_assoc]
      exact List.cons_ne_nil _ _

/-- A list of rows begins as its first row does. -/
theorem begins_separated {kind : Token → Bool} {separator row : Sql} {rows : List Sql}
    (h : Begins kind row.tokens) : Begins kind (separated separator (row :: rows)).tokens := by
  rw [tokens_separated]
  exact h.append

/-- Blanks leave no tokens, so the tokens of rows with blanks between them
are those of the rows. -/
theorem tokens_spaced (rows : List Sql) : tokens (spaced rows) = rows.flatMap tokens := by
  cases rows with
  | nil => rfl
  | cons row rows => exact tokens_separated [space] row rows

/-- Each word is one token, and the blanks between them are none. -/
@[simp] theorem tokens_words (names : List String) :
    tokens (words names) = names.map .identifier := by
  rw [words, tokens_spaced, List.flatMap_map]
  exact List.map_eq_flatMap.symm

/-- Parentheses are the tokens around those of the row. -/
@[simp] theorem tokens_parens (row : Sql) :
    tokens (parens row) = .mark '(' :: (row.tokens ++ [.mark ')']) := by
  show tokens ([.sign "("] ++ row ++ [.sign ")"]) = _
  rw [tokens_append, tokens_append]
  rfl

/-- A call is its name and what stands in parentheses. -/
@[simp] theorem tokens_call (function : String) (arguments : Sql) :
    tokens (call function arguments) =
      .identifier function :: .mark '(' :: (arguments.tokens ++ [.mark ')']) := by
  rw [call, tokens_word, tokens_parens]

@[simp] theorem tokens_named (row : Sql) (aliasName : String) :
    tokens (named row aliasName) = row.tokens ++ [.identifier "AS", .identifier aliasName] := by
  rw [named, tokens_spaced]
  simp only [List.flatMap_cons, List.flatMap_nil, tokens_words, List.map_cons, List.map_nil,
    List.append_nil]

end Sql

/-- A list of rows is read row by row. -/
theorem reads_separated {α β : Type} {read : Reader β} {f : α → β} {l : List α}
    {separator : Sql} {t : Token} {rows : List Sql} {more : List Token} (hl : l ≠ [])
    (h : List.Forall₂ (fun a row => Reads read (Sql.tokens row) (f a) more) l rows)
    (hseparator : separator.tokens = [t]) (ht : t ∉ more) :
    Reads (Reader.separated t read) (Sql.separated separator rows).tokens (l.map f)
      (t :: more) := by
  cases h with
  | nil => exact absurd rfl hl
  | cons hrow hrows =>
      have := Reads.separated hrow
        (List.forall₂_map_right_iff.2 (List.forall₂_map_left_iff.2 hrows)) ht
      rw [List.flatMap_map] at this
      rw [Sql.tokens_separated, hseparator]
      exact this

/-- Rows with commas between them. -/
theorem reads_listed {α β : Type} {read : Reader β} {f : α → β} {l : List α} {rows : List Sql}
    {more : List Token} (hl : l ≠ [])
    (h : List.Forall₂ (fun a row => Reads read (Sql.tokens row) (f a) more) l rows)
    (hcomma : .mark ',' ∉ more) :
    Reads (list read) (Sql.listed rows).tokens (l.map f) (.mark ',' :: more) :=
  reads_separated hl h rfl hcomma

-- ============================================================ numbers

namespace Reader

/-- Reads the digits of a number. -/
def digits : Reader String := token fun
  | .number text => some text
  | _ => none

/-- Reads a number by its sign and its digits. -/
def numeral {α : Type} (meaning : Bool → String → α) : Reader α :=
  branch (next [.operator "-"]) (do expect (.operator "-"); return meaning true (← digits))
    (do return meaning false (← digits))

/-- Reads a whole number without a sign. -/
def nat : Reader Nat := numeral fun _ text => Json.digitsValue text.toList

end Reader

/-- Begins a number. -/
def Token.isNumeric : Token → Bool
  | number _ => true
  | operator text => text == "-"
  | _ => false

/-- A number begins with its digits or with a minus. -/
theorem Sql.signed_begins (negative : Bool) (text : String) :
    Begins Token.isNumeric (Sql.tokens (signed negative [.number text])) := by
  cases negative with
  | false => exact begins_cons rfl
  | true => exact begins_cons (by decide)

/-- The sign and the digits of a number are read as they are written. Nothing
ends a number but its token. -/
theorem reads_numeral {α : Type} (meaning : Bool → String → α) (negative : Bool)
    (text : String) :
    Reads (numeral meaning) (Sql.tokens (Sql.signed negative [.number text]))
      (meaning negative text) [] := by
  have hdigits : Reads digits [.number text] text [] := .single rfl
  cases negative with
  | false => exact .next_no (hdigits.map _) (by simp)
  | true => exact .next_yes (.expect (hdigits.map _)) (List.mem_singleton_self _)

/-- A whole number without a sign is read by its digits. -/
theorem reads_nat (n : Nat) : Reads nat (Sql.tokens (Sql.int n)) n [] := by
  have := reads_numeral (fun _ text => Json.digitsValue text.toList) (decide ((n : Int) < 0))
    (toString (n : Int).natAbs)
  rwa [toString_toList, Int.natAbs_natCast, Json.digitsValue_toDigits] at this

/-- Reads a floating point number. -/
def Double.read : Reader Double := numeral Double.ofText

/-- Reads a number. -/
def Number.read : Reader Number := numeral Number.ofText

/-- A finite number is a sign and the text of its magnitude. -/
theorem Double.sql_eq {x : Double} (h : x.isFinite = true) :
    x.sql = Sql.signed x.isNegative [.number x.unsignedText] := by
  unfold sql
  rw [if_pos h]

/-- A finite number is read as itself: the text is long enough to tell it
from all others. -/
theorem Double.reads {x : Double} (h : x.isFinite = true) :
    Reads Double.read (Sql.tokens x.sql) x [] := by
  have := reads_numeral Double.ofText x.isNegative x.unsignedText
  rwa [← sql_eq h, ofText_unsignedText h] at this

/-- So is a number of either kind a sign and a text, which does not say of
which kind it is. -/
theorem Number.sql_eq {n : Number} (h : n.isFinite = true) :
    n.sql = Sql.signed n.isNegative [.number n.unsignedText] := by
  cases n with
  | int i => rfl
  | float x => exact Double.sql_eq h

theorem Number.begins {n : Number} (h : n.isFinite = true) :
    Begins Token.isNumeric n.sql.tokens := by
  rw [sql_eq h]
  exact Sql.signed_begins _ _

/-- A number is read as its canonical form, which is the form that its text
alone determines. -/
theorem Number.reads {n : Number} (h : n.isFinite = true) :
    Reads Number.read (Sql.tokens n.sql) n.canonical [] := by
  have := reads_numeral Number.ofText n.isNegative n.unsignedText
  rwa [← sql_eq h, ofText_unsignedText h] at this

-- ============================================================== names

/-- A name is no keyword. -/
theorem ne_of_isIdentifier {name word : String} (h : isIdentifier name = true)
    (hword : isIdentifier word = false) : name ≠ word := by
  rintro rfl
  rw [h] at hword
  cases hword

/-- The name of every column is a name and no reserved word. -/
theorem Column.isIdentifier (c : Column) : isIdentifier c.name = true := by
  cases c <;> decide

/-- Reads a column. -/
def Column.read : Reader Column := oneOf (fun c => [.identifier c.name]) Vocabulary.all

/-- Reads a table. -/
def Table.read : Reader Table := oneOf (fun t => [.identifier t.name]) Vocabulary.all

/-- Reads a column, perhaps of a table that is named. -/
def QualifiedColumn.read : Reader QualifiedColumn :=
  branch (second (.mark '.'))
    (do
      let q ← name
      expect (.mark '.')
      return ⟨some q, ← Column.read⟩)
    (do return ⟨none, ← Column.read⟩)

/-- A column is read by its name, since no two columns have one. -/
theorem Column.reads (c : Column) : Reads Column.read [.identifier c.name] c [] :=
  .oneOf_word Column.name (by decide) (by cases c <;> decide)

/-- A table is read by its name, since no two tables have one. -/
theorem Table.reads (t : Table) : Reads Table.read [.identifier t.name] t [] :=
  .oneOf_word Table.name (by decide) (by cases t <;> decide)

/-- A column is read with its qualifier if a point stands behind the first
name. A point behind a column without one would make it a qualifier, and so
none may follow. -/
theorem QualifiedColumn.reads (c : QualifiedColumn) :
    Reads QualifiedColumn.read c.sql.tokens c [.mark '.'] := by
  obtain ⟨_ | q, column⟩ := c
  · refine .branch_no ((column.reads.mono (List.nil_subset _)).map _) fun rest hrest => ?_
    exact next_eq_false hrest (List.Subset.refl _)
  · refine .branch_yes (.name (.expect ?_)) fun _ => rfl
    exact (column.reads.mono (List.nil_subset _)).map _

/-- A name that is no keyword. -/
def Token.isName : Token → Bool
  | identifier text => isIdentifier text
  | _ => false

/-- A column begins with a name. -/
theorem QualifiedColumn.begins {c : QualifiedColumn} (h : c.validate = .ok ()) :
    Begins Token.isName c.sql.tokens := by
  rw [validate_eq_ok] at h
  obtain ⟨_ | q, column⟩ := c
  · exact begins_cons column.isIdentifier
  · exact begins_cons (h q rfl)

-- ========================================================== operators

/-- Reads an arithmetic operator. -/
def ArithmeticOp.read : Reader ArithmeticOp :=
  oneOf (fun op => op.sql.tokens) Vocabulary.all

/-- Reads a comparison operator. -/
def ComparisonOp.read : Reader ComparisonOp :=
  oneOf (fun op => op.sql.tokens) Vocabulary.all

theorem ArithmeticOp.reads (op : ArithmeticOp) : Reads ArithmeticOp.read op.sql.tokens op [] :=
  .oneOf (fun op : ArithmeticOp => op.sql.tokens) (by decide)
    (by cases op <;> decide)

/-- A comparison operator is read by its sign or its keywords. No operator is
the beginning of another, not even of the two that begin with IS. -/
theorem ComparisonOp.reads (op : ComparisonOp) : Reads ComparisonOp.read op.sql.tokens op [] :=
  .oneOf (fun op : ComparisonOp => op.sql.tokens) (by decide)
    (by cases op <;> decide)

/-- An operator ends a name. -/
theorem ArithmeticOp.begins (op : ArithmeticOp) :
    Begins (fun t => t != .mark '.') op.sql.tokens := by
  cases op <;> exact begins_cons (by decide)

/-- A comparison operator ends a name and is told from a range. -/
theorem ComparisonOp.begins (op : ComparisonOp) :
    Begins (fun t => t != .mark '.' && t != .identifier "BETWEEN") op.sql.tokens := by
  cases op <;> exact begins_cons (by decide)

-- ========================================================== constants

/-- What a constant of one token says. -/
def Literal.ofToken? : Token → Option Literal
  | .string s => some (string s)
  | .identifier text =>
    if text = "TRUE" then some (bool true) else if text = "FALSE" then some (bool false) else none
  | _ => none

/-- Begins a constant. -/
def Token.isConstant (t : Token) : Bool := t.isNumeric || (Literal.ofToken? t).isSome

/-- Reads a constant. -/
def Literal.read : Reader Literal :=
  branch (starts Token.isNumeric) (do return .ofNumber (← Number.read)) (token Literal.ofToken?)

/-- No name begins a constant, since TRUE and FALSE are reserved. -/
theorem Token.isConstant_of_isName {t : Token} (h : t.isName = true) : t.isConstant = false := by
  cases t with
  | identifier text =>
      have htrue : text ≠ "TRUE" := ne_of_isIdentifier h (by decide)
      have hfalse : text ≠ "FALSE" := ne_of_isIdentifier h (by decide)
      simp [isConstant, isNumeric, Literal.ofToken?, htrue, hfalse]
  | _ => cases h

/-- A number that is a constant. -/
theorem Literal.reads_number {n : Number} (h : n.isFinite = true) :
    Reads Literal.read n.sql.tokens (.ofNumber n.canonical) [] :=
  .starts_yes ((Number.reads h).map Literal.ofNumber) (Number.begins h)

theorem Literal.reads {v : Literal} (h : Writable v) :
    Reads Literal.read v.sql.tokens v.canonical [] := by
  have hother : ∀ {t : Token} {v : Literal}, ofToken? t = some v → t.isNumeric = false →
      Reads Literal.read [t] v [] := fun hmeaning ht =>
    .branch_no (.single hmeaning) fun _ _ => ht
  cases v with
  | bool b => cases b <;> exact hother (by decide) (by decide)
  | int i => exact reads_number (n := .int i) rfl
  | float x => exact reads_number (n := .float x) h
  | string s => exact hother rfl rfl

/-- A constant begins like one. -/
theorem Literal.begins {v : Literal} (h : Writable v) :
    Begins Token.isConstant v.sql.tokens := by
  have hnumber : ∀ {n : Number}, n.isFinite = true → Begins Token.isConstant n.sql.tokens :=
    fun hn => (Number.begins hn).mono fun _ ht => Bool.or_eq_true_iff.2 (.inl ht)
  cases v with
  | bool b => cases b <;> exact begins_cons (by decide)
  | int i => exact hnumber (n := .int i) rfl
  | float x => exact hnumber (n := .float x) h
  | string s => exact begins_cons rfl

-- ============================================================ tables

namespace Reader

/-- Reads the name behind an AS. -/
def asName : Reader String := do
  keyword "AS"
  name

/-- Reads a table, perhaps under a new name. -/
def table : Reader (Table × Option String) := do
  return (← Table.read, ← optional (.identifier "AS") name)

end Reader

theorem reads_name (text : String) : Reads name [.identifier text] text [] := .single rfl

theorem reads_asName (text : String) :
    Reads asName [.identifier "AS", .identifier text] text [] :=
  .expect (reads_name text)

/-- A table is read with its new name if AS stands behind it. -/
theorem reads_table (table : Table) (aliasName : Option String) :
    Reads Reader.table (Sql.table table aliasName).tokens (table, aliasName)
      [.identifier "AS"] := by
  cases aliasName with
  | none =>
      have hnone : Reads (optional (.identifier "AS") name) [] none [.identifier "AS"] :=
        .optional_none (List.mem_singleton_self _)
      exact table.reads.bind (hnone.map (table, ·)) closes_free
  | some aliasName =>
      rw [Sql.table, Sql.tokens_named]
      refine table.reads.bind (.mono ?_ (List.nil_subset _)) closes_free
      exact (Reads.optional_some (reads_name aliasName)).map (table, ·)

/-- The name of every table is a name and no reserved word. -/
theorem Table.isIdentifier (t : Table) : isIdentifier t.name = true := by
  cases t <;> decide

/-- A table begins with a name, and not with a parenthesis as a derived table
does. -/
theorem Sql.begins_table (table : Table) (aliasName : Option String) :
    Begins Token.isName (Sql.table table aliasName).tokens := by
  cases aliasName with
  | none => exact begins_cons table.isIdentifier
  | some aliasName =>
      rw [Sql.table, Sql.tokens_named]
      exact begins_cons table.isIdentifier

/-- Columns with commas between them. -/
theorem reads_columns {columns : List Column} (h : columns ≠ []) :
    Reads (list Column.read) (Sql.columns columns).tokens columns [.mark ','] := by
  have hrows : List.Forall₂ (fun c row => Reads Column.read (Sql.tokens row) c []) columns
      (columns.map fun c => [.word c.name]) :=
    List.forall₂_map_right_iff.2 (List.forall₂_same.2 fun c _ => c.reads)
  have := reads_listed h hrows List.not_mem_nil
  rwa [List.map_id'] at this

end TypedSelect
