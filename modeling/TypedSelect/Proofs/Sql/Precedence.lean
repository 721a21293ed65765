/-
The boolean structure of SQL text.

`Formula.ofText?` reads a text as a formula over its predicates, the way SQL
does: what stands in parentheses is one operand, AND binds more closely than
OR, and the AND of a BETWEEN belongs to the BETWEEN.

# Cutting

It cuts the tokens at the connectives of one kind outside of parentheses,
first at OR and then at AND, so the connective that binds less closely comes
to stand further out. What is left between two connectives is a formula in
parentheses, or else a predicate. The parser is not told what a predicate
looks like: whatever has no connective in it is one.

# Cursors

What carries the laws is the cursor of the cut, which counts the open
parentheses and the BETWEENs that wait for their AND. A row is `Still` if it
leaves every cursor where it was: no cut goes through it, wherever it stands.
Rows that are still and joined by one connective are found again by the cut,
and the formula of the joined row is put together from those of the rows.

# Values

A formula is found together with its value (`Finds`), which is a function of
the values of the predicates. So associativity never comes up: a row of
operands under one connective has one value, however the formula associates.
The truth values are those of SQL, with an unknown one.

# Depth

Parentheses inside parentheses are read by the parser itself, one level
deeper. It is given a depth that the length of the tokens bounds, and the
laws are for any depth that is enough.
-/
import Mathlib.Data.List.Forall2
import TypedSelect.Proofs.Sql.Reading.Term

namespace TypedSelect

-- =============================================================== truth

/-- A truth value of SQL. -/
inductive Truth where
  | false
  | unknown
  | true
deriving DecidableEq, Repr

/-- False if either is, and true if both are. -/
def Truth.and : Truth → Truth → Truth
  | .true, b => b
  | .false, _ => .false
  | .unknown, .false => .false
  | .unknown, _ => .unknown

/-- True if either is, and false if both are. -/
def Truth.or : Truth → Truth → Truth
  | .false, b => b
  | .true, _ => .true
  | .unknown, .true => .true
  | .unknown, _ => .unknown

namespace Logic

/-- The connective as a function. -/
def combine : Logic → Truth → Truth → Truth
  | and => Truth.and
  | or => Truth.or

/-- The value that a connective leaves out of account. -/
def unit : Logic → Truth
  | and => .true
  | or => .false

/-- Values under one connective. -/
def fold (logic : Logic) (values : List Truth) : Truth := values.foldr logic.combine logic.unit

/-- Values under one connective that depend on those of the predicates. -/
def under {α : Type} (logic : Logic) (values : List ((α → Truth) → Truth)) (v : α → Truth) :
    Truth :=
  logic.fold (values.map (· v))

theorem combine_unit (logic : Logic) (a : Truth) : logic.combine a logic.unit = a := by
  cases logic <;> cases a <;> rfl

/-- One value alone is left as it is. -/
theorem under_singleton {α : Type} (logic : Logic) (value : (α → Truth) → Truth) :
    logic.under [value] = value :=
  funext fun v => logic.combine_unit (value v)

end Logic

/-- Predicates under connectives. -/
inductive Formula (α : Type) where
  | atom (a : α)
  | join (logic : Logic) (left right : Formula α)
deriving DecidableEq

namespace Formula

variable {α β : Type}

/-- The value of a formula, given those of its predicates. -/
def eval (v : α → Truth) : Formula α → Truth
  | atom a => v a
  | join logic left right => logic.combine (left.eval v) (right.eval v)

/-- The same formula over other predicates. -/
def map (f : α → β) : Formula α → Formula β
  | atom a => atom (f a)
  | join logic left right => join logic (left.map f) (right.map f)

end Formula

-- ============================================================== cutting

/-- Whether a token is a word, in any case. -/
def Token.isWord (word : String) : Token → Bool
  | identifier text => sameName text word
  | _ => false

/-- Where a cut stands: how many parentheses are open, and how many BETWEENs
outside of them wait for their AND. -/
structure Cursor where
  depth : Nat := 0
  ranges : Nat := 0
deriving DecidableEq

namespace Cursor

/-- The cursor behind a token; nothing when a parenthesis closes that was
not opened. -/
def step (p : Cursor) (t : Token) : Option Cursor :=
  (t.nest p.depth).map fun depth =>
    { depth
      ranges :=
        if p.depth ≠ 0 then p.ranges
        else if t.isWord "BETWEEN" then p.ranges + 1
        else if t.isWord "AND" then p.ranges - 1
        else p.ranges }

/-- Whether a token is a connective here: it is its word, outside of all
parentheses, and no BETWEEN waits for it. -/
def cuts (logic : Logic) (p : Cursor) (t : Token) : Bool := p = {} && t.isWord logic.name

/-- The cursor behind a token that is no connective. -/
def pass (logic : Logic) (p : Cursor) (t : Token) : Option Cursor :=
  if p.cuts logic t then none else p.step t

end Cursor

namespace Formula

/-- More tokens in front of the first piece. -/
def prepend (row : List Token) : List (List Token) → List (List Token)
  | [] => []
  | piece :: pieces => (row ++ piece) :: pieces

/-- The pieces between the connectives of one kind; nothing where a
parenthesis or a BETWEEN is left open. -/
def cut (logic : Logic) : Cursor → List Token → Option (List (List Token))
  | p, [] => if p = {} then some [[]] else none
  | p, t :: rest =>
    if p.cuts logic t then (cut logic {} rest).map ([] :: ·)
    else (p.step t).bind fun p => (cut logic p rest).map (prepend [t])

/-- What stands between two parentheses that belong to each other, if the
tokens are that and nothing else. -/
def grouped? : List Token → Option (List Token)
  | .mark '(' :: rest =>
    if rest.getLast? = some (.mark ')') ∧ rest.dropLast.foldlM Token.nest 0 = some 0 then
      some rest.dropLast
    else none
  | _ => none

/-- Reads a formula in parentheses, or else takes the tokens for a
predicate. -/
def readOperand (read : List Token → Option (Formula (List Token))) (tokens : List Token) :
    Option (Formula (List Token)) :=
  match grouped? tokens with
  | some inner => read inner
  | none => if tokens.isEmpty then none else some (.atom tokens)

/-- Reads pieces with one connective between them. -/
def readJoined (logic : Logic) (read : List Token → Option (Formula (List Token))) :
    List (List Token) → Option (Formula (List Token))
  | [] => none
  | [piece] => read piece
  | piece :: rest => do
    let left ← read piece
    let right ← readJoined logic read rest
    return .join logic left right

/-- Reads what stands between the connectives of one kind. -/
def readCut (logic : Logic) (read : List Token → Option (Formula (List Token)))
    (tokens : List Token) : Option (Formula (List Token)) := do
  let pieces ← cut logic {} tokens
  readJoined logic read pieces

/-- Reads a formula whose parentheses nest less than so deep. -/
def parseWithin : Nat → List Token → Option (Formula (List Token))
  | 0, _ => none
  | n + 1, tokens => readCut .or (readCut .and (readOperand (parseWithin n))) tokens

/-- The formula that some tokens are. What stands in parentheses is shorter
than the whole, so no formula is too deep. -/
def parse (tokens : List Token) : Option (Formula (List Token)) :=
  parseWithin (tokens.length + 1) tokens

/-- The formula that a text is, over the tokens of its predicates. -/
def ofText? (text : String) : Option (Formula (List Token)) := (scan text.toList).bind parse

end Formula

-- ========================================================== still rows

/-- Neither a connective nor a BETWEEN nor a parenthesis. -/
def Token.isInert : Token → Bool
  | identifier text => !(["AND", "OR", "BETWEEN"].any fun word => sameName text word)
  | mark c => c != '(' && c != ')'
  | _ => true

/-- A row that leaves every cursor where it was. -/
def Still (row : List Token) : Prop :=
  ∀ logic p, row.foldlM (Cursor.pass logic) p = some p

variable {row row' : List Token} {t : Token}

theorem Token.nest_of_isInert (h : t.isInert = true) (depth : Nat) :
    t.nest depth = some depth := by
  cases t with
  | mark c =>
      obtain ⟨hopen, hclose⟩ := Bool.and_eq_true_iff.1 h
      unfold nest
      split
      next heq => cases heq; cases hopen
      next heq => cases heq; cases hclose
      next => rfl
  | _ => rfl

theorem nested_of_inert (h : ∀ t ∈ row, t.isInert = true) (depth : Nat) :
    row.foldlM Token.nest depth = some depth := by
  induction row with
  | nil => rfl
  | cons t row ih =>
      obtain ⟨ht, hrow⟩ := List.forall_mem_cons.1 h
      rw [List.foldlM_cons, Token.nest_of_isInert ht]
      exact ih hrow

namespace Cursor

/-- No inert token is a word that a cut looks for. -/
theorem isWord_of_isInert (h : t.isInert = true) {word : String}
    (hword : word ∈ ["AND", "OR", "BETWEEN"]) : t.isWord word = false := by
  cases t with
  | identifier text =>
      have hnone : ∀ word ∈ ["AND", "OR", "BETWEEN"], sameName text word = false := by
        simpa [Token.isInert] using h
      exact hnone word hword
  | _ => rfl

/-- An inert token leaves a cursor where it was. -/
theorem pass_of_isInert (h : t.isInert = true) (logic : Logic) (p : Cursor) :
    p.pass logic t = some p := by
  have hlogic : t.isWord logic.name = false := by
    cases logic <;> exact isWord_of_isInert h (by decide)
  unfold pass cuts step
  rw [hlogic, Bool.and_false, if_neg Bool.false_ne_true, Token.nest_of_isInert h,
    isWord_of_isInert h (by decide), isWord_of_isInert h (by decide)]
  simp

/-- Inside of parentheses a token counts by how it nests alone. -/
theorem pass_inside (logic : Logic) (depth ranges : Nat) (t : Token) :
    pass logic ⟨depth + 1, ranges⟩ t = (t.nest (depth + 1)).map (⟨·, ranges⟩) := by
  have hcuts : cuts logic ⟨depth + 1, ranges⟩ t = false := by simp [cuts]
  unfold pass step
  rw [hcuts, if_neg Bool.false_ne_true]
  simp

end Cursor

/-- More parentheses around a token do not change how it nests. So a row that
is balanced by itself is balanced at any depth. -/
theorem Token.nest_add {depth depth' : Nat} (h : t.nest depth = some depth') (more : Nat) :
    t.nest (depth + more) = some (depth' + more) := by
  cases t with
  | mark c =>
      by_cases hopen : c = '('
      · subst hopen
        cases h
        exact congrArg some (Nat.add_right_comm ..)
      by_cases hclose : c = ')'
      · subst hclose
        have hif : (if depth = 0 then none else some (depth - 1)) = some depth' := h
        show (if depth + more = 0 then none else some (depth + more - 1)) = _
        -- what closes a parenthesis at this depth closes one at any greater depth
        split at hif
        · cases hif
        · cases hif
          rw [if_neg (by omega), Nat.sub_add_comm (by omega)]
      · have hinert : (mark c).isInert = true := by simp [isInert, hopen, hclose]
        rw [nest_of_isInert hinert] at h ⊢
        cases h
        rfl
  | _ =>
      cases h
      rfl

/-- A row that is balanced by itself leaves a cursor inside of parentheses
where it was. -/
theorem foldlM_pass_inside {depth depth' : Nat} (h : row.foldlM Token.nest depth = some depth')
    (logic : Logic) (outer ranges : Nat) :
    row.foldlM (Cursor.pass logic) ⟨depth + outer + 1, ranges⟩ =
      some ⟨depth' + outer + 1, ranges⟩ := by
  induction row generalizing depth with
  | nil =>
      cases h
      rfl
  | cons t row ih =>
      rw [List.foldlM_cons] at h ⊢
      obtain ⟨next, ht, h⟩ := Option.bind_eq_some_iff.1 h
      rw [Cursor.pass_inside, Nat.add_assoc, Token.nest_add ht]
      exact ih h

namespace Still

theorem of_inert (h : ∀ t ∈ row, t.isInert = true) : Still row := by
  intro logic p
  induction row with
  | nil => rfl
  | cons t row ih =>
      obtain ⟨ht, hrow⟩ := List.forall_mem_cons.1 h
      rw [List.foldlM_cons, Cursor.pass_of_isInert ht]
      exact ih hrow

theorem append (h : Still row) (h' : Still row') : Still (row ++ row') := by
  intro logic p
  rw [List.foldlM_append, h]
  exact h' logic p

/-- Parentheses around a row that is balanced by itself. -/
theorem parens (h : row.foldlM Token.nest 0 = some 0) :
    Still (.mark '(' :: (row ++ [.mark ')'])) := by
  intro logic p
  have hopen : p.pass logic (.mark '(') = some ⟨p.depth + 1, p.ranges⟩ := by
    simp [Cursor.pass, Cursor.cuts, Cursor.step, Token.isWord, Token.nest]
  have hinside := foldlM_pass_inside h logic p.depth p.ranges
  rw [Nat.zero_add] at hinside
  rw [List.foldlM_cons, hopen]
  show (row ++ [Token.mark ')']).foldlM (Cursor.pass logic) ⟨p.depth + 1, p.ranges⟩ = some p
  rw [List.foldlM_append, hinside]
  show (Cursor.pass logic ⟨p.depth + 1, p.ranges⟩ (.mark ')') >>= pure) = some p
  rw [Cursor.pass_inside]
  rfl

/-- The AND of a range belongs to its BETWEEN. The rows on both sides are
still, so the cursor comes to that AND with the BETWEEN still open. -/
theorem range (h : Still row) (h' : Still row') :
    Still (.identifier "BETWEEN" :: (row ++ .identifier "AND" :: row')) := by
  rintro logic ⟨_ | depth, ranges⟩
  · -- outside of parentheses the BETWEEN is counted, and its AND is taken off the count
    have hbetween : Cursor.pass logic ⟨0, ranges⟩ (.identifier "BETWEEN") =
        some ⟨0, ranges + 1⟩ := by
      have hword : (Token.identifier "BETWEEN").isWord logic.name = false := by
        cases logic <;> decide
      unfold Cursor.pass Cursor.cuts Cursor.step
      rw [hword, Bool.and_false]
      rfl
    have hand : Cursor.pass logic ⟨0, ranges + 1⟩ (.identifier "AND") = some ⟨0, ranges⟩ := by
      have hcuts : Cursor.cuts logic ⟨0, ranges + 1⟩ (.identifier "AND") = false := by
        simp [Cursor.cuts]
      unfold Cursor.pass Cursor.step
      rw [hcuts]
      rfl
    rw [List.foldlM_cons, hbetween]
    show (row ++ .identifier "AND" :: row').foldlM (Cursor.pass logic) ⟨0, ranges + 1⟩ = _
    rw [List.foldlM_append, h]
    show (Token.identifier "AND" :: row').foldlM (Cursor.pass logic) ⟨0, ranges + 1⟩ = _
    rw [List.foldlM_cons, hand]
    exact h' logic _
  · -- inside of them neither word counts
    rw [List.foldlM_cons, Cursor.pass_inside]
    show (row ++ .identifier "AND" :: row').foldlM (Cursor.pass logic) ⟨depth + 1, ranges⟩ = _
    rw [List.foldlM_append, h]
    show (Token.identifier "AND" :: row').foldlM (Cursor.pass logic) ⟨depth + 1, ranges⟩ = _
    rw [List.foldlM_cons, Cursor.pass_inside]
    exact h' logic _

end Still

-- ============================================================= the laws

/-- Rows with a connective between them. -/
def Logic.joined (logic : Logic) (row : List Token) (rows : List (List Token)) : List Token :=
  row ++ rows.flatMap (.identifier logic.name :: ·)

/-- The first of the rows behind is a row with the others behind it. -/
theorem Logic.joined_cons (logic : Logic) (row r : List Token) (rows : List (List Token)) :
    logic.joined row (r :: rows) = row ++ .identifier logic.name :: logic.joined r rows := rfl

namespace Formula

variable {logic : Logic} {rows : List (List Token)} {p p' : Cursor}

theorem prepend_nil (pieces : List (List Token)) : prepend [] pieces = pieces := by
  cases pieces <;> rfl

theorem prepend_prepend (row row' : List Token) (pieces : List (List Token)) :
    prepend row (prepend row' pieces) = prepend (row ++ row') pieces := by
  cases pieces with
  | nil => rfl
  | cons piece pieces => simp [prepend]

/-- Tokens among which no connective stands go to the first piece. The cursor
passes them, and the cut goes on from where it is then. -/
theorem cut_append (h : row.foldlM (Cursor.pass logic) p = some p') (rest : List Token) :
    cut logic p (row ++ rest) = (cut logic p' rest).map (prepend row) := by
  induction row generalizing p with
  | nil =>
      cases h
      rw [List.nil_append, funext prepend_nil, Option.map_id']
  | cons t row ih =>
      rw [List.foldlM_cons] at h
      obtain ⟨next, ht, h⟩ := Option.bind_eq_some_iff.1 h
      unfold Cursor.pass at ht
      split at ht
      · cases ht
      next hcuts =>
        rw [List.cons_append, cut, if_neg hcuts, ht, Option.bind_some, ih h, Option.map_map]
        congr 1
        funext pieces
        exact prepend_prepend [t] row pieces

/-- A row without a connective is one piece. -/
theorem cut_whole (h : row.foldlM (Cursor.pass logic) {} = some {}) :
    cut logic {} row = some [row] := by
  have hcut := cut_append h []
  rw [List.append_nil] at hcut
  rw [hcut, cut, if_pos rfl, Option.map_some, prepend, List.append_nil]

/-- Still rows with a connective between them are its pieces. The induction
is on the rows, and each step takes one connective. -/
theorem cut_joined (h : Still row) (hrows : ∀ r ∈ rows, Still r) :
    cut logic {} (logic.joined row rows) = some (row :: rows) := by
  induction rows generalizing row with
  | nil =>
      rw [Logic.joined, List.flatMap_nil, List.append_nil]
      exact cut_whole (h logic {})
  | cons r rows ih =>
      obtain ⟨hr, hrest⟩ := List.forall_mem_cons.1 hrows
      have hword : Cursor.cuts logic {} (.identifier logic.name) = true := by
        cases logic <;> decide
      rw [Logic.joined_cons, cut_append (h logic {}), cut, if_pos hword, ih hr hrest]
      simp [prepend]

/-- No cut at one connective is made between still rows joined by the
other. -/
theorem pass_joined_other {other : Logic} (hother : other ≠ logic) (h : Still row)
    (hrows : ∀ r ∈ rows, Still r) :
    (logic.joined row rows).foldlM (Cursor.pass other) {} = some {} := by
  have hword : Cursor.pass other {} (.identifier logic.name) = some {} := by
    cases other <;> cases logic <;> first | exact absurd rfl hother | decide
  induction rows generalizing row with
  | nil =>
      rw [Logic.joined, List.flatMap_nil, List.append_nil]
      exact h other {}
  | cons r rows ih =>
      obtain ⟨hr, hrest⟩ := List.forall_mem_cons.1 hrows
      rw [Logic.joined_cons, List.foldlM_append, h]
      show (_ :: logic.joined r rows).foldlM (Cursor.pass other) {} = some {}
      rw [List.foldlM_cons, hword]
      exact ih hr hrest

/-- A parenthesis, a row that is balanced by itself, and its closing
parenthesis are that row in parentheses. -/
theorem grouped?_parens (h : row.foldlM Token.nest 0 = some 0) :
    grouped? (.mark '(' :: (row ++ [.mark ')'])) = some row := by
  rw [grouped?, if_pos ⟨List.getLast?_concat .., by rwa [List.dropLast_concat]⟩,
    List.dropLast_concat]

/-- What begins with a name is not in parentheses. -/
theorem grouped?_identifier (text : String) (row : List Token) :
    grouped? (.identifier text :: row) = none := rfl

-- ---- what is found

variable {α : Type} {spell : α → List Token} {value : (α → Truth) → Truth}
variable {read : List Token → Option (Formula (List Token))}

/-- The reader finds a formula over predicates that are spelled so, and its
value is this one, whatever the predicates have for values. -/
def Finds (read : List Token → Option (Formula (List Token))) (spell : α → List Token)
    (value : (α → Truth) → Truth) (row : List Token) : Prop :=
  ∃ f : Formula α, read row = some (f.map spell) ∧ ∀ v, f.eval v = value v

/-- A predicate that begins with a name is found as itself. -/
theorem finds_atom {a : α} {text : String} {rest : List Token}
    (h : spell a = .identifier text :: rest) :
    Finds (readOperand read) spell (fun v => v a) (spell a) := by
  refine ⟨.atom a, ?_, fun _ => rfl⟩
  rw [readOperand, h, grouped?_identifier]
  simp [map, h]

/-- A formula in parentheses is found as an operand. -/
theorem Finds.parens (h : Finds read spell value row) (hnested : row.foldlM Token.nest 0 = some 0) :
    Finds (readOperand read) spell value (.mark '(' :: (row ++ [.mark ')'])) := by
  obtain ⟨f, hread, heval⟩ := h
  refine ⟨f, ?_, heval⟩
  rw [readOperand, grouped?_parens hnested]
  exact hread

/-- Pieces that are read one by one are read together, and their values
come under the connective. -/
theorem finds_joined (logic : Logic) {values : List ((α → Truth) → Truth)}
    (h : List.Forall₂ (Finds read spell) values rows) (hne : rows ≠ []) :
    ∃ f : Formula α, readJoined logic read rows = some (f.map spell) ∧
      ∀ v, f.eval v = logic.under values v := by
  induction h with
  | nil => exact absurd rfl hne
  | @cons value row values rows hrow hrows ih =>
      obtain ⟨f, hread, heval⟩ := hrow
      cases rows with
      | nil =>
          cases hrows
          -- the last row stands alone, where the connective has its unit
          refine ⟨f, hread, fun v => ?_⟩
          rw [heval]
          exact (logic.combine_unit (value v)).symm
      | cons r rows =>
          obtain ⟨g, hread', heval'⟩ := ih (List.cons_ne_nil _ _)
          refine ⟨.join logic f g, ?_, fun v => ?_⟩
          · rw [readJoined, hread, hread']
            · rfl
            · exact nofun
          · rw [eval, heval, heval']
            rfl

/-- A row without a connective is read as it is. -/
theorem Finds.whole (h : Finds read spell value row)
    (hrow : row.foldlM (Cursor.pass logic) {} = some {}) :
    Finds (readCut logic read) spell value row := by
  obtain ⟨f, hread, heval⟩ := h
  refine ⟨f, ?_, heval⟩
  rw [readCut, cut_whole hrow]
  exact hread

/-- Still rows with a connective between them are read one by one. -/
theorem Finds.joined {values : List ((α → Truth) → Truth)}
    (h : List.Forall₂ (Finds read spell) values (row :: rows))
    (hstill : ∀ r ∈ row :: rows, Still r) :
    Finds (readCut logic read) spell (logic.under values)
      (logic.joined row rows) := by
  obtain ⟨hrow, hrows⟩ := List.forall_mem_cons.1 hstill
  obtain ⟨f, hread, heval⟩ := finds_joined logic h (List.cons_ne_nil _ _)
  refine ⟨f, ?_, heval⟩
  rw [readCut, cut_joined hrow hrows]
  exact hread

/-- A row that no cut goes through and that is read as an operand. -/
structure StandsAlone (n : Nat) (spell : α → List Token) (value : (α → Truth) → Truth)
    (row : List Token) : Prop where
  still : Still row
  finds : Finds (readOperand (parseWithin n)) spell value row

/-- Operands make a formula with a connective between them, whichever it is:
no cut goes through an operand, and between two of them only their own
connective is cut. If it is OR the pieces are found at the first cut, if it
is AND at the second. -/
theorem finds_operands {n : Nat} {values : List ((α → Truth) → Truth)}
    (h : List.Forall₂ (StandsAlone n spell) values (row :: rows)) :
    Finds (parseWithin (n + 1)) spell (logic.under values)
      (logic.joined row rows) := by
  have hstill : ∀ r ∈ row :: rows, Still r := fun r hr => by
    obtain ⟨i, hi, rfl⟩ := List.mem_iff_getElem.1 hr
    exact (h.get (by rwa [h.length_eq]) hi).still
  cases logic with
  | or =>
      have halone : List.Forall₂ (Finds (readCut .and (readOperand (parseWithin n))) spell) values
          (row :: rows) := h.imp fun _ _ hr => hr.finds.whole (hr.still .and {})
      exact Finds.joined halone hstill
  | and =>
      obtain ⟨hrow, hrows⟩ := List.forall_mem_cons.1 hstill
      have hall : List.Forall₂ (Finds (readOperand (parseWithin n)) spell) values (row :: rows) :=
        h.imp fun _ _ hr => hr.finds
      exact (Finds.joined hall hstill).whole (pass_joined_other (by decide) hrow hrows)

/-- A range between two alternatives, the second of them in parentheses. -/
example : ofText? "a = 1 OR b between 2 and 3 AND (c = 4 OR d IS NULL)" =
    some (.join .or (.atom [.identifier "a", .operator "=", .number "1"])
      (.join .and
        (.atom [.identifier "b", .identifier "between", .number "2", .identifier "and",
          .number "3"])
        (.join .or (.atom [.identifier "c", .operator "=", .number "4"])
          (.atom [.identifier "d", .identifier "IS", .identifier "NULL"])))) := by
  decide +kernel

theorem parseWithin_nil (n : Nat) : parseWithin n [] = none := by cases n <;> rfl

/-- A row in which parentheses nest is not empty, so it is long enough. -/
theorem Finds.parse (h : ∀ n, Finds (parseWithin (n + 2)) spell value row) :
    Finds Formula.parse spell value row := by
  cases row with
  | nil =>
      obtain ⟨f, hread, -⟩ := h 0
      rw [parseWithin_nil] at hread
      cases hread
  | cons t row => exact h row.length

end Formula

end TypedSelect
