/-
Readers of SQL tokens.

A reader takes a value off the front of the tokens. It looks ahead before
it chooses and never goes back, so what it reads is settled by the tokens
it has seen.

# The law

`Reads` says that a reader takes exactly this row off the front and finds
this value, unless a token comes next with which the piece would go on: a
point after a name, a comma after a list. There is one law for each way to
put readers together, and the law of a sequence asks that what follows a
piece is none of the tokens with which it would go on. A reader with such
laws needs no bound on how far it looks, and the laws are used without
unfolding a reader.

# What follows

The side conditions are about single tokens. `Ends` says of what comes
next that none of some tokens is at its head, and `Closes` that a row
keeps this up for what is before it. Most rows begin with a token of a
known kind (`Begins`), and then it is decided by the kind. Readers that
choose look at the head of the tokens, and `starts` and `next` say how.

# Lists

A list is pieces with a separator between them that is no part of a piece,
or pieces that each begin with one of some tokens. It goes on as long as
such a token comes next; the number of pieces is bounded by the number of
tokens, since a piece has one token at least.
-/
import Mathlib.Data.List.Forall2
import TypedSelect.Proofs.Sql.Scan

namespace TypedSelect

/-- Takes a value off the front of the tokens, if there is one. -/
abbrev Reader (α : Type) := StateT (List Token) Option α

namespace Reader

variable {α β : Type}

-- ============================================================ readers

/-- The next token is of this kind. -/
def starts (kind : Token → Bool) (tokens : List Token) : Bool := tokens.head?.any kind

/-- The next token is one of these. -/
def next (heads : List Token) : List Token → Bool := starts fun t => decide (t ∈ heads)

/-- The token behind the next one is this one. -/
def second (t : Token) (tokens : List Token) : Bool := next [t] tokens.tail

/-- Reads one way or the other, as the tokens ahead say. -/
def branch (ahead : List Token → Bool) (yes no : Reader α) : Reader α := fun tokens =>
  if ahead tokens then yes tokens else no tokens

/-- Reads what one token says. -/
def token (meaning : Token → Option α) : Reader α := fun tokens =>
  match tokens with
  | [] => none
  | t :: rest => (meaning t).map (·, rest)

/-- Reads this token. -/
def expect (t : Token) : Reader Unit := token fun t' => if t' = t then some () else none

/-- Reads this word. -/
def keyword (text : String) : Reader Unit := expect (.identifier text)

/-- Reads a name. -/
def name : Reader String := token fun
  | .identifier text => some text
  | _ => none

/-- Goes on with a value if there is one. -/
def lift (value : Option α) : Reader α := fun tokens => value.map (·, tokens)

/-- Reads the first of these symbols whose spelling comes next. -/
def oneOf (spell : α → List Token) (symbols : List α) : Reader α := fun tokens =>
  (symbols.find? fun a => (spell a).isPrefixOf tokens).map fun a =>
    (a, tokens.drop (spell a).length)

/-- Reads what stands behind this token, if the token comes next. -/
def optional (head : Token) (read : Reader α) : Reader (Option α) :=
  branch (next [head]) (do expect head; return some (← read)) (return none)

/-- Reads at most so many pieces, as long as one of these tokens comes next. -/
def upTo (heads : List Token) (read : Reader α) : Nat → Reader (List α)
  | 0 => return []
  | n + 1 => branch (next heads) (do return (← read) :: (← upTo heads read n)) (return [])

/-- Reads pieces as long as one of these tokens comes next. A piece takes a
token at least, so there are not more of them than tokens. -/
def many (heads : List Token) (read : Reader α) : Reader (List α) := fun tokens =>
  upTo heads read tokens.length tokens

/-- Reads pieces with this token between them. -/
def separated (separator : Token) (read : Reader α) : Reader (List α) := do
  return (← read) :: (← many [separator] (do expect separator; read))

/-- Reads pieces with commas between them. -/
def list (read : Reader α) : Reader (List α) := separated (.mark ',') read

/-- Reads a piece in parentheses. -/
def parens (read : Reader α) : Reader α := do
  expect (.mark '(')
  let a ← read
  expect (.mark ')')
  return a

end Reader

-- ============================================================== ends

/-- None of these tokens comes next. -/
def Ends (more rest : List Token) : Prop := ∀ t ∈ rest.head?, t ∉ more

/-- Behind this row comes none of the first tokens, if behind it comes
none of the second. -/
def Closes (more row more' : List Token) : Prop :=
  ∀ rest, Ends more' rest → Ends more (row ++ rest)

variable {more more' more'' row row' rest : List Token} {t : Token} {kind : Token → Bool}

/-- Fewer tokens are excluded if they are among those excluded. -/
theorem Ends.mono (h : Ends more' rest) (hsub : more ⊆ more') : Ends more rest :=
  fun t ht hmem => h t ht (hsub hmem)

/-- At the end of the tokens nothing comes next. -/
theorem ends_nil (more : List Token) : Ends more [] := by
  rintro t ⟨⟩

theorem ends_cons (h : t ∉ more) : Ends more (t :: rest) := by
  rintro t' ⟨⟩
  exact h

/-- A token that is excluded does not come next. -/
theorem next_eq_false {heads : List Token} (h : Ends more rest) (hsub : heads ⊆ more) :
    Reader.next heads rest = false := by
  cases rest with
  | nil => rfl
  | cons t rest => exact decide_eq_false fun ht => h t rfl (hsub ht)

/-- A piece that never goes on is closed by anything. -/
theorem closes_free : Closes [] row more' := fun _ _ _ _ => List.not_mem_nil

/-- A row with a head closes what does not go on with that. -/
theorem closes_cons (h : t ∉ more) : Closes more (t :: row) more' := fun _ _ => ends_cons h

theorem closes_nil (h : more ⊆ more') : Closes more [] more' := fun _ hends => hends.mono h

/-- A row that may be missing. -/
theorem closes_of_head (h : ∀ t ∈ row.head?, t ∉ more) (hsub : more ⊆ more') :
    Closes more row more' := by
  cases row with
  | nil => exact closes_nil hsub
  | cons t row => exact closes_cons (h t rfl)

-- ============================================================ begins

/-- The row begins with a token of this kind. -/
def Begins (kind : Token → Bool) (row : List Token) : Prop :=
  ∃ t tail, row = t :: tail ∧ kind t = true

theorem begins_cons (h : kind t = true) : Begins kind (t :: row) := ⟨t, row, rfl, h⟩

/-- What stands behind a row does not change its beginning. -/
theorem Begins.append (h : Begins kind row) : Begins kind (row ++ row') := by
  obtain ⟨t, tail, rfl, ht⟩ := h
  exact begins_cons ht

/-- A row that begins with one kind begins with a wider one. -/
theorem Begins.mono {kind' : Token → Bool} (h : Begins kind row)
    (hkind : ∀ t, kind t = true → kind' t = true) : Begins kind' row := by
  obtain ⟨t, tail, rfl, ht⟩ := h
  exact begins_cons (hkind t ht)

/-- A token of a kind is none of those that are not. -/
theorem not_mem_of_kind (h : kind t = true) (hmore : more.all (fun t => !kind t) = true) :
    t ∉ more := by
  intro ht
  have := List.all_eq_true.1 hmore t ht
  rw [h] at this
  cases this

/-- A row that begins with some kind closes what goes on with another. -/
theorem Begins.closes (h : Begins kind row) (hmore : more.all (fun t => !kind t) = true) :
    Closes more row more' := by
  obtain ⟨t, tail, rfl, ht⟩ := h
  exact closes_cons (not_mem_of_kind ht hmore)

/-- A row that begins with some kind does not begin with a token of another. -/
theorem Begins.next_eq_false {heads : List Token} (h : Begins kind row)
    (hheads : heads.all (fun t => !kind t) = true) : Reader.next heads (row ++ rest) = false := by
  obtain ⟨t, tail, rfl, ht⟩ := h
  exact decide_eq_false (not_mem_of_kind ht hheads)

-- ============================================================= reads

/-- The reader takes this row off the tokens and finds this value, when
none of these tokens comes behind it. -/
def Reads {α : Type} (read : Reader α) (row : List Token) (a : α) (more : List Token) : Prop :=
  ∀ rest, Ends more rest → read (row ++ rest) = some (a, rest)

/-- Rows that are read as the elements of a list and that each begin with
one of these tokens. -/
def ReadsAll {α : Type} (heads : List Token) (read : Reader α) (as : List α)
    (rows : List (List Token)) (more : List Token) : Prop :=
  List.Forall₂ (fun a row => Begins (fun t => decide (t ∈ heads)) row ∧ Reads read row a more)
    as rows

/-- What follows rows that each begin with one of these tokens. -/
theorem ReadsAll.closes {α : Type} {heads : List Token} {read : Reader α} {as : List α}
    {rows : List (List Token)} (h : ReadsAll heads read as rows more)
    (hheads : ∀ t ∈ heads, t ∉ more') (hsub : more' ⊆ more'') :
    Closes more' rows.flatten more'' := by
  cases h with
  | nil => exact closes_nil hsub
  | cons hrow hrest =>
      obtain ⟨⟨t, tail, rfl, ht⟩, -⟩ := hrow
      exact closes_cons (hheads t (of_decide_eq_true ht))

namespace Reads

open Reader

variable {α β : Type} {read yes no : Reader α} {f : α → Reader β} {a : α} {b : β}

/-- A reader reads the same where more tokens are excluded behind it. -/
theorem mono (h : Reads read row a more) (hsub : more ⊆ more') : Reads read row a more' :=
  fun rest hrest => h rest (hrest.mono hsub)

theorem pure (a : α) (more : List Token) : Reads (Pure.pure a) [] a more := fun _ _ => rfl

/-- One reader after the other, if the row of the second closes the first. -/
theorem bind (h : Reads read row a more) (h' : Reads (f a) row' b more')
    (hends : Closes more row' more') : Reads (read >>= f) (row ++ row') b more' := by
  intro rest hrest
  show (read (row ++ row' ++ rest) >>= fun p => f p.1 p.2) = some (b, rest)
  rw [List.append_assoc, h _ (hends rest hrest)]
  exact h' rest hrest

/-- The last step of a sequence. -/
theorem map (h : Reads read row a more) (g : α → β) :
    Reads (read >>= fun a => Pure.pure (g a)) row (g a) more := by
  have := h.bind (f := fun a => Pure.pure (g a)) (Reads.pure (g a) more)
      (closes_nil fun _ ht => ht)
  rwa [List.append_nil] at this

/-- The last step of a sequence, with nothing behind it. -/
theorem map_nil (h : Reads read row a more) (g : α → β) :
    Reads (read >>= fun a => Pure.pure (g a)) (row ++ []) (g a) more := by
  rw [List.append_nil]
  exact h.map g

/-- A token that the reader knows. -/
theorem token {meaning : Token → Option α} (h : meaning t = some a)
    (h' : Reads (f a) row b more) : Reads (Reader.token meaning >>= f) (t :: row) b more := by
  intro rest hrest
  show ((meaning t).map (·, row ++ rest) >>= fun p => f p.1 p.2) = some (b, rest)
  rw [h]
  exact h' rest hrest

theorem single {meaning : Token → Option α} (h : meaning t = some a) :
    Reads (Reader.token meaning) [t] a [] := by
  intro rest _
  show (meaning t).map (·, rest) = some (a, rest)
  rw [h, Option.map_some]

theorem expect {f : Unit → Reader β} (h : Reads (f ()) row b more) :
    Reads (Reader.expect t >>= f) (t :: row) b more :=
  token (if_pos rfl) h

theorem name {f : String → Reader β} {text : String} (h : Reads (f text) row b more) :
    Reads (Reader.name >>= f) (.identifier text :: row) b more :=
  token rfl h

theorem lift {value : Option α} (h : value = some a) (h' : Reads (f a) row b more) :
    Reads (Reader.lift value >>= f) row b more := by
  intro rest hrest
  subst h
  exact h' rest hrest

-- ---- choices

variable {ahead : List Token → Bool}

theorem branch_yes (h : Reads yes row a more) (hahead : ∀ rest, ahead (row ++ rest) = true) :
    Reads (branch ahead yes no) row a more := by
  intro rest hrest
  show (if ahead (row ++ rest) = true then yes (row ++ rest) else no (row ++ rest)) = _
  rw [hahead, if_pos rfl]
  exact h rest hrest

theorem branch_no (h : Reads no row a more)
    (hahead : ∀ rest, Ends more rest → ahead (row ++ rest) = false) :
    Reads (branch ahead yes no) row a more := by
  intro rest hrest
  show (if ahead (row ++ rest) = true then yes (row ++ rest) else no (row ++ rest)) = _
  rw [hahead rest hrest, if_neg Bool.false_ne_true]
  exact h rest hrest

/-- The row begins with the kind that is looked for. -/
theorem starts_yes (h : Reads yes row a more) (hbegins : Begins kind row) :
    Reads (branch (starts kind) yes no) row a more := by
  obtain ⟨t, tail, rfl, ht⟩ := hbegins
  exact branch_yes h fun _ => ht

/-- The next token is among those looked for. -/
theorem next_yes {heads : List Token} (h : Reads yes (t :: row) a more) (ht : t ∈ heads) :
    Reads (branch (next heads) yes no) (t :: row) a more :=
  starts_yes h (begins_cons (decide_eq_true ht))

/-- The next token is not among those looked for. -/
theorem next_no {heads : List Token} (h : Reads no (t :: row) a more) (ht : t ∉ heads) :
    Reads (branch (next heads) yes no) (t :: row) a more :=
  branch_no h fun _ _ => decide_eq_false ht

/-- The next token is of another kind. -/
theorem starts_no {kind' : Token → Bool} (h : Reads no row a more) (hbegins : Begins kind row)
    (hkind : ∀ t, kind t = true → kind' t = false) :
    Reads (branch (starts kind') yes no) row a more := by
  obtain ⟨t, tail, rfl, ht⟩ := hbegins
  exact branch_no h fun _ _ => hkind t ht

/-- The row begins with a kind that is not looked for. -/
theorem next_no_of_begins {heads : List Token} (h : Reads no row a more) (hbegins : Begins kind row)
    (hheads : heads.all (fun t => !kind t) = true) :
    Reads (branch (next heads) yes no) row a more :=
  starts_no h hbegins fun _ ht => decide_eq_false (not_mem_of_kind ht hheads)

/-- Nothing is read where one of the tokens looked for would have been
more. -/
theorem next_nil {heads : List Token} (h : Reads no [] a more) (hheads : heads ⊆ more) :
    Reads (branch (next heads) yes no) [] a more :=
  branch_no h fun _ hrest => next_eq_false hrest hheads

theorem optional_some (h : Reads read row a more) :
    Reads (optional t read) (t :: row) (some a) more :=
  next_yes (expect (h.map some)) (List.mem_singleton_self t)

theorem optional_none (h : t ∈ more) : Reads (optional t read) [] none more :=
  next_nil (.pure _ _) (List.cons_subset.2 ⟨h, List.nil_subset _⟩)

-- ---- symbols

/-- A spelling is read as its symbol when no spelling begins like another
one. -/
theorem oneOf [DecidableEq α] (spell : α → List Token) {symbols : List α}
    (hfree : symbols.Pairwise fun b c => ¬ spell b <+: spell c ∧ ¬ spell c <+: spell b)
    (ha : a ∈ symbols) : Reads (Reader.oneOf spell symbols) (spell a) a [] := by
  intro rest _
  have hfind : symbols.find? (fun b => (spell b).isPrefixOf (spell a ++ rest)) = some a := by
    induction symbols with
    | nil => cases ha
    | cons b symbols ih =>
        obtain ⟨hb, hsymbols⟩ := List.pairwise_cons.1 hfree
        by_cases hab : a = b
        · subst hab
          exact List.find?_cons_of_pos (List.isPrefixOf_iff_prefix.2 (List.prefix_append _ _))
        · have hmem : a ∈ symbols := (List.mem_cons.1 ha).resolve_left hab
          have hno : ¬ (spell b).isPrefixOf (spell a ++ rest) = true := by
            intro hprefix
            -- both spellings are the beginning of one text, so one begins the other
            rcases List.prefix_or_prefix_of_prefix (List.isPrefixOf_iff_prefix.1 hprefix)
              (List.prefix_append (spell a) rest) with h | h
            · exact (hb a hmem).1 h
            · exact (hb a hmem).2 h
          exact (List.find?_cons_of_neg (p := fun b => (spell b).isPrefixOf (spell a ++ rest))
            hno).trans (ih hsymbols hmem)
  show (symbols.find? _).map _ = _
  rw [hfind, Option.map_some, List.drop_left]

/-- Different words are read as their symbols. -/
theorem oneOf_word [DecidableEq α] (word : α → String) {symbols : List α}
    (hwords : (symbols.map word).Nodup) (ha : a ∈ symbols) :
    Reads (Reader.oneOf (fun b => [.identifier (word b)]) symbols) [.identifier (word a)] a [] := by
  have hne : ∀ {v w : String}, v ≠ w → ¬ [Token.identifier v] <+: [Token.identifier w] :=
    fun hvw h => hvw (Token.identifier.inj (List.cons_prefix_cons.1 h).1)
  exact .oneOf (fun b => [.identifier (word b)])
    ((List.pairwise_map.1 hwords).imp fun h => ⟨hne h, hne h.symm⟩) ha

-- ---- lists

/-- Pieces that each begin with one of the tokens, as many as there are. Each
piece ends before the token with which the next begins. -/
theorem upTo {heads : List Token} {rows : List (List Token)} {as : List α}
    (h : ReadsAll heads read as rows more) (hheads : ∀ t ∈ heads, t ∉ more) {n : Nat}
    (hn : rows.length ≤ n) :
    Reads (Reader.upTo heads read n) rows.flatten as (heads ++ more) := by
  induction h generalizing n with
  | nil =>
      cases n with
      | zero => exact .pure [] _
      | succ n => exact next_nil (.pure [] _) (List.subset_append_left ..)
  | cons hrow hrest ih =>
      obtain ⟨⟨t, tail, rfl, ht⟩, hread⟩ := hrow
      cases n with
      | zero => cases hn
      | succ n =>
          refine starts_yes (hread.bind ((ih (Nat.le_of_succ_le_succ hn)).map _) ?_)
            (begins_cons ht)
          -- behind a piece comes the next one or what comes behind them all
          cases hrest with
          | nil => exact closes_nil (List.subset_append_right ..)
          | cons hnext _ =>
              obtain ⟨⟨t', tail', rfl, ht'⟩, -⟩ := hnext
              exact closes_cons (hheads t' (of_decide_eq_true ht'))

/-- As many pieces as there are tokens are enough. A piece has one token at
least, so the bound is never met before the pieces end. -/
theorem many {heads : List Token} {rows : List (List Token)} {as : List α}
    (h : ReadsAll heads read as rows more) (hheads : ∀ t ∈ heads, t ∉ more) :
    Reads (Reader.many heads read) rows.flatten as (heads ++ more) := by
  intro rest hrest
  have hlength : rows.length ≤ (rows.flatten ++ rest).length := by
    rw [List.length_append]
    refine Nat.le_add_right_of_le ?_
    clear hrest
    induction h with
    | nil => exact Nat.le_refl _
    | cons hrow _ ih =>
        obtain ⟨⟨t, tail, rfl, -⟩, -⟩ := hrow
        rw [List.flatten_cons, List.length_append, List.length_cons, List.length_cons]
        omega
  exact upTo h hheads hlength rest hrest

/-- Pieces that each have a token in front of them which is never part of
a piece. -/
theorem preceded {head : Token} {as : List α} {rows : List (List Token)}
    (h : List.Forall₂ (fun a row => Reads read row a more) as rows) (hhead : head ∉ more) :
    Reads (Reader.many [head] (do Reader.expect head; read)) (rows.flatMap (head :: ·)) as
      (head :: more) := by
  have hall : ReadsAll [head] (do Reader.expect head; read) as (rows.map (head :: ·)) more := by
    refine List.forall₂_map_right_iff.2 (h.imp fun a row hrow => ?_)
    exact ⟨begins_cons (decide_eq_true (List.mem_singleton_self _)), expect hrow⟩
  exact many hall (by simpa using hhead)

/-- Pieces with a token between them that is never part of a piece. -/
theorem separated {separator : Token} {row : List Token} {as : List α} {rows : List (List Token)}
    (h : Reads read row a more) (hrows : List.Forall₂ (fun a row => Reads read row a more) as rows)
    (hseparator : separator ∉ more) :
    Reads (Reader.separated separator read) (row ++ rows.flatMap (separator :: ·)) (a :: as)
      (separator :: more) := by
  refine h.bind ((preceded hrows hseparator).map _) ?_
  cases rows with
  | nil => exact closes_nil (List.subset_cons_self ..)
  | cons row rows => exact closes_cons hseparator

/-- A piece between parentheses, which does not go on with the closing one. -/
theorem parens (h : Reads read row a more) (hmark : Token.mark ')' ∉ more) :
    Reads (Reader.parens read) (.mark '(' :: (row ++ [.mark ')'])) a [] :=
  expect (h.bind (expect (.pure a _)) (closes_cons hmark))

end Reads

-- ============================================================ clauses

/-- The row of a clause that may be missing and that begins with this
word. -/
structure ReadsClause {α : Type} (word : String) (read : Reader α) (row : List Token)
    (value : Option α) (more : List Token) : Prop where
  reads : Reads (Reader.optional (.identifier word) read) row value (.identifier word :: more)
  head : ∀ t ∈ row.head?, t = .identifier word

namespace ReadsClause

variable {α β : Type} {word : String} {read : Reader α} {value : Option α}

theorem none : ReadsClause word read [] none more where
  reads := .optional_none (List.mem_cons_self ..)
  head := by rintro t ⟨⟩

theorem some {a : α} (h : Reads read row a more) :
    ReadsClause word read (.identifier word :: row) (some a) more where
  reads := .mono (.optional_some h) (List.subset_cons_self ..)
  head := by rintro t ⟨⟩; rfl

/-- A clause, and others behind it. -/
theorem head_append {words : List Token} (h : ReadsClause word read row value more)
    (hwords : ∀ t ∈ row'.head?, t ∈ words) :
    ∀ t ∈ (row ++ row').head?, t ∈ .identifier word :: words := by
  cases row with
  | nil => exact fun t ht => List.mem_cons_of_mem _ (hwords t ht)
  | cons t row => exact fun t ht => h.head t ht ▸ List.mem_cons_self ..

/-- A clause is closed by others, which begin with words of their own. -/
theorem bind {f : Option α → Reader β} {b : β} {words : List Token}
    (h : ReadsClause word read row value more) (h' : Reads (f value) row' b more')
    (hwords : ∀ t ∈ row'.head?, t ∈ words) (hfree : ∀ t ∈ words, t ∉ .identifier word :: more)
    (hsub : .identifier word :: more ⊆ more') :
    Reads (Reader.optional (.identifier word) read >>= f) (row ++ row') b more' :=
  h.reads.bind h' (closes_of_head (fun t ht => hfree t (hwords t ht)) hsub)

end ReadsClause

end TypedSelect
