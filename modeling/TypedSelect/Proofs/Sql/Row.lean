/-
Rows of lexemes that keep their tokens when they are written out.

Writing lexemes side by side can change them: two words run into one, a
minus before a minus opens a comment, a string before a string becomes a
quote. `Fits` says of two neighbours that the first ends where the second
begins. A row of clean lexemes that fit scans back to exactly its tokens
(`scan_chars`), whatever its strings hold.

# The invariant

`Sound` adds to this that the parentheses match and which strings the row
holds. It is what the renderers are shown to keep, one by one, in the next
module. It has four parts because the claims about the text need four
things: that the row is scanned as its tokens, which takes clean lexemes
and neighbours that fit, that the parentheses match, and that the string
tokens are the strings of the node in their order.

Parentheses that match are said with a depth that is arbitrary: whatever
is open before the row is open behind it. So two rows side by side match
if each does, and a row in parentheses does.

# Constructions

A renderer is made of few constructions: single lexemes, rows with a
separator between them, rows in parentheses, calls, and names behind AS.
Each has one lemma here. All of them put a blank, a comma or a parenthesis
between two rows that are not known, and these fit on both sides of
everything (`fits_separator`, `Separator`). Where a renderer writes two
lexemes side by side without one, as in a qualified column or a negative
number, the renderer's own lemma says why they fit.

# Strings

The strings of rows side by side are the strings of one behind those of
the other (`AllSound`), and most parts of a query have none.
-/
import Mathlib.Data.List.Chain
import Mathlib.Data.List.Forall2
import TypedSelect.Proofs.Sql.Scan

namespace TypedSelect

open Scan

-- =========================================================== lexemes

/-- The token that a sign is scanned as. -/
def Scan.signToken : List Char → Token
  | [c] => if isMark c then .mark c else .operator (String.ofList [c])
  | text => .operator (String.ofList text)

/-- One mark that ends no statement, or an operator. -/
def Scan.isSign : List Char → Bool
  | [] => false
  | [c] => isMark c && c != ';' || isOperator c
  | text => isOperatorText text

namespace Lexeme

/-- The token that a lexeme is scanned as; blanks leave none. -/
def token? : Lexeme → Option Token
  | word text => some (.identifier text)
  | number text => some (.number text)
  | string content => some (.string content)
  | sign text => some (signToken text.toList)
  | blank _ => none

/-- The content of a string constant. -/
def content? : Lexeme → Option String
  | string content => some content
  | _ => none

/-- The characters are of the kind that the lexeme says. -/
def Clean : Lexeme → Prop
  | word text => isIdentifierShape text.toList = true
  | number text => IsNumeral text.toList
  | string _ => True
  | sign text => isSign text.toList = true
  | blank text => text.toList ≠ [] ∧ text.toList.all isSpace = true

/-- Whether a clean lexeme ends where the character comes. -/
def endsBefore : Lexeme → Char → Bool
  | word _, c => !continuesIdentifier c
  | number _, c => !(c.isDigit || c == '.')
  | string _, c => c != '\''
  | sign text, c => text.toList.all isMark || !isOperator c
  | blank _, _ => true

/-- The first of two neighbours ends where the second begins. -/
def Fits (a b : Lexeme) : Prop := ∀ c ∈ b.chars.head?, a.endsBefore c = true

/-- No clean lexeme is empty, so what comes behind it is not its neighbour's
business: the next lexeme alone decides where it ends. -/
theorem chars_ne_nil {l : Lexeme} (h : l.Clean) : l.chars ≠ [] := by
  cases l with
  | word text =>
      intro hnil
      rw [Clean, show text.toList = [] from hnil] at h
      cases h
  | number text =>
      obtain ⟨whole, part, htext, hne, -⟩ := h
      intro hnil
      rw [show text.toList = [] from hnil] at htext
      exact hne (List.append_eq_nil_iff.1 htext.symm).1
  | string content => exact List.cons_ne_nil _ _
  | sign text =>
      intro hnil
      rw [Clean, show text.toList = [] from hnil] at h
      cases h
  | blank text => exact h.1

/-- A sign is scanned as its own token. A mark ends before anything, and an
operator before all but an operator character. -/
theorem scan_sign {text rest : List Char} (h : isSign text = true)
    (hrest : ∀ c ∈ rest.head?, (text.all isMark || !isOperator c) = true) :
    scan (text ++ rest) = (scan rest).map (signToken text :: ·) := by
  have hoperator : text.all isMark = false → ∀ d ∈ rest.head?, isOperator d = false := by
    intro hmark d hd
    have := hrest d hd
    rw [hmark] at this
    simpa using this
  -- a mark is one character, and all that is longer is an operator
  match text with
  | [] => cases h
  | [c] =>
      cases hc : isMark c with
      | true =>
          rw [signToken, if_pos hc]
          exact scan_mark hc
      | false =>
          have hop : isOperator c = true := by simpa [isSign, hc] using h
          have hsolo : isOperatorText [c] = true := by
            simp [isOperatorText, hop, opensComment]
          rw [signToken, hc, if_neg Bool.false_ne_true]
          exact scan_operator (List.cons_ne_nil _ _) hsolo (hoperator (by simp [hc]))
  | c :: d :: text =>
      have hc : isMark c = false := by
        have hop : isOperator c = true := by
          simp only [isSign, isOperatorText, Bool.and_eq_true] at h
          exact h.1.1
        simpa using of_isOperator (p := fun d => !isMark d) hop (by decide)
      exact scan_operator (List.cons_ne_nil _ _) h (hoperator (by simp [hc]))

/-- A clean lexeme is scanned as its token, where it ends. There is one case
for each kind, by the lemma of the scanner for that kind. -/
theorem scan_chars {l : Lexeme} (h : l.Clean) {rest : List Char}
    (hrest : ∀ c ∈ rest.head?, l.endsBefore c = true) :
    scan (l.chars ++ rest) = (scan rest).map (l.token?.toList ++ ·) := by
  cases l with
  | word text =>
      have hend : ∀ d ∈ rest.head?, continuesIdentifier d = false := fun d hd => by
        simpa [endsBefore] using hrest d hd
      have := scan_identifier h hend
      rwa [String.ofList_toList] at this
  | number text =>
      have hend : ∀ d ∈ rest.head?, (d.isDigit || d == '.') = false := fun d hd => by
        simpa [endsBefore] using hrest d hd
      have := scan_number h hend
      rwa [String.ofList_toList] at this
  | string content =>
      have hend : ∀ d ∈ rest.head?, d ≠ '\'' := fun d hd => by
        simpa [endsBefore] using hrest d hd
      have := scan_string content.toList hend
      rwa [String.ofList_toList] at this
  | sign text => exact scan_sign h hrest
  | blank text =>
      show scan (text.toList ++ rest) = (scan rest).map fun tokens => tokens
      rw [scan_spaces (List.all_eq_true.1 h.2), Option.map_id']

end Lexeme

-- ============================================================== rows

namespace Sql

/-- The tokens of a row. -/
def tokens (row : Sql) : List Token := row.filterMap Lexeme.token?

/-- The contents of the strings of a row, in order. -/
def contents (row : Sql) : List String := row.filterMap Lexeme.content?

/-- A row of clean lexemes, each of which ends where the next begins, is
scanned as its tokens. -/
theorem scan_chars {row : Sql} (hclean : ∀ l ∈ row, l.Clean)
    (hchain : row.IsChain Lexeme.Fits) : scan row.chars = some row.tokens := by
  induction row with
  | nil => exact scan_nil
  | cons l row ih =>
      have hl : l.Clean := hclean l (List.mem_cons_self ..)
      have hrow : ∀ m ∈ row, m.Clean := fun m hm => hclean m (List.mem_cons_of_mem _ hm)
      rw [List.isChain_cons] at hchain
      -- what follows a lexeme begins with its neighbour, which is not empty
      have hhead : ∀ c ∈ (chars row).head?, l.endsBefore c = true := by
        cases row with
        | nil => simp [chars]
        | cons m row =>
            intro c hc
            apply hchain.1 m rfl c
            have hne := Lexeme.chars_ne_nil (hrow m (List.mem_cons_self ..))
            obtain ⟨d, tail, hm⟩ := List.exists_cons_of_ne_nil hne
            simpa [chars, hm] using hc
      have hshape : chars (l :: row) = l.chars ++ chars row := List.flatMap_cons
      rw [hshape, Lexeme.scan_chars hl hhead, ih hrow hchain.2, Option.map_some]
      congr 1
      cases ht : l.token? <;> simp [tokens, ht]

/-- The strings among the tokens of a row are its strings. A string has a
token with its content, and the token of any other lexeme has none. -/
theorem content_tokens (row : Sql) : row.tokens.filterMap Token.content? = row.contents := by
  unfold tokens contents
  rw [List.filterMap_filterMap]
  congr 1
  funext l
  cases l with
  | sign text =>
      show (signToken text.toList).content? = none
      unfold signToken
      split
      · split <;> rfl
      · rfl
  | _ => rfl

/-- Clean lexemes open no comment and end no statement. There is no way to
write either with them, whatever the strings hold. -/
theorem isPlain_of_clean {row : Sql} (hclean : ∀ l ∈ row, l.Clean) :
    ∀ t ∈ row.tokens, t.isPlain = true := by
  intro t ht
  obtain ⟨l, hl, hlt⟩ := List.mem_filterMap.1 ht
  have h := hclean l hl
  cases l with
  | sign text =>
      cases hlt
      show (signToken text.toList).isPlain = true
      -- only a mark of its own could end a statement
      have hsign : isSign text.toList = true := h
      unfold signToken
      split
      next c heq =>
        split
        next hmark =>
          rw [heq] at hsign
          have hop : isOperator c = false → c ≠ ';' := by
            intro hop
            simpa [isSign, hmark, hop] using hsign
          by_cases hc : c = ';'
          · subst hc
            exact absurd rfl (hop rfl)
          · simpa [Token.isPlain] using hc
        next => rfl
      next => rfl
  | blank text => cases hlt
  | _ => cases hlt; rfl

end Sql

-- ============================================================== sound

/-- A row that keeps its tokens when it is written out, in which every
parenthesis is matched, and that holds these strings. -/
structure Sql.Sound (row : Sql) (strings : List String) : Prop where
  clean : ∀ l ∈ row, l.Clean
  chain : row.IsChain Lexeme.Fits
  nested : ∀ depth, row.tokens.foldlM Token.nest depth = some depth
  strings : row.contents = strings

namespace Sql

open Lexeme (Fits)

variable {row row' : Sql} {strings strings' : List String}

/-- The tokens of two rows, one behind the other. -/
theorem tokens_append (row row' : Sql) : tokens (row ++ row') = row.tokens ++ row'.tokens :=
  List.filterMap_append

/-- The strings of two rows, one behind the other. -/
theorem contents_append (row row' : Sql) :
    contents (row ++ row') = row.contents ++ row'.contents :=
  List.filterMap_append

/-- The empty row is sound and has no strings. -/
theorem Sound.nil : Sound [] [] where
  clean := by simp
  chain := .nil
  nested _ := rfl
  strings := rfl

/-- One lexeme that is no parenthesis. It has no neighbours, so all there is
to show is that it is clean. -/
theorem Sound.single {l : Lexeme} (hclean : l.Clean)
    (hnest : ∀ depth, (tokens [l]).foldlM Token.nest depth = some depth) :
    Sound [l] (contents [l]) where
  clean := by simpa using hclean
  chain := .singleton l
  nested := hnest
  strings := rfl

/-- Two rows with neighbours that fit. Only the last lexeme of the one and
the first of the other are side by side. -/
theorem Sound.append (h : Sound row strings) (h' : Sound row' strings')
    (hfit : ∀ a ∈ row.getLast?, ∀ b ∈ row'.head?, Fits a b) :
    Sound (row ++ row') (strings ++ strings') where
  clean l hl := (List.mem_append.1 hl).elim (h.clean l) (h'.clean l)
  chain := List.isChain_append.2 ⟨h.chain, h'.chain, hfit⟩
  nested depth := by
    rw [tokens_append, List.foldlM_append, h.nested]
    exact h'.nested depth
  strings := by rw [contents_append, h.strings, h'.strings]

-- ---- what fits beside everything

/-- The characters before which every lexeme ends. -/
def separators : List Char := [' ', '\n', '\t', '\r', '(', ')', ',']

/-- A lexeme ends before a blank, a parenthesis and a comma, of whatever kind
it is: no word, number, string or operator goes on with one. -/
theorem fits_separator {a b : Lexeme} {c : Char} (hb : b.chars.head? = some c)
    (hc : c ∈ separators) : Fits a b := by
  have hall : ∀ p : Char → Bool, separators.all p = true → p c = true :=
    fun p hp => List.all_eq_true.1 hp c hc
  intro d hd
  rw [hb] at hd
  cases hd
  cases a with
  | word text => exact hall (fun c => !continuesIdentifier c) (by decide)
  | number text => exact hall (fun c => !(c.isDigit || c == '.')) (by decide)
  | string content => exact hall (fun c => c != '\'') (by decide)
  | sign text =>
      have := hall (fun c => !isOperator c) (by decide)
      exact Bool.or_eq_true_iff.2 (.inr this)
  | blank text => rfl

/-- A blank ends before anything, since it leaves no token that could go on. -/
theorem fits_blank (text : String) (b : Lexeme) : Fits (.blank text) b :=
  fun _ _ => rfl

theorem fits_mark {text : String} (h : text.toList.all isMark = true) (b : Lexeme) :
    Fits (.sign text) b :=
  fun _ _ => Bool.or_eq_true_iff.2 (.inl h)

/-- A row without strings that fits on both sides of everything. -/
structure Separator (row : Sql) : Prop where
  sound : Sound row []
  first : ∀ a, ∀ b ∈ row.head?, Fits a b
  last : ∀ a ∈ row.getLast?, ∀ b, Fits a b
  ne_nil : row ≠ []

/-- Two rows with a separator between them need not fit each other. -/
theorem Sound.separate {separator : Sql} (hs : Separator separator)
    (h : Sound row strings) (h' : Sound row' strings') :
    Sound (row ++ separator ++ row') (strings ++ strings') := by
  have hleft : Sound (row ++ separator) strings := by
    have := h.append hs.sound fun a _ b hb => hs.first a b hb
    rwa [List.append_nil] at this
  apply hleft.append h'
  intro a ha b _
  refine hs.last a ?_ b
  rwa [List.getLast?_append_of_ne_nil _ hs.ne_nil] at ha

/-- Rows that are sound one by one, and their strings in order. -/
inductive AllSound : List Sql → List String → Prop where
  | nil : AllSound [] []
  | cons {row : Sql} {strings : List String} {rows : List Sql} {more : List String}
      (h : Sound row strings) (hrest : AllSound rows more) :
      AllSound (row :: rows) (strings ++ more)

namespace AllSound

variable {rows rows' : List Sql}

/-- A row without strings before others. -/
theorem skip (h : Sound row []) (hrest : AllSound rows strings) :
    AllSound (row :: rows) strings :=
  .cons h hrest

/-- The last row. -/
theorem last (h : Sound row strings) : AllSound [row] strings := by
  have := AllSound.cons h .nil
  rwa [List.append_nil] at this

theorem append (h : AllSound rows strings) (h' : AllSound rows' strings') :
    AllSound (rows ++ rows') (strings ++ strings') := by
  induction h with
  | nil => exact h'
  | cons h hrest ih =>
      rw [List.append_assoc]
      exact .cons h ih

/-- The rows that the elements of a list are written as. -/
theorem of_forall₂ {α : Type} {f : α → List String} {l : List α}
    (h : List.Forall₂ (fun a row => Sound row (f a)) l rows) :
    AllSound rows (l.flatMap f) := by
  induction h with
  | nil => exact .nil
  | cons h hrest ih => exact .cons h ih

/-- Rows without strings, as the columns of a grouping are. -/
theorem silent (h : ∀ row ∈ rows, Sound row []) : AllSound rows [] := by
  induction rows with
  | nil => exact .nil
  | cons row rows ih =>
      exact .skip (h row (List.mem_cons_self ..))
        (ih fun r hr => h r (List.mem_cons_of_mem _ hr))

end AllSound

/-- Rows with a separator between them hold their strings in order. The
induction is on the rows, and the separator is before every one but the
first. -/
theorem Sound.separated {separator : Sql} (hs : Separator separator) {rows : List Sql}
    (h : AllSound rows strings) : Sound (separated separator rows) strings := by
  induction h with
  | nil => exact .nil
  | cons h hrest ih =>
      cases hrest with
      | nil =>
          rw [List.append_nil]
          exact h
      | cons h' hrest => exact Sound.separate hs h ih

-- ---- constructions

/-- A word alone is sound if it has the shape of a name or a keyword. -/
theorem Sound.word {text : String} (h : isIdentifierShape text.toList = true) :
    Sound [.word text] [] :=
  .single (l := .word text) h fun _ => rfl

/-- A number alone is sound if it is written in digits. -/
theorem Sound.number {text : String} (h : IsNumeral text.toList) :
    Sound [.number text] [] :=
  .single (l := .number text) h fun _ => rfl

/-- A string alone is sound whatever it holds, and it is the only lexeme that
adds to the strings of a row. -/
theorem Sound.string (content : String) : Sound [.string content] [content] :=
  .single (l := .string content) trivial fun _ => rfl

theorem Sound.blank {text : String} (h : (Lexeme.blank text).Clean) :
    Sound [.blank text] [] :=
  .single h fun _ => rfl

/-- An operator or a mark other than a parenthesis. It leaves the depth of
the parentheses as it is. -/
theorem Sound.sign {text : String} (h : isSign text.toList = true)
    (hparen : text.toList ≠ ['('] ∧ text.toList ≠ [')']) : Sound [.sign text] [] := by
  refine .single (l := .sign text) h fun depth => ?_
  show (Token.nest depth (signToken text.toList) >>= pure) = some depth
  unfold signToken
  split
  next c heq =>
    rw [heq] at hparen
    split
    · unfold Token.nest
      split <;> simp_all
    · rfl
  next => rfl

/-- Parentheses match each other and fit around everything, and inside of
them the depth is one more. -/
theorem Sound.parens (h : Sound row strings) : Sound (parens row) strings where
  clean := by
    intro l hl
    have hcases : l = .sign "(" ∨ l ∈ row ∨ l = .sign ")" := by
      simpa [Sql.parens] using hl
    rcases hcases with rfl | hl | rfl
    · rfl
    · exact h.clean l hl
    · rfl
  chain := by
    show List.IsChain Fits ([Lexeme.sign "("] ++ row ++ [Lexeme.sign ")"])
    rw [List.isChain_append, List.isChain_append]
    refine ⟨⟨.singleton _, h.chain, ?_⟩, .singleton _, ?_⟩
    -- the opening parenthesis ends before anything
    · rintro a ⟨⟩ b -
      exact fits_mark rfl b
    -- anything ends before the closing one
    · rintro a - b ⟨⟩
      exact fits_separator (c := ')') rfl (by decide)
  nested depth := by
    have hshape : tokens (Sql.parens row) = .mark '(' :: (row.tokens ++ [.mark ')']) := by
      show tokens ([.sign "("] ++ row ++ [.sign ")"]) = _
      rw [tokens_append, tokens_append]
      rfl
    rw [hshape, List.foldlM_cons]
    show (row.tokens ++ [Token.mark ')']).foldlM Token.nest (depth + 1) = some depth
    -- inside the depth is one more, and the row leaves it as it finds it
    rw [List.foldlM_append, h.nested]
    rfl
  strings := by
    show contents ([.sign "("] ++ row ++ [.sign ")"]) = strings
    rw [contents_append, contents_append, h.strings]
    exact List.append_nil _

theorem fits_of_blank {a : Lexeme} {text : String} (h : (Lexeme.blank text).Clean) :
    Fits a (.blank text) := by
  obtain ⟨c, tail, htext⟩ := List.exists_cons_of_ne_nil h.1
  have hspace : isSpace c = true := List.all_eq_true.1 h.2 c (by simp [htext])
  apply fits_separator (c := c) (by simp [Lexeme.chars, htext])
  simp only [isSpace, Bool.or_eq_true, decide_eq_true_eq] at hspace
  rcases hspace with ((rfl | rfl) | rfl) | rfl <;> decide

/-- Blanks, or a line end. -/
theorem separator_blank {text : String} (h : (Lexeme.blank text).Clean) :
    Separator [.blank text] where
  sound := .blank h
  first := by
    rintro a b ⟨⟩
    exact fits_of_blank h
  last := by
    rintro a ⟨⟩ b
    exact fits_blank text b
  ne_nil := List.cons_ne_nil _ _

/-- A comma and blanks. The comma ends what is before it, and the blank
behind it ends before anything. -/
theorem separator_comma {text : String} (h : (Lexeme.blank text).Clean) :
    Separator [.sign ",", .blank text] where
  sound := by
    have hcomma : Sound [.sign ","] [] := .sign (by decide) (by decide)
    apply hcomma.append (.blank h)
    rintro a - b ⟨⟩
    exact fits_of_blank h
  first := by
    rintro a b ⟨⟩
    exact fits_separator (c := ',') rfl (by decide)
  last := by
    rintro a ⟨⟩ b
    exact fits_blank text b
  ne_nil := List.cons_ne_nil _ _

theorem clean_space : (Lexeme.blank " ").Clean := ⟨by decide, by decide⟩

theorem separator_space : Separator [space] := separator_blank clean_space

/-- A word between blanks. -/
theorem separator_word {text : String} (h : isIdentifierShape text.toList = true) :
    Separator [space, .word text, space] where
  sound := Sound.separate separator_space .nil
    (Sound.append (.word h) separator_space.sound fun a _ b hb =>
      separator_space.first a b hb)
  first := separator_space.first
  last := separator_space.last
  ne_nil := List.cons_ne_nil _ _

/-- Rows with blanks between them, as the words of a clause are written. -/
theorem Sound.spaced {rows : List Sql} (h : AllSound rows strings) :
    Sound (spaced rows) strings :=
  .separated separator_space h

/-- Rows with commas between them, as the items of a list are written. -/
theorem Sound.listed {rows : List Sql} (h : AllSound rows strings) :
    Sound (listed rows) strings :=
  .separated (separator_comma clean_space) h

/-- Names and keywords with blanks between them. -/
theorem Sound.words {names : List String}
    (h : ∀ name ∈ names, isIdentifierShape name.toList = true) : Sound (words names) [] := by
  refine .spaced (.silent fun row hrow => ?_)
  obtain ⟨name, hname, rfl⟩ := List.mem_map.1 hrow
  exact .word (h name hname)

theorem Sound.named {aliasName : String} (h : Sound row strings)
    (hname : isIdentifierShape aliasName.toList = true) :
    Sound (named row aliasName) strings := by
  have hwords : Sound (Sql.words ["AS", aliasName]) [] := by
    refine .words ?_
    simp only [List.forall_mem_cons, List.not_mem_nil, false_implies, implies_true, and_true]
    exact ⟨by decide, hname⟩
  have := Sound.separate separator_space h hwords
  rwa [List.append_nil] at this

/-- A call: the name ends at the opening parenthesis behind it. -/
theorem Sound.call {function : String} (hf : isIdentifierShape function.toList = true)
    (h : Sound row strings) : Sound (call function row) strings := by
  have hname : Sound [.word function] [] := .word hf
  apply hname.append h.parens
  rintro a - b ⟨⟩
  exact fits_separator (c := '(') rfl (by decide)

end Sql

end TypedSelect
