/-
SQL text cut into tokens.

`scan` is a scanner in its own right: it sees characters only and knows
nothing of the renderer. Each token is as long as it can be, a string ends
at the first quote that is not doubled, a backslash is a character like
any other, and a comment opener is a token of its own, so that a text
without one is a text without comments.

# Why a scanner

A claim about the meaning of the text needs a reader of the text that does
not know what was meant. That the strings of a query are quoted is such a
claim: it says that what a reader of SQL takes for a string constant is
what the caller gave, and that nothing else of the text comes from a
string. So the scanner is written from the lexical rules of SQL, with
doubled quotes and without escapes by backslash, and a character that
begins no token is refused rather than skipped.

# What ends a token

There is one lemma for each kind of token. It says which text is scanned
as that token, and before which characters: a word would go on with a
letter, a string with a quote, an operator with an operator character.
These lemmas are about one token with anything behind it. Whether what is
behind it is such a character is a matter of the row of lexemes that the
renderer makes, and stands in the module after this one.

# Termination

The scanner goes on with what a token leaves over, which is shorter by one
character at least (`length_of_next?`).
-/
import TypedSelect.Identifier
import TypedSelect.Proofs.Characters
import TypedSelect.Sql.Lexeme

namespace TypedSelect

-- ============================================================== tokens

/-- A token of SQL text. -/
inductive Token where
  /-- A name or a keyword. -/
  | identifier (text : String)
  /-- Digits, perhaps with a point among them. -/
  | number (text : String)
  /-- A string constant, given by its content. -/
  | string (content : String)
  /-- A run of operator characters. -/
  | operator (text : String)
  /-- A punctuation mark. -/
  | mark (character : Char)
  /-- The characters that open a comment. -/
  | comment (opener : String)
deriving DecidableEq, Repr

namespace Token

/-- The content of a string constant. -/
def content? : Token → Option String
  | string content => some content
  | _ => none

/-- The token with nothing in its string. -/
def blanked : Token → Token
  | string _ => string ""
  | t => t

/-- The number of open parentheses after a token, from the number before
it; nothing when one closes that was not opened. -/
def nest (depth : Nat) : Token → Option Nat
  | mark '(' => some (depth + 1)
  | mark ')' => if depth = 0 then none else some (depth - 1)
  | _ => some depth

/-- Every parenthesis is closed, and none is closed before it opens. -/
def Balanced (tokens : List Token) : Prop := tokens.foldlM nest 0 = some 0

/-- Neither a comment nor a semicolon. -/
def isPlain : Token → Bool
  | comment _ => false
  | mark c => c != ';'
  | _ => true

end Token

-- ============================================================= scanner

namespace Scan

/-- Blanks and line ends. -/
def isSpace (c : Char) : Bool := c = ' ' || c = '\n' || c = '\t' || c = '\r'

/-- The characters that operators are made of. -/
def operators : List Char :=
  ['+', '-', '*', '/', '<', '>', '=', '~', '!', '@', '#', '%', '^', '&', '|', '?']

/-- A character of an operator. -/
def isOperator (c : Char) : Bool := operators.contains c

/-- The punctuation marks. -/
def marks : List Char := ['(', ')', '[', ']', ',', ';', ':', '.']

/-- A punctuation mark. -/
def isMark (c : Char) : Bool := marks.contains c

/-- Whether a comment begins here. -/
def opensComment : List Char → Bool
  | '-' :: '-' :: _ => true
  | '/' :: '*' :: _ => true
  | _ => false

/-- The content of a string after its opening quote, and the rest; nothing
when the string does not end. -/
def takeString : List Char → Option (List Char × List Char)
  | [] => none
  | '\'' :: '\'' :: rest => (takeString rest).map fun (content, rest) => ('\'' :: content, rest)
  | '\'' :: rest => some ([], rest)
  | c :: rest => (takeString rest).map fun (content, rest) => (c :: content, rest)

/-- The operator characters up to where a comment begins. -/
def takeOperator : List Char → List Char × List Char
  | [] => ([], [])
  | c :: rest =>
    if isOperator c && !opensComment (c :: rest) then
      (c :: (takeOperator rest).1, (takeOperator rest).2)
    else ([], c :: rest)

/-- Digits, and a point with digits behind it. -/
def takeNumber (s : List Char) : List Char × List Char :=
  match s.dropWhile Char.isDigit with
  | '.' :: c :: rest =>
    if c.isDigit then
      (s.takeWhile Char.isDigit ++ '.' :: (c :: rest).takeWhile Char.isDigit,
        (c :: rest).dropWhile Char.isDigit)
    else (s.takeWhile Char.isDigit, s.dropWhile Char.isDigit)
  | rest => (s.takeWhile Char.isDigit, rest)

/-- The token that begins with `c`, and the rest; nothing for a character
that begins none and for a string without an end. -/
def next? (c : Char) (rest : List Char) : Option (Token × List Char) :=
  if opensComment (c :: rest) then
    some (.comment (String.ofList (c :: rest.take 1)), rest.drop 1)
  else if c = '\'' then
    (takeString rest).map fun (content, rest) => (.string (String.ofList content), rest)
  else if startsIdentifier c then
    some (.identifier (String.ofList (c :: rest.takeWhile continuesIdentifier)),
      rest.dropWhile continuesIdentifier)
  else if c.isDigit then
    some (.number (String.ofList (takeNumber (c :: rest)).1), (takeNumber (c :: rest)).2)
  else if isOperator c then
    some (.operator (String.ofList (c :: (takeOperator rest).1)), (takeOperator rest).2)
  else if isMark c then some (.mark c, rest)
  else none

-- ---- every token uses up a character

/-- A string uses up at least its closing quote. By the recursion of the
function, in which a doubled quote takes two characters. -/
theorem length_of_takeString {s content rest : List Char}
    (h : takeString s = some (content, rest)) : rest.length < s.length := by
  fun_induction takeString s generalizing content with
  | case1 => cases h
  | case2 s ih =>
      obtain ⟨⟨content', rest'⟩, hs, h⟩ := Option.map_eq_some_iff.1 h
      cases h
      have := ih hs
      simp only [List.length_cons]
      omega
  | case3 s _ =>
      cases h
      simp
  | case4 c s _ _ ih =>
      obtain ⟨⟨content', rest'⟩, hs, h⟩ := Option.map_eq_some_iff.1 h
      cases h
      have := ih hs
      simp only [List.length_cons]
      omega

/-- What is behind an operator is no longer than the text. It may be the text
itself, since the first character is not yet taken here. -/
theorem length_takeOperator (s : List Char) : (takeOperator s).2.length ≤ s.length := by
  induction s with
  | nil => exact Nat.le_refl _
  | cons c rest ih =>
      unfold takeOperator
      split
      · exact Nat.le_succ_of_le ih
      · exact Nat.le_refl _

/-- A number that begins with a digit uses up that digit. The rest is what is
behind the digits, or behind the digits of its fraction. -/
theorem length_takeNumber {c : Char} (hc : c.isDigit = true) (rest : List Char) :
    (takeNumber (c :: rest)).2.length ≤ rest.length := by
  have hdrop : (c :: rest).dropWhile Char.isDigit = rest.dropWhile Char.isDigit := by
    rw [List.dropWhile_cons, if_pos hc]
  have hle := (rest.dropWhile_sublist Char.isDigit).length_le
  unfold takeNumber
  rw [hdrop]
  split
  next d tail hd =>
    rw [hd] at hle
    simp only [List.length_cons] at hle
    have := ((d :: tail).dropWhile_sublist Char.isDigit).length_le
    simp only [List.length_cons] at this
    split
    · dsimp only
      omega
    · rw [hd]
      simp only [List.length_cons]
      omega
  next => exact hle

/-- Behind a token is at most what was behind its first character, so the
scanner gets shorter by one character or more. -/
theorem length_of_next? {c : Char} {s rest : List Char} {t : Token}
    (h : next? c s = some (t, rest)) : rest.length ≤ s.length := by
  unfold next? at h
  split at h
  · cases h
    simp
  split at h
  · obtain ⟨⟨content, rest'⟩, hs, h⟩ := Option.map_eq_some_iff.1 h
    cases h
    exact Nat.le_of_lt (length_of_takeString hs)
  split at h
  · cases h
    exact (List.dropWhile_sublist _).length_le
  split at h
  next hc =>
    cases h
    exact length_takeNumber hc _
  split at h
  · cases h
    exact length_takeOperator _
  split at h
  · cases h
    exact Nat.le_refl _
  · cases h

end Scan

open Scan

/-- The tokens of a text; nothing where a string does not end or a
character belongs to no token. -/
def scan : List Char → Option (List Token)
  | [] => some []
  | c :: rest =>
    if isSpace c then scan rest
    else
      match _h : next? c rest with
      | none => none
      | some (t, rest') => (scan rest').map (t :: ·)
termination_by s => s.length
decreasing_by
  · simp
  · have := length_of_next? _h
    simp only [List.length_cons]
    omega

theorem scan_nil : scan [] = some [] := by
  rw [scan]

/-- A blank is no token and separates those beside it. -/
theorem scan_space {c : Char} (hc : isSpace c = true) (rest : List Char) :
    scan (c :: rest) = scan rest := by
  rw [scan, if_pos hc]

/-- A character that is no blank begins a token, and the scanner goes on
behind it. The other lemmas find that token and apply this one. -/
theorem scan_next {c : Char} {s rest : List Char} {t : Token}
    (hc : isSpace c = false) (h : next? c s = some (t, rest)) :
    scan (c :: s) = (scan rest).map (t :: ·) := by
  rw [scan, if_neg (by rw [hc]; exact Bool.false_ne_true)]
  split
  next h' => rw [h] at h'; cases h'
  next t' rest' h' =>
    rw [h] at h'
    cases h'
    rfl

-- ====================================================== single tokens

namespace Scan

variable {c : Char} {run rest : List Char}

/-- A class without blanks. -/
theorem isSpace_eq_false {p : Char → Bool} (hc : p c = true)
    (hp : [' ', '\n', '\t', '\r'].all (fun d => !p d) = true) : isSpace c = false := by
  simp only [List.all_cons, List.all_nil, Bool.and_true, Bool.and_eq_true,
    Bool.not_eq_true'] at hp
  obtain ⟨hblank, hline, htab, hreturn⟩ := hp
  simp [isSpace, ne_of_class hc _ hblank, ne_of_class hc _ hline,
    ne_of_class hc _ htab, ne_of_class hc _ hreturn]

/-- Only a minus and a slash begin a comment. -/
theorem opensComment_eq_false (hminus : c ≠ '-') (hslash : c ≠ '/')
    (rest : List Char) : opensComment (c :: rest) = false := by
  unfold opensComment
  split <;> simp_all

/-- A comment opener is two operator characters. -/
theorem opensComment_of_next (c : Char)
    (hrest : ∀ d ∈ rest.head?, isOperator d = false) :
    opensComment (c :: rest) = false := by
  cases rest with
  | nil => unfold opensComment; split <;> simp_all
  | cons d rest =>
      have hd := hrest d rfl
      have hminus : d ≠ '-' := by rintro rfl; cases hd
      have hstar : d ≠ '*' := by rintro rfl; cases hd
      unfold opensComment
      split <;> simp_all

-- ---- names

/-- A name ends where a character comes with which no name goes on. Keywords
are scanned in the same way and are told apart only by their text. -/
theorem scan_identifier {text : List Char} (h : isIdentifierShape text = true)
    (hrest : ∀ d ∈ rest.head?, continuesIdentifier d = false) :
    scan (text ++ rest) =
      (scan rest).map (.identifier (String.ofList text) :: ·) := by
  cases text with
  | nil => cases h
  | cons c run =>
      simp only [isIdentifierShape, Bool.and_eq_true, List.all_eq_true] at h
      obtain ⟨hc, hrun⟩ := h
      obtain ⟨htake, hdrop⟩ := span_append hrun hrest
      have hcomment := opensComment_eq_false (ne_of_class hc '-' rfl)
        (ne_of_class hc '/' rfl) (run ++ rest)
      rw [List.cons_append]
      apply scan_next (isSpace_eq_false hc rfl)
      unfold next?
      rw [hcomment, if_neg Bool.false_ne_true, if_neg (ne_of_class hc '\'' rfl),
        if_pos hc, htake, hdrop]

-- ---- numbers

/-- The digits of a number: some, and perhaps a point and some more. -/
def IsNumeral (text : List Char) : Prop :=
  ∃ whole part, text = whole ++ part ∧ whole ≠ [] ∧ AllDigits whole ∧
    (part = [] ∨ ∃ digits, part = '.' :: digits ∧ digits ≠ [] ∧ AllDigits digits)

/-- A number ends where neither a digit nor a point comes. There is a case
for digits alone and one for digits with a fraction. -/
theorem takeNumber_append {text : List Char} (h : IsNumeral text)
    (hrest : ∀ d ∈ rest.head?, (d.isDigit || d == '.') = false) :
    takeNumber (text ++ rest) = (text, rest) := by
  have hdigit : ∀ d ∈ rest.head?, d.isDigit = false := fun d hd =>
    (Bool.or_eq_false_iff.1 (hrest d hd)).1
  obtain ⟨whole, part, rfl, -, hwhole, rfl | ⟨digits, rfl, hne, hdigits⟩⟩ := h
  · rw [List.append_nil]
    obtain ⟨htake, hdrop⟩ := span_append hwhole hdigit
    unfold takeNumber
    rw [hdrop, htake]
    split
    -- a whole number goes on with a point, but none follows
    next d tail => cases hrest '.' rfl
    next => rfl
  · have hpoint : ∀ d ∈ ('.' :: digits ++ rest).head?, d.isDigit = false := by
      rintro d ⟨⟩
      rfl
    obtain ⟨htake, hdrop⟩ := span_append hwhole hpoint
    obtain ⟨htake', hdrop'⟩ := span_append hdigits hdigit
    obtain ⟨d, digits, rfl⟩ := List.exists_cons_of_ne_nil hne
    have hd := hdigits d (List.mem_cons_self ..)
    unfold takeNumber
    simp only [List.append_assoc, List.cons_append] at htake hdrop htake' hdrop' ⊢
    simp only [hdrop, hd, if_true, htake, htake', hdrop']

/-- No name begins with a digit, so the scanner does not take a number for a
name, which it looks for first. -/
theorem startsIdentifier_of_isDigit (hc : c.isDigit = true) :
    startsIdentifier c = false := by
  have hne := ne_of_class hc '_' rfl
  obtain ⟨-, hle⟩ := isDigit_iff.1 hc
  have hletter : ¬ c.isAlpha = true := by
    rw [isAlpha_iff]
    rintro (⟨hge, -⟩ | ⟨hge, -⟩)
    · exact absurd (Char.le_trans hge hle) (by decide)
    · exact absurd (Char.le_trans hge hle) (by decide)
  unfold startsIdentifier
  rw [Bool.or_eq_false_iff]
  exact ⟨Bool.eq_false_iff.2 hletter, decide_eq_false hne⟩

/-- A number is scanned as one token. With a point behind it, it could go on,
so none may follow. -/
theorem scan_number {text : List Char} (h : IsNumeral text)
    (hrest : ∀ d ∈ rest.head?, (d.isDigit || d == '.') = false) :
    scan (text ++ rest) = (scan rest).map (.number (String.ofList text) :: ·) := by
  have htake := takeNumber_append h hrest
  obtain ⟨c, tail, htext, hc⟩ : ∃ c tail, text = c :: tail ∧ c.isDigit = true := by
    obtain ⟨whole, part, rfl, hne, hwhole, -⟩ := h
    obtain ⟨c, whole, rfl⟩ := List.exists_cons_of_ne_nil hne
    exact ⟨c, whole ++ part, rfl, hwhole c (List.mem_cons_self ..)⟩
  subst htext
  have hcomment := opensComment_eq_false (ne_of_class hc '-' rfl)
    (ne_of_class hc '/' rfl) (tail ++ rest)
  rw [List.cons_append] at htake ⊢
  apply scan_next (isSpace_eq_false hc rfl)
  unfold next?
  rw [hcomment, if_neg Bool.false_ne_true, if_neg (ne_of_class hc '\'' rfl),
    startsIdentifier_of_isDigit hc, if_neg Bool.false_ne_true, if_pos hc, htake]

-- ---- strings

/-- A doubled quote goes on with a string, so the string ends at the quote
behind it unless another one follows. -/
theorem takeString_doubleQuotes (content : List Char)
    (hrest : ∀ d ∈ rest.head?, d ≠ '\'') :
    takeString (doubleQuotes content ++ '\'' :: rest) = some (content, rest) := by
  induction content with
  | nil =>
      cases rest with
      | nil => rfl
      | cons d rest =>
          have hd := hrest d rfl
          rw [doubleQuotes, List.nil_append, takeString]
          intro rest' h
          cases h
          -- a quote behind the closing one would be the second of a pair
          exact hd rfl
  | cons c content ih =>
      by_cases hc : c = '\''
      · subst hc
        simp only [doubleQuotes, if_true, List.cons_append, takeString, ih,
          Option.map_some]
      · rw [doubleQuotes, if_neg hc, List.cons_append, takeString, ih, Option.map_some]
        · intro rest' h
          exact fun _ => hc h
        · exact hc

/-- A quoted string is scanned as one token with the content that was quoted,
whatever characters that content has. This is where it matters that quotes
are doubled. -/
theorem scan_string (content : List Char) (hrest : ∀ d ∈ rest.head?, d ≠ '\'') :
    scan (quotedChars content ++ rest) =
      (scan rest).map (.string (String.ofList content) :: ·) := by
  have htake := takeString_doubleQuotes content hrest
  have hshape : quotedChars content ++ rest =
      '\'' :: (doubleQuotes content ++ '\'' :: rest) := by
    simp [quotedChars]
  rw [hshape]
  apply scan_next rfl
  unfold next?
  rw [opensComment_eq_false (by decide) (by decide), if_neg Bool.false_ne_true,
    if_pos rfl, htake, Option.map_some]

-- ---- operators, marks and blanks

/-- Operator characters among which no comment begins. -/
def isOperatorText : List Char → Bool
  | [] => true
  | c :: rest => isOperator c && !opensComment (c :: rest) && isOperatorText rest

/-- What holds of every operator character. -/
theorem of_isOperator {p : Char → Bool} (hc : isOperator c = true)
    (hp : operators.all p = true) : p c = true :=
  List.all_eq_true.1 hp c (List.contains_iff_mem.1 hc)

/-- Behind the characters of an operator no comment opens either, unless
an operator character follows. -/
theorem opensComment_append {text : List Char} (h : isOperatorText (c :: text) = true)
    (hrest : ∀ d ∈ rest.head?, isOperator d = false) :
    opensComment (c :: (text ++ rest)) = false := by
  cases text with
  | nil => exact opensComment_of_next c hrest
  | cons d text =>
      simp only [isOperatorText, Bool.and_eq_true, Bool.not_eq_true'] at h
      have := h.1.2
      rw [List.cons_append]
      unfold opensComment at this ⊢
      split at this <;> simp_all

/-- Operator characters in which no comment begins are taken up to the first
character of another kind. -/
theorem takeOperator_append {text : List Char} (h : isOperatorText text = true)
    (hrest : ∀ d ∈ rest.head?, isOperator d = false) :
    takeOperator (text ++ rest) = (text, rest) := by
  induction text with
  | nil =>
      cases rest with
      | nil => rfl
      | cons d rest => simp [takeOperator, hrest d rfl]
  | cons c text ih =>
      have hcomment := opensComment_append h hrest
      simp only [isOperatorText, Bool.and_eq_true] at h
      simp [takeOperator, h.1.1, hcomment, ih h.2]

/-- An operator is scanned as one token. It holds no `--` and no `/*`, which
would be scanned as the start of a comment. -/
theorem scan_operator {text : List Char} (hne : text ≠ [])
    (h : isOperatorText text = true)
    (hrest : ∀ d ∈ rest.head?, isOperator d = false) :
    scan (text ++ rest) = (scan rest).map (.operator (String.ofList text) :: ·) := by
  obtain ⟨c, text, rfl⟩ := List.exists_cons_of_ne_nil hne
  have hcomment := opensComment_append h hrest
  simp only [isOperatorText, Bool.and_eq_true] at h
  obtain ⟨⟨hc, -⟩, htext⟩ := h
  have hname : startsIdentifier c = false := by
    simpa using of_isOperator (p := fun d => !startsIdentifier d) hc (by decide)
  have hdigit : c.isDigit = false := by
    simpa using of_isOperator (p := fun d => !d.isDigit) hc (by decide)
  rw [List.cons_append]
  apply scan_next (isSpace_eq_false hc rfl)
  unfold next?
  rw [hcomment, if_neg Bool.false_ne_true, if_neg (ne_of_class hc '\'' rfl), hname,
    if_neg Bool.false_ne_true, hdigit, if_neg Bool.false_ne_true, if_pos hc,
    takeOperator_append htext hrest]

/-- A punctuation mark is a token alone and ends before anything. No mark is
of any class that the scanner looks for before marks. -/
theorem scan_mark (hc : isMark c = true) :
    scan (c :: rest) = (scan rest).map (.mark c :: ·) := by
  have hmark : ∀ p : Char → Bool, marks.all p = true → p c = true := fun p hp =>
    List.all_eq_true.1 hp c (List.contains_iff_mem.1 hc)
  have hname : startsIdentifier c = false := by
    simpa using hmark (fun d => !startsIdentifier d) (by decide)
  have hdigit : c.isDigit = false := by
    simpa using hmark (fun d => !d.isDigit) (by decide)
  have hoperator : isOperator c = false := by
    simpa using hmark (fun d => !isOperator d) (by decide)
  have hcomment := opensComment_eq_false (ne_of_class hc '-' rfl)
    (ne_of_class hc '/' rfl) rest
  apply scan_next (isSpace_eq_false hc rfl)
  unfold next?
  rw [hcomment, if_neg Bool.false_ne_true, if_neg (ne_of_class hc '\'' rfl), hname,
    if_neg Bool.false_ne_true, hdigit, if_neg Bool.false_ne_true, hoperator,
    if_neg Bool.false_ne_true, if_pos hc]

theorem scan_spaces {text : List Char} (h : ∀ d ∈ text, isSpace d = true) :
    scan (text ++ rest) = scan rest := by
  induction text with
  | nil => rfl
  | cons c text ih =>
      rw [List.cons_append, scan_space (h c (List.mem_cons_self ..)),
        ih fun d hd => h d (List.mem_cons_of_mem _ hd)]

end Scan

end TypedSelect
