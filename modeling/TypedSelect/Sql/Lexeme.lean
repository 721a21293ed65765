/-
SQL as a list of lexemes, and its text.

The renderer works on lexemes, so what is a name, a sign, a number or a
string is known of every piece of the text. A string enters the text in
quotes, with the quotes inside it doubled; nothing else in this library
quotes. The text of SQL is the text of its lexemes one after the other.
-/

namespace TypedSelect

/-- A piece of SQL text. -/
inductive Lexeme where
  /-- A keyword or a name. -/
  | word (text : String)
  /-- The digits of a number, without a sign. -/
  | number (text : String)
  /-- A string constant, given by its content. -/
  | string (content : String)
  /-- An operator or a punctuation mark. -/
  | sign (text : String)
  /-- Blanks and line ends. -/
  | blank (text : String)
deriving DecidableEq, Repr

/-- A row of lexemes. -/
abbrev Sql := List Lexeme

-- ============================================================ quoting

/-- The characters of a string constant between its quotes. -/
def doubleQuotes : List Char → List Char
  | [] => []
  | c :: rest =>
    if c = '\'' then '\'' :: '\'' :: doubleQuotes rest else c :: doubleQuotes rest

/-- The characters of a string constant: quotes around it, and every
quote inside doubled. -/
def quotedChars (content : List Char) : List Char :=
  '\'' :: doubleQuotes content ++ ['\'']

/-- The text of a string constant. -/
def quote (content : String) : String := String.ofList (quotedChars content.toList)

/-- The characters of a lexeme. -/
def Lexeme.chars : Lexeme → List Char
  | word text => text.toList
  | number text => text.toList
  | string content => quotedChars content.toList
  | sign text => text.toList
  | blank text => text.toList

namespace Sql

/-- The characters of a row of lexemes. -/
def chars (row : Sql) : List Char := row.flatMap Lexeme.chars

/-- The text of a row of lexemes. -/
def text (row : Sql) : String := String.ofList row.chars

-- ======================================================= construction

/-- One blank. -/
def space : Lexeme := .blank " "

/-- The end of a line. -/
def lineEnd : Lexeme := .blank "\n"

/-- Rows with a separator between them. -/
def separated (separator : Sql) : List Sql → Sql
  | [] => []
  | [row] => row
  | row :: rest => row ++ separator ++ separated separator rest

/-- Rows with a blank between them. -/
def spaced (rows : List Sql) : Sql := separated [space] rows

/-- Rows with commas between them. -/
def listed (rows : List Sql) : Sql := separated [.sign ",", space] rows

/-- Words with blanks between them. -/
def words (names : List String) : Sql := spaced (names.map fun name => [.word name])

/-- A row in parentheses. -/
def parens (row : Sql) : Sql := .sign "(" :: row ++ [.sign ")"]

/-- A call of a function. -/
def call (function : String) (arguments : Sql) : Sql :=
  .word function :: parens arguments

/-- A row under a name. -/
def named (row : Sql) (aliasName : String) : Sql := spaced [row, words ["AS", aliasName]]

end Sql

end TypedSelect
