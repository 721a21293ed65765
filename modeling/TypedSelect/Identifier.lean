/-
Names that SQL takes without quotes.

A caller's name is emitted as it is, so it must have the shape of an
identifier and must not be a word of the language. Names compare without
regard to the case of ASCII letters, as unquoted identifiers do.
-/

namespace TypedSelect

/-- The words a name may not be, in lower case. -/
def reservedWords : List String :=
  ["all", "and", "as", "asc", "between", "by", "case", "check", "constraint",
    "create", "default", "delete", "desc", "distinct", "drop", "else", "end",
    "false", "first", "foreign", "from", "group", "having", "ilike", "in",
    "index", "inner", "insert", "is", "join", "key", "last", "left", "like",
    "limit", "not", "null", "nulls", "offset", "on", "or", "order", "outer",
    "over", "partition", "primary", "references", "right", "select", "table",
    "then", "true", "union", "update", "user", "when", "where", "window", "with"]

/-- The most bytes a name may have. -/
def maxIdentifierSize : Nat := 63

/-- A character that may begin a name. -/
def startsIdentifier (c : Char) : Bool := c.isAlpha || c = '_'

/-- A character that may stand in a name. -/
def continuesIdentifier (c : Char) : Bool := c.isAlphanum || c = '_'

/-- The characters of a name with ASCII letters in lower case. -/
def foldCase (name : String) : List Char := name.toList.map Char.toLower

/-- Whether two names are one to SQL. -/
def sameName (a b : String) : Bool := foldCase a == foldCase b

theorem sameName_iff {a b : String} : sameName a b = true ↔ foldCase a = foldCase b := beq_iff_eq

/-- A word of the language, in any case. -/
def isReserved (name : String) : Bool := reservedWords.any (sameName name)

/-- The shape of an identifier: a letter or underscore first, then
letters, digits and underscores. -/
def isIdentifierShape : List Char → Bool
  | [] => false
  | c :: rest => startsIdentifier c && rest.all continuesIdentifier

/-- Whether a name can be emitted without quotes. -/
def isIdentifier (name : String) : Bool :=
  isIdentifierShape name.toList && decide (name.utf8ByteSize ≤ maxIdentifierSize) &&
    !isReserved name

end TypedSelect
