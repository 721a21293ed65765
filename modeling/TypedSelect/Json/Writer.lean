/-
JSON text of a value, in a compact form and in an indented one.

Only characters that JSON forbids in a string are escaped; numbers that
are not finite have no JSON text and are written as null.
-/
import TypedSelect.Json.Basic

namespace TypedSelect

namespace Json

-- =========================================================== strings

/-- A hexadecimal digit, in lower case. -/
def hexDigit (n : Nat) : Char := Nat.digitChar n

/-- The text of one character inside a string. -/
def escape (c : Char) : List Char :=
  if c = '"' then ['\\', '"']
  else if c = '\\' then ['\\', '\\']
  else if c = '\n' then ['\\', 'n']
  else if c = '\r' then ['\\', 'r']
  else if c = '\t' then ['\\', 't']
  else if c.toNat = 8 then ['\\', 'b']
  else if c.toNat = 12 then ['\\', 'f']
  else if c.toNat < 32 then
    ['\\', 'u', '0', '0', hexDigit (c.toNat / 16), hexDigit (c.toNat % 16)]
  else [c]

/-- A string with its quotes. -/
def quoted (s : String) : List Char := '"' :: s.toList.flatMap escape ++ ['"']

/-- The text of a whole number. -/
def intText : Int → List Char
  | .ofNat n => Nat.toDigits 10 n
  | .negSucc n => '-' :: Nat.toDigits 10 (n + 1)

/-- The text of a value without parts. -/
def scalarText : Json → List Char
  | bool true => ['t', 'r', 'u', 'e']
  | bool false => ['f', 'a', 'l', 's', 'e']
  | int i => intText i
  | float x => x.jsonText.toList
  | str s => quoted s
  | _ => ['n', 'u', 'l', 'l']

-- =========================================================== compact

mutual

/-- The text of a value without blanks. -/
def compact : Json → List Char
  | arr [] => ['[', ']']
  | arr (item :: rest) => '[' :: compact item ++ compactItems rest
  | obj [] => ['\x7b', '\x7d']
  | obj ((key, value) :: rest) =>
    '\x7b' :: quoted key ++ ':' :: compact value ++ compactMembers rest
  | value => scalarText value

/-- The items after the first, and the closing bracket. -/
def compactItems : List Json → List Char
  | [] => [']']
  | item :: rest => ',' :: compact item ++ compactItems rest

/-- The members after the first, and the closing brace. -/
def compactMembers : List (String × Json) → List Char
  | [] => ['\x7d']
  | (key, value) :: rest =>
    ',' :: quoted key ++ ':' :: compact value ++ compactMembers rest

end

-- ========================================================== indented

/-- The start of a line at a depth of nesting: two blanks a level. -/
def newline (depth : Nat) : List Char := '\n' :: List.replicate (2 * depth) ' '

mutual

/-- The text of a value with every item and member on its own line. -/
def indented (depth : Nat) : Json → List Char
  | arr [] => ['[', ']']
  | arr (item :: rest) =>
    '[' :: newline (depth + 1) ++ indented (depth + 1) item ++
      indentedItems depth rest
  | obj [] => ['\x7b', '\x7d']
  | obj ((key, value) :: rest) =>
    '\x7b' :: newline (depth + 1) ++ quoted key ++ ':' :: ' ' ::
      indented (depth + 1) value ++ indentedMembers depth rest
  | value => scalarText value

/-- The items after the first, and the closing bracket. -/
def indentedItems (depth : Nat) : List Json → List Char
  | [] => newline depth ++ [']']
  | item :: rest =>
    ',' :: newline (depth + 1) ++ indented (depth + 1) item ++
      indentedItems depth rest

/-- The members after the first, and the closing brace. -/
def indentedMembers (depth : Nat) : List (String × Json) → List Char
  | [] => newline depth ++ ['\x7d']
  | (key, value) :: rest =>
    ',' :: newline (depth + 1) ++ quoted key ++ ':' :: ' ' ::
      indented (depth + 1) value ++ indentedMembers depth rest

end

/-- The compact text of a value. -/
def text (value : Json) : String := String.ofList value.compact

/-- The indented text of a value. -/
def prettyText (value : Json) : String := String.ofList (value.indented 0)

end Json

end TypedSelect
