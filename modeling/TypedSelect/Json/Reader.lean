/-
Reading JSON text.

The grammar is the standard one and nothing more: no comments, no comma
before a closing bracket, no raw control characters, no half surrogate
pairs. Arrays and objects nest at most `nestingLimit` deep, and a number
too large for the binary format is refused. Each scanner returns what it
read and the characters that are left. The scanners that repeat take the
length of the whole text as `fuel`: every round uses up a character, so
no text runs out of it.

How the digits of a number become floating point is left open: the
scanners take a `Numeral.Reading`, and `parse?` reads step by step, as
`Numeral.toDouble?` does.
-/
import TypedSelect.Double.Scaling
import TypedSelect.Json.Basic

namespace TypedSelect

namespace Json

/-- A scanner reads a value off the front of its input. -/
abbrev Scanner (α : Type) := List Char → Option (α × List Char)

-- ============================================================ blanks

/-- The characters that may stand between tokens. -/
def isBlank (c : Char) : Bool := c = ' ' || c = '\t' || c = '\n' || c = '\r'

/-- The input without the blanks in front. -/
def skipBlanks (s : List Char) : List Char := s.dropWhile isBlank

/-- The rest after a word, if the input begins with it. -/
def dropWord (word s : List Char) : Option (List Char) := word.isPrefixOf? s

-- =========================================================== numbers

/-- The value of a digit character. -/
def digitValue (c : Char) : Nat := c.toNat - '0'.toNat

/-- The value of a row of digits. -/
def digitsValue (digits : List Char) : Nat :=
  digits.foldl (fun n c => 10 * n + digitValue c) 0

/-- Goes on reading digits behind a number while its value fits 64 bits:
the number then, and the digits left over. -/
def takeWord : Nat → List Char → Nat × List Char
  | n, [] => (n, [])
  | n, c :: rest =>
    let longer := 10 * n + digitValue c
    if longer < UInt64.size then takeWord longer rest else (n, c :: rest)

/-- One digit or more. -/
def readDigits : Scanner (List Char) := fun s =>
  match s.span Char.isDigit with
  | ([], _) => none
  | (digits, rest) => some (digits, rest)

/-- The digits before the point: a lone zero, or digits that do not
begin with one. -/
def readWhole : Scanner (List Char)
  | '0' :: rest => some (['0'], rest)
  | s => readDigits s

/-- The digits after the point, if there is one. -/
def readFraction : Scanner (Option (List Char))
  | '.' :: rest => (readDigits rest).map fun (digits, rest) => (some digits, rest)
  | s => some (none, s)

/-- The sign in front of an exponent: true for minus. -/
def readExponentSign : List Char → Bool × List Char
  | '-' :: rest => (true, rest)
  | '+' :: rest => (false, rest)
  | s => (false, s)

/-- The exponent, if there is one. -/
def readExponent : Scanner (Option Int)
  | c :: rest =>
    if c = 'e' ∨ c = 'E' then
      let (negative, rest) := readExponentSign rest
      (readDigits rest).map fun (digits, rest) =>
        let power : Int := digitsValue digits
        (some (if negative then -power else power), rest)
    else some (none, c :: rest)
  | [] => some (none, [])

/-- The parts of a number as written. -/
structure Numeral where
  negative : Bool
  whole : List Char
  part : Option (List Char)
  power : Option Int

namespace Numeral

/-- A way to read numerals as floating point numbers; nothing for those
beyond the largest finite one. -/
abbrev Reading := Numeral → Option Double

/-- The floating point number that a numeral denotes. Digits count from
the first one on, for as long as their value fits 64 bits; the ones left
over keep only their places. Nothing when the numeral is beyond the
largest finite number. -/
def toDouble? (n : Numeral) : Option Double :=
  let part := n.part.getD []
  let (significand, skipped) := takeWord 0 n.whole
  let (significand, dropped) := takeWord significand part
  let places : Int := (skipped.length : Int) - (part.length - dropped.length : Nat)
  (Magnitude.ofScaled? significand (places + n.power.getD 0)).map (.finite n.negative)

/-- The whole number a numeral denotes, unless it has a fraction or an
exponent, is a negative zero or does not fit 64 bits. -/
def toInt? (n : Numeral) : Option Int :=
  let magnitude : Nat := digitsValue n.whole
  if n.part.isSome || n.power.isSome then none
  else if n.negative then
    if 0 < magnitude ∧ Int64.minValue.toInt ≤ -magnitude then some (-magnitude) else none
  else if magnitude < UInt64.size then some magnitude else none

/-- The value of a numeral; nothing when it is beyond the largest
floating point number. -/
def toJson? (reading : Reading) (n : Numeral) : Option Json :=
  match n.toInt? with
  | some i => some (int i)
  | none => (reading n).map float

end Numeral

/-- A number after its sign. -/
def readUnsigned (negative : Bool) : Scanner Numeral := fun s => do
  let (whole, s) ← readWhole s
  let (part, s) ← readFraction s
  let (power, s) ← readExponent s
  return (⟨negative, whole, part, power⟩, s)

/-- A number. -/
def readNumeral : Scanner Numeral
  | '-' :: rest => readUnsigned true rest
  | s => readUnsigned false s

-- =========================================================== strings

/-- The value of a hexadecimal digit of either case. -/
def hexValue? (c : Char) : Option Nat :=
  if c.isDigit then some (digitValue c)
  else if 'a' ≤ c ∧ c ≤ 'f' then some (c.toNat - 'a'.toNat + 10)
  else if 'A' ≤ c ∧ c ≤ 'F' then some (c.toNat - 'A'.toNat + 10)
  else none

/-- Four hexadecimal digits. -/
def readHex4 : Scanner Nat
  | a :: b :: c :: d :: rest => do
    let a ← hexValue? a
    let b ← hexValue? b
    let c ← hexValue? c
    let d ← hexValue? d
    return (((a * 16 + b) * 16 + c) * 16 + d, rest)
  | _ => none

/-- The character of a code unit escape after its `u`; a high surrogate
must be followed by the escape of a low one. -/
def readUnicode : Scanner Char := fun s => do
  let (unit, s) ← readHex4 s
  if unit < 0xD800 ∨ 0xDFFF < unit then return (Char.ofNat unit, s)
  else if 0xDC00 ≤ unit then none
  else
    let s ← dropWord ['\\', 'u'] s
    let (low, s) ← readHex4 s
    if 0xDC00 ≤ low ∧ low ≤ 0xDFFF then
      return (Char.ofNat (0x10000 + (unit - 0xD800) * 0x400 + (low - 0xDC00)), s)
    else none

/-- The character of an escape after its backslash. -/
def readEscape : Scanner Char
  | '"' :: rest => some ('"', rest)
  | '\\' :: rest => some ('\\', rest)
  | '/' :: rest => some ('/', rest)
  | 'b' :: rest => some (Char.ofNat 8, rest)
  | 'f' :: rest => some (Char.ofNat 12, rest)
  | 'n' :: rest => some ('\n', rest)
  | 'r' :: rest => some ('\r', rest)
  | 't' :: rest => some ('\t', rest)
  | 'u' :: rest => readUnicode rest
  | _ => none

/-- The characters of a string up to its closing quote, `fuel` of them
at most. The characters read so far are in reverse. -/
def readChars : Nat → List Char → Scanner (List Char)
  | 0, _, _ => none
  | _ + 1, _, [] => none
  | fuel + 1, done, c :: rest =>
    if c = '"' then some (done.reverse, rest)
    else if c = '\\' then do
      let (e, rest) ← readEscape rest
      readChars fuel (e :: done) rest
    else if c.toNat < 32 then none
    else readChars fuel (c :: done) rest

/-- A string after its opening quote. -/
def readString (fuel : Nat) : Scanner String := fun s =>
  (readChars fuel [] s).map fun (chars, rest) => (String.ofList chars, rest)

-- ============================================================ nested

/-- How deep arrays and objects may nest. -/
def nestingLimit : Nat := 127

/-- The elements after the first, each behind a comma, up to the closing
character; `fuel` of them at most. The elements read so far are in
reverse. -/
def readRest {α : Type} (element : Scanner α) (close : Char) :
    Nat → List α → Scanner (List α)
  | 0, _, _ => none
  | fuel + 1, done, s =>
    match skipBlanks s with
    | [] => none
    | c :: rest =>
      if c = close then some (done.reverse, rest)
      else if c = ',' then do
        let (x, rest) ← element rest
        readRest element close fuel (x :: done) rest
      else none

/-- Elements between commas up to the closing character. -/
def readElements {α : Type} (fuel : Nat) (element : Scanner α) (close : Char) :
    Scanner (List α) := fun s =>
  match skipBlanks s with
  | [] => none
  | c :: rest =>
    if c = close then some ([], rest)
    else do
      let (x, rest) ← element (c :: rest)
      readRest element close fuel [x] rest

/-- A member of an object: a string, a colon and a value. -/
def readMember (fuel : Nat) (value : Scanner Json) : Scanner (String × Json) := fun s =>
  match skipBlanks s with
  | '"' :: rest => do
    let (key, rest) ← readString fuel rest
    match skipBlanks rest with
    | ':' :: rest => do
      let (v, rest) ← value rest
      return ((key, v), rest)
    | _ => none
  | _ => none

/-- A value with blanks in front, its arrays and objects nested at most
`depth` deep. -/
def readValue (reading : Numeral.Reading) (fuel depth : Nat) : Scanner Json := fun s =>
  match skipBlanks s with
  | '[' :: rest =>
    match depth with
    | 0 => none
    | depth + 1 =>
      (readElements fuel (readValue reading fuel depth) ']' rest).map
        fun (items, rest) => (arr items, rest)
  | '\x7b' :: rest =>
    match depth with
    | 0 => none
    | depth + 1 =>
      (readElements fuel (readMember fuel (readValue reading fuel depth)) '\x7d' rest).map
        fun (members, rest) => (obj members, rest)
  | '"' :: rest => (readString fuel rest).map fun (s, rest) => (str s, rest)
  | 't' :: rest => (dropWord ['r', 'u', 'e'] rest).map fun rest => (bool true, rest)
  | 'f' :: rest =>
    (dropWord ['a', 'l', 's', 'e'] rest).map fun rest => (bool false, rest)
  | 'n' :: rest => (dropWord ['u', 'l', 'l'] rest).map fun rest => (null, rest)
  | s => do
    let (n, rest) ← readNumeral s
    let v ← n.toJson? reading
    return (v, rest)

/-- The value of a JSON text under some reading of numbers: one value
with nothing but blanks around it. -/
def parseWith? (reading : Numeral.Reading) (source : String) : Option Json :=
  match readValue reading (source.length + 1) nestingLimit source.toList with
  | some (value, rest) => if (skipBlanks rest).isEmpty then some value else none
  | none => none

/-- The value of a JSON text. -/
def parse? (source : String) : Option Json := parseWith? Numeral.toDouble? source

end Json

end TypedSelect
