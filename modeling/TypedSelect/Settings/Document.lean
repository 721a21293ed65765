/-
The switches of the renderer, and the documents that set them.

None of the switches changes the SQL of a query: two decide which queries
are refused, and one what is logged.

A document has one switch a line. A line is blank, a comment, or
`key = value` with perhaps a comment behind it. A key is the name of a
switch, bare or in quotes, and a value is true or false. A switch that no
line sets keeps its default; one that is set twice, like anything else in
a line, spoils the document. These are the TOML documents in which every
key is a switch.
-/
import TypedSelect.Event
import TypedSelect.Json.Codec
import TypedSelect.Json.Reader

namespace TypedSelect

-- =========================================================== switches

/-- What to check and what to log. -/
structure Settings where
  /-- Refuse a qualifier that no source introduces. -/
  checkAliases : Bool := true
  /-- Let a table without an alias be named by its own name. -/
  allowTableNames : Bool := true
  /-- Log the SQL text. -/
  logSql : Bool := false
deriving DecidableEq, Inhabited, Repr

/-- The switches of the settings. -/
inductive Switch where
  | checkAliases
  | allowTableNames
  | logSql
deriving DecidableEq, Repr

/-- The name of a switch in a document. -/
def Switch.name : Switch → String
  | checkAliases => "check_aliases"
  | allowTableNames => "allow_table_name_qualifiers"
  | logSql => "log_sql"

instance : Vocabulary Switch where
  all := [.checkAliases, .allowTableNames, .logSql]
  name := Switch.name

/-- The settings with one switch set. -/
def Settings.set (settings : Settings) (on : Bool) : Switch → Settings
  | .checkAliases => { settings with checkAliases := on }
  | .allowTableNames => { settings with allowTableNames := on }
  | .logSql => { settings with logSql := on }

/-- The position of a switch. -/
def Settings.get (settings : Settings) : Switch → Bool
  | .checkAliases => settings.checkAliases
  | .allowTableNames => settings.allowTableNames
  | .logSql => settings.logSql

/-- Why there are no settings. -/
inductive SettingsError where
  /-- The file is missing or is not text. -/
  | unreadable
  /-- The text is no settings document. -/
  | malformed
deriving DecidableEq, Repr

namespace Settings

-- ============================================================== lines

/-- The lines of a text. A line ends with a line feed, perhaps with a
carriage return in front; the last one may end with the text. -/
def lines : List Char → List Char → List (List Char)
  | line, [] => [line.reverse]
  | line, '\r' :: '\n' :: rest => line.reverse :: lines [] rest
  | line, '\n' :: rest => line.reverse :: lines [] rest
  | line, c :: rest => lines (c :: line) rest

/-- The characters that may stand between the parts of a line. -/
def isGap (c : Char) : Bool := c = ' ' || c = '\t'

/-- The line without the gap in front. -/
def skipGap (s : List Char) : List Char := s.dropWhile isGap

/-- A character that may stand in a comment: a tab, or anything but a
control character. -/
def isCommentChar (c : Char) : Bool :=
  c = '\t' || (decide (32 ≤ c.toNat) && c.toNat != 127)

/-- Whether the rest of a line is nothing, or a comment. -/
def endsLine (s : List Char) : Bool :=
  match skipGap s with
  | [] => true
  | '#' :: comment => comment.all isCommentChar
  | _ => false

-- =============================================================== keys

/-- A character of a key without quotes. -/
def isBareChar (c : Char) : Bool := c.isAlphanum || c = '_' || c = '-'

/-- The number that `count` hexadecimal digits write. -/
def readHex : Nat → Nat → Json.Scanner Nat
  | 0, n, s => some (n, s)
  | _ + 1, _, [] => none
  | count + 1, n, c :: rest => do
    let d ← Json.hexValue? c
    readHex count (16 * n + d) rest

/-- A code point written with `count` hexadecimal digits. -/
def readCodePoint (count : Nat) : Json.Scanner Char := fun s => do
  let (n, s) ← readHex count 0 s
  if n.isValidChar then return (Char.ofNat n, s) else none

/-- The characters of a key in double quotes, `fuel` of them at most,
those read so far in reverse. No name of a switch needs an escape other
than a code point. -/
def readQuoted : Nat → List Char → Json.Scanner (List Char)
  | 0, _, _ => none
  | _ + 1, _, [] => none
  | _ + 1, done, '"' :: rest => some (done.reverse, rest)
  | fuel + 1, done, '\\' :: 'u' :: rest => do
    let (c, rest) ← readCodePoint 4 rest
    readQuoted fuel (c :: done) rest
  | fuel + 1, done, '\\' :: 'U' :: rest => do
    let (c, rest) ← readCodePoint 8 rest
    readQuoted fuel (c :: done) rest
  | _ + 1, _, '\\' :: _ => none
  | fuel + 1, done, c :: rest => readQuoted fuel (c :: done) rest

/-- A key: in double quotes, in single quotes, or bare. -/
def readKey : Json.Scanner (List Char)
  | '"' :: rest => readQuoted (rest.length + 1) [] rest
  | '\'' :: rest =>
    match rest.span (· != '\'') with
    | (key, _ :: rest) => some (key, rest)
    | (_, []) => none
  | s => some (s.span isBareChar)

-- ============================================================ document

/-- A value: one of two words. -/
def readValue (s : List Char) : Option (Bool × List Char) :=
  match Json.dropWord ['t', 'r', 'u', 'e'] s with
  | some rest => some (true, rest)
  | none => (Json.dropWord ['f', 'a', 'l', 's', 'e'] s).map fun rest => (false, rest)

/-- The switch with this name. -/
def switchNamed? (name : List Char) : Option Switch :=
  Codec.symbolNamed? (String.ofList name)

/-- What a line sets; nothing for one that is blank or a comment. -/
def readLine (line : List Char) : Option (Option (Switch × Bool)) :=
  if endsLine line then some none
  else do
    let (name, rest) ← readKey (skipGap line)
    let switch ← switchNamed? name
    let rest ← Json.dropWord ['='] (skipGap rest)
    let (on, rest) ← readValue (skipGap rest)
    if endsLine rest then return some (switch, on) else none

/-- The settings after some lines, none of which may set a switch that
was set before. -/
def readLines (done : List Switch) (settings : Settings) : List (List Char) → Option Settings
  | [] => some settings
  | line :: rest => do
    match ← readLine line with
    | none => readLines done settings rest
    | some (switch, on) =>
      if done.contains switch then none
      else readLines (switch :: done) (settings.set on switch) rest

/-- The text without a byte order mark in front. -/
def skipMark : List Char → List Char
  | c :: rest => if c.toNat = 0xFEFF then rest else c :: rest
  | [] => []

/-- The settings that a document makes. -/
def ofDocument (source : String) : Except SettingsError Settings :=
  match readLines [] {} (lines [] (skipMark source.toList)) with
  | some settings => .ok settings
  | none => .error .malformed

-- =============================================================== files

/-- The settings in a file, given by its bytes. -/
def ofBytes (bytes : ByteArray) : Except SettingsError Settings :=
  match String.fromUTF8? bytes with
  | some source => ofDocument source
  | none => .error .unreadable

/-- The settings in a file that must be there. -/
def ofFile : Option ByteArray → Except SettingsError Settings
  | some bytes => ofBytes bytes
  | none => .error .unreadable

/-- The settings in a file that may be missing, and what is reported:
a file that is used, or that there is none. -/
def load : Option ByteArray → List Event × Except SettingsError Settings
  | none => ([.settingsMissing], .ok {})
  | some bytes =>
    match ofBytes bytes with
    | .ok settings => ([.settingsLoaded], .ok settings)
    | .error e => ([], .error e)

end Settings

end TypedSelect
