/-
Codecs: a decoder from JSON and an encoder to it, built together.

A record codec is put together from its members, and each member says
whether it must be there. A record is read from an object, in any order
but with no unknown and no repeated key, or from a list of its members
in their order, where the ones at the end may be left out if they are
not required. A choice between records is read from a record with a tag
that names the choice. Inside a tagged record two more spellings are
read, so a decoder is told where its value stands. Laws about a codec
follow its construction.
-/
import TypedSelect.Vocabulary
import TypedSelect.Json.Basic

namespace TypedSelect

/-- Where a value stands: outside of all tagged records, or somewhere
inside one. -/
inductive Place where
  | outside
  | inside
deriving DecidableEq, Repr

/-- How values of a type are read from JSON and written to it. -/
structure Codec (α : Type) where
  decodeAt : Place → Json → Option α
  encode : α → Json

namespace Codec

/-- Reads a value that stands by itself. -/
def decode {α : Type} (c : Codec α) (j : Json) : Option α := c.decodeAt .outside j

-- ============================================================ scalars

/-- Text. -/
def text : Codec String where
  decodeAt
    | _, .str s => some s
    | _, _ => none
  encode := .str

/-- True or false. -/
def boolean : Codec Bool where
  decodeAt
    | _, .bool b => some b
    | _, _ => none
  encode := .bool

/-- A whole number from zero up to, but not with, a limit. -/
def natBelow (limit : Nat) : Json → Option Nat
  | .int i => if 0 ≤ i ∧ i < limit then some i.toNat else none
  | _ => none

/-- A whole number of 32 bits. -/
def word32 : Codec UInt32 where
  decodeAt _ j := (natBelow UInt32.size j).map UInt32.ofNat
  encode n := .int n.toNat

/-- A whole number of 64 bits. -/
def word64 : Codec UInt64 where
  decodeAt _ j := (natBelow UInt64.size j).map UInt64.ofNat
  encode n := .int n.toNat

/-- A number as floating point; whole numbers convert. -/
def double : Codec Double where
  decodeAt
    | _, .float x => some x
    | _, .int i => some (.ofInt i)
    | _, _ => none
  encode := .float

/-- The symbol with this name. -/
def symbolNamed? {α : Type} [Vocabulary α] (name : String) : Option α :=
  (Vocabulary.all (α := α)).find? fun a => Vocabulary.name a == name

/-- What may stand under the name of a symbol: nothing, which inside a
tagged record an empty object says as well. -/
def isVoid : Place → Json → Bool
  | _, .null => true
  | .inside, .obj [] => true
  | _, _ => false

/-- A symbol of a vocabulary: its name, or an object whose one key is
its name, over nothing. -/
def symbol {α : Type} [Vocabulary α] : Codec α where
  decodeAt
    | _, .str s => symbolNamed? s
    | place, .obj [(s, j)] => if isVoid place j then symbolNamed? s else none
    | _, _ => none
  encode a := .str (Vocabulary.name a)

/-- A list of values. -/
def list {α : Type} (item : Codec α) : Codec (List α) where
  decodeAt
    | place, .arr items => items.mapM (item.decodeAt place)
    | _, _ => none
  encode values := .arr (values.map item.encode)

/-- Whether no key occurs twice. -/
def keysDistinct : List (String × Json) → Bool
  | [] => true
  | (k, _) :: rest => !rest.any (·.1 == k) && keysDistinct rest

/-- The values of the named members, in the order of the names. An
object may leave members out but not have others; a list has them from
the first one on. -/
def slots (names : List String) : Json → Option (List (Option Json))
  | .obj members =>
    if members.all (fun m => names.contains m.1) && keysDistinct members then
      some (names.map fun name => Json.member? name members)
    else none
  | .arr items =>
    if items.length ≤ names.length then
      some (items.map some ++ List.replicate (names.length - items.length) none)
    else none
  | _ => none

end Codec

-- ============================================================ members

/-- Some members of a record: their names, how their slots are read and
how they are written. -/
structure Members (α : Type) where
  names : List String
  decodeAt : Place → List (Option Json) → Option α
  encode : α → List (String × Json)

namespace Members

/-- A member that must be there. -/
def required {α : Type} (name : String) (c : Codec α) : Members α where
  names := [name]
  decodeAt
    | place, [some j] => c.decodeAt place j
    | _, _ => none
  encode a := [(name, c.encode a)]

/-- A member that may be missing or null, and is left out then. -/
def optional {α : Type} (name : String) (c : Codec α) : Members (Option α) where
  names := [name]
  decodeAt
    | _, [none] => some none
    | _, [some .null] => some none
    | place, [some j] => (c.decodeAt place j).map some
    | _, _ => none
  encode
    | none => []
    | some a => [(name, c.encode a)]

/-- A member that has a default where it is missing, and is always
written. -/
def defaulted {α : Type} (name : String) (c : Codec α) (default : α) :
    Members α where
  names := [name]
  decodeAt
    | _, [none] => some default
    | place, [some j] => c.decodeAt place j
    | _, _ => none
  encode a := [(name, c.encode a)]

/-- A list that is empty where it is missing, and is left out when it is
empty. -/
def listed {α : Type} (name : String) (c : Codec α) : Members (List α) where
  names := [name]
  decodeAt
    | _, [none] => some []
    | place, [some j] => (Codec.list c).decodeAt place j
    | _, _ => none
  encode values :=
    if values.isEmpty then [] else [(name, (Codec.list c).encode values)]

/-- A mark that is off where it is missing, and is left out when it is
off. -/
def marked (name : String) : Members Bool where
  names := [name]
  decodeAt
    | _, [none] => some false
    | place, [some j] => Codec.boolean.decodeAt place j
    | _, _ => none
  encode on := if on then [(name, .bool true)] else []

/-- The members of one part and then those of another. -/
def and {α β : Type} (m : Members α) (n : Members β) : Members (α × β) where
  names := m.names ++ n.names
  decodeAt place slots := do
    let a ← m.decodeAt place (slots.take m.names.length)
    let b ← n.decodeAt place (slots.drop m.names.length)
    return (a, b)
  encode p := m.encode p.1 ++ n.encode p.2

/-- The same members for a type with the same content. -/
def iso {α β : Type} (m : Members α) (make : α → β) (view : β → α) : Members β where
  names := m.names
  decodeAt place slots := (m.decodeAt place slots).map make
  encode b := m.encode (view b)

/-- Reads the members of an object or of a list. -/
def readAt {α : Type} (m : Members α) (place : Place) (j : Json) : Option α :=
  (Codec.slots m.names j).bind (m.decodeAt place)

/-- A record with these members. -/
def record {α : Type} (m : Members α) : Codec α where
  decodeAt := m.readAt
  encode a := .obj (m.encode a)

end Members

-- ============================================================ choices

/-- Some of the records that a tag chooses between, in a fixed order. -/
structure Variants (α : Type) where
  tags : List String
  decode : String → Json → Option α
  encode : α → String × List (String × Json)

namespace Variants

/-- The record under one tag. -/
def one {α : Type} (tag : String) (m : Members α) : Variants α where
  tags := [tag]
  decode t j := if t = tag then m.readAt .inside j else none
  encode a := (tag, m.encode a)

/-- The records of one part or of another. -/
def or {α β : Type} (v : Variants α) (w : Variants β) : Variants (α ⊕ β) where
  tags := v.tags ++ w.tags
  decode t j :=
    if v.tags.contains t then (v.decode t j).map .inl else (w.decode t j).map .inr
  encode
    | .inl a => v.encode a
    | .inr b => w.encode b

/-- The same records for a type with the same content. -/
def iso {α β : Type} (v : Variants α) (make : α → β) (view : β → α) : Variants β where
  tags := v.tags
  decode t j := (v.decode t j).map make
  encode b := v.encode (view b)

/-- Takes the tag off a tagged record: the one member under the tag's
key, wherever it stands, or the first item of a list. -/
def untag (key : String) : Json → Option (Json × Json)
  | .obj members =>
    match members.filter fun m => m.1 == key with
    | [(_, t)] => some (t, .obj (members.filter fun m => m.1 != key))
    | _ => none
  | .arr (t :: items) => some (t, .arr items)
  | _ => none

/-- The tag that a value stands for. Inside a tagged record a tag may be
given by its position among the tags, counted from zero. -/
def tagOf (tags : List String) : Place → Json → Option String
  | _, .str t => some t
  | .inside, .int i => if 0 ≤ i then tags[i.toNat]? else none
  | _, _ => none

/-- A tagged record; the tag is written first. -/
def tagged {α : Type} (key : String) (v : Variants α) : Codec α where
  decodeAt place j := do
    let (mark, body) ← untag key j
    let t ← tagOf v.tags place mark
    v.decode t body
  encode a :=
    let (t, members) := v.encode a
    .obj ((key, .str t) :: members)

end Variants

end TypedSelect
