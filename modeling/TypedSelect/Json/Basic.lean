/-
JSON values as trees.

Objects keep their members in the order of the text, repeated keys
included, because the decoders refuse repetition and the writers fix
the order. `ordered` is the other view, one member per key in the order
of the keys, which the schema documents live in.
-/
import TypedSelect.Double.Text

namespace TypedSelect

/-- A JSON value. Whole numbers that fit 64 bits, signed or unsigned,
are kept apart from all other numbers. -/
inductive Json where
  | null
  | bool (value : Bool)
  | int (value : Int)
  | float (value : Double)
  | str (value : String)
  | arr (items : List Json)
  | obj (members : List (String × Json))
deriving Inhabited

namespace Json

-- =========================================================== members

/-- The value of the first member with this key. -/
def member? (key : String) : List (String × Json) → Option Json
  | [] => none
  | (k, v) :: rest => if k = key then some v else member? key rest

/-- The value under a key of an object; nothing for other values. -/
def get? (key : String) : Json → Option Json
  | obj members => member? key members
  | _ => none

/-- Puts a member where its key belongs in a list sorted by key; a
member with the same key gives way. -/
def insertMember (key : String) (value : Json) :
    List (String × Json) → List (String × Json)
  | [] => [(key, value)]
  | (k, v) :: rest =>
    if key < k then (key, value) :: (k, v) :: rest
    else if key = k then (key, value) :: rest
    else (k, v) :: insertMember key value rest

/-- The members sorted by key, of equal keys the last. -/
def sortMembers (members : List (String × Json)) : List (String × Json) :=
  members.foldl (fun sorted m => insertMember m.1 m.2 sorted) []

-- ============================================================ order

mutual

/-- The value with the members of every object sorted by key, of equal
keys the last. Keys compare by code point, which is also the order of
their UTF-8 bytes. -/
def ordered : Json → Json
  | arr items => arr (orderedItems items)
  | obj members => obj (sortMembers (orderedMembers members))
  | value => value

/-- Each item ordered. -/
def orderedItems : List Json → List Json
  | [] => []
  | item :: rest => ordered item :: orderedItems rest

/-- Each member's value ordered, the members where they were. -/
def orderedMembers : List (String × Json) → List (String × Json)
  | [] => []
  | (key, value) :: rest => (key, ordered value) :: orderedMembers rest

end

/-- An object with sorted members. -/
def object (members : List (String × Json)) : Json := obj (sortMembers members)

/-- A list of strings. -/
def strings (names : List String) : Json := arr (names.map str)

end Json

end TypedSelect
