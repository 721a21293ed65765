/-
Local references between the definitions of a schema.

A definition lives in one of two sections at the root of a schema. A
pointer names the section and the definition; a tilde in the name is
written `~0` and a slash `~1`. No other reference has a target.
-/
import TypedSelect.Json.Basic

namespace TypedSelect

namespace Schema

/-- The root members that hold definitions. -/
inductive Section where
  | defs
  | definitions
deriving DecidableEq, Repr

/-- The key of a section at the root. -/
def Section.name : Section → String
  | defs => "$defs"
  | definitions => "definitions"

/-- Both sections. -/
def Section.all : List Section := [.defs, .definitions]

/-- Whether a root member holds definitions. -/
def isSectionName (name : String) : Bool := Section.all.any fun s => s.name == name

/-- A definition: its section and its name there. -/
structure DefinitionKey where
  location : Section
  name : String
deriving DecidableEq, Repr

-- =========================================================== pointers

/-- A name as it stands in a pointer. -/
def escapeName : List Char → List Char
  | [] => []
  | c :: rest =>
    if c = '~' then '~' :: '0' :: escapeName rest
    else if c = '/' then '~' :: '1' :: escapeName rest
    else c :: escapeName rest

/-- The name that stands in a pointer. A tilde before anything but a
zero or a one stands for itself. -/
def unescapeName : List Char → List Char
  | '~' :: '1' :: rest => '/' :: unescapeName rest
  | '~' :: '0' :: rest => '~' :: unescapeName rest
  | c :: rest => c :: unescapeName rest
  | [] => []

/-- The reference to the whole document. -/
def rootReference : String := "#"

/-- The reference to a definition. -/
def DefinitionKey.pointer (k : DefinitionKey) : String :=
  "#/" ++ k.location.name ++ "/" ++ String.ofList (escapeName k.name.toList)

/-- The definition that a reference names: one section, and behind it a
name that is not empty and has no slash of its own. -/
def DefinitionKey.ofPointer? (reference : String) : Option DefinitionKey :=
  Section.all.findSome? fun s => do
    let name ← ("#/" ++ s.name ++ "/").toList.isPrefixOf? reference.toList
    if name.isEmpty || name.contains '/' then none
    else some ⟨s, String.ofList (unescapeName name)⟩

-- ======================================================== definitions

/-- Definitions with their keys. -/
abbrev Definitions := List (DefinitionKey × Json)

/-- The definitions in one section of a schema. -/
def sectionDefinitions (schema : Json) (s : Section) : Definitions :=
  match schema.get? s.name with
  | some (.obj members) => members.map fun m => (⟨s, m.1⟩, m.2)
  | _ => []

/-- The definitions of a schema. -/
def definitionsOf (schema : Json) : Definitions :=
  Section.all.flatMap (sectionDefinitions schema)

/-- The definition under a key. -/
def lookup (key : DefinitionKey) : Definitions → Option Json
  | [] => none
  | (k, body) :: rest => if k = key then some body else lookup key rest

/-- The schema without its definitions. -/
def withoutDefinitions : Json → Json
  | .obj members => .obj (members.filter fun m => !isSectionName m.1)
  | value => value

end Schema

end TypedSelect
