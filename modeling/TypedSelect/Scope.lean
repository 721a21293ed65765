/-
The table names that a column reference may use.

FROM and JOIN introduce names, an alias or else the table's own name; a
subquery opens a scope of its own inside the scope of its query. Names
compare without regard to case. Whether a table's own name counts, and
whether references are checked at all, the settings say.
-/
import TypedSelect.Error
import TypedSelect.Identifier
import TypedSelect.Query.Basic
import TypedSelect.Settings.Document

namespace TypedSelect

/-- A name in scope: an alias, or a table's own name. -/
structure ScopeEntry where
  name : String
  aliased : Bool
deriving DecidableEq, Repr

/-- The names of one query level, in the order of introduction, and
those of the levels around it, the innermost first. -/
structure Scope where
  settings : Settings
  entries : List ScopeEntry := []
  outer : List (List ScopeEntry) := []
deriving DecidableEq, Repr

namespace Scope

/-- The scope inside a subquery. -/
def child (s : Scope) : Scope :=
  { settings := s.settings, entries := [], outer := s.entries :: s.outer }

-- ======================================================= introduction

/-- A new name of this level; no level has a name twice. -/
def push (s : Scope) (name : String) (aliased : Bool) : Except QueryError Scope :=
  if s.entries.any fun e => sameName e.name name then
    .error (.invalid (.duplicateAlias name))
  else .ok { s with entries := s.entries ++ [⟨name, aliased⟩] }

/-- Brings a table into scope under its alias, or else its own name. -/
def introduce (s : Scope) (table : Table) (aliasName : Option String) :
    Except QueryError Scope :=
  match aliasName with
  | some aliasName => s.push aliasName true
  | none => s.push table.name false

/-- Brings a derived table into scope. -/
def introduceAlias (s : Scope) (aliasName : String) : Except QueryError Scope :=
  s.push aliasName true

-- ========================================================= references

/-- Whether an entry answers to a name. -/
def answers (s : Scope) (name : String) (e : ScopeEntry) : Bool :=
  sameName e.name name && (e.aliased || s.settings.allowTableNames)

/-- Whether this level or one around it has the name. -/
def contains (s : Scope) (name : String) : Bool :=
  (s.entries :: s.outer).any fun level => level.any (s.answers name)

/-- Whether a column reference may stand here. -/
def admits (s : Scope) (c : QualifiedColumn) : Bool :=
  match c.qualifier with
  | none => true
  | some q => !s.settings.checkAliases || s.contains q

/-- The error for a reference that may not stand here. -/
def unresolved (c : QualifiedColumn) : QueryError :=
  .unresolvedAlias (c.qualifier.getD "") c.text

/-- Nothing, or the error for a reference that may not stand here. -/
def resolve (s : Scope) (c : QualifiedColumn) : Except QueryError Unit :=
  if s.admits c then .ok () else .error (unresolved c)

end Scope

end TypedSelect
