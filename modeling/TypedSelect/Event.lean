/-
What the renderer reports while it works, and computations that report.

`Traced` carries the events in their order beside the outcome; a
computation that fails keeps what was reported up to then.
-/
import TypedSelect.Error

namespace TypedSelect

-- ============================================================= events

/-- How important an event is. -/
inductive Level where
  | trace
  | debug
  | info
deriving DecidableEq, Repr

/-- The name of a level. -/
def Level.name : Level → String
  | trace => "TRACE"
  | debug => "DEBUG"
  | info => "INFO"

/-- The clauses that are reported with nothing but their name. -/
inductive PlainClause where
  | filter
  | groupBy
  | having
  | orderBy
deriving DecidableEq, Repr

/-- The keywords of a clause. -/
def PlainClause.name : PlainClause → String
  | filter => "WHERE"
  | groupBy => "GROUP BY"
  | having => "HAVING"
  | orderBy => "ORDER BY"

/-- Something worth reporting. -/
inductive Event where
  | sourceRendered (joins : Nat)
  | selectRendered (items : Nat)
  | clauseRendered (clause : PlainClause)
  | aliasUnresolved (aliasName reference : String)
  | queryRendered (items joins bytes : Nat)
  | sqlRendered (sql : String)
  | settingsLoaded
  | settingsMissing
deriving DecidableEq, Repr

/-- A value attached to an event. -/
inductive EventField where
  | count (n : Nat)
  | text (s : String)
deriving DecidableEq, Repr

namespace Event

/-- The importance of an event. -/
def level : Event → Level
  | sourceRendered _ | selectRendered _ | clauseRendered _ => .trace
  | aliasUnresolved .. | queryRendered .. | sqlRendered _ | settingsMissing => .debug
  | settingsLoaded => .info

/-- The wording of an event. -/
def message : Event → String
  | sourceRendered _ | selectRendered _ | clauseRendered _ => "rendered"
  | aliasUnresolved .. => "unresolved table alias"
  | queryRendered .. => "translated query"
  | sqlRendered _ => "rendered SQL"
  | settingsLoaded => "loaded translator config"
  | settingsMissing => "no translator config file found, using defaults"

/-- The values attached to an event. -/
def fields : Event → List (String × EventField)
  | sourceRendered joins => [("clause", .text "FROM"), ("joins", .count joins)]
  | selectRendered items => [("clause", .text "SELECT"), ("items", .count items)]
  | clauseRendered clause => [("clause", .text clause.name)]
  | aliasUnresolved aliasName reference =>
    [("alias", .text aliasName), ("reference", .text reference)]
  | queryRendered items joins bytes =>
    [("select_items", .count items), ("joins", .count joins), ("bytes", .count bytes)]
  | sqlRendered sql => [("sql", .text sql)]
  | settingsLoaded | settingsMissing => []

end Event

-- ======================================================= computations

/-- An outcome and the events on the way to it. -/
structure Traced (α : Type) where
  events : List Event
  outcome : Except QueryError α

namespace Traced

variable {α β : Type}

/-- A value with nothing to report. -/
def pure (a : α) : Traced α := ⟨[], .ok a⟩

/-- Goes on with the value, unless there is none. -/
def bind (x : Traced α) (f : α → Traced β) : Traced β :=
  match x.outcome with
  | .ok a =>
    let y := f a
    ⟨x.events ++ y.events, y.outcome⟩
  | .error e => ⟨x.events, .error e⟩

instance : Monad Traced where
  pure := Traced.pure
  bind := Traced.bind

/-- An error with nothing to report. -/
def fail (e : QueryError) : Traced α := ⟨[], .error e⟩

/-- A node that has no SQL. -/
def illFormed (e : Entity) (fault : FormFault) : Traced α := fail (.illFormed e fault)

/-- An outcome with nothing to report. -/
def lift (outcome : Except QueryError α) : Traced α := ⟨[], outcome⟩

/-- One event. -/
def report (event : Event) : Traced Unit := ⟨[event], .ok ()⟩

/-- The results for every element, from the first on. -/
def each (f : α → Traced β) : List α → Traced (List β)
  | [] => pure []
  | a :: rest => do
    let b ← f a
    let bs ← each f rest
    pure (b :: bs)

end Traced

end TypedSelect
