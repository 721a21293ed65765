/-
What can be wrong with a query or a schema.

An error is its cause; `message` is the only place that words it.
`ValidationError` is about a value that breaks a rule, `QueryError` about
a query that cannot be rendered, `SchemaError` about references between
definitions.
-/
import TypedSelect.Entity

namespace TypedSelect

-- ======================================================= broken rules

/-- Why a value is out of range. Numbers are given as text. -/
inductive RangeFault where
  | notFinite (text : String)
  | nulByte
  | zeroDivisor
  | outsideUnit (text : String)
deriving DecidableEq

/-- The wording of a range fault. -/
def RangeFault.message : RangeFault → String
  | notFinite text => text ++ " is not a finite number"
  | nulByte => "string literal contains a NUL byte"
  | zeroDivisor => "division by a zero literal"
  | outsideUnit text => text ++ " is not within [0, 1]"

/-- Why an operator does not fit where it stands. -/
inductive OperatorFault where
  | takesNothing
  | needsScalar
  | needsList
  | needsPattern
  | betweenColumns
  | againstSubquery
  | againstGroups
  | inHaving
deriving DecidableEq

/-- The wording of an operator fault. -/
def OperatorFault.message : OperatorFault → String
  | takesNothing => "takes no value"
  | needsScalar => "requires a scalar value"
  | needsList => "requires a list value"
  | needsPattern => "requires a string pattern"
  | betweenColumns => "cannot compare two columns"
  | againstSubquery => "cannot compare against a subquery"
  | againstGroups => "cannot compare against a grouped subquery; use IN or NOT IN"
  | inHaving => "is not supported in HAVING"

/-- Why a function does not fit what it is given. -/
inductive FunctionFault where
  | distinctWithoutInput
  | noDistinct
  | noPercentile
  | noArgument
  | noOffset
  | noDefault
  | sortsByAlias
  | inHaving
deriving DecidableEq

/-- The wording of a function fault. -/
def FunctionFault.message : FunctionFault → String
  | distinctWithoutInput => "with DISTINCT requires an input"
  | noDistinct => "does not accept DISTINCT"
  | noPercentile => "does not take a percentile"
  | noArgument => "takes no argument"
  | noOffset => "does not take an offset"
  | noDefault => "does not take a default"
  | sortsByAlias => "window ORDER BY must reference columns"
  | inHaving => "is not supported in HAVING"

/-- A rule that a value breaks. A malformed text has no value at all. -/
inductive ValidationError where
  | missingField (entity : Entity) (field : String)
  | mutuallyExclusive (entity : Entity) (first second : String)
  | empty (entity : Entity) (field : String)
  | outOfRange (entity : Entity) (field : String) (fault : RangeFault)
  | invalidIdentifier (entity : Entity) (name : String)
  | operatorMismatch (entity : Entity) (op : ComparisonOp) (fault : OperatorFault)
  | functionMismatch (entity : Entity) (function : String) (fault : FunctionFault)
  | duplicateAlias (name : String)
  | unresolvedAlias (aliasName reference : String)
  | unknownSelectAlias (name : String)
  | malformed
deriving DecidableEq

/-- The wording of a reference that nothing answers to. -/
def unresolvedMessage (aliasName reference : String) : String :=
  "Unresolved alias '" ++ aliasName ++ "' in " ++ reference

/-- The wording of a validation error. -/
def ValidationError.message : ValidationError → String
  | missingField e field => e.name ++ ": missing required field '" ++ field ++ "'"
  | mutuallyExclusive e first second =>
    e.name ++ ": '" ++ first ++ "' and '" ++ second ++ "' are mutually exclusive"
  | empty e field => e.name ++ ": '" ++ field ++ "' must not be empty"
  | outOfRange e field fault =>
    e.name ++ ": '" ++ field ++ "' out of range: " ++ fault.message
  | invalidIdentifier e name => e.name ++ ": invalid identifier '" ++ name ++ "'"
  | operatorMismatch e op fault =>
    e.name ++ ": operator " ++ op.name ++ " " ++ fault.message
  | functionMismatch e function fault =>
    e.name ++ ": " ++ function ++ " " ++ fault.message
  | duplicateAlias name => "Duplicate table alias '" ++ name ++ "'"
  | unresolvedAlias aliasName reference => unresolvedMessage aliasName reference
  | unknownSelectAlias name =>
    "ORDER BY references unknown select alias '" ++ name ++ "'"
  | malformed => "Malformed query"

-- ================================================== unrenderable nodes

/-- Why a node has no SQL. -/
inductive FormFault where
  | emptySelect
  | noColumns
  | noItems
  | noConditions
  | noOnConditions
  | noBranches
  | twoSources
  | noSource
  | noColumn (function : String)
  | noInput (function : String)
  | noPercentile (function : String)
  | noArgument (function : String)
  | inHaving (function : String)
  | withValue (op : ComparisonOp)
  | valueMismatch (op : ComparisonOp)
  | sortsByAlias
deriving DecidableEq

/-- The wording of a form fault. -/
def FormFault.message : FormFault → String
  | emptySelect => "empty select list"
  | noColumns => "no columns"
  | noItems => "no items"
  | noConditions => "no conditions"
  | noOnConditions => "no ON conditions"
  | noBranches => "no WHEN branches"
  | twoSources => "both table and derived are set"
  | noSource => "neither table nor derived is set"
  | noColumn f => f ++ " has no column"
  | noInput f => f ++ " has no input"
  | noPercentile f => f ++ " has no percentile"
  | noArgument f => f ++ " takes no argument"
  | inHaving f => f ++ " is not supported in HAVING"
  | withValue op => op.name ++ " with a value"
  | valueMismatch op => "value does not fit operator " ++ op.name
  | sortsByAlias => "window ORDER BY must reference columns"

/-- Why a query has no SQL. -/
inductive QueryError where
  | invalid (error : ValidationError)
  | illFormed (entity : Entity) (fault : FormFault)
  | unresolvedAlias (aliasName reference : String)
deriving DecidableEq

/-- The wording of a query error. -/
def QueryError.message : QueryError → String
  | invalid e => e.message
  | illFormed e fault => "Ill-formed " ++ e.name ++ ": " ++ fault.message
  | unresolvedAlias aliasName reference => unresolvedMessage aliasName reference

-- ============================================================= schemas

/-- Why a reference between definitions cannot be replaced. -/
inductive SchemaError where
  | unknownDefinition (name : String)
  | selfReference (path : List String)
  | unsupportedReference (reference : String)
deriving DecidableEq

/-- The wording of a schema error. -/
def SchemaError.message : SchemaError → String
  | unknownDefinition name => "Reference to unknown definition '" ++ name ++ "'"
  | selfReference path => "Self-referential definition: " ++ " -> ".intercalate path
  | unsupportedReference reference =>
    "Unsupported reference '" ++ reference ++
      "': only local '#/$defs/' and '#/definitions/' pointers are resolved"

end TypedSelect
