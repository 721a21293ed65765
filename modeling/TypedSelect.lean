import TypedSelect.Query.Construction
import TypedSelect.Sql.Statement
import TypedSelect.Schema.Definitions
import TypedSelect.Settings.Document
import TypedSelect.Proofs.Query.RoundTrip
import TypedSelect.Proofs.Scope.Agreement
import TypedSelect.Proofs.Sql.Replacement
import TypedSelect.Proofs.Json.Follows
import TypedSelect.Proofs.Query.Grammar
import TypedSelect.Proofs.Query.Reading
import TypedSelect.Proofs.Json.Order
import TypedSelect.Proofs.Schema.Conforms
import TypedSelect.Proofs.Schema.Pieces
import TypedSelect.Proofs.Schema.Describes
import TypedSelect.Proofs.Query.Schema
import TypedSelect.Proofs.Schema.Inline
import TypedSelect.Proofs.Schema.Refusals
import TypedSelect.Proofs.Schema.Draft
import TypedSelect.Proofs.Schema.Definitions
import TypedSelect.Proofs.Query.Conformance
import TypedSelect.Proofs.Query.Canonical
import TypedSelect.Proofs.Sql.Reader
import TypedSelect.Proofs.Sql.Reading.Term
import TypedSelect.Proofs.Sql.Reading.Expression
import TypedSelect.Proofs.Sql.Reading.Statement
import TypedSelect.Proofs.Sql.Canonical
import TypedSelect.Proofs.Sql.Operators
import TypedSelect.Proofs.Scope.Steps
import TypedSelect.Proofs.Scope.Settings
import TypedSelect.Proofs.Scope.Binding
import TypedSelect.Proofs.Query.Folding
import TypedSelect.Proofs.Scope.Folding
import TypedSelect.Proofs.Schema.Meaning
import TypedSelect.Proofs.Schema.Residue
import TypedSelect.Proofs.Json.Presentation
import TypedSelect.Proofs.Json.Text
import TypedSelect.Proofs.Query.Nodes
import TypedSelect.Proofs.Query.Presentation
import TypedSelect.Proofs.Scope.Rule
import TypedSelect.Proofs.Schema.Cycles
import TypedSelect.Proofs.Sql.Trail
import TypedSelect.Proofs.Query.Promotion
import TypedSelect.Proofs.Sql.Precedence
import TypedSelect.Proofs.Sql.Connectives
import TypedSelect.Proofs.Schema.Stack
import TypedSelect.Proofs.Schema.Label
import TypedSelect.Proofs.Sql.Quoting
