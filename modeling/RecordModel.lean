import RecordModel.Calendar.Basic
import RecordModel.Calendar.Notation
import RecordModel.Catalog.Basic
import RecordModel.Catalog.Definition
import RecordModel.Catalog.Definition.Reader
import RecordModel.Catalog.Field
import RecordModel.Catalog.Model
import RecordModel.Catalog.Name
import RecordModel.Catalog.Order
import RecordModel.CommandLine.Arguments
import RecordModel.CommandLine.Run
import RecordModel.Connection.Basic
import RecordModel.Connection.Settings
import RecordModel.Connection.Url
import RecordModel.Database.Basic
import RecordModel.Database.Inquiry
import RecordModel.Database.Introspection
import RecordModel.Database.Scripted
import RecordModel.Dictionary
import RecordModel.Environment.Basic
import RecordModel.Environment.Call
import RecordModel.Error
import RecordModel.FieldMap
import RecordModel.Filter.Condition
import RecordModel.Filter.Expression.Basic
import RecordModel.Filter.Expression.Call
import RecordModel.Filter.Expression.Escape
import RecordModel.Filter.Expression.Form
import RecordModel.Filter.Expression.Grammar
import RecordModel.Filter.Expression.Lexer
import RecordModel.Filter.Expression.Literal
import RecordModel.Filter.Expression.Operation
import RecordModel.Filter.Expression.Parser
import RecordModel.Filter.Expression.Query
import RecordModel.Filter.Expression.Rank
import RecordModel.Filter.Expression.Token
import RecordModel.Filter.Operator
import RecordModel.Filter.Path
import RecordModel.Filter.Reading
import RecordModel.Json.Basic
import RecordModel.Json.Printer
import RecordModel.Json.Reader
import RecordModel.Json.Record
import RecordModel.Main
import RecordModel.Method.Kind
import RecordModel.Method.Program
import RecordModel.Method.Registry
import RecordModel.Method.Signature
import RecordModel.Method.Typed
import RecordModel.Number.Binary64
import RecordModel.Number.Decimal
import RecordModel.Number.Power
import RecordModel.Number.Shortest
import RecordModel.Query.Basic
import RecordModel.Query.Compile
import RecordModel.Query.Join
import RecordModel.Query.Statement
import RecordModel.Query.Where
import RecordModel.RecordSet.Access
import RecordModel.RecordSet.Basic
import RecordModel.Schema.Definition
import RecordModel.Schema.Sync
import RecordModel.Sql.Dialect
import RecordModel.Sql.Placeholder
import RecordModel.Text.Blank
import RecordModel.Text.Letter
import RecordModel.Text.Pieces
import RecordModel.Value.Basic
import RecordModel.Value.Coercion
import RecordModel.Value.Equality
import RecordModel.Value.Text
import RecordModel.View.Basic
import RecordModel.View.Collection
import RecordModel.Proofs.Catalog.Reachable
import RecordModel.Proofs.Catalog.Order
import RecordModel.Proofs.Catalog.Key
import RecordModel.Proofs.Catalog.Names
import RecordModel.Proofs.Catalog.Registration
import RecordModel.Proofs.Catalog.Arrangement
import RecordModel.Proofs.Catalog.RoundTrip
import RecordModel.Proofs.Value.Imprint
import RecordModel.Proofs.Filter.Meaning
import RecordModel.Proofs.Filter.Collation
import RecordModel.Proofs.Filter.Conversion
import RecordModel.Proofs.Sql.Grammar
import RecordModel.Proofs.Sql.Expansion
import RecordModel.Proofs.Sql.Operands
import RecordModel.Proofs.Sql.Lexemes
import RecordModel.Proofs.Sql.Quotes
import RecordModel.Proofs.Sql.Scopes
import RecordModel.Proofs.Schema.Statements
import RecordModel.Proofs.Schema.Reports
import RecordModel.Proofs.Schema.Plan
import RecordModel.Proofs.Schema.Convergence
import RecordModel.Proofs.Schema.IndexNames
import RecordModel.Proofs.Method.Chain
import RecordModel.Proofs.Method.History
import RecordModel.Proofs.Query.Walk
import RecordModel.Proofs.Query.Alias
import RecordModel.Proofs.Query.Narrowing
import RecordModel.Proofs.Query.Rows
import RecordModel.Proofs.Query.Operation
import RecordModel.Proofs.Query.Chained
import RecordModel.Proofs.Query.Binding
import RecordModel.Proofs.Query.Alike
import RecordModel.Proofs.Query.Scoping
import RecordModel.Proofs.Query.Columns
import RecordModel.Proofs.Method.Dispatch
import RecordModel.Proofs.Environment.Operations
import RecordModel.Proofs.Environment.Interleaving
import RecordModel.Proofs.Query.Resolution
import RecordModel.Proofs.Catalog.FieldLines
import RecordModel.Proofs.Catalog.Defaults
import RecordModel.Proofs.Catalog.TypeWords
import RecordModel.Proofs.Number.Digits
import RecordModel.Proofs.Number.Rounding
import RecordModel.Proofs.Number.Shortest
import RecordModel.Proofs.Calendar.Notation
import RecordModel.Proofs.Value.Literal
import RecordModel.Proofs.Value.Coercion
import RecordModel.Proofs.View.Registration
import RecordModel.Proofs.Sql.Units
import RecordModel.Proofs.Query.Dialects
import RecordModel.Proofs.Method.Entries
import RecordModel.Proofs.Method.Trace
import RecordModel.Proofs.Method.Typing
import RecordModel.Proofs.Method.TypedLayers
import RecordModel.Proofs.Connection.Url
import RecordModel.Proofs.Connection.Pairs
import RecordModel.Proofs.Filter.Substring
import RecordModel.Proofs.Query.Projected
import RecordModel.Proofs.Sql.Conditions
import RecordModel.Proofs.Query.Evaluation
import RecordModel.Proofs.Query.Writes
import RecordModel.Proofs.RecordSet.Alignment
import RecordModel.Proofs.Query.Scalars
import RecordModel.Proofs.Catalog.Storage
import RecordModel.Proofs.Schema.Constraints
import RecordModel.Proofs.Schema.AddedColumns
import RecordModel.Proofs.Filter.Lexing
import RecordModel.Proofs.Filter.Parsing
import RecordModel.Proofs.Filter.Integers
import RecordModel.Proofs.FieldMap.History
import RecordModel.Proofs.Catalog.DerivedNames
