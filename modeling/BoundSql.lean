import BoundSql.MySql.Plan
import BoundSql.MySql.Wire
import BoundSql.Proofs.Scope.Cancellation
import BoundSql.Proofs.Template.Rendering
import BoundSql.Proofs.Template.RoundTrip
import BoundSql.Row.Cursor
import BoundSql.Settings.Document
import BoundSql.Settings.Load
import BoundSql.Sqlite.Pool
import BoundSql.Proofs.Effect.Together
import BoundSql.Proofs.Scope.Active
import BoundSql.Proofs.Scope.Serving
import BoundSql.Proofs.Scope.Entering
import BoundSql.Proofs.Scope.Detached
import BoundSql.Proofs.Scope.Sharing
import BoundSql.Proofs.Scope.Begins
import BoundSql.Proofs.Scope.Isolation
import BoundSql.Proofs.Scope.Obtaining
import BoundSql.Proofs.Scope.Closing
import BoundSql.Proofs.Scope.Cursors
import BoundSql.Proofs.Scope.Counterpart
import BoundSql.Proofs.Scope.Agreement
import BoundSql.Proofs.Scope.Relay
import BoundSql.Proofs.Scope.StreamLife
import BoundSql.Proofs.Scope.Eager
import BoundSql.Proofs.Scope.Querying
import BoundSql.Proofs.Scope.Restoring
import BoundSql.Proofs.Argument.Roots
import BoundSql.Proofs.Number.Digits
import BoundSql.Proofs.Calendar.Reading
import BoundSql.Proofs.Number.Decimal
import BoundSql.Proofs.Json.Scalars
import BoundSql.Proofs.Json.RoundTrip
import BoundSql.Proofs.Sqlite.Storage
import BoundSql.Proofs.MySql.Transport
import BoundSql.Proofs.MySql.Canonical
import BoundSql.Proofs.Row.Buffered
import BoundSql.Proofs.Row.Counting
import BoundSql.Proofs.Sqlite.Transactions
import BoundSql.Proofs.Row.Fetching
import BoundSql.Proofs.MySql.Clock
import BoundSql.Proofs.Sqlite.Numbering
import BoundSql.Proofs.Sqlite.Pooling
import BoundSql.Proofs.Argument.Wrapping
import BoundSql.Proofs.Template.Resolving
import BoundSql.Proofs.Template.Seams
import BoundSql.Proofs.Text.Bytes
import BoundSql.Proofs.Template.Offsets
import BoundSql.Proofs.Template.Mistakes
import BoundSql.Proofs.Argument.Reaching
import BoundSql.Proofs.Argument.Documents
import BoundSql.Proofs.Value.Integers
import BoundSql.Proofs.Value.Splicing
import BoundSql.Proofs.Row.Recording
import BoundSql.Proofs.MySql.Planning
import BoundSql.Proofs.Template.Numbering
import BoundSql.Proofs.Scope.Timing
