import BoundSql.Template.Mistake

namespace BoundSql

inductive Error
  | template (report : Template.Report)
  | missingTemplateArgument (argument function : String)
  | noPoolSet
  | poolAlreadySet
  | argumentResolution (path reason : String)
  | tooManyRows (count : Nat)
  | noRows
  | tooManyValues (count : Nat)
  | typeConversion (expected actual : String)
  | columnNotFound (name : String)
  | unexpectedNull (name : String)
  | rowDecode (message : String)
  | query (message : String)
  | connection (message : String)
  | sqlite (message : String)
  /-- A settings file or an environment variable cannot be read. -/
  | source (message : String)
  | configuration (message : String)
  | unsupportedBackend (scheme : String)
  /-- Raised by the caller's own code inside a bound transaction. -/
  | application (message : String)
  deriving Repr, DecidableEq

namespace Error

def message : Error → String
  | template report => report.text
  | missingTemplateArgument argument function =>
    s!"Argument '{argument}' specified in template but is not an argument of {function}"
  | noPoolSet => "No connection pool has been set for the binder"
  | poolAlreadySet => "The connection pool for a binder can only be set once"
  | argumentResolution path reason => s!"Cannot resolve argument '{path}': {reason}"
  | tooManyRows count => s!"Only expected one row, but got {count}"
  | noRows => "Expected one row, found none"
  | tooManyValues count => s!"Too many values, expected 1, got {count}"
  | typeConversion expected actual =>
    s!"Type conversion error: expected {expected}, got {actual}"
  | columnNotFound name => s!"Column not found: {name}"
  | unexpectedNull name => s!"Unexpected null value for column: {name}"
  | rowDecode message => s!"Failed to decode row: {message}"
  | query message => s!"Query error: {message}"
  | connection message => s!"Connection error: {message}"
  | sqlite message => s!"SQLite error: {message}"
  | source message => s!"Configuration error: {message}"
  | configuration message => s!"Invalid configuration: {message}"
  | unsupportedBackend scheme => s!"Unsupported backend: {scheme}"
  | application message => message

/-- Whether the error is raised when a function is bound rather than when it is called. -/
def isBindTime : Error → Bool
  | template _ | missingTemplateArgument _ _ | poolAlreadySet => true
  | _ => false

end Error

end BoundSql
