import BoundSql.Error
import BoundSql.Marker
import BoundSql.Text.Blank

namespace BoundSql

structure Settings where
  url : String := ""
  poolMin : Option Nat := none
  poolMax : Option Nat := none
  inactiveTtl : Option Nat := none
  absoluteTtl : Option Nat := none
  busyTimeout : Nat := 5000
  maxIdle : Nat := 4
  autocommit : Bool := true
  logLevel : Option String := none
  deriving Repr, DecidableEq

inductive Backend
  | mysql
  | sqlite (path : String)
  deriving Repr, DecidableEq

namespace Settings

def splitScheme : List Char → Option (List Char × List Char)
  | [] => none
  | ':' :: '/' :: '/' :: rest => some ([], rest)
  | c :: rest => (splitScheme rest).map fun p ↦ (c :: p.1, p.2)

def backend (s : Settings) : Except Error Backend :=
  match splitScheme s.url.toList with
  | none =>
    .error (.configuration s!"expected a url of the form '<scheme>://...', got '{s.url}'")
  | some (scheme, rest) =>
    match String.ofList scheme with
    | "mysql" => .ok .mysql
    | "sqlite" | "sqlite3" =>
      if rest = [] then .error (.configuration "sqlite url must name a database file")
      else .ok (.sqlite (String.ofList rest))
    | other => .error (.unsupportedBackend other)

def checkBounds (s : Settings) : Except Error Unit :=
  match s.poolMin, s.poolMax with
  | some min, some max =>
    if max < min then
      .error (.configuration s!"pool_min ({min}) must not exceed pool_max ({max})")
    else .ok ()
  | _, _ => .ok ()

/-- Settings are valid if they have a URL that selects a backend, and bounds that fit. -/
def validate (s : Settings) : Except Error Unit := do
  if Text.trim s.url.toList = [] then .error (.configuration "url is required")
  s.checkBounds
  let _ ← s.backend

def milliseconds (seconds : Option Nat) : Option Nat := seconds.map (· * 1000)

end Settings

namespace Sqlite

/-- How a pool of SQLite connections is set up. -/
structure Plan where
  path : String
  busyTimeout : Nat
  maxIdle : Nat
  autocommit : Bool
  deriving Repr, DecidableEq

def Plan.ofSettings (s : Settings) : Except Error Plan := do
  s.validate
  match ← s.backend with
  | .sqlite path => return ⟨path, s.busyTimeout, s.maxIdle, s.autocommit⟩
  | .mysql => .error (.configuration s!"expected a sqlite url, got '{s.url}'")

def Plan.marker (_ : Plan) : Marker := .questionMark

end Sqlite

end BoundSql
