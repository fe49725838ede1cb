import BoundSql.Argument.Declaration
import BoundSql.Marker
import BoundSql.Row.Return

namespace BoundSql

structure PoolSpec where
  autocommit : Bool
  marker : Marker
  maxIdle : Nat
  deriving Repr, DecidableEq

/-- What a query gives: its columns and rows, and whether their number is known beforehand. -/
structure ResultSet where
  columns : List Column
  rows : List Row
  counted : Bool

def ResultSet.empty : ResultSet := ⟨[], [], true⟩

/-- The places where a pool, a connection or a cursor can be made to misbehave. -/
inductive Site
  | lease | execute | query | fetch | close | commit | rollback | release
  deriving Repr, DecidableEq

def Site.name : Site → String
  | lease => "lease" | execute => "execute" | query => "query" | fetch => "fetch"
  | close => "close" | commit => "commit" | rollback => "rollback" | release => "release"

inductive Misbehaviour
  | fail
  | panic
  deriving Repr, DecidableEq

inductive Form
  | execute (c : Count)
  | query (r : Return)
  | stream (s : Shape)
  deriving Repr, DecidableEq

inductive Act
  | execute (sql : String) (params : List Value)
  | query (sql : String) (params : List Value)
  | commit
  | rollback
  | autocommit
  | setAutocommit (on : Bool)

/-- How a body ends once its steps have run. -/
inductive Finish
  | value (n : Int)
  | fail (message : String)
  | panic (message : String)
  deriving Repr, DecidableEq

mutual

/-- What a scripted connection answers to its next statement. -/
inductive Reply
  | rows (r : ResultSet) (failAt : Option Nat)
  | affected (n : Nat)
  | fail (message : String)
  | reenter (s : Step)

inductive Step
  | attempt (s : Step)
  | binder (name : String) (pool : Option PoolSpec)
  | setPool (binder : String) (pool : PoolSpec)
  | marker (binder : String)
  | bind (name binder : String) (form : Form) (arguments : Declaration) (sql : String)
  | call (function : String) (arguments : Arguments) (name : Option String)
  | next (stream : String) (count : Nat)
  | columns (stream : String)
  | drop (stream : String)
  | connection (binder : String) (name : Option String) (body : List Step) (finish : Finish)
  | transaction (binder : String) (name : Option String) (body : List Step) (finish : Finish)
  | session (session : String) (act : Act)
  | same (a b : String)
  | double (binder : String) (n : Int)
  | reply (r : Reply)
  | misbehave (site : Site) (how : Option Misbehaviour) (times : Option Nat)
  | thread (body : List Step)
  | task (body : List Step)
  | cancel (site : Site) (s : Step)
  | settle
  | idle (binder : String)
  | lease (binder name : String)
  | release (binder connection : String)
  | direct (connection : String) (act : Act)

end

namespace Step

def isAttempt : Step → Bool
  | attempt _ => true
  | _ => false

end Step

mutual

def Reply.size : Reply → Nat
  | .reenter s => s.size
  | _ => 0

def Step.size : Step → Nat
  | .attempt s | .cancel _ s => s.size + 1
  | .connection _ _ steps _ | .transaction _ _ steps _ | .thread steps | .task steps =>
    Step.sizeAll steps + 1
  | .reply r => r.size + 1
  | _ => 1

def Step.sizeAll : List Step → Nat
  | [] => 0
  | s :: rest => s.size + Step.sizeAll rest

end

end BoundSql
