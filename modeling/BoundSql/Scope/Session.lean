import BoundSql.Row.Cursor
import BoundSql.Effect.Action

namespace BoundSql.Session

def inUse : Error := .connection "connection is already in use"

def released : Error := .connection "connection has been released"

/-- Fails unless the connection is there to be used. -/
def check (c : Nat) : Call Unit := do
  let m ← Call.read
  if c ∈ m.busy then Call.fail inUse
  else if (m.held.lookup c).isNone then Call.fail released
  else pure ()

def execute (c : Nat) (sql : String) (params : List Value) : Call Nat := do
  check c
  Call.operate (.execute c sql params)

def query (c : Nat) (sql : String) (params : List Value) : Call Cursor := do
  check c
  Call.operate (.query c sql params)

def commit (c : Nat) : Call Unit := do
  check c
  Call.operate (.commit c)

def rollback (c : Nat) : Call Unit := do
  check c
  Call.operate (.rollback c)

def autocommit (c : Nat) : Call Bool := do
  check c
  return ((← Call.read).held.lookup c).getD false

def setAutocommit (c : Nat) (on : Bool) : Call Unit := do
  check c
  Call.modify (Memory.setAutocommit c on)

def rollbackQuietly (c : Nat) : Call Unit := do
  match ← (rollback c).outcome with
  | .error (.panic m) => throw (.panic m)
  | _ => pure ()

end BoundSql.Session

namespace BoundSql

namespace Binder

def pool (binder : Nat) : Call PoolSpec := do
  match (← Call.read).pools.lookup binder with
  | some p => return p
  | none => Call.fail .noPoolSet

/-- Leases a connection from the binder's pool into the caller's hands. -/
def lease (binder : Nat) : Call Nat := do
  let p ← pool binder
  let c ← Call.operate (.lease binder)
  Call.modify (Memory.hold c p.autocommit)
  return c

end Binder

namespace Cursor

/-- A cursor is stepped through by the call that owns it. -/
abbrev Reading := StateT Cursor Call

def fetchOne : Reading (Option Row) := do
  let c ← get
  set { c with fetched := c.fetched + 1 }
  let _ ← (Call.operate (.fetch c.connection c.id c.fetched) : Call Unit)
  match c.rows with
  | [] => return none
  | row :: rest =>
    set { c with fetched := c.fetched + 1, rows := rest }
    return some row

def fetchAll : Reading (List Row) := do
  collect fetchOne ((← get).rows.length + 1)

instance : MonadExceptOf Error Reading where
  throw e := fun _ ↦ Call.fail e
  tryCatch p f := fun s ↦ do
    match ← (p.run s).outcome with
    | .ok r => return r
    | .error (.error e) => f e s
    | .error (.panic m) => throw (.panic m)

def pull (c : Cursor) (s : Strategy) : Call (List Row) :=
  (fetchRows c.rowCount fetchOne fetchAll s).run' c

def close (c : Cursor) : Call Unit := Call.operate (.close c.connection c.id)

end Cursor

end BoundSql
