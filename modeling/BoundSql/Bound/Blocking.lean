import BoundSql.Bound.Basic
import BoundSql.Scope.Blocking

namespace BoundSql.Blocking

variable {α : Type}

/-- Runs a statement; with autocommit on it is committed at once. -/
def execute (thread : Nat) (b : Bound) (count : Count) (args : Arguments) : Call Mapped := do
  let r ← b.render args
  connection thread b.binder fun c ↦ do
    let n ← Session.execute c r.sql r.params
    if ← Session.autocommit c then Session.commit c
    Call.ofResult (count.ofAffected n)

def closeQuietly (c : Cursor) : Call Unit := do
  let _ ← caught c.close

def closingOnFailure (c : Cursor) (p : Call α) : Call α := do
  match ← p.outcome with
  | .ok a => return a
  | .error f =>
    closeQuietly c
    throw f

def query (thread : Nat) (b : Bound) (ret : Return) (args : Arguments) : Call Mapped := do
  let r ← b.render args
  connection thread b.binder fun c ↦ do
    let cursor ← Session.query c r.sql r.params
    let rows ← closingOnFailure cursor (cursor.pull ret.strategy)
    cursor.close
    let value ← Call.ofResult (ret.ofRows cursor.columns rows)
    if ← Session.autocommit c then Session.commit c
    return value

/-- Runs a query whose rows are mapped as they are asked for. -/
def stream (thread : Nat) (b : Bound) (shape : Shape) (args : Arguments) : Call Stream := do
  let r ← b.render args
  let e ← enter thread b.binder false
  match ← Entry.guarded e (caught (Session.query e.connection r.sql r.params)) with
  | .error err => Entry.exit e (.error err)
  | .ok cursor =>
    return ⟨cursor, cursor.columns, shape, if e.owner then some e else none, false, false⟩

abbrev Item := Option (Except Error Mapped)

/-- Ends a stream: closes its cursor, leaves its scope, and tells the first error. -/
def finish (s : Stream) (failure : Option Error) : Action (Outcome Item × Stream) := do
  let s := { s with finished := true, closed := true }
  match ← (caught s.cursor.close).run with
  | .error f => return (.error f, s)
  | .ok closed =>
    let r : Except Error Unit := match failure with
      | some err => .error err
      | none => closed
    let item : Outcome Unit → Outcome Item
      | .ok _ => .ok none
      | .error (.error err) => .ok (some (.error err))
      | .error (.panic m) => .error (.panic m)
    match s.entry with
    | some e => return (item (← (Entry.exit e r).run), { s with entry := none })
    | none => return (item (Outcome.ofResult r), s)

/-- The next item of a stream, and the stream after it. -/
def next (s : Stream) : Action (Outcome Item × Stream) := do
  if s.finished then return (.ok none, s)
  match ← (Cursor.fetchOne.run s.cursor).run with
  | .error (.panic m) => return (.error (.panic m), s)
  | .error (.error err) => finish s (some err)
  | .ok (none, cursor) => finish { s with cursor } none
  | .ok (some row, cursor) =>
    let s := { s with cursor }
    match s.shape.ofRow s.columns row with
    | .ok m => return (.ok (some (.ok m)), s)
    | .error err => finish s (some err)

/-- Drops a stream: its cursor closes before its scope is abandoned. -/
def dropStream (s : Stream) : Call Unit := do
  let closed ← (if s.closed then pure () else closeQuietly s.cursor).outcome
  match s.entry with
  | some e => Entry.abandon e
  | none => pure ()
  ExceptT.mk (.done closed)

/-- Runs `body` as a transaction: autocommit is off while it runs. -/
def transaction (thread binder : Nat) (body : Nat → Call α) : Call α :=
  connection thread binder fun c ↦ do
    let previous ← Session.autocommit c
    Session.setAutocommit c false
    let r ← caught (body c)
    let restored ← caught (Session.setAutocommit c previous)
    let a ← Call.ofResult r
    Call.ofResult restored
    return a

end BoundSql.Blocking
