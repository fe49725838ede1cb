import BoundSql.Bound.Basic
import BoundSql.Scope.Async

namespace BoundSql.Async

variable {α : Type}

def execute (scopes : Scopes) (b : Bound) (count : Count) (args : Arguments) : Call Mapped := do
  let r ← b.render args
  connection scopes b.binder fun _ c ↦ do
    let n ← locking c (Session.execute c r.sql r.params)
    if ← locking c (Session.autocommit c) then locking c (Session.commit c)
    Call.ofResult (count.ofAffected n)

def query (scopes : Scopes) (b : Bound) (ret : Return) (args : Arguments) : Call Mapped := do
  let r ← b.render args
  connection scopes b.binder fun _ c ↦ do
    let cursor ← locking c (Session.query c r.sql r.params)
    let rows ← cleaningUp (.close c cursor.id) (cursor.pull ret.strategy)
    cursor.close
    let value ← Call.ofResult (ret.ofRows cursor.columns rows)
    if ← locking c (Session.autocommit c) then locking c (Session.commit c)
    return value

def stream (scopes : Scopes) (b : Bound) (shape : Shape) (args : Arguments) : Call Stream := do
  let r ← b.render args
  let e ← enter scopes b.binder
  match ← Entry.guarded e (caught (locking e.connection
      (Session.query e.connection r.sql r.params))) with
  | .error err => Entry.exit e (.error err)
  | .ok cursor =>
    return ⟨cursor, cursor.columns, shape, if e.owner then some e else none, false, false⟩

def cleanupOf (s : Stream) : Option Job :=
  if s.finished then none
  else
    let cursor := if s.closed then none else some s.cursor.id
    match s.entry with
    | some e => some (.abandonStream e.binder e.connection cursor)
    | none => cursor.map (.close s.cursor.connection)

/-- Runs a part of a stream's life that its clean-up must follow, if it panics or is dropped. -/
def holding (s : Stream) (p : Call α) : Call α :=
  match cleanupOf s with
  | some j => protecting j p
  | none => p

abbrev Item := Option (Except Error Mapped)

def finish (s : Stream) (failure : Option Error) : Action (Outcome Item × Stream) := do
  let s := { s with closed := true }
  let ended := { s with finished := true, entry := none }
  match ← (holding s (caught s.cursor.close)).run with
  | .error f => return (.error f, ended)
  | .ok closed =>
    let r : Except Error Unit := match failure with
      | some err => .error err
      | none => closed
    let item : Outcome Unit → Outcome Item
      | .ok _ => .ok none
      | .error (.error err) => .ok (some (.error err))
      | .error (.panic m) => .error (.panic m)
    match s.entry with
    | some e => return (item (← (Entry.exit e r).run), ended)
    | none => return (item (Outcome.ofResult r), ended)

def next (s : Stream) : Action (Outcome Item × Stream) := do
  if s.finished then return (.ok none, s)
  match ← (holding s (caught (Cursor.fetchOne.run s.cursor))).run with
  | .error f => return (.error f, { s with finished := true })
  | .ok (.error err) => finish s (some err)
  | .ok (.ok (none, cursor)) => finish { s with cursor } none
  | .ok (.ok (some row, cursor)) =>
    let s := { s with cursor }
    match s.shape.ofRow s.columns row with
    | .ok m => return (.ok (some (.ok m)), s)
    | .error err => finish s (some err)

def dropStream (s : Stream) : Call Unit :=
  match cleanupOf s with
  | some j => ExceptT.lift (Action.start j)
  | none => pure ()

def transaction (scopes : Scopes) (binder : Nat) (body : Scopes → Nat → Call α) : Call α :=
  connection scopes binder fun inner c ↦ do
    let previous ← locking c (Session.autocommit c)
    locking c (Session.setAutocommit c false)
    let r ← caught (body inner c)
    let restored ← caught (locking c (Session.setAutocommit c previous))
    let a ← Call.ofResult r
    Call.ofResult restored
    return a

end BoundSql.Async
