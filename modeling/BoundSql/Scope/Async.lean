import BoundSql.Scope.Session

namespace BoundSql.Async

variable {α : Type}

/-- The active connection of each binder in the current task. -/
abbrev Scopes := List (Nat × Nat)

/-- Waits for the lock of a connection and goes on with it. -/
def locking (c : Nat) (p : Call α) : Call α := do
  Call.wait (.access c)
  p

/-- Joins the task's active connection or leases one. -/
def enter (scopes : Scopes) (binder : Nat) : Call Entry := do
  let _ ← Binder.pool binder
  match scopes.lookup binder with
  | some c => return ⟨binder, c, false, false, 0⟩
  | none => return ⟨binder, ← Binder.lease binder, true, false, 0⟩

def protecting (j : Job) (p : Call α) : Call α := ExceptT.mk do
  let r ← p.run.orphaning j
  if Outcome.isPanic r then Action.start j
  return r

/-- Runs a part of a call that a task must clean up after, unless it succeeds. -/
def cleaningUp (j : Job) (p : Call α) : Call α := ExceptT.mk do
  let r ← p.run.orphaning j
  if !Outcome.isOk r then Action.start j
  return r

/-- Hands a connection back, if it is still held, on a background task where there can be one. -/
def release (binder connection : Nat) : Call Unit := locking connection do
  let m ← Call.read
  if (m.held.lookup connection).isNone then pure ()
  else
    Call.modify (Memory.letGo connection)
    if m.tasks then
      match ← (Call.wait (.task (.release binder connection))).outcome with
      | .error (.panic message) =>
        Call.fail (.connection s!"release task failed: {message}")
      | .error (.error e) => Call.fail e
      | .ok _ => pure ()
    else Call.operate (.release binder connection)

namespace Entry

def cleanup (e : Entry) : Job := .abandon e.binder e.connection

def guarded (e : Entry) (p : Call α) : Call α :=
  if e.owner then protecting (cleanup e) p else p

def settle (e : Entry) (r : Except Error α) : Call (Except Error α) := do
  match r with
  | .ok a =>
    match ← (locking e.connection (Session.commit e.connection)).outcome with
    | .ok _ => return .ok a
    | .error (.error err) =>
      locking e.connection (Session.rollbackQuietly e.connection)
      return .error err
    | .error (.panic m) => throw (.panic m)
  | .error err =>
    locking e.connection (Session.rollbackQuietly e.connection)
    return .error err

/-- Leaves the scope with the outcome of its body, by the rules of the blocking scope. -/
def exit (e : Entry) (r : Except Error α) : Call α := do
  if !e.owner then Call.ofResult r
  else guarded e do
    let settled ← settle e r
    let released ← (release e.binder e.connection).outcome
    match settled, released with
    | .error err, .ok _ | .error err, .error (.error _) => Call.fail err
    | .ok _, .error err | .error _, .error err => throw err
    | .ok a, .ok _ => return a

end Entry

def caught (p : Call α) : Call (Except Error α) := do
  match ← p.outcome with
  | .ok a => return .ok a
  | .error (.error e) => return .error e
  | .error (.panic m) => throw (.panic m)

/-- Runs `body` in the task's scope for the binder; a leased connection is the active one for all
that `body` awaits. -/
def connection (scopes : Scopes) (binder : Nat) (body : Scopes → Nat → Call α) : Call α := do
  let e ← enter scopes binder
  let inner := if e.owner then (binder, e.connection) :: scopes else scopes
  let r ← Entry.guarded e (caught (body inner e.connection))
  Entry.exit e r

/-- Ends an abandoned scope, unless its connection is already on its way back. -/
def endAbandoned (pool connection : Nat) : Call Unit := do
  let m ← locking connection Call.read
  if (m.held.lookup connection).isNone then pure ()
  else
    locking connection (Session.rollbackQuietly connection)
    let _ ← caught (release pool connection)

/-- Closes the cursor of an abandoned stream, then ends its scope. -/
def endAbandonedStream (pool connection : Nat) (cursor : Option Nat) : Call Unit := do
  let e : Entry := ⟨pool, connection, true, false, 0⟩
  match cursor with
  | some id =>
    let _ ← Entry.guarded e (caught (Call.operate (.close connection id)))
  | none => pure ()
  let _ ← caught (Entry.exit e (α := Unit)
    (.error (.query "stream dropped before exhaustion")))

end BoundSql.Async
