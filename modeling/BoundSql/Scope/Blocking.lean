import BoundSql.Scope.Session

namespace BoundSql.Blocking

variable {α : Type}

/-- Joins the thread's active scope, or leases a connection and, if wanted, makes it the active
one. -/
def enter (thread binder : Nat) (register : Bool) : Call Entry := do
  let _ ← Binder.pool binder
  match (← Call.read).active.lookup (thread, binder) with
  | some c => return ⟨binder, c, false, false, thread⟩
  | none =>
    let c ← Binder.lease binder
    if register then Call.modify (Memory.activate thread binder c)
    return ⟨binder, c, true, register, thread⟩

namespace Entry

/-- Hands the connection back, if the scope still has it. -/
def release (e : Entry) : Call Unit := do
  if e.registered then Call.modify (Memory.deactivate e.thread e.binder)
  let m ← Call.read
  if e.connection ∈ m.busy then Call.fail Session.inUse
  else if (m.held.lookup e.connection).isNone then pure ()
  else
    Call.modify (Memory.letGo e.connection)
    Call.operate (.release e.binder e.connection)

def abandon (e : Entry) : Call Unit := do
  if e.owner then
    Session.rollbackQuietly e.connection
    match ← (release e).outcome with
    | .error (.panic m) => throw (.panic m)
    | _ => pure ()

/-- Runs a part of the scope; a panic in it abandons the scope and goes on. -/
def guarded (e : Entry) (p : Call α) : Call α := do
  match ← p.outcome with
  | .ok a => return a
  | .error (.error err) => Call.fail err
  | .error (.panic m) =>
    let _ ← (abandon e).outcome
    throw (.panic m)

/-- The owner's terminal action: a commit for a success, else a rollback; a failed commit is rolled
back too. -/
def settle (e : Entry) (r : Except Error α) : Call (Except Error α) := do
  match r with
  | .ok a =>
    match ← (Session.commit e.connection).outcome with
    | .ok _ => return .ok a
    | .error (.error err) =>
      Session.rollbackQuietly e.connection
      return .error err
    | .error (.panic m) => throw (.panic m)
  | .error err =>
    Session.rollbackQuietly e.connection
    return .error err

/-- Leaves the scope with the outcome of its body. A joined entry passes it through; the owner
settles and releases, and the first error wins. -/
def exit (e : Entry) (r : Except Error α) : Call α := do
  if !e.owner then Call.ofResult r
  else guarded e do
    let settled ← settle e r
    let released ← (release e).outcome
    match settled, released with
    | .error err, .ok _ | .error err, .error (.error _) => Call.fail err
    | .ok _, .error err | .error _, .error err => throw err
    | .ok a, .ok _ => return a

end Entry

/-- Tells an error, as a value, from a panic, which goes on. -/
def caught (p : Call α) : Call (Except Error α) := do
  match ← p.outcome with
  | .ok a => return .ok a
  | .error (.error e) => return .error e
  | .error (.panic m) => throw (.panic m)

/-- Runs `body` on the thread's active connection, leasing one if none is active. -/
def connection (thread binder : Nat) (body : Nat → Call α) : Call α := do
  let e ← enter thread binder true
  let r ← Entry.guarded e (caught (body e.connection))
  Entry.exit e r

end BoundSql.Blocking
