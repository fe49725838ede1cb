import BoundSql.Program.Context

namespace BoundSql

namespace Desk

variable {α : Type}

def find (table : Desk → List (String × α)) (name : String) : Call α := do
  match (table (← Call.read).desk).lookup name with
  | some a => return a
  | none => throw (.panic s!"nothing is called {name}")

def change (f : Desk → Desk) : Call Unit := Call.modify (Memory.onDesk f)

def openBody : Action Nat := do
  let m ← Action.read
  Action.modify (Memory.onDesk fun d ↦ { d with bodyCount := d.bodyCount + 1 })
  return m.desk.bodyCount

def addRecord (body : Nat) (r : Record) : Call Unit :=
  change fun d ↦
    { d with bodies := Memory.setKey body (r :: (d.bodies.lookup body).getD []) d.bodies }

def closeBody (body : Nat) : Action (List Record) := do
  let m ← Action.read
  Action.modify (Memory.onDesk fun d ↦ { d with bodies := Memory.eraseKey body d.bodies })
  return ((m.desk.bodies.lookup body).getD []).reverse

end Desk

def Act.run (connection : Nat) : Act → Call Answer
  | execute sql params => return .affected (← Session.execute connection sql params)
  | query sql params => do
    let cursor ← Session.query connection sql params
    let rows ← Cursor.fetchAll.run' cursor
    cursor.close
    return .rows cursor.columns rows
  | commit => do
    Session.commit connection
    return .unit
  | rollback => do
    Session.rollback connection
    return .unit
  | autocommit => return .flag (← Session.autocommit connection)
  | setAutocommit on => do
    Session.setAutocommit connection on
    return .unit

def Finish.run : Finish → Call Answer
  | value n => return .number n
  | fail message => Call.fail (.application message)
  | panic message => throw (.panic message)

namespace Step

def leased? : Step → Option String
  | attempt s => s.leased?
  | direct c _ => some c
  | _ => none

def awaitQuiet : Call Unit := Call.wait .idle

/-- Runs a step that adds its body's records under the given number, and makes its record; the
outcome is a failure only if the step was attempted. A panic waits for the background to clean up.
-/
def recorded (s : Step) (run : Nat → Call Answer) : Action (Record × Outcome Unit) := do
  let body ← Desk.openBody
  let r ← (run body).run
  if Outcome.isPanic r then
    let _ ← awaitQuiet.run
  let mut inTransaction := none
  if let some name := s.leased? then
    if let some c := (← Action.read).desk.leased.lookup name then
      inTransaction := (← (Call.operate (.inTransaction c)).run).toOption
  let events ← Action.drain
  let records ← Desk.closeBody body
  return (.step r events records inTransaction, if s.isAttempt then r.map fun _ ↦ () else .ok ())

/-- Drops the streams that are left, in the order of their names, and makes the last record. -/
def finish (x : Context) (stopped : Bool) : Call Record := do
  let streams := (← Call.read).desk.streams.mergeSort fun a b ↦ a.1 ≤ b.1
  Desk.change fun d ↦ { d with streams := [] }
  for (_, s) in streams do
    let _ ← (x.dropStream s).outcome
  awaitQuiet
  return .finish (← ExceptT.lift Action.drain) stopped

/-- A scope's body starts by naming its session and recording what entering logged. -/
def enterBody (body : Nat) (name : Option String) (connection : Nat) : Call Unit := do
  if let some name := name then
    Desk.change fun d ↦ { d with sessions := Memory.setKey name connection d.sessions }
  let events ← ExceptT.lift Action.drain
  Desk.addRecord body (.enter events)

/-- Calls a bound function; a stream goes under a name, and the stream that it replaces is
dropped. -/
def callBound (x : Context) (b : Bound) (args : Arguments) (name : Option String) :
    Call Answer := do
  match b.form with
  | .execute count => return .mapped (← x.execute b count args)
  | .query ret => return .mapped (← x.query b ret args)
  | .stream shape =>
    let s ← x.stream b shape args
    let name := name.getD ""
    let older := (← Call.read).desk.streams.lookup name
    Desk.change fun d ↦ { d with streams := Memory.setKey name s d.streams }
    match older with
    | some older => x.dropStream older
    | none => pure ()
    return .stream

def pullNamed (x : Context) (name : String) (n : Nat) : Call Answer := do
  match (← Call.read).desk.streams.lookup name with
  | none => return .noStream
  | some s =>
    Desk.change fun d ↦ { d with streams := Memory.eraseKey name d.streams }
    match ← ExceptT.lift (x.pull s n) with
    | (.ok (items, ended), s) =>
      Desk.change fun d ↦ { d with streams := Memory.setKey name s d.streams }
      return .items items ended
    | (.error f, s) =>
      let _ ← (x.dropStream s).outcome
      throw f

def dropNamed (x : Context) (name : String) : Call Answer := do
  let s? := (← Call.read).desk.streams.lookup name
  Desk.change fun d ↦ { d with streams := Memory.eraseKey name d.streams }
  match s? with
  | some s => x.dropStream s
  | none => pure ()
  awaitQuiet
  return .flag s?.isSome

mutual

/-- Runs a step; the records of its body go under the number. -/
def run (x : Context) (body : Nat) : Step → Call Answer
  | attempt s => s.run x body
  | binder name pool => do
    let id := (← Call.read).binderCount
    Call.modify fun m ↦
      { m with
        binderCount := id + 1
        pools := pool.elim m.pools fun p ↦ (id, p) :: m.pools }
    Desk.change fun d ↦ { d with binders := Memory.setKey name id d.binders }
    return .unit
  | setPool name pool => do
    let id ← Desk.find Desk.binders name
    if ((← Call.read).pools.lookup id).isSome then Call.fail .poolAlreadySet
    Call.modify fun m ↦ { m with pools := (id, pool) :: m.pools }
    return .unit
  | marker name => return .marker (← Bound.marker (← Desk.find Desk.binders name))
  | bind name owner form arguments sql => do
    let b ← Call.ofResult (Bound.make (← Desk.find Desk.binders owner) form arguments sql)
    Desk.change fun d ↦ { d with functions := Memory.setKey name b d.functions }
    return .bound (b.display x.lead) b.template.source
  | call function arguments name => do
    callBound x (← Desk.find Desk.functions function) arguments name
  | next stream count => pullNamed x stream count
  | columns stream => return .columns (((← Call.read).desk.streams.lookup stream).map (·.columns))
  | drop stream => dropNamed x stream
  | connection owner name steps finish => do
    x.connection (← Desk.find Desk.binders owner) fun x c ↦ do
      enterBody body name c
      runAll x body steps
      finish.run
  | transaction owner name steps finish => do
    x.transaction (← Desk.find Desk.binders owner) fun x c ↦ do
      enterBody body name c
      runAll x body steps
      finish.run
  | session name act => do
    let c ← Desk.find Desk.sessions name
    x.locking c (act.run c)
  | same a b => return .flag ((← Desk.find Desk.sessions a) == (← Desk.find Desk.sessions b))
  | double owner n => do
    let twice ← x.transaction (← Desk.find Desk.binders owner) fun _ _ ↦
      return (2 * n).bmod (2 ^ 64)
    return .doubled (Bound.displayTransaction x.lead "i64") twice
  | reply r => do
    (Call.operate (.instruct (.reply r)) : Call Unit)
    return .unit
  | misbehave site how times => do
    (Call.operate (.instruct (.misbehave site how times)) : Call Unit)
    return .unit
  | thread steps => do
    let outer := (← Call.read).desk
    let x := { x with thread := outer.threadCount }
    Desk.change fun d ↦
      { d with
        thread := x.thread
        threadCount := x.thread + 1
        sessions := []
        streams := []
        leased := [] }
    let r ← (runAll x body steps).outcome
    let last ← Step.finish x !Outcome.isOk r
    Desk.addRecord body last
    Desk.change fun d ↦
      { d with
        thread := outer.thread
        sessions := outer.sessions
        streams := outer.streams
        leased := outer.leased }
    return .unit
  | task steps => do
    Call.wait (.task (.steps body steps))
    return .unit
  | cancel site s => do
    Call.modify fun m ↦ { m with gate := some { site } }
    let r ← ExceptT.lift ((recorded s fun body ↦ s.run x body).untilCaught site)
    Call.modify fun m ↦ { m with gate := none }
    awaitQuiet
    match r with
    | none => return .cancelled
    | some (record, _) =>
      Desk.addRecord body record
      return .completed
  | settle => do
    awaitQuiet
    return .unit
  | idle owner => do
    let id ← Desk.find Desk.binders owner
    let _ ← Binder.pool id
    return .idle (← Call.operate (.idle id))
  | lease owner name => do
    let c ← Binder.lease (← Desk.find Desk.binders owner)
    Desk.change fun d ↦ { d with leased := Memory.setKey name c d.leased }
    return .unit
  | release owner name => do
    let id ← Desk.find Desk.binders owner
    let c ← Desk.find Desk.leased name
    Desk.change fun d ↦ { d with leased := Memory.eraseKey name d.leased }
    Call.modify (Memory.letGo c)
    (Call.operate (.release id c) : Call Unit)
    return .unit
  | direct name act => do act.run (← Desk.find Desk.leased name)

def runAll (x : Context) (body : Nat) : List Step → Call Unit
  | [] => pure ()
  | s :: rest => do
    let (record, outcome) ← ExceptT.lift (recorded s fun body ↦ s.run x body)
    Desk.addRecord body record
    ExceptT.mk (.done outcome)
    runAll x body rest

end

end Step

/-- Runs a program and gives its records, the last of which tells how it ended. -/
def Program.run (mode : Mode) (steps : List Step) : Action (List Record) := do
  let x := Context.start mode
  let body ← Desk.openBody
  let r ← (Step.runAll x body steps).run
  let last ← (Step.finish x !Outcome.isOk r).run
  let records ← Desk.closeBody body
  return records ++ last.toOption.toList

end BoundSql
