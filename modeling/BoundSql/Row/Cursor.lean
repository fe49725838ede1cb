import BoundSql.Row.Return

namespace BoundSql.Cursor

section

variable {m : Type → Type} [Monad m]

/-- Fetches row after row until none is left, at most `fuel` times. -/
def collect (fetchOne : m (Option Row)) : Nat → m (List Row)
  | 0 => pure []
  | fuel + 1 => do
    match ← fetchOne with
    | none => return []
    | some row => return row :: (← collect fetchOne fuel)

/-- Pulls rows as the strategy wants them. More than one row for a single-row return is an error
that tells how many there are. -/
def fetchRows [MonadExceptOf Error m] (rowCount : Option Nat) (fetchOne : m (Option Row))
    (fetchAll : m (List Row)) : Strategy → m (List Row)
  | .none => pure []
  | .many => fetchAll
  | .one _ =>
    match rowCount.filter (1 < ·) with
    | some n => throw (.tooManyRows n)
    | none => do
      match ← fetchOne with
      | none => return []
      | some first =>
        match ← fetchOne with
        | none => return [first]
        | some _ => throw (.tooManyRows ((← fetchAll).length + 2))

end

structure Buffered where
  columns : List Column
  rows : List Row
  total : Nat

namespace Buffered

def ofRows (columns : List Column) (rows : List Row) : Buffered := ⟨columns, rows, rows.length⟩

def fetchOne : StateM Buffered (Option Row) := do
  let c ← get
  match c.rows with
  | [] => return none
  | row :: rest =>
    set { c with rows := rest }
    return some row

def fetchAll : StateM Buffered (List Row) := do
  let c ← get
  set { c with rows := [] }
  return c.rows

def fetchEach : StateM Buffered (List Row) := do
  collect fetchOne ((← get).rows.length + 1)

/-- Closing a blocking cursor drops the rows left. -/
def close : StateM Buffered Unit := modify fun c ↦ { c with rows := [] }

/-- Closing an asynchronous cursor leaves it as it is. -/
def closeAsync : StateM Buffered Unit := pure ()

def rowCount (c : Buffered) : Option Nat := some c.total

end Buffered

inductive Use
  | fetchOne
  | fetchAll
  | close
  | rowCount
  | description
  deriving Repr, DecidableEq

inductive Reply
  | row (r : Option Row)
  | rows (rs : List Row)
  | closed
  | count (n : Option Nat)
  | columns (cs : List Column)

/-- How a cursor over buffered rows is reached: directly or through a wrapper that only forwards its
columns and single rows, blocking or not. -/
structure Access where
  wrapped : Bool
  async : Bool
  deriving Repr, DecidableEq

def Buffered.use (a : Access) : Use → StateM Buffered Reply
  | .fetchOne => do return .row (← fetchOne)
  | .fetchAll => do return .rows (← if a.wrapped then fetchEach else fetchAll)
  | .close => do
    if a.wrapped then pure () else if a.async then closeAsync else close
    return .closed
  | .rowCount => do
    let c ← get
    return .count (if a.wrapped then none else c.rowCount)
  | .description => do return .columns (← get).columns

end BoundSql.Cursor
