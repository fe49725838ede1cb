import BoundSql.Program.Record
import BoundSql.Template.Basic

namespace BoundSql

structure Entry where
  binder : Nat
  connection : Nat
  owner : Bool
  registered : Bool
  thread : Nat
  deriving Repr, DecidableEq

/-- Mapped rows of a query that is still being read. -/
structure Stream where
  cursor : Cursor
  columns : List Column
  shape : Shape
  entry : Option Entry
  closed : Bool
  finished : Bool

structure Bound where
  binder : Nat
  form : Form
  template : Template
  typeName : String

inductive Job
  | close (connection cursor : Nat)
  | abandon (pool connection : Nat)
  /-- Closes the cursor of a stream that is gone and ends its scope. -/
  | abandonStream (pool connection : Nat) (cursor : Option Nat)
  | release (pool connection : Nat)
  | steps (body : Nat) (steps : List Step)

/-- Where the next operation of a kind is to be caught, whether one has been, and whether the action
in the foreground still waits for what it holds up. -/
structure Gate where
  site : Site
  caught : Bool := false
  holds : Bool := false
  deriving Repr, DecidableEq

structure Desk where
  binders : List (String × Nat) := []
  functions : List (String × Bound) := []
  streams : List (String × Stream) := []
  sessions : List (String × Nat) := []
  leased : List (String × Nat) := []
  bodies : List (Nat × List Record) := []
  bodyCount : Nat := 0
  reentries : List Record := []
  thread : Nat := 0
  threadCount : Nat := 1

structure Memory where
  trace : List Event := []
  drained : Nat := 0
  leases : Nat := 0
  cursors : Nat := 0
  /-- The connections in their scopes' hands, with their autocommit flags. -/
  held : List (Nat × Bool) := []
  /-- Connections in the middle of a statement that runs a step. -/
  busy : List Nat := []
  pools : List (Nat × PoolSpec) := []
  binderCount : Nat := 0
  active : List ((Nat × Nat) × Nat) := []
  tasks : Bool := true
  logged : Bool := true
  started : List Job := []
  gate : Option Gate := none
  desk : Desk := {}

namespace Memory

def eraseKey {κ α : Type} [BEq κ] (k : κ) (l : List (κ × α)) : List (κ × α) :=
  l.filter fun p ↦ p.1 != k

def setKey {κ α : Type} [BEq κ] (k : κ) (a : α) (l : List (κ × α)) : List (κ × α) :=
  (k, a) :: eraseKey k l

def log (e : Event) (m : Memory) : Memory := { m with trace := e :: m.trace }

def hold (c : Nat) (autocommit : Bool) (m : Memory) : Memory :=
  { m with held := setKey c autocommit m.held }

def letGo (c : Nat) (m : Memory) : Memory := { m with held := eraseKey c m.held }

def setAutocommit (c : Nat) (on : Bool) (m : Memory) : Memory :=
  let held := m.held.map fun (d, flag) ↦ (d, if d = c then on else flag)
  { m with held, trace := .autocommit c on :: m.trace }

def activate (thread binder c : Nat) (m : Memory) : Memory :=
  { m with active := setKey (thread, binder) c m.active }

def deactivate (thread binder : Nat) (m : Memory) : Memory :=
  { m with active := eraseKey (thread, binder) m.active }

/-- Starts a background task, where that is possible. -/
def start (j : Job) (m : Memory) : Memory :=
  if m.tasks then { m with started := m.started ++ [j] } else m

def fresh (m : Memory) : List Event :=
  if m.logged then ((m.trace.take (m.trace.length - m.drained)).filter Event.isLogged).reverse
  else []

def drain (m : Memory) : Memory := { m with drained := m.trace.length }

def onDesk (f : Desk → Desk) (m : Memory) : Memory := { m with desk := f m.desk }

end Memory

end BoundSql
