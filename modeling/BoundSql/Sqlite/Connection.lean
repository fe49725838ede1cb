import BoundSql.Error
import BoundSql.Row.Basic
import BoundSql.Sqlite.Database

namespace BoundSql.Sqlite

/-- An engine with states in `ε`. The connections that it opens are counted. -/
structure Engine (ε : Type) where
  opening : Nat → Except Error ε
  inTransaction : ε → Bool
  begin : ε → Except Error Unit × ε
  commit : ε → Except Error Unit × ε
  rollback : ε → Except Error Unit × ε
  execute : String → List Wire → ε → Except Error Nat × ε
  query : String → List Wire → ε → Except Error Rows × ε

def Database.engine : Engine Database where
  opening _ := .ok .empty
  inTransaction := inTransaction
  begin := control .begin
  commit := control .commit
  rollback := control .rollback
  execute sql ps d :=
    let (r, d) := d.execute sql ps
    (r.mapError (.sqlite ∘ Refusal.message sql), d)
  query sql ps d :=
    let (r, d) := d.runText sql ps
    (r.mapError (.sqlite ∘ Refusal.message sql), d)
where
  control (s : Statement) (d : Database) : Except Error Unit × Database :=
    match d.run [] s with
    | .ok (_, d) => (.ok (), d)
    | .error r => (.error (.sqlite (r.message "")), d)

structure Connection (ε : Type) where
  engine : ε
  /-- Whether statements have run since the last commit or rollback. -/
  begun : Bool
  deriving Repr, DecidableEq

namespace Connection

variable {ε α : Type}

/-- Uses of a connection, which is kept whether they fail or not. -/
abbrev Use (ε : Type) := ExceptT Error (StateM (Connection ε))

def onEngine (f : ε → Except Error α × ε) : Use ε α := ExceptT.mk fun c ↦
  let (r, engine) := f c.engine
  (r, { c with engine })

def setBegun (b : Bool) : Use ε Unit := modify fun c ↦ { c with begun := b }

def begin (e : Engine ε) : Use ε Unit := do
  if !(← get).begun then
    onEngine e.begin
    setBegun true

def execute (e : Engine ε) (sql : String) (params : List Value) : Use ε Nat := do
  begin e
  onEngine (e.execute sql (params.map Wire.encode))

def query (e : Engine ε) (sql : String) (params : List Value) :
    Use ε (List Column × List Row) := do
  begin e
  let r ← onEngine (e.query sql (params.map Wire.encode))
  return (r.columns.map fun name ↦ ⟨name, none, none⟩, r.rows.map fun row ↦ row.map Wire.decode)

def commit (e : Engine ε) : Use ε Unit := do
  if (← get).begun then
    onEngine e.commit
    setBegun false

def rollback (e : Engine ε) : Use ε Unit := do
  if (← get).begun then
    onEngine e.rollback
    setBegun false

end Connection

end BoundSql.Sqlite
