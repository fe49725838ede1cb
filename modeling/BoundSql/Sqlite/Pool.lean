import BoundSql.Effect.Host
import BoundSql.Sqlite.Connection

namespace BoundSql.Sqlite

/-- The databases of idle connections, the last released one first. -/
abbrev Pool (ε : Type) := List ε

namespace Pool

variable {ε : Type}

/-- Where nothing is idle, a connection is opened, which may fail. -/
def lease (e : Engine ε) (id : Nat) : Pool ε → Except Error (Connection ε) × Pool ε
  | [] => ((e.opening id).map fun engine ↦ ⟨engine, false⟩, [])
  | engine :: idle => (.ok ⟨engine, false⟩, idle)

def release (e : Engine ε) (maxIdle : Nat) (c : Connection ε) (idle : Pool ε) :
    Except Error Unit × Pool ε :=
  match (Connection.rollback e).run.run c with
  | (.error err, _) => (.error err, idle)
  | (.ok (), c) => (.ok (), if idle.length < maxIdle then c.engine :: idle else idle)

end Pool

/-- All pools of a program, and the connections that are out. -/
structure Server (ε : Type) where
  pools : List (Nat × Pool ε) := []
  connections : List (Nat × Connection ε) := []

namespace Server

variable {ε α : Type}

def pool (s : Server ε) (id : Nat) : Pool ε := (s.pools.lookup id).getD []

def setPool (id : Nat) (p : Pool ε) (s : Server ε) : Server ε :=
  { s with pools := Memory.setKey id p s.pools }

def missing : Error := .connection "there is no such connection"

def use (c : Nat) (p : Connection.Use ε α) (s : Server ε) : Outcome α × Server ε :=
  match s.connections.lookup c with
  | none => (.error (.error missing), s)
  | some connection =>
    let (r, connection) := p.run.run connection
    (Outcome.ofResult r, { s with connections := Memory.setKey c connection s.connections })

def answer (e : Engine ε) (m : Memory) : (o : Operation) → Nat → Server ε → Outcome o.Raw × Server ε
  | .lease pool, id, s =>
    match (s.pool pool).lease e id with
    | (.error err, _) => (.error (.error err), s)
    | (.ok c, idle) =>
      (.ok (), { s.setPool pool idle with connections := Memory.setKey id c s.connections })
  | .execute c sql params, _, s => s.use c (Connection.execute e sql params)
  | .query c sql params, _, s =>
    let (r, s) := s.use c (Connection.query e sql params)
    (r.map fun (columns, rows) ↦ (⟨columns, rows, true⟩ : ResultSet), s)
  | .commit c, _, s => s.use c (Connection.commit e)
  | .rollback c, _, s => s.use c (Connection.rollback e)
  | .release pool c, _, s =>
    match s.connections.lookup c with
    | none => (.error (.error missing), s)
    | some connection =>
      let maxIdle := ((m.pools.lookup pool).map PoolSpec.maxIdle).getD 0
      let (r, idle) := (s.pool pool).release e maxIdle connection
      let s := s.setPool pool idle
      (Outcome.ofResult r, { s with connections := Memory.eraseKey c s.connections })
  | .fetch _ _ _, _, s => (.ok (), s)
  | .close _ _, _, s => (.ok (), s)
  | .instruct _, _, s => (.ok (), s)
  | .idle pool, _, s => (.ok (some (s.pool pool).length), s)
  | .inTransaction c, _, s => (.ok ((s.connections.lookup c).map Connection.begun), s)

def host (e : Engine ε) : Host (Server ε) where
  answer m o id s :=
    let (outcome, s) := answer e m o id s
    ({ outcome }, s)

end Server

end BoundSql.Sqlite
