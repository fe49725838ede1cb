import BoundSql.Fault
import BoundSql.Program.Step

namespace BoundSql

inductive Instruction
  | reply (r : Reply)
  | misbehave (site : Site) (how : Option Misbehaviour) (times : Option Nat)

inductive Operation
  | lease (pool : Nat)
  | execute (connection : Nat) (sql : String) (params : List Value)
  | query (connection : Nat) (sql : String) (params : List Value)
  | fetch (connection cursor index : Nat)
  | close (connection cursor : Nat)
  | commit (connection : Nat)
  | rollback (connection : Nat)
  | release (pool connection : Nat)
  | instruct (i : Instruction)
  | idle (pool : Nat)
  /-- Whether a transaction is open, where a connection can tell. -/
  | inTransaction (connection : Nat)

structure Cursor where
  id : Nat
  connection : Nat
  columns : List Column
  rowCount : Option Nat
  rows : List Row
  fetched : Nat

namespace Operation

/-- What the pool's side supplies when the operation succeeds. -/
def Raw : Operation → Type
  | execute _ _ _ => Nat
  | query _ _ _ => ResultSet
  | idle _ => Option Nat
  | inTransaction _ => Option Bool
  | _ => Unit

def Answer : Operation → Type
  | lease _ => Nat
  | execute _ _ _ => Nat
  | query _ _ _ => Cursor
  | idle _ => Option Nat
  | inTransaction _ => Option Bool
  | _ => Unit

def complete (id : Nat) : (o : Operation) → o.Raw → o.Answer
  | lease _, _ => id
  | execute _ _ _, n => n
  | query c _ _, r => ⟨id, c, r.columns, if r.counted then some r.rows.length else none, r.rows, 0⟩
  | fetch _ _ _, _ => ()
  | close _ _, _ => ()
  | commit _, _ => ()
  | rollback _, _ => ()
  | release _ _, _ => ()
  | instruct _, _ => ()
  | idle _, n => n
  | inTransaction _, b => b

def site? : Operation → Option Site
  | lease _ => some .lease
  | execute _ _ _ => some .execute
  | query _ _ _ => some .query
  | fetch _ _ _ => some .fetch
  | close _ _ => some .close
  | commit _ => some .commit
  | rollback _ => some .rollback
  | release _ _ => some .release
  | instruct _ | idle _ | inTransaction _ => none

def connection? : Operation → Option Nat
  | execute c _ _ | query c _ _ | fetch c _ _ | close c _ | commit c | rollback c | release _ c
  | inTransaction c => some c
  | lease _ | instruct _ | idle _ => none

end Operation

/-- How an operation went: it succeeded, it was answered with an error, or it misbehaved. -/
inductive Status
  | done
  | refused
  | misbehaved (how : Misbehaviour)
  deriving Repr, DecidableEq

inductive Event
  | operation (o : Operation) (connection : Nat) (status : Status)
  | autocommit (connection : Nat) (on : Bool)
  /-- A statement ran a step; its record is kept under the number. -/
  | reentered (index : Nat)

namespace Event

def isLogged : Event → Bool
  | operation (.fetch _ _ _) _ _ => false
  | _ => true

end Event

end BoundSql
