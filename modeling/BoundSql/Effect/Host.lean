import BoundSql.Effect.Action

namespace BoundSql

/-- How an operation goes, the misbehaviour that made it go so, and a step that it runs before it
ends. -/
structure Reaction (o : Operation) where
  outcome : Outcome o.Raw
  fault : Option Misbehaviour := none
  callback : Option Step := none

def Reaction.status {o : Operation} (r : Reaction o) : Status :=
  match r.fault, r.outcome with
  | some m, _ => .misbehaved m
  | none, .ok _ => .done
  | none, .error _ => .refused

/-- A host with states in `σ`. It sees the shared memory, and the number that a lease or a query is
given. -/
structure Host (σ : Type) where
  answer : Memory → (o : Operation) → Nat → σ → Reaction o × σ

structure World (σ : Type) where
  memory : Memory
  host : σ

namespace Operation

def number (m : Memory) : Operation → Nat
  | lease _ => m.leases + 1
  | query _ _ _ => m.cursors + 1
  | _ => 0

end Operation

namespace Memory

def register (o : Operation) (id : Nat) (s : Status) (m : Memory) : Memory :=
  let m := match o with
    | .lease _ => { m with leases := id }
    | .query _ _ _ => { m with cursors := id }
    | _ => m
  if o.site?.isSome then m.log (.operation o (o.connection?.getD id) s) else m

def reentered (r : Record) (m : Memory) : Memory :=
  { m with
    desk := { m.desk with reentries := m.desk.reentries ++ [r] }
    trace := .reentered m.desk.reentries.length :: m.trace }

end Memory

namespace Host

variable {σ : Type}

/-- Performs an operation. A statement that runs a step keeps its connection busy for that time. -/
def perform (h : Host σ) (callback : Step → World σ → Record × World σ) (o : Operation)
    (w : World σ) : Outcome o.Answer × World σ :=
  let id := o.number w.memory
  let (reaction, host) := h.answer w.memory o id w.host
  let memory := w.memory.register o id reaction.status
  let w := match reaction.callback, o.connection? with
    | some s, some c =>
      let (record, w) := callback s ⟨{ memory with busy := c :: memory.busy }, host⟩
      let memory := { w.memory with busy := w.memory.busy.erase c }
      { w with memory := memory.reentered record }
    | _, _ => ⟨memory, host⟩
  (reaction.outcome.map (o.complete id), w)

end Host

end BoundSql
