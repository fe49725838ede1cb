import BoundSql.Effect.Host

namespace BoundSql

variable {σ α β : Type}

/-- An action between two of its turns, with the tasks that start if it is dropped there. -/
inductive Suspended (α : Type)
  | done (a : α)
  | ready (orphans : List Job) (rest : Action α)
  | asked (o : Operation) (orphans : List Job) (k : Outcome o.Answer → Action α)
  | waiting (task : Nat) (orphans : List Job) (k : Outcome Unit → Action α)

namespace Suspended

def start (p : Action α) : Suspended α := ready [] p

def orphans : Suspended α → List Job
  | done _ => []
  | ready js _ | asked _ js _ | waiting _ js _ => js

def isDone : Suspended α → Bool
  | done _ => true
  | _ => false

end Suspended

def Operation.isLocked : Operation → Bool
  | execute _ _ _ | query _ _ _ | commit _ | rollback _ => true
  | _ => false

def Operation.isLease : Operation → Bool
  | lease _ => true
  | _ => false

/-- The world, and the background tasks that run in it. -/
structure Runtime (σ : Type) where
  world : World σ
  tasks : List (Suspended (Outcome Unit))

namespace Runtime

abbrev memory (s : Runtime σ) : Memory := s.world.memory

def withMemory (m : Memory) (s : Runtime σ) : Runtime σ :=
  { s with world := { s.world with memory := m } }

def perform (h : Host σ) (o : Operation) (s : Runtime σ) : Outcome o.Answer × Runtime σ :=
  let (r, w) := h.perform (fun _ w ↦ (.step (.ok .unit) [] [] none, w)) o s.world
  (r, { s with world := w })

def event (h : Host σ) (o : Operation) (s : Runtime σ) : Event :=
  let id := o.number s.memory
  .operation o (o.connection?.getD id) (h.answer s.memory o id s.world.host).1.status

def spawn (jobs : Job → Call Unit) (j : Job) (s : Runtime σ) : Runtime σ :=
  { s with tasks := s.tasks ++ [.start (jobs j).run] }

def gather (jobs : Job → Call Unit) (s : Runtime σ) : Runtime σ :=
  { (s.withMemory { s.memory with started := [] }) with
    tasks := s.tasks ++ s.memory.started.map fun j ↦ .start (jobs j).run }

def orphaned (js : List Job) (s : Runtime σ) : Runtime σ :=
  s.withMemory (js.foldl (fun m j ↦ m.start j) s.memory)

end Runtime

/-- A turn: the events of its operations, and where it ends. -/
structure Turn (σ α : Type) where
  events : List Event := []
  next : Suspended α
  runtime : Runtime σ

def Turn.after (es : List Event) (t : Turn σ α) : Turn σ α := { t with events := es ++ t.events }

def Action.proceed (h : Host σ) (jobs : Job → Call Unit) : Action α → Runtime σ → Turn σ α
  | done a, s => { next := .done a, runtime := s }
  | memory f k, s => (k s.memory).proceed h jobs (s.withMemory (f s.memory))
  | operation o js k, s =>
    if o.isLocked then
      { events := [s.event h o], next := .ready js (k (s.perform h o).1)
        runtime := (s.perform h o).2 }
    else { next := .asked o js k, runtime := s }
  | wait (.task j) js k, s => { next := .waiting s.tasks.length js k, runtime := s.spawn jobs j }
  | wait _ js k, s => { next := .ready js (k (.ok ())), runtime := s }

/-- The next turn of a suspended action, unless it has to wait. Whoever asked for a lease goes on as
soon as there is one. -/
def Suspended.turn (h : Host σ) (jobs : Job → Call Unit) :
    Suspended α → Runtime σ → Option (Turn σ α)
  | done _, _ => none
  | ready _ p, s => some (p.proceed h jobs s)
  | asked o js k, s =>
    let (r, s') := s.perform h o
    if o.isLease then some (((k r).proceed h jobs s').after [s.event h o])
    else some { events := [s.event h o], next := .ready js (k r), runtime := s' }
  | waiting i _ k, s =>
    match s.tasks[i]? with
    | some (.done r) => some ((k r).proceed h jobs s)
    | _ => none

namespace Runtime

variable (h : Host σ) (jobs : Job → Call Unit)

def turn (i : Nat) (s : Runtime σ) : Option (Runtime σ) := do
  let q ← s.tasks[i]?
  let t ← q.turn h jobs s
  return { t.runtime with tasks := t.runtime.tasks.set i t.next }

inductive Step : Runtime σ → Runtime σ → Prop
  | gather (s : Runtime σ) : Step s (s.gather jobs)
  | task {s s' : Runtime σ} {i : Nat} (ht : s.turn h jobs i = some s') : Step s s'

def Quiet (s : Runtime σ) : Prop := s.memory.started = [] ∧ ∀ i, s.turn h jobs i = none

end Runtime

/-- An action in the foreground, from `q₀` and `s₀` on: the events of its operations so far, and where
it stands. Between its turns there may be any number of steps in the background. -/
inductive Reaches (h : Host σ) (jobs : Job → Call Unit) (q₀ : Suspended α) (s₀ : Runtime σ) :
    List Event → Suspended α → Runtime σ → Prop
  | refl : Reaches h jobs q₀ s₀ [] q₀ s₀
  | turn {es : List Event} {q : Suspended α} {s : Runtime σ} {t : Turn σ α}
    (hr : Reaches h jobs q₀ s₀ es q s) (ht : q.turn h jobs s = some t) :
    Reaches h jobs q₀ s₀ (es ++ t.events) t.next t.runtime
  | background {es : List Event} {q : Suspended α} {s s' : Runtime σ}
    (hr : Reaches h jobs q₀ s₀ es q s) (hs : s.Step h jobs s') : Reaches h jobs q₀ s₀ es q s'

/-- Gives turns as a schedule says, to the action in the foreground or to the task of a number; tasks
are taken in before each turn. Nothing if one of them has to wait. -/
def Suspended.follow (h : Host σ) (jobs : Job → Call Unit) :
    List (Option Nat) → Suspended α → Runtime σ → Option (List Event × Suspended α × Runtime σ)
  | [], q, s => some ([], q, s)
  | none :: rest, q, s => do
    let t ← q.turn h jobs (s.gather jobs)
    let (es, r) ← t.next.follow h jobs rest t.runtime
    return (t.events ++ es, r)
  | some i :: rest, q, s => do
    let s ← (s.gather jobs).turn h jobs i
    q.follow h jobs rest s

end BoundSql
