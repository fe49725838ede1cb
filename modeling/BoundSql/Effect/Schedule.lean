import BoundSql.Effect.Host

namespace BoundSql

variable {σ α : Type}

inductive Pause (α : Type)
  | done (a : α)
  | waiting (w : Wait) (k : Outcome Unit → Action α)
  | caught (rest : Action α)

def Memory.catches (m : Memory) (o : Operation) : Bool :=
  m.gate.any fun g ↦ !g.caught && o.site? == some g.site

namespace Action

def advance (h : Host σ) (callback : Step → World σ → Record × World σ) :
    Action α → World σ → Pause α × World σ
  | done a, w => (.done a, w)
  | memory f k, w => (k w.memory).advance h callback { w with memory := f w.memory }
  | operation o js k, w =>
    if w.memory.catches o then
      let gate := w.memory.gate.map fun g ↦ { g with caught := true }
      (.caught (.operation o js k), { w with memory := { w.memory with gate } })
    else
      let (r, w) := h.perform callback o w
      (k r).advance h callback w
  | wait (.access _) _ k, w => (k (.ok ())).advance h callback w
  | wait t _ k, w => (.waiting t k, w)

end Action

structure Task where
  id : Nat
  rest : Action (Outcome Unit)

/-- A background task that waits for another one, or for all others. -/
structure Waiter where
  id : Nat
  on : Option Nat
  resume : Outcome Unit → Action (Outcome Unit)

structure Background where
  ready : List Task := []
  waiting : List Waiter := []
  caught : Option Task := none
  ended : List (Nat × Outcome Unit) := []
  count : Nat := 0

namespace Background

def spawn (rest : Action (Outcome Unit)) (b : Background) : Background :=
  { b with ready := b.ready ++ [⟨b.count, rest⟩], count := b.count + 1 }

/-- Takes in the tasks that were started, and lets a caught one go once the gate is gone. -/
def takeIn (jobs : Job → Call Unit) (w : World σ) (b : Background) : Background × World σ :=
  let b := w.memory.started.foldl (fun b j ↦ b.spawn (jobs j).run) b
  let b := match b.caught, w.memory.gate with
    | some t, none => { b with ready := b.ready ++ [t], caught := none }
    | _, _ => b
  (b, { w with memory := { w.memory with started := [] } })

def finish (id : Nat) (r : Outcome Unit) (b : Background) : Background :=
  let (woken, waiting) := b.waiting.partition fun t ↦ t.on == some id
  { b with
    ready := b.ready ++ woken.map fun t ↦ ⟨t.id, t.resume r⟩
    waiting
    ended := (id, r) :: b.ended }

def file (jobs : Job → Call Unit) (id : Nat) (b : Background) : Pause (Outcome Unit) → Background
  | .done r => b.finish id r
  | .caught rest => { b with caught := some ⟨id, rest⟩ }
  | .waiting (.task j) resume =>
    let on := b.count
    let b := b.spawn (jobs j).run
    { b with waiting := b.waiting ++ [⟨id, some on, resume⟩] }
  | .waiting _ resume => { b with waiting := b.waiting ++ [⟨id, none, resume⟩] }

def wakeIdle (b : Background) : Option Background :=
  match b.waiting.find? fun t ↦ t.on.isNone with
  | some t => some
      { b with
        ready := [⟨t.id, t.resume (.ok ())⟩]
        waiting := b.waiting.filter fun u ↦ u.id != t.id }
  | none => none

/-- Gives turns until no task can go on; nothing if the fuel does not last. -/
def drain (h : Host σ) (callback : Step → World σ → Record × World σ) (jobs : Job → Call Unit) :
    Nat → Background → World σ → Option (Background × World σ)
  | 0, _, _ => none
  | fuel + 1, b, w =>
    let (b, w) := b.takeIn jobs w
    match b.ready with
    | t :: ready =>
      let (p, w) := t.rest.advance h callback w
      let (b, w) := takeIn jobs w { b with ready }
      drain h callback jobs fuel (b.file jobs t.id p) w
    | [] =>
      match b.wakeIdle with
      | some b => drain h callback jobs fuel b w
      | none => some (b, w)

end Background

def Action.runScheduled (h : Host σ) (jobs : Job → Call Unit) (fuel : Nat) :
    Action α → Background → World σ → Option (α × World σ)
  | done a, _, w => some (a, w)
  | memory f k, b, w => (k w.memory).runScheduled h jobs fuel b { w with memory := f w.memory }
  | operation o _ k, b, w =>
    let (r, w) := h.perform (fun _ w ↦ (.step (.ok .unit) [] [] none, w)) o w
    (k r).runScheduled h jobs fuel b w
  | wait (.access _) _ k, b, w => (k (.ok ())).runScheduled h jobs fuel b w
  | wait t _ k, b, w =>
    let (b, w) := b.takeIn jobs w
    let (on, b) := match t with
      | .task j => (some b.count, b.spawn (jobs j).run)
      | _ => (none, b)
    match b.drain h (fun _ w ↦ (.step (.ok .unit) [] [] none, w)) jobs fuel w with
    | none => none
    | some (b, w) =>
      let ended := on.bind fun id ↦ b.ended.lookup id
      let gate := w.memory.gate.map fun g ↦ { g with holds := g.caught && ended.isNone }
      (k (ended.getD (.ok ()))).runScheduled h jobs fuel b
        { w with memory := { w.memory with gate } }

end BoundSql
