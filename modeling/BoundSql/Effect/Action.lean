import BoundSql.Effect.Memory

namespace BoundSql

inductive Wait
  | task (j : Job)
  | idle
  | access (connection : Nat)

def Wait.jobs : Wait → List Job
  | task j => [j]
  | idle | access _ => []

inductive Action (α : Type) : Type
  | done (a : α)
  | memory (f : Memory → Memory) (k : Memory → Action α)
  | operation (o : Operation) (orphans : List Job) (k : Outcome o.Answer → Action α)
  | wait (w : Wait) (orphans : List Job) (k : Outcome Unit → Action α)

namespace Action

variable {α β : Type}

protected def bind (p : Action α) (f : α → Action β) : Action β :=
  match p with
  | done a => f a
  | memory g k => memory g fun m ↦ (k m).bind f
  | operation o js k => operation o js fun r ↦ (k r).bind f
  | wait w js k => wait w js fun r ↦ (k r).bind f

instance : Monad Action where
  pure := done
  bind := Action.bind

def read : Action Memory := memory id done

def modify (f : Memory → Memory) : Action Unit := memory f fun _ ↦ done ()

def start (j : Job) : Action Unit := modify (Memory.start j)

def drain : Action (List Event) := memory Memory.drain fun m ↦ done m.fresh

def orphaning (j : Job) : Action α → Action α
  | done a => done a
  | memory g k => memory g fun m ↦ (k m).orphaning j
  | operation o js k => operation o (js ++ [j]) fun r ↦ (k r).orphaning j
  | wait w js k => wait w (js ++ [j]) fun r ↦ (k r).orphaning j

/-- Runs an action that is dropped at its first operation of the given kind. Where a background task
has reached one instead, the action is dropped when it cannot go on for that, or waits again. Gives
nothing if it was dropped. -/
def untilCaught (site : Site) : Action α → Action (Option α)
  | done a => done (some a)
  | memory g k => memory g fun m ↦ (k m).untilCaught site
  | operation o js k =>
    memory id fun m ↦
      if m.gate.any (fun g ↦ !g.caught) && o.site? == some site then abandoned js
      else operation o js fun r ↦ (k r).untilCaught site
  | wait (.access c) js k => wait (.access c) js fun r ↦ (k r).untilCaught site
  | wait w js k =>
    memory id fun m ↦
      if m.gate.any Gate.caught then abandoned (w.jobs ++ js)
      else wait w js fun r ↦ memory id fun m ↦
        if m.gate.any Gate.holds then abandoned js else (k r).untilCaught site
where
  abandoned {γ : Type} (js : List Job) : Action (Option γ) :=
    memory (fun m ↦ { js.foldl (fun m j ↦ m.start j) m with gate := none }) fun _ ↦ done none

end Action

abbrev Call := ExceptT Fault Action

namespace Call

variable {α : Type}

def operate (o : Operation) : Call o.Answer := ExceptT.mk (.operation o [] .done)

def wait (w : Wait) : Call Unit := ExceptT.mk (.wait w [] .done)

def fail (e : Error) : Call α := throw (.error e)

def ofOutcome (r : Outcome α) : Call α := ExceptT.mk (.done r)

def ofResult (r : Except Error α) : Call α := ofOutcome (Outcome.ofResult r)

/-- How a call ends, as a value. -/
def outcome (p : Call α) : Call (Outcome α) := ExceptT.mk do return .ok (← p.run)

def modify (f : Memory → Memory) : Call Unit := ExceptT.lift (Action.modify f)

def read : Call Memory := ExceptT.lift Action.read

end Call

end BoundSql
