import BoundSql.Effect.Schedule
import BoundSql.Effect.Sequence
import BoundSql.Program.Run

namespace BoundSql

variable {σ : Type}

def Job.run (x : Context) : Job → Call Unit
  | close connection cursor => Call.operate (.close connection cursor)
  | abandon pool connection => Async.endAbandoned pool connection
  | abandonStream pool connection cursor => Async.endAbandonedStream pool connection cursor
  | release pool connection => Call.operate (.release pool connection)
  | steps body todo => Step.runAll x body todo

namespace Program

def memory (tasks logged : Bool) : Memory := { tasks, logged }

/-- Runs a program without background tasks. Its depth bounds how deep statements run steps. -/
def runInSequence (h : Host σ) (s : σ) (mode : Mode) (logged : Bool) (steps : List Step) :
    List Record × World σ :=
  let callback := h.reenter (fun s ↦ do
    let x := { Context.start mode with thread := (← Action.read).desk.thread }
    return (← Step.recorded s fun body ↦ s.run x body).1) (Step.sizeAll steps)
  (run mode steps).runInSequence h callback ⟨memory false logged, s⟩

/-- Turns enough for all tasks of a program: each step starts a few for each scope around it. -/
def turns (steps : List Step) : Nat := 32 * (Step.sizeAll steps + 1) * (Step.sizeAll steps + 1)

def runScheduled (h : Host σ) (s : σ) (steps : List Step) : Option (List Record × World σ) :=
  (run .async steps).runScheduled h (Job.run (Context.start .async)) (turns steps) {}
    ⟨memory true true, s⟩

end Program

end BoundSql
