import BoundSql.Effect.Host

namespace BoundSql

variable {σ α : Type}

namespace Action

/-- Runs an action. Nothing is ever in the background, so waiting for that is over at once, and
locks are free. -/
def runInSequence (h : Host σ) (callback : Step → World σ → Record × World σ) :
    Action α → World σ → α × World σ
  | done a, w => (a, w)
  | memory f k, w => (k w.memory).runInSequence h callback { w with memory := f w.memory }
  | operation o _ k, w =>
    let (r, w) := h.perform callback o w
    (k r).runInSequence h callback w
  | wait .idle _ k, w => (k (.ok ())).runInSequence h callback w
  | wait (.access _) _ k, w => (k (.ok ())).runInSequence h callback w
  | wait (.task _) _ k, w =>
    (k (.error (.panic "no task can be started here"))).runInSequence h callback w

end Action

/-- Runs the step of a statement; statements of that step may run steps again, `depth` deep. -/
def Host.reenter (h : Host σ) (run : Step → Action Record) :
    Nat → Step → World σ → Record × World σ
  | 0, _, w => (.step (.ok .unit) [] [] none, w)
  | depth + 1, s, w => (run s).runInSequence h (h.reenter run depth) w

end BoundSql
