import BoundSql.Bound.Basic
import BoundSql.Proofs.Effect.Account
import BoundSql.Proofs.Effect.Interleaving

namespace BoundSql

variable {σ α : Type} {h : Host σ} {cb : Callback σ} {jobs : Job → Call Unit}

theorem Call.run_read_bind (k : Memory → Call α) :
    (Call.read >>= k).run = .memory id fun m ↦ (k m).run := rfl

namespace Bound

variable (f : Bound) (m : Memory) (args : Arguments)

def rendering : Outcome Template.Rendered :=
  match m.pools.lookup f.binder with
  | none => .error (.error .noPoolSet)
  | some p => ((f.template.render args).run.run p.marker.generator).1

variable {f m args} in
theorem isSome_pool_of_rendering {r : Template.Rendered} (hr : f.rendering m args = .ok r) :
    (m.pools.lookup f.binder).isSome := by
  rw [rendering] at hr
  cases hl : m.pools.lookup f.binder with
  | none =>
    rw [hl] at hr
    cases hr
  | some p => rfl

theorem run_render : (f.render args).run = .memory id fun m ↦ .done (f.rendering m args) := by
  change (marker f.binder).run.bind _ = _
  unfold marker
  rw [Call.run_read_bind]
  refine congrArg (Action.memory id) (funext fun m ↦ ?_)
  unfold rendering
  dsimp only
  cases m.pools.lookup f.binder <;> rfl

theorem exec_render (w : World σ) :
    Call.exec h cb (f.render args) w = (f.rendering w.memory args, w) := by
  rw [Call.exec, run_render]
  rfl

theorem account_render (w : World σ) :
    Call.account h cb (f.render args) w = ⟨[], f.rendering w.memory args, w⟩ := by
  rw [Call.account, exec_render, run_render]
  rfl

theorem proceed_render_bind (k : Template.Rendered → Call α) (s : Runtime σ) :
    (f.render args >>= k).run.proceed h jobs s =
      (match f.rendering s.memory args with
        | .ok r => (k r).run
        | .error e => .done (.error e)).proceed h jobs s := by
  have hrender : (f.render args).run.proceed h jobs s =
      { next := .done (f.rendering s.memory args), runtime := s } := by
    rw [run_render]
    rfl
  refine (Action.proceed_bind (f.render args).run _ s).trans ?_
  rw [hrender]
  cases f.rendering s.memory args <;> rfl

end Bound

end BoundSql
