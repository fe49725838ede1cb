import BoundSql.Bound.Blocking
import BoundSql.Effect.Sequence

namespace BoundSql

variable {σ α β : Type}

abbrev Callback (σ : Type) := Step → World σ → Record × World σ

variable {h : Host σ} {cb : Callback σ} {w : World σ}

namespace Action

@[simp] theorem runInSequence_done (a : α) : (done a).runInSequence h cb w = (a, w) := rfl

@[simp] theorem runInSequence_pure (a : α) :
    (pure a : Action α).runInSequence h cb w = (a, w) := rfl

theorem runInSequence_bind (p : Action α) (f : α → Action β) (w : World σ) :
    (p >>= f).runInSequence h cb w =
      (f (p.runInSequence h cb w).1).runInSequence h cb (p.runInSequence h cb w).2 := by
  change (p.bind f).runInSequence h cb w = _
  induction p generalizing w with
  | done a => rfl
  | memory g k ih => exact ih _ _
  | operation o js k ih => exact ih _ _
  | wait t js k ih =>
    cases t with
    | task j => exact ih _ _
    | idle => exact ih _ _
    | access c => exact ih _ _

end Action

namespace Call

def exec (h : Host σ) (cb : Callback σ) (p : Call α) (w : World σ) : Outcome α × World σ :=
  p.run.runInSequence h cb w

@[simp] theorem exec_pure (a : α) : exec h cb (pure a) w = (.ok a, w) := rfl

@[simp] theorem exec_throw (f : Fault) : exec h cb (throw f : Call α) w = (.error f, w) := rfl

@[simp] theorem exec_fail (e : Error) : exec h cb (fail e : Call α) w = (.error (.error e), w) := rfl

@[simp] theorem exec_ofResult (r : Except Error α) :
    exec h cb (ofResult r) w = (Outcome.ofResult r, w) := rfl

theorem exec_bind (p : Call α) (k : α → Call β) :
    exec h cb (p >>= k) w =
      match exec h cb p w with
      | (.ok a, w) => exec h cb (k a) w
      | (.error f, w) => (.error f, w) := by
  change (p.run >>= ExceptT.bindCont k).runInSequence h cb w = _
  rw [Action.runInSequence_bind]
  unfold exec
  rcases p.run.runInSequence h cb w with ⟨r, w⟩
  cases r <;> rfl

@[simp] theorem exec_read : exec h cb read w = (.ok w.memory, w) := rfl

@[simp] theorem exec_modify (f : Memory → Memory) :
    exec h cb (modify f) w = (.ok (), { w with memory := f w.memory }) := rfl

@[simp] theorem exec_operate (o : Operation) : exec h cb (operate o) w = h.perform cb o w := rfl

@[simp] theorem exec_outcome (p : Call α) :
    exec h cb p.outcome w = (.ok (exec h cb p w).1, (exec h cb p w).2) := by
  unfold exec outcome
  change (p.run >>= fun r ↦ (pure (.ok r) : Action (Outcome (Outcome α)))).runInSequence h cb w = _
  rw [Action.runInSequence_bind]
  rfl

@[simp] theorem exec_lift (p : Action α) :
    exec h cb (ExceptT.lift p) w =
      (.ok (p.runInSequence h cb w).1, (p.runInSequence h cb w).2) := by
  change (p >>= fun a ↦ (pure (.ok a) : Action (Outcome α))).runInSequence h cb w = _
  rw [Action.runInSequence_bind]
  rfl

@[simp] theorem exec_mk_done (r : Outcome α) :
    exec h cb (ExceptT.mk (.done r)) w = (r, w) := rfl

@[simp] theorem exec_wait_idle : exec h cb (wait .idle) w = (.ok (), w) := rfl

theorem exec_ite (c : Prop) [Decidable c] (p q : Call α) :
    exec h cb (if c then p else q) w = if c then exec h cb p w else exec h cb q w := by
  split <;> rfl

theorem exec_caught (p : Call α) :
    exec h cb (Blocking.caught p) w =
      match exec h cb p w with
      | (.ok a, w) => (.ok (.ok a), w)
      | (.error (.error e), w) => (.ok (.error e), w)
      | (.error (.panic m), w) => (.error (.panic m), w) := by
  unfold Blocking.caught
  rw [exec_bind, exec_outcome]
  rcases exec h cb p w with ⟨r, w⟩
  rcases r with (_ | _) | _ <;> rfl

theorem exec_caught_cases (h : Host σ) (cb : Callback σ) (p : Call α) (w : World σ) :
    (∃ m, exec h cb (Blocking.caught p) w = (.error (.panic m), (exec h cb p w).2)) ∨
      ∃ r, exec h cb (Blocking.caught p) w = (.ok r, (exec h cb p w).2) := by
  rw [exec_caught]
  rcases exec h cb p w with ⟨(err | m) | a, w⟩
  · exact .inr ⟨_, rfl⟩
  · exact .inl ⟨_, rfl⟩
  · exact .inr ⟨_, rfl⟩

theorem exec_bind_cases {P : World σ → Prop} {Q : Outcome β × World σ → Prop} {p : Call α}
    {k : α → Call β} (hp : P (exec h cb p w).2) (he : ∀ f w, P w → Q (.error f, w))
    (hk : ∀ a w, P w → Q (exec h cb (k a) w)) : Q (exec h cb (p >>= k) w) := by
  rw [exec_bind]
  rcases hr : exec h cb p w with ⟨f | a, w'⟩
  all_goals rw [hr] at hp
  · exact he f w' hp
  · exact hk a w' hp

theorem snd_exec_bind {p : Call α} {k : α → Call β} (hk : ∀ a w, (exec h cb (k a) w).2 = w) :
    (exec h cb (p >>= k) w).2 = (exec h cb p w).2 := by
  rw [exec_bind]
  rcases exec h cb p w with ⟨_ | a, w⟩
  · rfl
  · exact hk a w

end Call

end BoundSql
