import BoundSql.Proofs.Effect.Sequence

namespace BoundSql

variable {σ α β : Type}

def Outcome.fault? : Outcome α → Option Fault
  | .ok _ => none
  | .error f => some f

structure Deed where
  operation : Operation
  fault : Option Fault

/-- The operations that an action asks for itself. What the steps of a statement do is not among
them. -/
def Action.deeds (h : Host σ) (cb : Callback σ) : Action α → World σ → List Deed
  | .done _, _ => []
  | .memory f k, w => (k w.memory).deeds h cb { w with memory := f w.memory }
  | .operation o _ k, w =>
    ⟨o, (h.perform cb o w).1.fault?⟩ :: (k (h.perform cb o w).1).deeds h cb (h.perform cb o w).2
  | .wait .idle _ k, w | .wait (.access _) _ k, w => (k (.ok ())).deeds h cb w
  | .wait (.task _) _ k, w => (k (.error (.panic "no task can be started here"))).deeds h cb w

structure Account (σ α : Type) where
  deeds : List Deed
  outcome : Outcome α
  world : World σ

namespace Account

def after (ds : List Deed) (t : Account σ α) : Account σ α := { t with deeds := ds ++ t.deeds }

def andThen (t : Account σ α) (k : α → World σ → Account σ β) : Account σ β :=
  match t.outcome with
  | .ok a => (k a t.world).after t.deeds
  | .error f => ⟨t.deeds, .error f, t.world⟩

variable {ds : List Deed} {w : World σ} {k : α → World σ → Account σ β}

@[simp] theorem after_mk (ds ds' : List Deed) (r : Outcome α) (w : World σ) :
    (⟨ds', r, w⟩ : Account σ α).after ds = ⟨ds ++ ds', r, w⟩ := rfl

@[simp] theorem after_outcome (t : Account σ α) (ds : List Deed) :
    (t.after ds).outcome = t.outcome := rfl

@[simp] theorem after_deeds (t : Account σ α) (ds : List Deed) :
    (t.after ds).deeds = ds ++ t.deeds := rfl

@[simp] theorem after_nil (t : Account σ α) : t.after [] = t := rfl

@[simp] theorem after_after (t : Account σ α) (ds ds' : List Deed) :
    (t.after ds).after ds' = t.after (ds' ++ ds) := by
  simp [after]

@[simp] theorem andThen_ok (a : α) : andThen ⟨ds, .ok a, w⟩ k = (k a w).after ds := rfl

@[simp] theorem andThen_error (f : Fault) : andThen ⟨ds, .error f, w⟩ k = ⟨ds, .error f, w⟩ := rfl

theorem andThen_andThen {γ : Type} (t : Account σ α) (k' : β → World σ → Account σ γ) :
    (t.andThen k).andThen k' = t.andThen fun a w ↦ (k a w).andThen k' := by
  obtain ⟨ds, f | a, w⟩ := t
  · rfl
  · simp only [andThen_ok]
    obtain ⟨ds', f | b, w'⟩ := k a w <;> simp

theorem of_andThen_ok {t : Account σ α} {b : β} (ht : (t.andThen k).outcome = .ok b) :
    ∃ a, t.outcome = .ok a ∧ (k a t.world).outcome = .ok b := by
  obtain ⟨ds, f | a, w⟩ := t
  · cases ht
  · exact ⟨a, rfl, ht⟩

@[simp] theorem andThen_after (t : Account σ α) (ds : List Deed) :
    (t.after ds).andThen k = (t.andThen k).after ds := by
  obtain ⟨ds', r, w⟩ := t
  cases r <;> simp

end Account

variable {h : Host σ} {cb : Callback σ} {w : World σ}

namespace Action

@[simp] theorem deeds_pure (a : α) : (pure a : Action α).deeds h cb w = [] := rfl

theorem deeds_bind (p : Action α) (f : α → Action β) (w : World σ) :
    (p >>= f).deeds h cb w = p.deeds h cb w ++
      (f (p.runInSequence h cb w).1).deeds h cb (p.runInSequence h cb w).2 := by
  change (p.bind f).deeds h cb w = _
  induction p generalizing w with
  | done a => rfl
  | memory g k ih => exact ih _ _
  | operation o js k ih => exact congrArg (_ :: ·) (ih _ _)
  | wait t js k ih =>
    cases t with
    | task j => exact ih _ _
    | idle => exact ih _ _
    | access c => exact ih _ _

end Action

namespace Call

def account (h : Host σ) (cb : Callback σ) (p : Call α) (w : World σ) : Account σ α :=
  ⟨p.run.deeds h cb w, (exec h cb p w).1, (exec h cb p w).2⟩

@[simp] theorem account_mk_done (r : Outcome α) :
    account h cb (ExceptT.mk (.done r)) w = ⟨[], r, w⟩ := rfl

@[simp] theorem account_pure (a : α) : account h cb (pure a) w = ⟨[], .ok a, w⟩ := rfl

@[simp] theorem account_throw (f : Fault) :
    account h cb (throw f : Call α) w = ⟨[], .error f, w⟩ := rfl

@[simp] theorem account_fail (e : Error) :
    account h cb (fail e : Call α) w = ⟨[], .error (.error e), w⟩ := rfl

@[simp] theorem account_ofResult (r : Except Error α) :
    account h cb (ofResult r) w = ⟨[], Outcome.ofResult r, w⟩ := rfl

@[simp] theorem account_read : account h cb read w = ⟨[], .ok w.memory, w⟩ := rfl

@[simp] theorem account_modify (f : Memory → Memory) :
    account h cb (modify f) w = ⟨[], .ok (), { w with memory := f w.memory }⟩ := rfl

@[simp] theorem account_operate (o : Operation) : account h cb (operate o) w =
    ⟨[⟨o, (h.perform cb o w).1.fault?⟩], (h.perform cb o w).1, (h.perform cb o w).2⟩ := rfl

theorem account_lift (p : Action α) : account h cb (ExceptT.lift p) w =
    ⟨p.deeds h cb w, .ok (p.runInSequence h cb w).1, (p.runInSequence h cb w).2⟩ := by
  have hd : (ExceptT.lift p : Call α).run.deeds h cb w = _ :=
    Action.deeds_bind p (fun a ↦ (pure (.ok a) : Action (Outcome α))) w
  rw [account, hd, exec_lift, Action.deeds_pure, List.append_nil]

@[simp] theorem account_lift_pure (a : α) :
    account h cb (ExceptT.lift (pure a)) w = ⟨[], .ok a, w⟩ := rfl

theorem account_bind (p : Call α) (k : α → Call β) (w : World σ) :
    account h cb (p >>= k) w = (account h cb p w).andThen fun a w ↦ account h cb (k a) w := by
  have hd : (p >>= k).run.deeds h cb w = _ := Action.deeds_bind p.run (ExceptT.bindCont k) w
  have hr : p.run.runInSequence h cb w = exec h cb p w := rfl
  rw [account, hd, exec_bind, hr]
  unfold account
  rcases exec h cb p w with ⟨f | a, w'⟩
  · simp [ExceptT.bindCont]
  · rfl

@[simp] theorem account_outcome (p : Call α) : account h cb p.outcome w =
    ⟨(account h cb p w).deeds, .ok (account h cb p w).outcome, (account h cb p w).world⟩ := by
  have hd : p.outcome.run.deeds h cb w = _ :=
    Action.deeds_bind p.run (fun r ↦ (pure (.ok r) : Action (Outcome (Outcome α)))) w
  rw [account, hd, exec_outcome, Action.deeds_pure, List.append_nil]
  rfl

theorem account_lift_bind (p : Action α) (f : α → Action β) (w : World σ) :
    account h cb (ExceptT.lift (p >>= f)) w =
      (account h cb (ExceptT.lift p) w).andThen fun a w ↦ account h cb (ExceptT.lift (f a)) w := by
  simp only [account_lift, Action.deeds_bind, Action.runInSequence_bind]
  rfl

theorem account_lift_run_bind (p : Call α) (f : Outcome α → Action β) (w : World σ) :
    account h cb (ExceptT.lift (p.run >>= f)) w =
      (account h cb (ExceptT.lift (f (account h cb p w).outcome)) (account h cb p w).world).after
        (account h cb p w).deeds := by
  rw [account_lift, account_lift, Action.deeds_bind, Action.runInSequence_bind]
  rfl

theorem account_outcome_bind (p : Call α) (k : Outcome α → Call β) (w : World σ) :
    account h cb (p.outcome >>= k) w =
      (account h cb (k (account h cb p w).outcome) (account h cb p w).world).after
        (account h cb p w).deeds := by
  rw [account_bind, account_outcome, Account.andThen_ok]

end Call

def Account.caught : Account σ α → Account σ (Except Error α)
  | ⟨ds, .ok a, w⟩ => ⟨ds, .ok (.ok a), w⟩
  | ⟨ds, .error (.error e), w⟩ => ⟨ds, .ok (.error e), w⟩
  | ⟨ds, .error (.panic m), w⟩ => ⟨ds, .error (.panic m), w⟩

theorem Call.account_caught (p : Call α) (w : World σ) :
    account h cb (Blocking.caught p) w = (account h cb p w).caught := by
  unfold Blocking.caught
  rw [account_outcome_bind]
  rcases account h cb p w with ⟨ds, (e | m) | a, w'⟩ <;> simp [Account.caught]

end BoundSql
