import BoundSql.Proofs.Effect.Sequence

namespace BoundSql

mutual

/-- Whether a step leaves everything to bound calls and to the sessions they hand out. -/
def Step.isBound : Step → Bool
  | .attempt s => s.isBound
  | .connection _ _ steps _ | .transaction _ _ steps _ => Step.allBound steps
  | .thread _ | .task _ | .cancel _ _ | .lease _ _ | .release _ _ | .direct _ _ => false
  | _ => true

def Step.allBound : List Step → Bool
  | [] => true
  | s :: rest => s.isBound && Step.allBound rest

end

def Operation.isStatement : Operation → Bool
  | .execute _ _ _ | .query _ _ _ => true
  | _ => false

def Operation.isLoose : Operation → Bool
  | .fetch _ _ _ | .close _ _ | .instruct _ | .idle _ | .inTransaction _ => true
  | _ => false

def Operation.isRead : Operation → Bool
  | .fetch _ _ _ | .close _ _ => true
  | _ => false

theorem Operation.isLoose_of_isRead {o : Operation} (ho : o.isRead) : o.isLoose := by
  cases o <;> first | rfl | cases ho

namespace Event

def leases (c : Nat) : Event → Bool
  | .operation (.lease _) d .done => d == c
  | _ => false

def releases (c : Nat) : Event → Bool
  | .operation (.release _ _) d _ => d == c
  | _ => false

def ends (c : Nat) : Event → Bool
  | .operation (.commit _) d _ => d == c
  | .operation (.rollback _) d _ => d == c
  | .operation (.release _ _) d _ => d == c
  | _ => false

def isRead : Event → Bool
  | .operation o _ _ => o.isRead
  | _ => false

theorem of_isRead {e : Event} (he : e.isRead) (c : Nat) :
    e.leases c = false ∧ e.releases c = false ∧ e.ends c = false := by
  match e with
  | .operation o d s => cases o <;> first | exact ⟨rfl, rfl, rfl⟩ | cases he
  | .autocommit _ _ | .reentered _ => cases he

end Event

namespace Memory

def leasesOf (m : Memory) (c : Nat) : Nat := m.trace.countP (Event.leases c)

def releasesOf (m : Memory) (c : Nat) : Nat := m.trace.countP (Event.releases c)

def endsOf (m : Memory) (c : Nat) : List Event := (m.trace.filter (Event.ends c)).reverse

def logAll (es : List Event) (m : Memory) : Memory := { m with trace := es.reverse ++ m.trace }

@[simp] theorem logAll_nil (m : Memory) : m.logAll [] = m := rfl

theorem logAll_append (es es' : List Event) (m : Memory) :
    m.logAll (es ++ es') = (m.logAll es).logAll es' := by
  simp [logAll]

theorem log_eq_logAll (e : Event) (m : Memory) : m.log e = m.logAll [e] := rfl

section

variable (o : Operation) (n : Nat) (s : Status) (m : Memory)

@[simp] theorem register_held : (m.register o n s).held = m.held := by cases o <;> rfl

@[simp] theorem register_busy : (m.register o n s).busy = m.busy := by cases o <;> rfl

@[simp] theorem register_active : (m.register o n s).active = m.active := by cases o <;> rfl

theorem register_trace : (m.register o n s).trace =
    (if o.site?.isSome then [.operation o (o.connection?.getD n) s] else []) ++ m.trace := by
  cases o <;> rfl

@[simp] theorem register_desk : (m.register o n s).desk = m.desk := by cases o <;> rfl

end

end Memory

variable {σ : Type} {h : Host σ} {cb : Callback σ} {w : World σ} {o : Operation} {c : Nat}

namespace Host

/-- Steps run in statements only, what misbehaves does not succeed, and rolling back does not
panic. -/
structure Lawful (h : Host σ) : Prop where
  step : ∀ m o n s step, (h.answer m o n s).1.callback = some step → step.isBound
  callback : ∀ m (o : Operation) n s, o.isStatement = false → (h.answer m o n s).1.callback = none
  fault : ∀ m o n s, (h.answer m o n s).1.fault.isSome →
    Outcome.isOk (h.answer m o n s).1.outcome = false
  rollback : ∀ m c n s, Outcome.isPanic (h.answer m (.rollback c) n s).1.outcome = false

def reaction (h : Host σ) (o : Operation) (w : World σ) : Reaction o :=
  (h.answer w.memory o (o.number w.memory) w.host).1

def act (h : Host σ) (o : Operation) (w : World σ) : Outcome o.Answer × World σ :=
  ((h.reaction o w).outcome.map (o.complete (o.number w.memory)),
    ⟨w.memory.register o (o.number w.memory) (h.reaction o w).status,
      (h.answer w.memory o (o.number w.memory) w.host).2⟩)

def interrupted (h : Host σ) (o : Operation) (c : Nat) (w : World σ) : World σ :=
  { (h.act o w).2 with
    memory := { (h.act o w).2.memory with busy := c :: (h.act o w).2.memory.busy } }

def resumed (c : Nat) (r : Record × World σ) : World σ :=
  { r.2 with memory := ({ r.2.memory with busy := r.2.memory.busy.erase c }).reentered r.1 }

@[simp] theorem act_memory (h : Host σ) (o : Operation) (w : World σ) :
    (h.act o w).2.memory = w.memory.register o (o.number w.memory) (h.reaction o w).status := rfl

theorem perform_of_callback (hr : (h.reaction o w).callback = none) :
    h.perform cb o w = h.act o w := by
  obtain ⟨answer⟩ := h
  unfold reaction at hr
  unfold perform act reaction
  dsimp only at hr ⊢
  generalize answer w.memory o (o.number w.memory) w.host = r at hr ⊢
  obtain ⟨⟨outcome, fault, callback⟩, host⟩ := r
  cases hr
  rfl

theorem perform_of_step {s : Step} (hr : (h.reaction o w).callback = some s)
    (hc : o.connection? = some c) :
    (h.perform cb o w).2 = resumed c (cb s (h.interrupted o c w)) := by
  obtain ⟨answer⟩ := h
  unfold reaction at hr
  unfold perform interrupted act resumed reaction
  dsimp only at hr ⊢
  generalize answer w.memory o (o.number w.memory) w.host = r at hr ⊢
  obtain ⟨⟨outcome, fault, callback⟩, host⟩ := r
  cases hr
  simp only [hc]

theorem Lawful.perform_eq (hl : h.Lawful) (ho : o.isStatement = false) :
    h.perform cb o w = h.act o w :=
  perform_of_callback (hl.callback _ _ _ _ ho)

theorem Lawful.isOk_iff (hl : h.Lawful) :
    Outcome.isOk (h.act o w).1 ↔ (h.reaction o w).status = .done := by
  have hf := hl.fault w.memory o (o.number w.memory) w.host
  unfold act Reaction.status
  change _ → Outcome.isOk (h.reaction o w).outcome = false at hf
  rcases hr : h.reaction o w with ⟨_ | _, _ | fault, cb⟩ <;>
    simp_all [Outcome.isOk, Except.map, reaction]

end Host

end BoundSql
