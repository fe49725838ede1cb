import BoundSql.Effect.Interleaving
import BoundSql.Proofs.Effect.Trace

namespace BoundSql

variable {σ α β : Type}

structure Conduct where
  rely : Memory → Memory → Prop
  rely_trans : ∀ {m m' m''}, rely m m' → rely m' m'' → rely m m''
  calm : Memory → Memory → Prop
  calm_refl : ∀ m, calm m m
  /-- What it may ask for, after operations that left these events. -/
  asks : List Event → Memory → Operation → Prop
  answers : (o : Operation) → Outcome o.Answer → Prop
  leaves : Job → Prop
  spawns : Job → Prop
  /-- How it may change the memory if it waits for a task right after that. -/
  hands : Memory → Memory → Job → Prop

namespace Operation

def event (o : Operation) (m : Memory) (s : Status) : Event :=
  .operation o (o.connection?.getD (o.number m)) s

def Answers (o : Operation) (m : Memory) (s : Status) (r : Outcome o.Answer) : Prop :=
  (∃ raw : Outcome o.Raw, r = raw.map (o.complete (o.number m))) ∧ (Outcome.isOk r ↔ s = .done)

end Operation

def Wait.Answers : Wait → Outcome Unit → Prop
  | .task _, _ => True
  | _, r => r = .ok ()

def Conduct.Meets (C : Conduct) (o : Operation) (m m₁ : Memory) : Prop :=
  if o.isLocked then m₁ = m else C.rely m m₁

/-- The action keeps to the conduct from that memory on, after operations that left the events `l`,
and comes to `Q`. It may owe the wait for a task. -/
def Action.Obeys (C : Conduct) (Q : α → List Event → Memory → Prop) :
    Option Job → Action α → List Event → Memory → Prop
  | none, .done a, l, m => Q a l m
  | none, .memory f k, l, m =>
    C.calm m (f m) ∧ (k m).Obeys C Q none l (f m) ∨
      ∃ j, C.hands m (f m) j ∧ (k m).Obeys C Q (some j) l (f m)
  | none, .operation o js k, l, m =>
    (∀ j ∈ js, C.leaves j) ∧ ∀ m₁, C.Meets o m m₁ →
      C.asks l m₁ o ∧ ∀ s r m', o.Answers m₁ s r → C.answers o r →
        C.rely (m₁.register o (o.number m₁) s) m' →
          (k r).Obeys C Q none (l ++ [o.event m₁ s]) m'
  | none, .wait t js k, l, m =>
    (∀ j ∈ js, C.leaves j) ∧ (∀ j, t = .task j → C.spawns j) ∧
      ∀ r m', t.Answers r → C.rely m m' → (k r).Obeys C Q none l m'
  | some j, .wait t js k, l, m =>
    (∀ j ∈ js, C.leaves j) ∧ t = .task j ∧ ∀ r m', C.rely m m' → (k r).Obeys C Q none l m'
  | some _, _, _, _ => False

variable {C : Conduct} {Q : α → List Event → Memory → Prop} {l : List Event} {m : Memory}

theorem Conduct.meets_self {o : Operation} (hm : o.isLocked = false → C.rely m m) :
    C.Meets o m m := by
  unfold Meets
  split
  · rfl
  · exact hm (Bool.eq_false_iff.2 ‹_›)

namespace Action

@[simp]
theorem obeys_done {a : α} : (done a).Obeys C Q none l m ↔ Q a l m := Iff.rfl

@[simp]
theorem obeys_pure {a : α} : (pure a : Action α).Obeys C Q none l m ↔ Q a l m := Iff.rfl

theorem Obeys.exists_wait {p : Action α} {j : Job} (h : p.Obeys C Q (some j) l m) :
    ∃ js k, p = .wait (.task j) js k ∧ (∀ i ∈ js, C.leaves i) ∧
      ∀ r m', C.rely m m' → (k r).Obeys C Q none l m' := by
  cases p with
  | wait t js k =>
    obtain ⟨hjs, rfl, hk⟩ := h
    exact ⟨js, k, rfl, hjs, hk⟩
  | done _ | memory _ _ | operation _ _ _ => exact h.elim

theorem Obeys.bind {R : β → List Event → Memory → Prop} {p : Action α} {f : α → Action β}
    {j : Option Job} (h : p.Obeys C (fun a l m ↦ (f a).Obeys C R none l m) j l m) :
    (p >>= f).Obeys C R j l m := by
  change (p.bind f).Obeys C R j l m
  induction p generalizing j l m with
  | done a =>
    cases j with
    | none => exact h
    | some j => exact h.elim
  | memory g k ih =>
    cases j with
    | none =>
      obtain ⟨hc, hk⟩ | ⟨j, hj, hk⟩ := h
      · exact .inl ⟨hc, ih m hk⟩
      · exact .inr ⟨j, hj, ih m hk⟩
    | some j => exact h.elim
  | operation o js k ih =>
    cases j with
    | none =>
      refine ⟨h.1, fun m₁ hm ↦ ⟨(h.2 m₁ hm).1, fun s r m' hr ha hm' ↦ ?_⟩⟩
      exact ih r ((h.2 m₁ hm).2 s r m' hr ha hm')
    | some j => exact h.elim
  | wait t js k ih =>
    cases j with
    | none => exact ⟨h.1, h.2.1, fun r m' hr hm ↦ ih r (h.2.2 r m' hr hm)⟩
    | some j => exact ⟨h.1, h.2.1, fun r m' hm ↦ ih r (h.2.2 r m' hm)⟩

theorem Obeys.mono {R : α → List Event → Memory → Prop} {p : Action α} {j : Option Job}
    (h : p.Obeys C Q j l m) (hQ : ∀ a l m, Q a l m → R a l m) : p.Obeys C R j l m := by
  induction p generalizing j l m with
  | done a =>
    cases j with
    | none => exact hQ a l m h
    | some j => exact h.elim
  | memory g k ih =>
    cases j with
    | none =>
      obtain ⟨hc, hk⟩ | ⟨j, hj, hk⟩ := h
      · exact .inl ⟨hc, ih m hk⟩
      · exact .inr ⟨j, hj, ih m hk⟩
    | some j => exact h.elim
  | operation o js k ih =>
    cases j with
    | none =>
      refine ⟨h.1, fun m₁ hm ↦ ⟨(h.2 m₁ hm).1, fun s r m' hr ha hm' ↦ ?_⟩⟩
      exact ih r ((h.2 m₁ hm).2 s r m' hr ha hm')
    | some j => exact h.elim
  | wait t js k ih =>
    cases j with
    | none => exact ⟨h.1, h.2.1, fun r m' hr hm ↦ ih r (h.2.2 r m' hr hm)⟩
    | some j => exact ⟨h.1, h.2.1, fun r m' hm ↦ ih r (h.2.2 r m' hm)⟩

theorem Obeys.orphaning {p : Action α} {j : Option Job} {i : Job} (h : p.Obeys C Q j l m)
    (hi : C.leaves i) : (p.orphaning i).Obeys C Q j l m := by
  have hjs : ∀ js : List Job, (∀ j ∈ js, C.leaves j) → ∀ j ∈ js ++ [i], C.leaves j := by
    intro js h j hj
    obtain hj | hj := List.mem_append.1 hj
    · exact h j hj
    · rw [List.mem_singleton.1 hj]
      exact hi
  induction p generalizing j l m with
  | done a => exact h
  | memory g k ih =>
    cases j with
    | none =>
      obtain ⟨hc, hk⟩ | ⟨j, hj, hk⟩ := h
      · exact .inl ⟨hc, ih m hk⟩
      · exact .inr ⟨j, hj, ih m hk⟩
    | some j => exact h.elim
  | operation o js k ih =>
    cases j with
    | none =>
      refine ⟨hjs js h.1, fun m₁ hm ↦ ⟨(h.2 m₁ hm).1, fun s r m' hr ha hm' ↦ ?_⟩⟩
      exact ih r ((h.2 m₁ hm).2 s r m' hr ha hm')
    | some j => exact h.elim
  | wait t js k ih =>
    cases j with
    | none => exact ⟨hjs js h.1, h.2.1, fun r m' hr hm ↦ ih r (h.2.2 r m' hr hm)⟩
    | some j => exact ⟨hjs js h.1, h.2.1, fun r m' hm ↦ ih r (h.2.2 r m' hm)⟩

end Action

def Suspended.Obeys (C : Conduct) (Q : α → List Event → Memory → Prop) :
    Suspended α → List Event → Memory → Prop
  | done a, l, m => Q a l m
  | ready js p, l, m => (∀ j ∈ js, C.leaves j) ∧ ∀ m', C.rely m m' → p.Obeys C Q none l m'
  | asked o js k, l, m => o.isLocked = false ∧ (Action.operation o js k).Obeys C Q none l m
  | waiting _ js k, l, m =>
    (∀ j ∈ js, C.leaves j) ∧ ∀ r m', C.rely m m' → (k r).Obeys C Q none l m'

/-- Hosts that keep to what they say, and whose statements run no steps. -/
structure Host.Plain (h : Host σ) : Prop where
  callback : ∀ m o n s, (h.answer m o n s).1.callback = none
  fault : ∀ m o n s, (h.answer m o n s).1.fault.isSome →
    Outcome.isOk (h.answer m o n s).1.outcome = false

namespace Runtime

variable {h : Host σ} {o : Operation} {s : Runtime σ}

theorem perform_eq (hh : h.Plain) (o : Operation) (s : Runtime σ) :
    s.perform h o = ((h.act o s.world).1, { s with world := (h.act o s.world).2 }) := by
  unfold perform
  rw [Host.perform_of_callback (hh.callback _ _ _ _)]

theorem memory_perform (hh : h.Plain) (o : Operation) (s : Runtime σ) :
    (s.perform h o).2.memory =
      s.memory.register o (o.number s.memory) (h.reaction o s.world).status := by
  rw [perform_eq hh]
  rfl

theorem event_eq (h : Host σ) (o : Operation) (s : Runtime σ) :
    s.event h o = o.event s.memory (h.reaction o s.world).status := rfl

theorem answers_perform (hh : h.Plain) (o : Operation) (s : Runtime σ) :
    o.Answers s.memory (h.reaction o s.world).status (s.perform h o).1 := by
  rw [perform_eq hh]
  refine ⟨⟨_, rfl⟩, ?_⟩
  have hf : (h.reaction o s.world).fault.isSome → _ :=
    hh.fault s.memory o (o.number s.memory) s.world.host
  unfold Host.act Reaction.status
  change _ → Outcome.isOk (h.reaction o s.world).outcome = false at hf
  rcases hr : h.reaction o s.world with ⟨_ | _, _ | fault, cb⟩ <;>
    simp_all [Outcome.isOk, Except.map]

@[simp]
theorem memory_withMemory (m : Memory) (s : Runtime σ) : (s.withMemory m).memory = m := rfl

@[simp]
theorem tasks_withMemory (m : Memory) (s : Runtime σ) : (s.withMemory m).tasks = s.tasks := rfl

@[simp]
theorem memory_spawn (jobs : Job → Call Unit) (j : Job) (s : Runtime σ) :
    (s.spawn jobs j).memory = s.memory := rfl

@[simp]
theorem tasks_perform (h : Host σ) (o : Operation) (s : Runtime σ) :
    (s.perform h o).2.tasks = s.tasks := rfl

end Runtime

/-- What is kept by every step that the conduct allows, where `l` are the events of the action's
operations so far. -/
structure Conduct.Upholds (C : Conduct) (h : Host σ) (jobs : Job → Call Unit)
    (J : List Event → Runtime σ → Prop) : Prop where
  rely : ∀ {l s}, J l s → C.rely s.memory s.memory
  calm : ∀ {l s m}, J l s → C.calm s.memory m → J l (s.withMemory m)
  act : ∀ {l s o}, J l s → C.asks l s.memory o →
    C.answers o (s.perform h o).1 ∧ J (l ++ [s.event h o]) (s.perform h o).2
  spawn : ∀ {l s j}, J l s → C.spawns j → J l (s.spawn jobs j)
  hand : ∀ {l s m j}, J l s → C.hands s.memory m j → J l ((s.withMemory m).spawn jobs j)

structure Turn.Upholds (C : Conduct) (Q : α → List Event → Memory → Prop)
    (J : List Event → Runtime σ → Prop) (l : List Event) (t : Turn σ α) : Prop where
  next : t.next.Obeys C Q (l ++ t.events) t.runtime.memory
  kept : J (l ++ t.events) t.runtime

section

variable {h : Host σ} {jobs : Job → Call Unit} {J : List Event → Runtime σ → Prop} {s : Runtime σ}

theorem Action.Obeys.proceed (hh : h.Plain) (hu : C.Upholds h jobs J) {p : Action α}
    (hp : p.Obeys C Q none l s.memory) (hJ : J l s) :
    (p.proceed h jobs s).Upholds C Q J l := by
  induction p generalizing s with
  | done a => exact ⟨by simpa [Action.proceed, Suspended.Obeys] using hp,
      by simpa [Action.proceed] using hJ⟩
  | memory f k ih =>
    rw [Action.proceed]
    obtain ⟨hc, hk⟩ | ⟨j, hj, hk⟩ := hp
    · exact ih _ hk (hu.calm hJ hc)
    · -- The task that is owed starts in this turn.
      obtain ⟨js, k', hw, hjs, hk⟩ := hk.exists_wait
      rw [hw]
      exact ⟨by simpa [Action.proceed, Suspended.Obeys] using ⟨hjs, hk⟩,
        by simpa [Action.proceed] using hu.hand hJ hj⟩
  | operation o js k ih =>
    rw [Action.proceed]
    split
    · rename_i ho
      obtain ⟨hjs, hk⟩ := hp
      obtain ⟨ha, hk⟩ := hk _ (Conduct.meets_self fun hn ↦ absurd ho (by rw [hn]; simp))
      obtain ⟨hans, hJ'⟩ := hu.act hJ ha
      refine ⟨⟨hjs, fun m' hm ↦ ?_⟩, hJ'⟩
      rw [Runtime.memory_perform hh] at hm
      exact hk _ _ m' (Runtime.answers_perform hh o s) hans hm
    · rename_i ho
      exact ⟨⟨Bool.eq_false_iff.2 ho, by simpa using hp⟩, by simpa using hJ⟩
  | wait t js k ih =>
    obtain ⟨hjs, hl, hk⟩ := hp
    cases t with
    | task j =>
      exact ⟨by simpa [Action.proceed, Suspended.Obeys] using ⟨hjs, fun r m' hm ↦ hk r m' trivial hm⟩,
        by simpa [Action.proceed] using hu.spawn hJ (hl j rfl)⟩
    | idle =>
      exact ⟨by simpa [Action.proceed, Suspended.Obeys] using ⟨hjs, fun m' hm ↦ hk _ m' rfl hm⟩,
        by simpa [Action.proceed] using hJ⟩
    | access c =>
      exact ⟨by simpa [Action.proceed, Suspended.Obeys] using ⟨hjs, fun m' hm ↦ hk _ m' rfl hm⟩,
        by simpa [Action.proceed] using hJ⟩

theorem Turn.Upholds.after {es : List Event} {t : Turn σ α} (ht : t.Upholds C Q J (l ++ es)) :
    (t.after es).Upholds C Q J l :=
  ⟨by simpa [Turn.after] using ht.next, by simpa [Turn.after] using ht.kept⟩

theorem Suspended.Obeys.turn (hh : h.Plain) (hu : C.Upholds h jobs J) {q : Suspended α}
    (hq : q.Obeys C Q l s.memory) (hJ : J l s) {t : Turn σ α} (ht : q.turn h jobs s = some t) :
    t.Upholds C Q J l := by
  cases q with
  | done a => cases ht
  | ready js p =>
    cases ht
    exact (hq.2 _ (hu.rely hJ)).proceed hh hu hJ
  | asked o js k =>
    obtain ⟨ho, hjs, hk⟩ := hq
    obtain ⟨ha, hk⟩ := hk s.memory (Conduct.meets_self fun _ ↦ hu.rely hJ)
    obtain ⟨hans, hJ'⟩ := hu.act hJ ha
    have hnext : ∀ m', C.rely (s.perform h o).2.memory m' →
        (k (s.perform h o).1).Obeys C Q none (l ++ [s.event h o]) m' := by
      intro m' hm
      rw [Runtime.memory_perform hh] at hm
      exact hk _ _ m' (Runtime.answers_perform hh o s) hans hm
    unfold Suspended.turn at ht
    dsimp only at ht
    split at ht
    · cases ht
      exact ((hnext _ (hu.rely hJ')).proceed hh hu hJ').after
    · cases ht
      exact ⟨⟨hjs, hnext⟩, hJ'⟩
  | waiting i js k =>
    unfold Suspended.turn at ht
    dsimp only at ht
    split at ht
    · cases ht
      exact (hq.2 _ _ (hu.rely hJ)).proceed hh hu hJ
    · cases ht

end

/-- Whenever the action goes on, `I` holds, and it may read from cursors then. -/
structure Conduct.Steady (C : Conduct) (I : Memory → Prop) : Prop where
  resumes : ∀ m m', C.rely m m' → I m'
  reads : ∀ l m o, I m → o.isRead → C.asks l m o

/-- The action keeps to the conduct, and to `I` at its awaits and its end. -/
def Conduct.Keeps (C : Conduct) (I : Memory → Prop) (P : α → Prop) (p : Action α) : Prop :=
  ∀ l m, I m → p.Obeys C (fun a _ m ↦ I m ∧ P a) none l m

/-- A call that keeps to the conduct and to `I`, and gives what `P` says if it succeeds. -/
abbrev Conduct.Runs (C : Conduct) (I : Memory → Prop) (P : α → Prop) (p : Call α) : Prop :=
  C.Keeps I (fun r : Outcome α ↦ ∀ a, r = .ok a → P a) p.run

variable {I : Memory → Prop}

namespace Conduct.Keeps

variable {P : α → Prop} {P' : β → Prop} {p : Action α}

theorem done {a : α} (ha : P a) : C.Keeps I P (.done a) := fun _ _ hm ↦ ⟨hm, ha⟩

theorem bind {f : α → Action β} (hp : C.Keeps I P p) (hf : ∀ a, P a → C.Keeps I P' (f a)) :
    C.Keeps I P' (p >>= f) :=
  fun l m hm ↦ .bind ((hp l m hm).mono fun a l m ha ↦ hf a ha.2 l m ha.1)

theorem mono {P' : α → Prop} (hp : C.Keeps I P p) (hP : ∀ a, P a → P' a) : C.Keeps I P' p :=
  fun l m hm ↦ (hp l m hm).mono fun _ _ _ ha ↦ ⟨ha.1, hP _ ha.2⟩

theorem orphaning {j : Job} (hp : C.Keeps I P p) (hj : C.leaves j) :
    C.Keeps I P (p.orphaning j) :=
  fun l m hm ↦ (hp l m hm).orphaning hj

theorem memory {f : Memory → Memory} {k : Memory → α} (hf : ∀ m, I m → C.calm m (f m) ∧ I (f m))
    (hk : ∀ m, I m → P (k m)) : C.Keeps I P (.memory f fun m ↦ .done (k m)) :=
  fun _ m hm ↦ .inl ⟨(hf m hm).1, (hf m hm).2, hk m hm⟩

theorem start {j : Job} (hj : ∀ m, I m → C.calm m (m.start j) ∧ I (m.start j)) :
    C.Keeps I (fun _ ↦ True) (Action.start j) :=
  memory hj fun _ _ ↦ trivial

end Conduct.Keeps

namespace Conduct.Runs

variable {P : α → Prop} {P' : β → Prop} {p : Call α}

theorem ret {r : Outcome α} (hr : ∀ a, r = .ok a → P a) : C.Runs I P (ExceptT.mk (.done r)) :=
  .done hr

theorem pure {a : α} (ha : P a) : C.Runs I P (pure a : Call α) :=
  ret fun _ h ↦ by rw [← Except.ok.inj h]; exact ha

theorem throw (f : Fault) : C.Runs I P (throw f : Call α) := ret fun _ h ↦ by cases h

theorem fail (e : Error) : C.Runs I P (Call.fail e) := throw _

theorem bind {k : α → Call β} (hp : C.Runs I P p) (hk : ∀ a, P a → C.Runs I P' (k a)) :
    C.Runs I P' (p >>= k) := by
  refine Keeps.bind hp fun r hr ↦ ?_
  cases r with
  | ok a => exact hk a (hr a rfl)
  | error f => exact throw f

theorem mono {P' : α → Prop} (hp : C.Runs I P p) (hP : ∀ a, P a → P' a) : C.Runs I P' p :=
  Keeps.mono hp fun _ hr a ha ↦ hP a (hr a ha)

theorem outcome (hp : C.Runs I P p) :
    C.Runs I (fun r : Outcome α ↦ ∀ a, r = .ok a → P a) p.outcome :=
  Keeps.bind hp fun _ hr ↦ pure hr

theorem caught (hp : C.Runs I P p) :
    C.Runs I (fun r : Except Error α ↦ ∀ a, r = .ok a → P a) (Blocking.caught p) := by
  refine hp.outcome.bind fun r hr ↦ ?_
  rcases r with (e | s) | a
  · exact pure fun _ h ↦ by cases h
  · exact throw _
  · exact pure fun a h ↦ hr a (by rw [Except.ok.inj h])

theorem lift {p : Action α} (hp : C.Keeps I P p) : C.Runs I P (ExceptT.lift p : Call α) :=
  Keeps.bind hp fun _ ha ↦ pure ha

theorem read : C.Runs I I Call.read :=
  lift (Keeps.memory (fun m hm ↦ ⟨C.calm_refl m, hm⟩) fun _ hm ↦ hm)

theorem modify {f : Memory → Memory} (hf : ∀ m, I m → C.calm m (f m) ∧ I (f m)) :
    C.Runs I (fun _ ↦ True) (Call.modify f) :=
  lift (Keeps.memory hf fun _ _ ↦ trivial)

theorem wait (hI : ∀ m m', C.rely m m' → I m') {t : Wait} (ht : ∀ j, t = .task j → C.spawns j) :
    C.Runs I (fun _ ↦ True) (Call.wait t) :=
  fun _ _ _ ↦ ⟨by simp, ht, fun _ _ _ hm ↦ ⟨hI _ _ hm, fun _ _ ↦ trivial⟩⟩

theorem operate (hI : ∀ m m', C.rely m m' → I m') {o : Operation} {P : o.Answer → Prop}
    (ha : ∀ l m, I m → C.asks l m o)
    (hP : ∀ m s a, o.Answers m s (.ok a) → C.answers o (.ok a) → P a) :
    C.Runs I P (Call.operate o) := by
  refine fun l m hm ↦ ⟨by simp, fun m₁ hm₁ ↦ ⟨ha l m₁ ?_, fun s r m' hr hans hm' ↦ ?_⟩⟩
  · unfold Conduct.Meets at hm₁
    split at hm₁
    · rw [hm₁]
      exact hm
    · exact hI _ _ hm₁
  · exact ⟨hI _ _ hm', fun a h ↦ hP m₁ s a (h ▸ hr) (h ▸ hans)⟩

end Conduct.Runs

/-- The events of an action's own operations when it runs in sequence. -/
def Action.logged (h : Host σ) (cb : Callback σ) : Action α → World σ → List Event
  | .done _, _ => []
  | .memory f k, w => (k w.memory).logged h cb { w with memory := f w.memory }
  | .operation o _ k, w =>
    o.event w.memory (h.reaction o w).status ::
      (k (h.perform cb o w).1).logged h cb (h.perform cb o w).2
  | .wait .idle _ k, w | .wait (.access _) _ k, w => (k (.ok ())).logged h cb w
  | .wait (.task _) _ k, w =>
    (k (.error (.panic "no task can be started here"))).logged h cb w

theorem Host.Lawful.answers_perform {h : Host σ} (hl : h.Lawful) (cb : Callback σ) (o : Operation)
    (w : World σ) :
    o.Answers w.memory (h.reaction o w).status (h.perform cb o w).1 := by
  have hr : (h.perform cb o w).1 = (h.act o w).1 := by
    unfold Host.perform Host.act Host.reaction
    rfl
  rw [hr]
  exact ⟨⟨_, rfl⟩, hl.isOk_iff⟩

/-- What operations and steps of the memory keep that the conduct allows holds when the action has
run. -/
theorem Action.Obeys.sequence {h : Host σ} {cb : Callback σ} {I : Memory → Prop} (hl : h.Lawful)
    (hrely : ∀ m m', I m' → C.rely m m') (hcalm : ∀ m m', I m → C.calm m m' → I m')
    (hands : ∀ m m' j, ¬C.hands m m' j)
    (hact : ∀ l o w, I w.memory → C.asks l w.memory o →
      C.answers o (h.perform cb o w).1 ∧ I (h.perform cb o w).2.memory)
    {p : Action α} {w : World σ} (hp : p.Obeys C Q none l w.memory) (hw : I w.memory) :
    Q (p.runInSequence h cb w).1 (l ++ p.logged h cb w) (p.runInSequence h cb w).2.memory ∧
      ∀ e ∈ p.logged h cb w, ∃ l m o s, C.asks l m o ∧ e = o.event m s := by
  induction p generalizing l w with
  | done a => exact ⟨by simpa [logged] using hp, by simp [logged]⟩
  | memory f k ih =>
    obtain ⟨hc, hk⟩ | ⟨j, hj, -⟩ := hp
    · exact ih _ hk (hcalm _ _ hw hc)
    · exact (hands _ _ _ hj).elim
  | operation o js k ih =>
    obtain ⟨ha, hk⟩ := hp.2 w.memory (Conduct.meets_self fun _ ↦ hrely _ _ hw)
    obtain ⟨hans, hw'⟩ := hact l o w hw ha
    have hr := hk _ _ _ (hl.answers_perform cb o w) hans (hrely _ _ hw')
    obtain ⟨hQ, hlog⟩ := ih _ hr hw'
    rw [List.append_assoc] at hQ
    exact ⟨hQ, List.forall_mem_cons.2 ⟨⟨l, _, o, _, ha, rfl⟩, hlog⟩⟩
  | wait t js k ih =>
    have hk : ∀ r, t.Answers r → (k r).Obeys C Q none l w.memory :=
      fun r hr ↦ hp.2.2 r _ hr (hrely _ _ hw)
    cases t with
    | task j => exact ih _ (hk _ trivial) hw
    | idle => exact ih _ (hk _ rfl) hw
    | access c => exact ih _ (hk _ rfl) hw

end BoundSql
