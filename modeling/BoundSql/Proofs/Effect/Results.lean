import BoundSql.Proofs.Effect.Sequence
import BoundSql.Proofs.Effect.Waiting

namespace BoundSql

variable {σ α β : Type} {J : Job → Prop} {A E : Error → Prop} {P : α → Prop} {R : β → Prop}

def Within (E : Error → Prop) (P : α → Prop) : Except Error α → Prop
  | .ok a => P a
  | .error e => E e

/-- If it fails, then with an error as `E` says. -/
abbrev FailsWith (E : Error → Prop) (x : Except Error α) : Prop := Within E (fun _ ↦ True) x

def Outcome.Within (E : Error → Prop) (P : α → Prop) : Outcome α → Prop
  | .ok a => P a
  | .error (.error e) => E e
  | .error (.panic _) => True

abbrev Outcome.FailsWith (E : Error → Prop) (r : Outcome α) : Prop :=
  Outcome.Within E (fun _ ↦ True) r

namespace Within

variable {x : Except Error α} {f : α → Except Error β}

theorem map {f : α → β} (hx : Within E P x) (hf : ∀ a, P a → R (f a)) : Within E R (x.map f) := by
  cases x with
  | ok a => exact hf a hx
  | error e => exact hx

theorem bind (hx : Within E P x) (hf : ∀ a, P a → Within E R (f a)) :
    Within E R (x >>= f) := by
  cases x with
  | ok a => exact hf a hx
  | error e => exact hx

theorem mapM {l : List α} (hf : ∀ a ∈ l, FailsWith E (f a)) : FailsWith E (l.mapM f) := by
  induction l with
  | nil => exact trivial
  | cons a l ih =>
    rw [List.mapM_cons]
    refine bind (hf a (.head _)) fun b _ ↦ bind (ih fun a ha ↦ hf a (.tail _ ha)) fun _ _ ↦ ?_
    exact trivial

theorem ofResult (hx : Within E P x) : Outcome.Within E P (Outcome.ofResult x) := by
  cases x with
  | ok a => exact hx
  | error e => exact hx

end Within

theorem Outcome.Within.map {Q : β → Prop} {f : α → β} {r : Outcome α} (hr : Outcome.Within E P r)
    (hf : ∀ a, P a → Q (f a)) : Outcome.Within E Q (r.map f) := by
  rcases r with (e | m) | a
  · exact hr
  · exact trivial
  · exact hf a hr

/-- The action comes to what `P` says, if what it asks and waits for fails with errors in `A` only.
The tasks that it waits for are in `J`. -/
def Action.Yields (J : Job → Prop) (A : Error → Prop) (P : α → Prop) : Action α → Prop
  | .done a => P a
  | .memory _ k => ∀ m, (k m).Yields J A P
  | .operation _ _ k => ∀ r, Outcome.FailsWith A r → (k r).Yields J A P
  | .wait t _ k => (∀ j, t = .task j → J j) ∧
      ∀ r, t.Answers r → Outcome.FailsWith A r → (k r).Yields J A P

namespace Action.Yields

variable {p : Action α} {f : α → Action β}

theorem bind (hp : p.Yields J A P) (hf : ∀ a, P a → (f a).Yields J A R) :
    (p >>= f).Yields J A R := by
  change (p.bind f).Yields J A R
  induction p with
  | done a => exact hf a hp
  | memory g k ih => exact fun m ↦ ih m (hp m)
  | operation o js k ih => exact fun r hr ↦ ih r (hp r hr)
  | wait t js k ih => exact ⟨hp.1, fun r ht hr ↦ ih r (hp.2 r ht hr)⟩

theorem orphaning (j : Job) (hp : p.Yields J A P) : (p.orphaning j).Yields J A P := by
  induction p with
  | done a => exact hp
  | memory g k ih => exact fun m ↦ ih m (hp m)
  | operation o js k ih => exact fun r hr ↦ ih r (hp r hr)
  | wait t js k ih => exact ⟨hp.1, fun r ht hr ↦ ih r (hp.2 r ht hr)⟩

end Action.Yields

/-- The call returns what `P` says or fails with an error in `E`, unless it panics. -/
abbrev Call.Yields (J : Job → Prop) (A E : Error → Prop) (P : α → Prop) (p : Call α) : Prop :=
  p.run.Yields J A (Outcome.Within E P)

namespace Call.Yields

variable {p : Call α} {k : α → Call β}

theorem ret {r : Outcome α} (hr : Outcome.Within E P r) :
    Call.Yields J A E P (ExceptT.mk (.done r)) := hr

theorem pure {a : α} (ha : P a) : Call.Yields J A E P (pure a) := ha

theorem panic (message : String) : Call.Yields J A E P (throw (.panic message)) := trivial

theorem fail {e : Error} (he : E e) : Call.Yields J A E P (Call.fail e) := he

theorem ofResult {x : Except Error α} (hx : Within E P x) :
    Call.Yields J A E P (Call.ofResult x) := hx.ofResult

theorem bind (hp : p.Yields J A E P) (hk : ∀ a, P a → (k a).Yields J A E R) :
    (p >>= k).Yields J A E R := by
  refine Action.Yields.bind hp fun r hr ↦ ?_
  rcases r with (e | m) | a
  · exact hr
  · exact trivial
  · exact hk a hr

theorem ite {b : Prop} [Decidable b] {q : Call α} (hp : p.Yields J A E P)
    (hq : q.Yields J A E P) : Call.Yields J A E P (if b then p else q) := by
  split
  · exact hp
  · exact hq

theorem outcome (E' : Error → Prop) (hp : p.Yields J A E P) :
    Call.Yields J A E' (Outcome.Within E P) p.outcome := Action.Yields.bind hp fun _ hr ↦ hr

theorem caught (E' : Error → Prop) (hp : p.Yields J A E P) :
    Call.Yields J A E' (Within E P) (Blocking.caught p) := by
  refine (hp.outcome E').bind fun r hr ↦ ?_
  rcases r with (e | m) | a
  · exact hr
  · exact trivial
  · exact hr

theorem read : Call.Yields J A E (fun _ ↦ True) Call.read := fun _ ↦ trivial

theorem modify (f : Memory → Memory) : Call.Yields J A E (fun _ ↦ True) (Call.modify f) :=
  fun _ ↦ trivial

theorem operate (o : Operation) : Call.Yields J A A (fun _ ↦ True) (Call.operate o) :=
  fun _ hr ↦ hr

theorem locking (c : Nat) (hp : p.Yields J A E P) : (Async.locking c p).Yields J A E P := by
  refine ⟨nofun, fun r ht _ ↦ ?_⟩
  cases ht
  exact hp

theorem startingIf (j : Job) (due : Outcome α → Bool) (hp : p.Yields J A E P) :
    Call.Yields J A E P (ExceptT.mk do
      let r ← p.run.orphaning j
      if due r then Action.start j
      return r) := by
  refine (Action.Yields.orphaning j hp).bind fun r hr ↦ ?_
  split
  · exact fun _ ↦ hr
  · exact hr

theorem protecting (j : Job) (hp : p.Yields J A E P) : (Async.protecting j p).Yields J A E P :=
  startingIf j Outcome.isPanic hp

theorem cleaningUp (j : Job) (hp : p.Yields J A E P) : (Async.cleaningUp j p).Yields J A E P :=
  startingIf j (!Outcome.isOk ·) hp

end Call.Yields

def Host.Raises (h : Host σ) (A : Error → Prop) : Prop :=
  ∀ m o n s, Outcome.FailsWith A (h.answer m o n s).1.outcome

variable {h : Host σ} {cb : Callback σ} {jobs : Job → Call Unit} {p : Action α} {s s' : Runtime σ}
  {i n : Nat}

theorem Host.Raises.perform (hh : h.Raises A) (cb : Callback σ) (o : Operation) (w : World σ) :
    Outcome.FailsWith A (h.perform cb o w).1 := by
  have he : (h.perform cb o w).1 =
      (h.answer w.memory o (o.number w.memory) w.host).1.outcome.map (o.complete _) := rfl
  rw [he]
  exact (hh w.memory o (o.number w.memory) w.host).map fun _ _ ↦ trivial

theorem Host.Raises.answer (hh : h.Raises A) (o : Operation) (s : Runtime σ) :
    Outcome.FailsWith A (s.perform h o).1 :=
  hh.perform (fun _ w ↦ (.step (.ok .unit) [] [] none, w)) o s.world

theorem Action.Yields.runInSequence (hh : h.Raises A) (hp : p.Yields J A P) (w : World σ) :
    P (p.runInSequence h cb w).1 := by
  induction p generalizing w with
  | done a => exact hp
  | memory f k ih => exact ih _ (hp _) _
  | operation o js k ih => exact ih _ (hp _ (hh.perform cb o w)) _
  | wait t js k ih =>
    cases t with
    | task j =>
      have hpanic := hp.2 (.error (.panic "no task can be started here")) trivial trivial
      exact ih _ hpanic _
    | idle => exact ih (.ok ()) (hp.2 _ rfl trivial) _
    | access c => exact ih (.ok ()) (hp.2 _ rfl trivial) _

def Suspended.Yields (J : Job → Prop) (A : Error → Prop) (P : α → Prop) : Suspended α → Prop
  | .done a => P a
  | .ready _ p => p.Yields J A P
  | .asked _ _ k => ∀ r, Outcome.FailsWith A r → (k r).Yields J A P
  | .waiting _ _ k => ∀ r, Outcome.FailsWith A r → (k r).Yields J A P

def Runtime.Sound (A : Error → Prop) (s : Runtime σ) (i : Nat) : Prop :=
  ∃ q, s.tasks[i]? = some q ∧ q.awaits = none ∧
    q.Yields (fun _ ↦ False) A (Outcome.FailsWith A)

theorem Runtime.Sound.append (hi : s.Sound A i) {ps : List (Suspended (Outcome Unit))}
    (hs : s'.tasks = s.tasks ++ ps) : s'.Sound A i := by
  obtain ⟨q, hq, hw⟩ := hi
  exact ⟨q, by rw [hs, List.getElem?_append_left (List.getElem?_eq_some_iff.1 hq).1, hq], hw⟩

/-- A turn that ends with an action which will come to what `P` says. If that waits for a task, it
waits for a sound one. -/
structure Turn.Yields (J : Job → Prop) (A : Error → Prop) (P : α → Prop) (t : Turn σ α) : Prop where
  next : t.next.Yields J A P
  awaits : ∀ i, t.next.awaits = some i → (∃ j, J j) ∧ t.runtime.Sound A i

theorem Turn.Yields.of_awaits_none {t : Turn σ α} (hn : t.next.Yields J A P)
    (hw : t.next.awaits = none) : t.Yields J A P := by
  refine ⟨hn, fun i hi ↦ ?_⟩
  rw [hw] at hi
  cases hi

theorem Turn.Yields.after {t : Turn σ α} (ht : t.Yields J A P) (es : List Event) :
    (t.after es).Yields J A P := ⟨ht.next, ht.awaits⟩

def Dependable (J : Job → Prop) (A : Error → Prop) (jobs : Job → Call Unit) : Prop :=
  ∀ j, J j → (jobs j).Yields (fun _ ↦ False) A A fun _ ↦ True

theorem Action.Yields.proceed (hj : Dependable J A jobs) (hh : h.Raises A) (hp : p.Yields J A P)
    (s : Runtime σ) : (p.proceed h jobs s).Yields J A P := by
  induction p generalizing s with
  | done a => exact .of_awaits_none hp rfl
  | memory f k ih => exact ih _ (hp _) _
  | operation o js k ih =>
    unfold Action.proceed
    split
    · exact .of_awaits_none (hp _ (hh.answer o s)) rfl
    · exact .of_awaits_none hp rfl
  | wait t js k ih =>
    cases t with
    | task j =>
      refine ⟨fun r hr ↦ hp.2 r trivial hr, fun i hi ↦ ⟨⟨j, hp.1 j rfl⟩, ?_⟩⟩
      obtain rfl := Option.some.inj hi
      exact ⟨.start (jobs j).run, by simp [Action.proceed, Runtime.spawn], rfl, hj j (hp.1 j rfl)⟩
    | idle => exact .of_awaits_none (hp.2 _ rfl trivial) rfl
    | access c => exact .of_awaits_none (hp.2 _ rfl trivial) rfl

theorem Suspended.Yields.turn (hj : Dependable J A jobs) (hh : h.Raises A) {q : Suspended α}
    (hq : q.Yields J A P) (hw : ∀ i, q.awaits = some i → s.Sound A i) {t : Turn σ α}
    (ht : q.turn h jobs s = some t) : t.Yields J A P := by
  cases q with
  | done a => cases ht
  | ready js p =>
    cases ht
    exact Action.Yields.proceed hj hh hq s
  | asked o js k =>
    have hk := hq _ (hh.answer o s)
    unfold Suspended.turn at ht
    dsimp only at ht
    split at ht
    · cases ht
      exact (Action.Yields.proceed hj hh hk _).after _
    · cases ht
      exact .of_awaits_none hk rfl
  | waiting i js k =>
    obtain ⟨p, hp, -, hr⟩ := hw i rfl
    unfold Suspended.turn at ht
    dsimp only at ht
    rw [hp] at ht
    cases p with
    | done r =>
      cases ht
      exact Action.Yields.proceed hj hh (hq r hr) s
    | ready _ _ | asked _ _ _ | waiting _ _ _ => cases ht

theorem Runtime.Sound.step (hh : h.Raises A) (hi : s.Sound A i) (hs : s.Step h jobs s') :
    s'.Sound A i := by
  cases hs with
  | gather => exact hi.append rfl
  | @task _ n ht =>
    obtain ⟨q, t, hq, hturn, rfl⟩ := Runtime.turn_eq_some ht
    obtain ⟨⟨ps, hps⟩, -⟩ := Suspended.turn_linked hturn
    by_cases hin : n = i
    · subst hin
      obtain ⟨q', hq', hw, hy⟩ := hi
      obtain rfl := Option.some.inj (hq.symm.trans hq')
      have hn : n < t.runtime.tasks.length := by
        rw [hps, List.length_append]
        exact Nat.lt_add_right _ (List.getElem?_eq_some_iff.1 hq).1
      have hnone : Dependable (fun _ ↦ False) A jobs := nofun
      obtain ⟨hnext, ha⟩ := hy.turn hnone hh (by simp [hw]) hturn
      refine ⟨t.next, List.getElem?_set_self hn, ?_, hnext⟩
      rw [Option.eq_none_iff_forall_ne_some]
      intro k hk
      obtain ⟨⟨_, hf⟩, -⟩ := ha k hk
      exact hf
    · obtain ⟨q', hq', hw⟩ := hi.append hps
      exact ⟨q', by rw [List.getElem?_set_ne hin, hq'], hw⟩

theorem Suspended.Yields.reaches (hj : Dependable J A jobs) (hh : h.Raises A) {q₀ q : Suspended α}
    {s₀ : Runtime σ} {es : List Event} (hr : Reaches h jobs q₀ s₀ es q s) (hq : q₀.Yields J A P)
    (hw : q₀.awaits = none) : q.Yields J A P ∧ ∀ i, q.awaits = some i → s.Sound A i := by
  induction hr with
  | refl => exact ⟨hq, fun i hi ↦ by rw [hw] at hi; cases hi⟩
  | turn _ ht ih =>
    obtain ⟨hn, ha⟩ := Suspended.Yields.turn hj hh ih.1 ih.2 ht
    exact ⟨hn, fun i hi ↦ (ha i hi).2⟩
  | background _ hs ih => exact ⟨ih.1, fun i hi ↦ (ih.2 i hi).step hh hs⟩

/-- What an action may come to: run in sequence, whatever its statements run in between, or taking
turns with tasks and other calls in any order. -/
inductive Action.Comes (h : Host σ) (jobs : Job → Call Unit) (p : Action α) : α → Prop
  | inSequence (cb : Callback σ) (w : World σ) : Comes h jobs p (p.runInSequence h cb w).1
  | inTurns {s₀ s : Runtime σ} {es : List Event} {a : α}
    (hr : Reaches h jobs (.start p) s₀ es (.done a) s) : Comes h jobs p a

theorem Action.Yields.comes (hj : Dependable J A jobs) (hh : h.Raises A) (hp : p.Yields J A P)
    {a : α} (ha : p.Comes h jobs a) : P a := by
  cases ha with
  | inSequence cb w => exact Action.Yields.runInSequence hh hp w
  | inTurns hr =>
    have hq : (Suspended.start p).Yields J A P := hp
    exact (hq.reaches hj hh hr rfl).1

end BoundSql
