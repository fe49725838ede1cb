import BoundSql.Pool.Scripted
import BoundSql.Proofs.Effect.Account
import BoundSql.Proofs.Scope.Durability
import BoundSql.Proofs.Scope.Raising

namespace BoundSql

open Error (AtBind AtCall)
open Call (account)

variable {σ α β : Type} {h : Host σ} {cb : Callback σ} {jobs : Job → Call Unit} {w : World σ}
  {s : Runtime σ} {m : Memory}

theorem Bound.raises_make (binder : Nat) (form : Form) (d : Declaration) (source : String) :
    FailsWith AtBind (Bound.make binder form d source) :=
  (d.raises_bind source).bind fun _ _ ↦ trivial

/-- What binds a function or sets a pool. -/
inductive Step.Binds : Step → Prop
  | bind (name owner : String) (form : Form) (d : Declaration) (source : String) :
    Binds (.bind name owner form d source)
  | setPool (name : String) (pool : PoolSpec) : Binds (.setPool name pool)

theorem Step.Binds.yields {st : Step} (hst : st.Binds) (x : Context) (body : Nat) :
    (st.run x body).Yields (fun _ ↦ False) AtCall AtBind fun _ ↦ True := by
  have hfind : ∀ {γ : Type} (table : Desk → List (String × γ)) (name : String),
      (Desk.find table name).Yields (fun _ ↦ False) AtCall AtBind fun _ ↦ True := by
    intro γ table name
    refine Call.Yields.bind .read fun m _ ↦ ?_
    split
    · exact .pure trivial
    · exact .panic _
  cases hst with
  | bind name owner form d source =>
    rw [Step.run]
    exact (hfind _ owner).bind fun b _ ↦
      (Call.Yields.ofResult (Bound.raises_make b form d source)).bind fun _ _ ↦
        (Call.Yields.modify _).bind fun _ _ ↦ .pure trivial
  | setPool name pool =>
    rw [Step.run]
    refine (hfind _ name).bind fun b _ ↦ Call.Yields.bind .read fun m _ ↦ ?_
    have hset : Call.Yields (fun _ ↦ False) AtCall AtBind (fun _ ↦ True) (do
        Call.modify fun m ↦ { m with pools := (b, pool) :: m.pools }
        return Answer.unit) := (Call.Yields.modify _).bind fun _ _ ↦ .pure trivial
    have hfail : Call.Yields (fun _ ↦ False) AtCall AtBind (fun _ : Unit ↦ True)
        (Call.fail .poolAlreadySet) := .fail rfl
    split
    · exact hfail.bind fun _ _ ↦ hset
    · exact hset

/-- The calls of a bound function with those arguments. -/
inductive Context.Applies (x : Context) (f : Bound) (args : Arguments) : {α : Type} → Call α → Prop
  | execute (count : Count) : Applies x f args (x.execute f count args)
  | query (ret : Return) : Applies x f args (x.query f ret args)
  | stream (shape : Shape) : Applies x f args (x.stream f shape args)

namespace Context.Applies

variable {x : Context} {f : Bound} {args : Arguments} {p : Call α}

theorem late (hp : x.Applies f args p) : p.Late fun _ ↦ True := by
  cases hp with
  | execute count =>
    rw [execute_eq]
    exact (f.late_render args).bind fun r _ ↦
      x.late_connection f.binder fun x c ↦ late_executeBody count r x c
  | query ret =>
    rw [query_eq]
    exact (f.late_render args).bind fun r _ ↦
      x.late_connection f.binder fun x c ↦ late_queryBody ret r x c
  | stream shape =>
    rw [stream_opens]
    exact (f.late_render args).bind fun r _ ↦
      (x.late_enter f.binder false).bind fun e _ ↦ x.late_opening shape r e

theorem enters (hp : x.Applies f args p) : ∃ (register : Bool)
    (k : Template.Rendered → Entry → Call α),
    p = f.render args >>= fun r ↦ x.enter f.binder register >>= k r := by
  cases hp with
  | execute count =>
    simp only [execute_eq, connection_eq]
    exact ⟨true, _, rfl⟩
  | query ret =>
    simp only [query_eq, connection_eq]
    exact ⟨true, _, rfl⟩
  | stream shape =>
    rw [stream_opens]
    exact ⟨false, _, rfl⟩

end Context.Applies

def Action.Looks (m : Memory) (Q : Action α → Prop) : Action α → Prop
  | .memory f k => f m = m ∧ (k m).Looks m Q
  | p => Q p

namespace Action.Looks

variable {Q : Action α → Prop} {p : Action α} {f : α → Action β} {a : α}

theorem bind_done {R : Action β → Prop} (hp : p.Looks m (· = .done a)) (hf : (f a).Looks m R) :
    (p >>= f).Looks m R := by
  change (p.bind f).Looks m R
  induction p with
  | done b => rwa [← Action.done.inj hp] at hf
  | memory g k ih => exact ⟨hp.1, ih m hp.2⟩
  | operation o js k ih => cases hp
  | wait t js k ih => cases hp

theorem bind_operation {o : Operation} (hp : p.Looks m fun q ↦ ∃ js k, q = .operation o js k) :
    (p >>= f).Looks m fun q ↦ ∃ js k, q = .operation o js k := by
  change (p.bind f).Looks m _
  induction p with
  | done b => obtain ⟨_, _, h⟩ := hp; cases h
  | memory g k ih => exact ⟨hp.1, ih m hp.2⟩
  | operation o' js k ih =>
    obtain ⟨js', k', h⟩ := hp
    cases h
    exact ⟨js, _, rfl⟩
  | wait t js k ih => obtain ⟨_, _, h⟩ := hp; cases h

theorem exists_account (hp : p.Looks m Q) (h : Host σ) (cb : Callback σ) (hw : w.memory = m) :
    ∃ q, Q q ∧ p.deeds h cb w = q.deeds h cb w ∧
      p.runInSequence h cb w = q.runInSequence h cb w := by
  induction p with
  | memory f k ih =>
    have hself : { w with memory := f w.memory } = w := by rw [hw, hp.1, ← hw]
    rw [Action.deeds, Action.runInSequence, hself, hw]
    exact ih m hp.2
  | done b => exact ⟨_, hp, rfl, rfl⟩
  | operation o js k ih => exact ⟨_, hp, rfl, rfl⟩
  | wait t js k ih => exact ⟨_, hp, rfl, rfl⟩

theorem exists_proceed (hp : p.Looks m Q) (h : Host σ) (jobs : Job → Call Unit)
    (hs : s.memory = m) : ∃ q, Q q ∧ p.proceed h jobs s = q.proceed h jobs s := by
  induction p with
  | memory f k ih =>
    have hself : s.withMemory (f s.memory) = s := by rw [hs, hp.1, ← hs]; rfl
    rw [Action.proceed, hself, hs]
    exact ih m hp.2
  | done b => exact ⟨_, hp, rfl⟩
  | operation o js k ih => exact ⟨_, hp, rfl⟩
  | wait t js k ih => exact ⟨_, hp, rfl⟩

end Action.Looks

/-- Why a call with those arguments cannot be rendered: the binder has no pool, or a placeholder,
which is the first one, does not resolve or has no marker. -/
inductive Bound.Unready (f : Bound) (m : Memory) (args : Arguments) : Fault → Prop
  | noPool (hp : m.pools.lookup f.binder = none) : Unready f m args (.error .noPoolSet)
  | stopped {pool : PoolSpec} {gs hs : List Fragment} {p : Placeholder} {e : Fault}
    {g : Marker.Generator} (hp : m.pools.lookup f.binder = some pool)
    (ht : f.template.fragments = gs ++ .placeholder p :: hs)
    (hg : Template.Passes Marker.Generator.next args.resolve gs pool.marker.generator)
    (hs : Template.Stops Marker.Generator.next args.resolve p
      (Template.skip Marker.Generator.next (Template.bound gs).length pool.marker.generator) e g) :
    Unready f m args e

namespace Bound

variable {f : Bound} {args : Arguments} {e : Fault}

theorem looks_render (f : Bound) (m : Memory) (args : Arguments) :
    (f.render args).run.Looks m (· = .done (f.rendering m args)) := by
  rw [run_render]
  exact ⟨rfl, rfl⟩

theorem rendering_of_pool {pool : PoolSpec} (hp : m.pools.lookup f.binder = some pool) :
    f.rendering m args = (Template.renderWith Marker.Generator.next args.resolve f.template
      pool.marker.generator).1 := by
  unfold rendering
  rw [hp]
  rfl

theorem Unready.rendering_eq (hu : f.Unready m args e) : f.rendering m args = .error e := by
  cases hu with
  | noPool hp =>
    unfold rendering
    rw [hp]
  | stopped hp ht hg hs => rw [rendering_of_pool hp, hs.renderWith ht hg]

theorem rendering_cases (f : Bound) (m : Memory) (args : Arguments) :
    (∃ e, f.Unready m args e) ∨ ∃ pool r, m.pools.lookup f.binder = some pool ∧
      f.rendering m args = .ok r := by
  cases hp : m.pools.lookup f.binder with
  | none => exact .inl ⟨_, .noPool hp⟩
  | some pool =>
    obtain hpass | ⟨gs, p, hs, e, g', ht, hg, hstop⟩ := Template.passes_or_stops
      Marker.Generator.next args.resolve f.template.fragments pool.marker.generator
    · obtain ⟨value, markers, -, -, hr⟩ := hpass.renderWith
      exact .inr ⟨pool, _, rfl, (rendering_of_pool hp).trans (congrArg Prod.fst hr)⟩
    · exact .inl ⟨e, .stopped hp ht hg hstop⟩

end Bound

/-- The call has come to a bad end, has asked for nothing and has changed nothing. -/
structure Call.Untouched (h : Host σ) (jobs : Job → Call Unit) (p : Call α) (m : Memory)
    (e : Fault) : Prop where
  inSequence : ∀ (cb : Callback σ) (w : World σ), w.memory = m →
    account h cb p w = ⟨[], .error e, w⟩
  inTurn : ∀ s : Runtime σ, s.memory = m →
    (Suspended.start p.run).turn h jobs s = some ⟨[], .done (.error e), s⟩

/-- The first thing that the call asks for is a lease, and it has changed nothing then. -/
structure Call.LeasesFirst (h : Host σ) (jobs : Job → Call Unit) (p : Call α) (m : Memory)
    (b : Nat) : Prop where
  inSequence : ∀ (cb : Callback σ) (w : World σ), w.memory = m →
    ∃ d ds, (account h cb p w).deeds = d :: ds ∧ d.operation = .lease b
  inTurn : ∀ s : Runtime σ, s.memory = m → ∃ js k,
    (Suspended.start p.run).turn h jobs s = some ⟨[], .asked (.lease b) js k, s⟩

theorem Action.Looks.untouched {p : Call α} {e : Fault}
    (hp : p.run.Looks m (· = .done (.error e))) : p.Untouched h jobs m e where
  inSequence cb w hw := by
    obtain ⟨_, rfl, hd, hr⟩ := hp.exists_account h cb hw
    rw [account, Call.exec, hd, hr]
    rfl
  inTurn s hs := by
    obtain ⟨_, rfl, hq⟩ := hp.exists_proceed h jobs hs
    exact congrArg some hq

theorem Action.Looks.leasesFirst {p : Call α} {b : Nat}
    (hp : p.run.Looks m fun q ↦ ∃ js k, q = .operation (.lease b) js k) :
    p.LeasesFirst h jobs m b where
  inSequence cb w hw := by
    obtain ⟨_, ⟨js, k, rfl⟩, hd, -⟩ := hp.exists_account h cb hw
    exact ⟨_, _, hd, rfl⟩
  inTurn s hs := by
    obtain ⟨_, ⟨js, k, rfl⟩, hq⟩ := hp.exists_proceed h jobs hs
    exact ⟨js, k, congrArg some hq⟩

theorem Action.Looks.pool {Q : Action (Outcome α) → Prop} {b : Nat} {pool : PoolSpec}
    {k : PoolSpec → Call α} (hp : m.pools.lookup b = some pool) (hk : (k pool).run.Looks m Q) :
    (Binder.pool b >>= k).run.Looks m Q := by
  rw [Binder.run_pool_bind]
  refine ⟨rfl, ?_⟩
  dsimp only
  rwa [hp]

theorem Context.looks_enter {x : Context} {b : Nat} {pool : PoolSpec}
    (hp : m.pools.lookup b = some pool) (hx : ∀ c, ¬x.Joins b c m) (register : Bool) :
    (x.enter b register).run.Looks m fun q ↦ ∃ js k, q = .operation (.lease b) js k := by
  have hlease : (Binder.lease b).run.Looks m fun q ↦ ∃ js k, q = .operation (.lease b) js k :=
    .pool hp ⟨_, _, rfl⟩
  obtain ⟨_ | _, thread, scopes⟩ := x
  · have hnone : m.active.lookup (thread, b) = none :=
      Option.eq_none_iff_forall_ne_some.2 hx
    refine Action.Looks.pool hp ?_
    rw [Call.run_read_bind]
    refine ⟨rfl, ?_⟩
    dsimp only
    rw [hnone]
    exact hlease.bind_operation
  · have hnone : scopes.lookup b = none := Option.eq_none_iff_forall_ne_some.2 hx
    refine Action.Looks.pool hp ?_
    rw [hnone]
    exact hlease.bind_operation

namespace Context.Applies

variable {x : Context} {f : Bound} {args : Arguments} {p : Call α}

theorem untouched (hp : x.Applies f args p) {e : Fault} (hu : f.Unready m args e) :
    p.Untouched h jobs m e := by
  obtain ⟨register, k, rfl⟩ := hp.enters
  refine Action.Looks.untouched ((f.looks_render m args).bind_done ?_)
  rw [hu.rendering_eq]
  exact rfl

theorem leasesFirst (hp : x.Applies f args p) (hu : ∀ e, ¬f.Unready m args e)
    (hx : ∀ c, ¬x.Joins f.binder c m) : p.LeasesFirst h jobs m f.binder := by
  obtain ⟨register, k, rfl⟩ := hp.enters
  obtain ⟨e, he⟩ | ⟨pool, r, hpool, hr⟩ := f.rendering_cases m args
  · exact absurd he (hu e)
  · refine Action.Looks.leasesFirst ((f.looks_render m args).bind_done ?_)
    rw [hr]
    exact (looks_enter hpool hx register).bind_operation

end Context.Applies

theorem Job.dependable (x : Context) : Dependable Job.IsRelease AtCall (Job.run x) := by
  intro j hj
  cases j with
  | release b c => exact .operate (.release b c)
  | _ => exact hj.elim

/-- How binding and calling can fail, and when. -/
structure ErrorTiming (h : Host σ) (jobs : Job → Call Unit) (x : Context) : Prop where
  made : ∀ binder form d source e,
    Bound.make binder form d source = .error e → e.isBindTime = true
  binds : ∀ st : Step, st.Binds → ∀ body e,
    (st.run x body).run.Comes h jobs (.error (.error e)) → e.isBindTime = true
  called : ∀ {α : Type} f args (p : Call α), x.Applies f args p → ∀ e,
    p.run.Comes h jobs (.error (.error e)) → e.isBindTime = false
  pulled : ∀ s n r, (x.pull s n).Comes h jobs r →
    (∀ e, r.1 = .error (.error e) → e.isBindTime = false) ∧
    ∀ items ended, r.1 = .ok (items, ended) → ∀ e, .error e ∈ items → e.isBindTime = false
  unready : ∀ {α : Type} f args (p : Call α), x.Applies f args p → ∀ m e,
    f.Unready m args e → p.Untouched h jobs m e
  leases : ∀ {α : Type} f args (p : Call α), x.Applies f args p → ∀ m,
    (∀ e, ¬f.Unready m args e) → (∀ c, ¬x.Joins f.binder c m) →
      p.LeasesFirst h jobs m f.binder

/-- Where the pools fail with errors of calls, all errors are told by when they are raised: what
binds functions and sets pools fails with errors of binding only, and in any run bound calls and
their streams fail with others only. A call ends before its lease only if there is no pool, or a
placeholder does not resolve or has no marker; then it has asked for nothing, and no scope has
changed. -/
theorem errors_raised_in_time (hh : h.Raises AtCall) (x y : Context) :
    ErrorTiming h (Job.run y) x where
  made binder form d source e he := by
    have hm := Bound.raises_make binder form d source
    rwa [he] at hm
  binds st hst body e he := (hst.yields x body).comes nofun hh he
  called f args p hp e he := hp.late.comes (Job.dependable y) hh he
  pulled s n r hr := by
    have hpull := (x.yields_pull s n).comes (Job.dependable y) hh hr
    refine ⟨fun e he ↦ ?_, fun items ended he e hi ↦ ?_⟩
    · rw [he] at hpull
      exact hpull
    · rw [he] at hpull
      exact hpull _ hi
  unready f args p hp m e hu := hp.untouched hu
  leases f args p hp m hu hx := hp.leasesFirst hu hx

theorem Script.raises_atCall : Script.host.Raises AtCall := by
  intro m o n s
  have hfault : ∀ site how, Outcome.Within AtCall (fun _ : o.Raw ↦ True)
      (.error (Script.fault site how)) := by
    intro site how
    cases how with
    | fail => exact rfl
    | panic => exact trivial
  have hcomply : ∀ s, Outcome.Within AtCall (fun _ ↦ True) (Script.comply o n s).1.outcome := by
    rintro ⟨replies, faults, failing⟩
    cases o with
    | execute c sql params =>
      rcases replies with _ | ⟨_ | _ | _ | _, replies⟩ <;> first | exact trivial | exact rfl
    | query c sql params =>
      rcases replies with _ | ⟨_ | _ | _ | _, replies⟩ <;> first | exact trivial | exact rfl
    | fetch c cursor index =>
      dsimp only [comply]
      split
      · exact rfl
      · exact trivial
    | _ => exact trivial
  change Outcome.Within AtCall _ (Script.answer o n s).1.outcome
  unfold answer
  split
  · exact hcomply s
  · split
    · exact hfault _ _
    · exact hcomply _

/-- A call without a pool, and one whose lease is refused. -/
theorem errors_raised_in_time_deletion :
    Script.host.Raises AtCall ∧
    (∀ mode, ((Context.start mode).execute Bound.deletion (.int .i32) .none).Untouched Script.host
      (Job.run (.start .async)) (Program.memory true true) (.error .noPoolSet)) ∧
    (account Script.host (fun _ w ↦ (.step (.ok .unit) [] [] none, w))
        ((Context.start .blocking).execute Bound.deletion (.int .i32) .none)
        ⟨Program.ready, ({ faults := [(.lease, .fail, none)] } : Script)⟩).outcome =
      .error (.error (.connection "lease failed")) ∧
    (Error.connection "lease failed").isBindTime = false := by
  have htiming : ∀ mode, ErrorTiming Script.host (Job.run (.start .async)) (Context.start mode) :=
    fun mode ↦ errors_raised_in_time Script.raises_atCall _ _
  refine ⟨Script.raises_atCall, fun mode ↦ ?_, rfl, ?_⟩
  · exact (htiming mode).unready Bound.deletion .none _ (.execute _) _ _ (.noPool rfl)
  · refine (htiming .blocking).called Bound.deletion .none _ (.execute (.int .i32)) _ ?_
    exact Action.Comes.inSequence (fun _ w ↦ (.step (.ok .unit) [] [] none, w))
      ⟨Program.ready, ({ faults := [(.lease, .fail, none)] } : Script)⟩

end BoundSql
