import BoundSql.Proofs.Scope.Sharing

namespace BoundSql

open Memory

variable {σ α β : Type} {h : Host σ} {jobs : Job → Call Unit} {s s' s₁ : Runtime σ} {x y : Context}
  {S T : Async.Scopes} {b c : Nat} {m m' : Memory} {l es es' : List Event} {K : List Nat}

def Event.On (c : Nat) : Event → Prop
  | .operation o _ _ => o.connection? = some c
  | _ => False

namespace Memory.Beside

theorem refl (t : Option Nat) (m : Memory) : m.Beside t m := ⟨Nat.le_refl _, fun _ _ ↦ rfl⟩

theorem gather (t : Option Nat) (m : Memory) : m.Beside t { m with started := [] } :=
  ⟨Nat.le_refl _, fun _ _ ↦ rfl⟩

theorem live (hm : m.Beside x.thread? m') (hl : x.Live S m) : x.Live S m' := by
  have hrely : (Conduct.within x.thread? fun _ _ ↦ True).rely m m' := hm
  exact hl.later hrely

end Memory.Beside

theorem HasLeased.append (h : HasLeased c (l ++ es)) : HasLeased c l ∨ HasLeased c es := by
  obtain ⟨e, he, hc⟩ := h
  exact (List.mem_append.1 he).imp (fun h ↦ ⟨e, h, hc⟩) fun h ↦ ⟨e, h, hc⟩

theorem HasLeased.right (h : HasLeased c es) (l : List Event) : HasLeased c (l ++ es) := by
  obtain ⟨e, he, hc⟩ := h
  exact ⟨e, List.mem_append_right l he, hc⟩

theorem Event.leases_event {o : Operation} {st : Status} (h : (o.event m st).leases c) :
    c = m.leases + 1 ∧ (m.register o (o.number m) st).leases = c := by
  cases o with
  | lease b =>
    cases st with
    | done =>
      have hc : m.leases + 1 = c := by simpa [Operation.event, Event.leases, Operation.connection?,
        Operation.number] using h
      exact ⟨hc.symm, hc⟩
    | refused | misbehaved how => cases h
  | _ => cases h

theorem Memory.leases_le_register (o : Operation) (st : Status) (m : Memory) :
    m.leases ≤ (m.register o (o.number m) st).leases := by
  cases o <;> first | exact Nat.le_refl _ | exact Nat.le_succ _

/-- The leases of an action are of connections that had not been leased when it began. -/
structure Memory.Since (m₀ : Memory) (l : List Event) (m : Memory) : Prop where
  leases : m₀.leases ≤ m.leases
  own : ∀ c, HasLeased c l → m₀.leases < c ∧ c ≤ m.leases

namespace Memory.Since

variable {m₀ : Memory}

theorem refl (m : Memory) : m.Since [] m := ⟨Nat.le_refl _, fun _ h ↦ by obtain ⟨_, he, -⟩ := h; cases he⟩

theorem mono (hs : m₀.Since l m) (hm : m.leases ≤ m'.leases) : m₀.Since l m' :=
  ⟨Nat.le_trans hs.leases hm, fun c hc ↦ ⟨(hs.own c hc).1, Nat.le_trans (hs.own c hc).2 hm⟩⟩

theorem perform (hh : h.Plain) (hs : m₀.Since l s.memory) (o : Operation) :
    m₀.Since (l ++ [s.event h o]) (s.perform h o).2.memory := by
  rw [Runtime.memory_perform hh, Runtime.event_eq]
  have hle := leases_le_register o (h.reaction o s.world).status s.memory
  refine ⟨Nat.le_trans hs.leases hle, fun c hc ↦ ?_⟩
  obtain hc | ⟨e, he, hc⟩ := hc.append
  · exact ⟨(hs.own c hc).1, Nat.le_trans (hs.own c hc).2 hle⟩
  · rw [List.mem_singleton.1 he] at hc
    obtain ⟨hn, hr⟩ := Event.leases_event hc
    rw [hr]
    exact ⟨by rw [hn]; exact Nat.lt_succ_of_le hs.leases, Nat.le_refl c⟩

end Memory.Since

def Host.Unwinds (h : Host σ) (t : Option Nat) : Prop := t.isSome → h.RollsBack

theorem Conduct.within_upholds {t : Option Nat} {asks : List Event → Operation → Prop}
    {G : List Event → Prop} (hh : h.Plain) (hr : h.Unwinds t)
    (hG : ∀ l o m st, G l → asks l o → G (l ++ [o.event m st])) (m₀ : Memory) :
    (within t asks).Upholds h jobs fun l s ↦ m₀.Since l s.memory ∧ G l where
  rely _ := .refl t _
  calm hJ hc := ⟨hJ.1.mono (Nat.le_of_eq hc.leases.symm), hJ.2⟩
  act {l s o} hJ ha := by
    refine ⟨fun ht c ho ↦ ?_, hJ.1.perform hh o, hG l o _ _ hJ.2 ha⟩
    subst ho
    rw [Runtime.perform_eq hh]
    exact (Outcome.isPanic_map _ _).trans (hr ht ..)
  spawn hJ _ := hJ
  hand _ hj := hj.elim

abbrev Context.Goes (x : Context) (h : Host σ) (jobs : Job → Call Unit) (p : Action α) (s : Runtime σ)
    (es : List Event) (q : Suspended α) (s' : Runtime σ) : Prop :=
  Among h jobs (Memory.Beside x.thread?) (.start p) s es q s'

theorem Context.Goes.upholds {asks : List Event → Operation → Prop} {G : List Event → Prop}
    {Q : α → List Event → Memory → Prop} {p : Action α} {q : Suspended α} (hh : h.Plain)
    (hr : h.Unwinds x.thread?) (hG : ∀ l o m st, G l → asks l o → G (l ++ [o.event m st]))
    (hQ : ∀ a l m m', Q a l m → m.Beside x.thread? m' → Q a l m') (hgo : x.Goes h jobs p s es q s')
    (hp : ∀ m, s.memory.Beside x.thread? m → p.Obeys (.within x.thread? asks) Q none [] m) (h₀ : G []) :
    q.Obeys (.within x.thread? asks) Q es s'.memory ∧ s.memory.Since es s'.memory ∧ G es := by
  have hu : (Conduct.within x.thread? asks).Upholds h jobs fun l s' ↦ s.memory.Since l s'.memory ∧ G l :=
    Conduct.within_upholds hh hr hG s.memory
  simpa using Among.upholds (C := .within x.thread? asks) (l := []) hh hu hQ
    (fun l s s' hJ hs ↦ ⟨hJ.1.mono hs.1, hJ.2⟩) hgo ⟨by simp, hp⟩ ⟨.refl s.memory, h₀⟩

theorem TaskCode.restores {p : Action α} {r : α} (hp : TaskCode x K p) (hh : h.Plain)
    (hr : h.Unwinds x.thread?) (hs : x.Live S s.memory) (hgo : x.Goes h jobs p s es (.done r) s') :
    x.Live S s'.memory ∧ s.memory.leases ≤ s'.memory.leases := by
  have hkeeps : (Conduct.within x.thread? (Conduct.minding fun _ ↦ True)).Keeps (x.Live S)
      (fun _ ↦ True) p := hp.keeps (fun _ _ ↦ trivial) fun _ _ _ ↦ trivial
  obtain ⟨hq, hsince, -⟩ := hgo.upholds (G := fun _ ↦ True) hh hr (fun _ _ _ _ _ _ ↦ trivial)
    (fun _ _ _ _ ha hm ↦ ⟨hm.live ha.1, trivial⟩) (fun m hm ↦ hkeeps [] m (hm.live hs)) trivial
  exact ⟨hq.1, hsince.leases⟩

namespace Context

theorem proceed_enter_joined (hs : x.Live S s.memory) (hb : S.lookup b = some c) (register : Bool) :
    (x.enter b register).run.proceed h jobs s =
      { next := .done (if (s.memory.pools.lookup b).isSome then .ok (x.entry b c false false)
          else .error (.error .noPoolSet))
        runtime := s } := by
  have hself : s.withMemory s.memory = s := rfl
  obtain ⟨mode, thread, scopes⟩ := x
  cases mode with
  | blocking =>
    have hlook : s.memory.active.lookup (thread, b) = some c := by
      rw [← lookup_activeOn, show s.memory.activeOn thread = S from hs, hb]
    change (Blocking.enter thread b register).run.proceed h jobs s = _
    unfold Blocking.enter
    rw [Binder.run_pool_bind, Action.proceed]
    dsimp only [id]
    cases hp : s.memory.pools.lookup b with
    | none => rfl
    | some p =>
      dsimp only
      rw [Call.run_read_bind, Action.proceed]
      dsimp only [id]
      rw [hself, hself, hlook]
      rfl
  | async =>
    cases hs
    change (Async.enter scopes b).run.proceed h jobs s = _
    unfold Async.enter
    rw [Binder.run_pool_bind, Action.proceed]
    dsimp only [id]
    cases hp : s.memory.pools.lookup b with
    | none => rfl
    | some p =>
      rw [hb]
      rfl

theorem proceed_joining (hs : x.Live S s.memory) (hb : S.lookup b = some c) (register : Bool)
    (k : Entry → Call α) : (x.enter b register >>= k).run.proceed h jobs s =
      if (s.memory.pools.lookup b).isSome then (k (x.entry b c false false)).run.proceed h jobs s
      else { next := .done (.error (.error .noPoolSet)), runtime := s } := by
  refine (Action.proceed_bind _ _ s).trans ((congrArg (Turn.bind h jobs _)
    (proceed_enter_joined hs hb register)).trans ?_)
  cases s.memory.pools.lookup b <;> rfl

theorem proceed_joined (hs : x.Live S s.memory) (hb : S.lookup b = some c)
    (body : Context → Nat → Call α) : (x.connection b body).run.proceed h jobs s =
      if (s.memory.pools.lookup b).isSome then (body x c).run.proceed h jobs s
      else { next := .done (.error (.error .noPoolSet)), runtime := s } := by
  rw [connection_eq, proceed_joining hs hb, x.scope_joined (x.entry_owner b c false false),
    x.entry_owner, x.entry_connection, if_neg Bool.false_ne_true]

end Context

/-- Calls of a binder's functions. -/
inductive Context.Calls (x : Context) (b : Nat) : {α : Type} → Call α → Prop
  | execute {f : Bound} (hf : f.binder = b) (count : Count) (args : Arguments) :
    Calls x b (x.execute f count args)
  | query {f : Bound} (hf : f.binder = b) (ret : Return) (args : Arguments) :
    Calls x b (x.query f ret args)
  | stream {f : Bound} (hf : f.binder = b) (shape : Shape) (args : Arguments) :
    Calls x b (x.stream f shape args)

namespace Context.Calls

theorem keeps {asks : List Event → Operation → Prop} {p : Call α} (hp : x.Calls b p)
    (hj : ∀ c, S.lookup b = some c → Conduct.Serves asks c)
    (ho : S.lookup b = none → Conduct.Owning asks) :
    (Conduct.within x.thread? asks).Keeps (x.Live S) (fun _ ↦ True) p.run := by
  cases hp with
  | execute hf count args =>
    subst hf
    exact Conduct.within.execute hj ho count args
  | query hf ret args =>
    subst hf
    exact Conduct.within.query hj ho ret args
  | stream hf shape args =>
    subst hf
    exact fun l m hm ↦ (Conduct.within.stream hj ho shape args hm).mono fun _ _ _ h ↦ ⟨h.1, trivial⟩

variable {p : Call α} {q : Suspended (Outcome α)}

theorem joined (hp : x.Calls b p) (hh : h.Plain) (hr : h.Unwinds x.thread?) (hs : x.Live S s.memory)
    (hb : S.lookup b = some c) (hgo : x.Goes h jobs p.run s es q s') : ∀ e ∈ es, e.On c := by
  have hkeeps : (Conduct.within x.thread? fun _ o ↦ o.connection? = some c).Keeps (x.Live S)
      (fun _ ↦ True) p.run := by
    refine hp.keeps (fun d hd l o ho ↦ ?_) fun hn ↦ ?_
    · rw [ho, ← hb, hd]
    · rw [hn] at hb
      cases hb
  refine (hgo.upholds (G := fun l ↦ ∀ e ∈ l, e.On c) hh hr (fun l o m st hl ho e he ↦ ?_)
    (fun _ _ _ _ ha hm ↦ ⟨hm.live ha.1, trivial⟩) (fun m hm ↦ hkeeps [] m (hm.live hs)) nofun).2.2
  obtain he | he := List.mem_append.1 he
  · exact hl e he
  · rw [List.mem_singleton.1 he]
    exact ho

/-- Outside all scopes of its binder a bound call works on a connection that it has leased itself, and
that had not been leased before. -/
theorem apart (hp : x.Calls b p) (hh : h.Plain) (hr : h.Unwinds x.thread?) (hs : x.Live S s.memory)
    (hb : S.lookup b = none) (hgo : x.Goes h jobs p.run s es q s') :
    ∀ e ∈ es, ∀ c, e.On c → HasLeased c es ∧ s.memory.leases < c := by
  have hkeeps : (Conduct.within x.thread? Conduct.alone).Keeps (x.Live S) (fun _ ↦ True) p.run := by
    refine hp.keeps (fun d hd ↦ ?_) fun _ ↦ Conduct.owning_alone
    rw [hd] at hb
    cases hb
  have hstep : ∀ l (o : Operation) m st, (∀ e ∈ l, ∀ c, e.On c → HasLeased c l) →
      Conduct.alone l o → ∀ e ∈ l ++ [o.event m st], ∀ c, e.On c → HasLeased c (l ++ [o.event m st]) := by
    intro l o m st hl ho e he c hc
    obtain he | he := List.mem_append.1 he
    · exact (hl e he c hc).later (List.prefix_append ..)
    · rw [List.mem_singleton.1 he] at hc
      exact (ho c hc).later (List.prefix_append ..)
  obtain ⟨-, hsince, hon⟩ := hgo.upholds hh hr hstep
    (fun _ _ _ _ ha hm ↦ ⟨hm.live ha.1, trivial⟩) (fun m hm ↦ hkeeps [] m (hm.live hs)) nofun
  exact fun e he c hc ↦ ⟨hon e he c hc, (hsince.own c (hon e he c hc)).1⟩

end Context.Calls

/-- Code of a task that begins in the course of other code of that task, with the events of the task's
operations before. What is over by then is code of a task; the scopes that are open are those in `T`. -/
inductive Begins (h : Host σ) (jobs : Job → Call Unit) : {α β : Type} → Context → Async.Scopes →
    Action α → Runtime σ → List Event → Context → Async.Scopes → Action β → Runtime σ → Prop
  | here {α : Type} (x : Context) (S : Async.Scopes) (p : Action α) (s : Runtime σ) :
    Begins h jobs x S p s [] x S p s
  | left {α β γ : Type} {x y : Context} {S T : Async.Scopes} {p : Action α} {f : α → Action γ}
    {s s' : Runtime σ} {es : List Event} {q : Action β} (hb : Begins h jobs x S p s es y T q s') :
    Begins h jobs x S (p >>= f) s es y T q s'
  | right {α β γ : Type} {x y : Context} {S T : Async.Scopes} {K : List Nat} {p : Action α}
    {f : α → Action γ} {a : α} {s s₁ s' : Runtime σ} {es es' : List Event} {q : Action β}
    (hp : TaskCode x K p) (hgo : x.Goes h jobs p s es (.done a) s₁)
    (hb : Begins h jobs x S (f a) s₁ es' y T q s') :
    Begins h jobs x S (p >>= f) s (es ++ es') y T q s'
  | held {α β : Type} {x y : Context} {S T : Async.Scopes} {p : Action α} {s s' : Runtime σ}
    {es : List Event} {q : Action β} (j : Job) (hb : Begins h jobs x S p s es y T q s') :
    Begins h jobs x S (p.orphaning j) s es y T q s'
  | joined {α β : Type} {x y : Context} {S T : Async.Scopes} {b c : Nat}
    {body : Context → Nat → Call α} {e : Entry} {s s₁ s' : Runtime σ} {es es' : List Event}
    {q : Action β} (hc : S.lookup b = some c)
    (hgo : x.Goes h jobs (x.enter b true).run s es (.done (.ok e)) s₁)
    (hb : Begins h jobs x S (body x e.connection).run s₁ es' y T q s') :
    Begins h jobs x S (x.connection b body).run s (es ++ es') y T q s'
  | leased {α β : Type} {x y : Context} {S T : Async.Scopes} {b : Nat}
    {body : Context → Nat → Call α} {e : Entry} {s s₁ s' : Runtime σ} {es es' : List Event}
    {q : Action β} (hc : S.lookup b = none)
    (hgo : x.Goes h jobs (x.enter b true).run s es (.done (.ok e)) s₁)
    (hb : Begins h jobs (x.inside b e.connection) ((b, e.connection) :: S)
      (body (x.inside b e.connection) e.connection).run s₁ es' y T q s') :
    Begins h jobs x S (x.connection b body).run s (es ++ es') y T q s'

/-- The open scopes: calls in the context join them, the task has leased their connections, and they are
of different binders and on different connections. -/
structure Context.Finds (y : Context) (T : Async.Scopes) (l : List Event) (m : Memory) : Prop where
  live : y.Live T m
  own : ∀ p ∈ T, HasLeased p.2 l ∧ p.2 ≤ m.leases
  binders : (T.map Prod.fst).Nodup
  connections : (T.map Prod.snd).Nodup

namespace Context.Finds

theorem later (hf : x.Finds S l m) (hl : x.Live S m') (hm : m.leases ≤ m'.leases) (es : List Event) :
    x.Finds S (l ++ es) m' :=
  ⟨hl, fun p hp ↦ ⟨(hf.own p hp).1.later (List.prefix_append l es), Nat.le_trans (hf.own p hp).2 hm⟩,
    hf.binders, hf.connections⟩

theorem enters {e : Entry} (hf : x.Finds S l s.memory) (hh : h.Plain) (hr : h.Unwinds x.thread?)
    (hgo : x.Goes h jobs (x.enter b true).run s es (.done (.ok e)) s') :
    (∀ c, S.lookup b = some c → e.connection = c ∧ x.Finds S (l ++ es) s'.memory) ∧
      (S.lookup b = none → (x.inside b e.connection).Finds ((b, e.connection) :: S) (l ++ es)
        s'.memory) := by
  have hstable : ∀ r l m m', x.Enters S b true r l m → m.Beside x.thread? m' →
      x.Enters S b true r l m' := by
    intro r l m m' hr hm
    cases hr with
    | failed hl => exact .failed (hm.live hl)
    | joined hc hl => exact .joined hc (hm.live hl)
    | @leased c _ _ hc hl hl' =>
      refine .leased hc hl (Memory.Beside.live ?_ hl')
      rwa [(x.alike_inside b c).thread_eq]
  have henter : ∀ m, s.memory.Beside x.thread? m → (x.enter b true).run.Obeys
      (.within x.thread? fun _ _ ↦ True) (x.Enters S b true) none [] m := fun m hm ↦
    Conduct.within.enter (fun _ _ _ ↦ trivial) true (hm.live hf.live)
  obtain ⟨hq, hsince, -⟩ := hgo.upholds (G := fun _ ↦ True) hh hr (fun _ _ _ _ _ _ ↦ trivial) hstable
    henter trivial
  cases hq with
  | @joined c _ _ hc hm =>
    refine ⟨fun d hd ↦ ⟨?_, hf.later hm hsince.leases es⟩, fun hn ↦ ?_⟩
    · rw [x.entry_connection]
      exact Option.some.inj (hc.symm.trans hd)
    · rw [hn] at hc
      cases hc
  | @leased c _ _ hc hl hm =>
    rw [x.entry_connection]
    refine ⟨fun d hd ↦ ?_, fun _ ↦ ⟨hm, ?_, ?_, ?_⟩⟩
    · rw [hd] at hc
      cases hc
    · refine List.forall_mem_cons.2 ⟨⟨hl.right l, (hsince.own c hl).2⟩, fun p hp ↦ ?_⟩
      exact ⟨(hf.own p hp).1.later (List.prefix_append l es),
        Nat.le_trans (hf.own p hp).2 hsince.leases⟩
    · refine List.nodup_cons.2 ⟨fun hb ↦ ?_, hf.binders⟩
      obtain ⟨p, hp, hb⟩ := List.mem_map.1 hb
      exact lookup_eq_none_iff_ne.1 hc p hp hb
    · refine List.nodup_cons.2 ⟨fun hc ↦ ?_, hf.connections⟩
      obtain ⟨p, hp, rfl⟩ := List.mem_map.1 hc
      exact Nat.not_lt.2 (hf.own p hp).2 (hsince.own _ hl).1

end Context.Finds

theorem Begins.finds {p : Action α} {q : Action β} (hb : Begins h jobs x S p s es y T q s')
    (hh : h.Plain) (hr : h.Unwinds x.thread?) (hf : x.Finds S l s.memory) :
    y.Finds T (l ++ es) s'.memory ∧ x.Alike y ∧ S <:+ T := by
  induction hb generalizing l with
  | here x S => exact ⟨by simpa using hf, x.alike_refl, List.suffix_rfl⟩
  | left _ ih => exact ih hr hf
  | right hp hgo _ ih =>
    obtain ⟨hm, hle⟩ := hp.restores hh hr hf.live hgo
    rw [← List.append_assoc]
    exact ih hr (hf.later hm hle _)
  | held _ _ ih => exact ih hr hf
  | joined hc hgo _ ih =>
    rw [← List.append_assoc]
    exact ih hr ((hf.enters hh hr hgo).1 _ hc).2
  | @leased _ _ x y S T b body e s s₁ s' es es' q hc hgo _ ih =>
    have hin := x.alike_inside b e.connection
    obtain ⟨hf', ha, hS⟩ := ih (by rwa [hin.thread_eq]) ((hf.enters hh hr hgo).2 hc)
    rw [← List.append_assoc]
    exact ⟨hf', ⟨ha.mode.trans hin.mode, ha.thread.trans hin.thread⟩, (List.suffix_cons _ _).trans hS⟩

end BoundSql
