import BoundSql.Proofs.Scope.Handover

namespace BoundSql

open Memory

variable {σ α β : Type} {h : Host σ} {x x₀ : Context} {b c : Nat} {s s₀ s' : Runtime σ}
  {es : List Event} {jobs : Job → Call Unit}

/-- There are no tasks, and none has been started. -/
structure Runtime.Idle (s : Runtime σ) : Prop where
  tasks : s.tasks = []
  started : s.memory.started = []

namespace Runtime.Idle

theorem step (hs : s.Idle) (hstep : s.Step h jobs s') : s' = s := by
  cases hstep with
  | gather =>
    obtain ⟨⟨m, w⟩, tasks⟩ := s
    obtain ⟨rfl, hm⟩ := hs
    cases m
    cases hm
    rfl
  | task ht =>
    obtain ⟨q, t, hq, -⟩ := Runtime.turn_eq_some ht
    rw [hs.tasks] at hq
    cases hq

theorem steps (hs : s.Idle) (hsteps : Relation.ReflTransGen (Runtime.Step h jobs) s s') :
    s' = s := by
  induction hsteps with
  | refl => rfl
  | tail _ hstep ih =>
    subst ih
    exact hs.step hstep

end Runtime.Idle

/-- The connection will be the next one that is leased; nothing has happened to it yet, and nothing
goes on in the background. -/
structure Runtime.Fresh (c : Nat) (s : Runtime σ) : Prop extends s.Idle where
  next : s.memory.leases + 1 = c
  alive : s.memory.tasks = true
  untouched : ∀ o st, .operation o c st ∉ s.memory.trace

namespace Runtime.Fresh

theorem releasesOf (hs : s.Fresh c) : s.memory.releasesOf c = 0 := by
  refine List.countP_eq_zero.2 fun e he hr ↦ ?_
  match e with
  | .operation (.release b d) d' st =>
    obtain rfl : d' = c := beq_iff_eq.1 hr
    exact hs.untouched _ _ he

theorem commitsOf (hs : s.Fresh c) : s.memory.commitsOf c = [] := by
  rw [Memory.commitsOf, List.reverse_eq_nil_iff, List.filter_eq_nil_iff]
  intro e he hc
  cases e with
  | operation o d st =>
    cases o with
    | commit _ =>
      obtain rfl : d = c := beq_iff_eq.1 hc
      exact hs.untouched _ _ he
    | _ => cases hc
  | _ => cases hc

end Runtime.Fresh

def Suspended.Releasing (c : Nat) (q : Suspended α) : Prop :=
  ∃ b js k, q = .asked (.release b c) js k

theorem Suspended.not_releasing_done (a : α) : ¬(Suspended.done a).Releasing c := by
  rintro ⟨b, js, k, h⟩
  cases h

structure Connectionless (b c : Nat) (es : List Event) (q : Suspended α) (s : Runtime σ) : Prop where
  idle : s.Idle
  released : s.memory.releasesOf c = 0
  commits : s.memory.commitsOf c = []
  events : ∀ e ∈ es, ∃ st, st ≠ .done ∧ e = .operation (.lease b) c st
  orphans : q.orphans = []
  awaits : q.awaits = none
  releasing : ¬q.Releasing c

namespace Async

def onLease (b : Nat) (p : PoolSpec) : Outcome Nat → Action (Outcome Entry)
  | .error f => .done (.error f)
  | .ok d => .memory (Memory.hold d p.autocommit) fun _ ↦ .done (.ok ⟨b, d, true, false, 0⟩)

theorem run_enter {scopes : Scopes} (hs : scopes.lookup b = none) :
    (enter scopes b).run = .memory id fun m ↦ match m.pools.lookup b with
      | some _ => .memory id fun m ↦ match m.pools.lookup b with
        | some p => .operation (.lease b) [] (onLease b p)
        | none => .done (.error (.error .noPoolSet))
      | none => .done (.error (.error .noPoolSet)) := by
  unfold enter
  rw [hs, Binder.run_pool_bind]
  refine congrArg (Action.memory id) (funext fun m ↦ ?_)
  cases m.pools.lookup b with
  | none => rfl
  | some _ =>
    refine (congrArg (Action.bind · _) (Binder.run_pool_bind b _)).trans ?_
    refine congrArg (Action.memory id) (funext fun m ↦ ?_)
    dsimp only
    cases m.pools.lookup b with
    | none => rfl
    | some p =>
      refine congrArg (Action.operation (.lease b) []) (funext fun r ↦ ?_)
      cases r <;> rfl

theorem proceed_enter {scopes : Scopes} (hb : scopes.lookup b = none) (s : Runtime σ) :
    (enter scopes b).run.proceed h jobs s = match s.memory.pools.lookup b with
      | some p => { next := .asked (.lease b) [] (onLease b p), runtime := s }
      | none => { next := .done (.error (.error .noPoolSet)), runtime := s } := by
  have hself : s.withMemory s.memory = s := rfl
  rw [run_enter hb, Action.proceed]
  cases hp : s.memory.pools.lookup b with
  | none => simp [hself, Action.proceed]
  | some p => simp [hp, hself, Action.proceed, Operation.isLocked]

theorem onLease_turn (hh : h.Plain) (hs : s.Fresh c) {p : PoolSpec} {t : Turn σ (Outcome Entry)}
    (ht : (Suspended.asked (.lease b) [] (onLease b p)).turn h jobs s = some t) :
    (∃ f, t.next = .done (.error f)) ∧ Connectionless b c t.events t.next t.runtime ∨
      t.next = .done (.ok ⟨b, c, true, false, 0⟩) ∧ t.events = [.operation (.lease b) c .done] ∧
        t.runtime.Custody c [] none ∧ t.runtime.Idle := by
  have hturn : ((onLease b p (s.perform h (.lease b)).1).proceed h jobs
      (s.perform h (.lease b)).2).after [s.event h (.lease b)] = t := Option.some.inj ht
  have hm := Runtime.memory_perform hh (.lease b) s
  have htasks : (s.perform h (.lease b)).2.tasks = [] := hs.tasks
  obtain ⟨⟨raw, hraw⟩, hok⟩ := Runtime.answers_perform hh (.lease b) s
  have hevent : s.event h (.lease b) =
      .operation (.lease b) c (h.reaction (.lease b) s.world).status := by rw [← hs.next]; rfl
  generalize (s.perform h (.lease b)).2 = s' at hturn hm htasks
  generalize (h.reaction (.lease b) s.world).status = st at hm hok hevent
  have htrace : s'.memory.trace = s.event h (.lease b) :: s.memory.trace := by
    rw [hm, hevent, ← hs.next]
    rfl
  have hrel : s'.memory.releasesOf c = 0 := by
    rw [releasesOf, htrace, List.countP_cons_of_neg (by simp [hevent, Event.releases])]
    exact hs.releasesOf
  have hcom : s'.memory.commitsOf c = [] := by
    rw [commitsOf, htrace, List.filter_cons_of_neg (by simp [hevent, Event.commits])]
    exact hs.commitsOf
  have hstarted : s'.memory.started = [] := by
    rw [hm]
    exact hs.started
  rw [hraw] at hturn hok
  cases raw with
  | error f =>
    subst hturn
    refine .inl ⟨⟨f, rfl⟩, ⟨htasks, hstarted⟩, hrel, hcom, fun e he ↦ ?_, rfl, rfl,
      Suspended.not_releasing_done _⟩
    refine ⟨st, fun hst ↦ ?_, (List.mem_singleton.1 he).trans hevent⟩
    have hf := hok.2 hst
    cases hf
  | ok u =>
    subst hturn
    have hd : (Operation.lease b).complete (Operation.number s.memory (.lease b)) u = c := hs.next
    obtain rfl : st = .done := hok.1 rfl
    refine .inr ⟨?_, congrArg (fun e ↦ [e]) hevent, ?_, htasks, hstarted⟩
    · exact congrArg (fun d : Nat ↦
        Suspended.done (Except.ok (⟨b, d, true, false, 0⟩ : Entry) : Outcome Entry)) hd
    · have hleased : Conduct.custody.Leased c s'.memory := by
        rw [hm]
        exact ⟨Nat.le_of_eq hs.next.symm, hs.alive⟩
      change (s'.withMemory (s'.memory.hold _ p.autocommit)).Custody c [] none
      rw [hd]
      refine ⟨hleased, fun j hj ↦ ?_, fun i q hi ↦ ?_, fun i hi ↦ ?_, ?_, hcom⟩
      · change j ∈ s'.memory.started at hj
        rw [hstarted] at hj
        cases hj
      · rw [Runtime.tasks_withMemory, htasks] at hi
        cases hi
      · cases hi
      · change ((setKey c p.autocommit s'.memory.held).lookup c).isSome.toNat + 0 +
          s'.memory.releasesOf c = 1
        rw [lookup_setKey_self, hrel]
        rfl

theorem enter_reaches (hh : h.Plain) {scopes : Scopes} (hb : scopes.lookup b = none)
    (hs : s₀.Fresh c) {q : Suspended (Outcome Entry)}
    (hr : Reaches h jobs (.start (enter scopes b).run) s₀ es q s) :
    Connectionless b c es q s ∧ (∀ e, q ≠ .done (.ok e)) ∨
      q = .done (.ok ⟨b, c, true, false, 0⟩) ∧ es = [.operation (.lease b) c .done] ∧
        s.Custody c [] none ∧ s.Idle := by
  have hidle : ∀ {q : Suspended (Outcome Entry)}, q.orphans = [] → q.awaits = none →
      ¬q.Releasing c → Connectionless b c [] q s₀ :=
    fun ho ha hn ↦ ⟨hs.toIdle, hs.releasesOf, hs.commitsOf, nofun, ho, ha, hn⟩
  have hcases : q = .start (enter scopes b).run ∧ es = [] ∧ s = s₀ ∨
      (∃ p, q = .asked (.lease b) [] (onLease b p)) ∧ es = [] ∧ s = s₀ ∨
      (∃ f, q = .done (.error f)) ∧ Connectionless b c es q s ∨
      q = .done (.ok ⟨b, c, true, false, 0⟩) ∧ es = [.operation (.lease b) c .done] ∧
        s.Custody c [] none ∧ s.Idle := by
    induction hr with
    | refl => exact .inl ⟨rfl, rfl, rfl⟩
    | turn _ ht ih =>
      obtain ⟨rfl, rfl, he⟩ | ⟨⟨p, rfl⟩, rfl, he⟩ | ⟨⟨f, rfl⟩, -⟩ | ⟨rfl, -⟩ := ih
      · rw [he] at ht
        rw [← Option.some.inj ht, proceed_enter hb]
        cases s₀.memory.pools.lookup b with
        | some p => exact .inr (.inl ⟨⟨p, rfl⟩, rfl, rfl⟩)
        | none => exact .inr (.inr (.inl ⟨⟨_, rfl⟩, hidle rfl rfl nofun⟩))
      · rw [he] at ht
        exact .inr (.inr (onLease_turn hh hs ht))
      · cases ht
      · cases ht
    | background _ hstep ih =>
      obtain ⟨hq, hes, he⟩ | ⟨hq, hes, he⟩ | ⟨hq, hu⟩ | ⟨hq, hes, hc, hi⟩ := ih
      · rw [he] at hstep
        exact .inl ⟨hq, hes, hs.step hstep⟩
      · rw [he] at hstep
        exact .inr (.inl ⟨hq, hes, hs.step hstep⟩)
      · exact .inr (.inr (.inl ⟨hq, hu.idle.step hstep ▸ hu⟩))
      · exact .inr (.inr (.inr ⟨hq, hes, hi.step hstep ▸ ⟨hc, hi⟩⟩))
  obtain ⟨rfl, rfl, he⟩ | ⟨⟨p, rfl⟩, rfl, he⟩ | ⟨⟨f, rfl⟩, hu⟩ | hleased := hcases
  · exact .inl ⟨he ▸ hidle rfl rfl nofun, nofun⟩
  · exact .inl ⟨he ▸ hidle rfl rfl nofun, nofun⟩
  · exact .inl ⟨hu, nofun⟩
  · exact .inr hleased

end Async

theorem Connectionless.bind {q : Suspended α} (hq : Connectionless b c es q s) (f : α → Action β) :
    Connectionless b c es (q.bind f) s := by
  refine ⟨hq.idle, hq.released, hq.commits, hq.events, ?_, ?_, ?_⟩
  · have ho := hq.orphans
    cases q <;> first | rfl | exact ho
  · have ha := hq.awaits
    cases q <;> first | rfl | exact ha
  · rintro ⟨b', js, k, he⟩
    refine hq.releasing ?_
    cases q <;> cases he
    exact ⟨b', js, _, rfl⟩

/-- Whoever owns the connection and keeps to its custody is in charge of it from the first turn on. -/
theorem Charge.start (hh : h.Plain) (hr : h.Returns) {l : List Event} {p : Action α}
    (hp : p.Obeys (.custody c True) (fun _ _ _ ↦ True) none l s.memory)
    (hc : ∃ due, s.Custody c (l.filter (Event.commits c)) due)
    (ho : p.Owes c (Heir c) fun _ ↦ False) (hs : s.Idle) :
    let t := p.proceed h (Job.run x) s
    Charge c (l ++ t.events) t.next t.runtime := by
  intro t
  obtain ⟨hn, hc', -⟩ := hp.proceed hh (upholds hh hr x s) ⟨hc, .refl c s⟩
  have hl : s.Linked := by
    intro i q k hi
    rw [hs.tasks] at hi
    cases hi
  have ht : t.Linked s := p.proceed_linked s
  refine ⟨hn, hc', ?_, hl.turn ht, fun k hk ↦ (ht.awaits k hk).2⟩
  exact (ho.proceed hh (upholds hh hr x) hp hc).symm.imp_left .inl

namespace Async

/-- A call that leases a connection has none yet, or it is in charge of the one that it has leased. -/
theorem leasing_reaches (hh : h.Plain) (hr : h.Returns) {scopes : Scopes}
    (hb : scopes.lookup b = none) (hs : s₀.Fresh c) {k : Outcome Entry → Action α}
    (hk : (Conduct.custody c True).Keeps (Conduct.custody.Leased c) (fun _ ↦ True)
      (k (.ok ⟨b, c, true, false, 0⟩)))
    (ho : (k (.ok ⟨b, c, true, false, 0⟩)).Owes c (Heir c) fun _ ↦ False)
    (herr : ∀ f, ∃ a, k (.error f) = .done a) {q : Suspended α}
    (hreach : Reaches h (Job.run x) (.start ((enter scopes b).run >>= k)) s₀ es q s) :
    Connectionless b c es q s ∨ Charge c es q s := by
  obtain ⟨q', hq', hn, rfl⟩ | ⟨r, es₁, es₂, s₁, hdone, rfl, hrest⟩ := hreach.of_bind_turn
  · obtain ⟨hu, -⟩ | ⟨rfl, -⟩ := enter_reaches hh hb hs hq'
    · exact .inl (hu.bind k)
    · cases hn
  · obtain ⟨hu, hn⟩ | ⟨hr', rfl, hc, hi⟩ := enter_reaches hh hb hs hdone
    · obtain ⟨f, rfl⟩ : ∃ f, r = .error f := by
        cases r with
        | ok e => exact (hn e rfl).elim
        | error f => exact ⟨f, rfl⟩
      obtain ⟨a, ha⟩ := herr f
      rw [ha] at hrest ⊢
      obtain ⟨rfl, rfl, hsteps⟩ := hrest.of_finished
      obtain rfl := hu.idle.steps hsteps
      refine .inl ⟨hu.idle, hu.released, hu.commits, fun e he ↦ hu.events e ?_, rfl, rfl,
        Suspended.not_releasing_done _⟩
      simpa [Action.proceed] using he
    · obtain rfl := Suspended.done.inj hr'
      have hcharge := Charge.start (x := x) hh hr
        ((hk [.operation (.lease b) c .done] s₁.memory hc.leased).mono fun _ _ _ _ ↦ trivial)
        ⟨none, hc⟩ ho hi
      obtain ⟨hcharge, -⟩ := hcharge.reaches hh hr hrest
      exact .inr hcharge

end Async

end BoundSql
