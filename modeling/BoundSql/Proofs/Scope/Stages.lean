import BoundSql.Proofs.Scope.Aside
import BoundSql.Proofs.Scope.Joined
import BoundSql.Proofs.Scope.Rendering

namespace BoundSql

open Memory

variable {σ α β : Type} {h : Host σ} {C : Conduct} {b c : Nat} {l : List Event} {m m' : Memory}
  {s : Runtime σ}

namespace Action.Obeys

variable {Q : Outcome α → List Event → Memory → Prop} {R : Outcome β → List Event → Memory → Prop}
  {p : Call α}

theorem call_bind {k : α → Call β}
    (hp : p.run.Obeys C (fun r l m ↦ match r with
      | .ok a => (k a).run.Obeys C R none l m
      | .error f => R (.error f) l m) none l m) : (p >>= k).run.Obeys C R none l m := by
  refine .bind (hp.mono fun r l m hr ↦ ?_)
  cases r with
  | ok a => exact hr
  | error f => exact hr

theorem outcome {Q : Outcome (Outcome α) → List Event → Memory → Prop}
    (hp : p.run.Obeys C (fun r l m ↦ Q (.ok r) l m) none l m) :
    p.outcome.run.Obeys C Q none l m :=
  .bind hp

theorem caught {Q : Outcome (Except Error α) → List Event → Memory → Prop}
    (hp : p.run.Obeys C (fun r l m ↦ Q (Outcome.caught r) l m) none l m) :
    (Blocking.caught p).run.Obeys C Q none l m := by
  rw [Call.run_caught]
  exact .bind hp

theorem locking (hp : ∀ m', C.rely m m' → p.run.Obeys C Q none l m') :
    (Async.locking c p).run.Obeys C Q none l m := by
  refine ⟨by simp, nofun, fun r m' hr hm ↦ ?_⟩
  cases hr
  exact hp m' hm

theorem checked {k : Unit → Call α} (hu : m.Usable c) (hk : (k ()).run.Obeys C Q none l m) :
    (Session.check c >>= k).run.Obeys C Q none l m := by
  rw [Session.run_check_bind]
  refine .inl ⟨C.calm_refl m, ?_⟩
  have hn : ¬(m.held.lookup c).isNone = true := by
    rw [isNone_lookup_iff, not_not]
    exact hu.1
  dsimp only [id]
  rw [if_neg hu.2, if_neg hn]
  exact hk

theorem session {o : Operation} {Q : Outcome o.Answer → List Event → Memory → Prop}
    (ho : o.isLocked) (hu : m.Usable c) (ha : C.asks l m o)
    (hk : ∀ s r m', o.Answers m s r → C.answers o r → C.rely (m.register o (o.number m) s) m' →
      Q r (l ++ [o.event m s]) m') :
    (Session.check c >>= fun _ ↦ Call.operate o).run.Obeys C Q none l m := by
  refine checked hu ⟨by simp, fun m₁ hm₁ ↦ ?_⟩
  rw [Conduct.Meets, if_pos ho] at hm₁
  rw [hm₁]
  exact ⟨ha, hk⟩

end Action.Obeys

def Conduct.owning (b c : Nat) (asks : List Event → Memory → Operation → Prop) : Conduct where
  rely m m' := m.Undisturbed c m'
  rely_trans := .trans
  calm m m' := m'.leases = m.leases ∧ m'.busy = m.busy ∧ m'.terminalsOf c = m.terminalsOf c ∧
    m'.started = m.started
  calm_refl _ := ⟨rfl, rfl, rfl, rfl⟩
  asks := asks
  answers o r := o = .rollback c → Outcome.isPanic r = false
  leaves _ := True
  spawns _ := False
  hands m m' j := m' = m.letGo c ∧ j = .release b c

namespace Memory.Undisturbed

theorem usable (hm : m.Undisturbed c m') (hu : m.Usable c) : m'.Usable c := by
  refine ⟨?_, by rw [hm.busy]; exact hu.2⟩
  rw [Holds, hm.flag]
  exact hu.1

end Memory.Undisturbed

/-- The owner's log is as `L` tells, and the terminal actions on the connection are its own. -/
structure Runtime.Owned (c : Nat) (L : List Event → Prop) (l : List Event) (s : Runtime σ) : Prop where
  spares : s.Spares c
  terminals : s.memory.terminalsOf c = l.filter (Event.isTerminal c)
  log : L l

namespace Runtime.Spares

theorem change (hs : s.Spares c) {s' : Runtime σ} (ht : s'.tasks = s.tasks)
    (hj : ∀ j ∈ s'.memory.started, j.Spares c) : s'.Spares c := by
  refine ⟨hj, fun q hq ↦ ?_⟩
  rw [ht] at hq
  obtain ⟨l, hq⟩ := hs.tasks q hq
  exact ⟨l, hq.later (fun _ _ _ _ _ _ ↦ trivial) trivial⟩

theorem spawn (hs : s.Spares c) {j : Job} (hj : j.Spares c) (x : Context) :
    (s.spawn (Job.run x) j).Spares c := by
  refine ⟨hs.started, fun q hq ↦ ?_⟩
  obtain hq | hq := List.mem_append.1 hq
  · exact hs.tasks q hq
  · rw [List.mem_singleton.1 hq]
    refine ⟨[], by simp, fun m' _ ↦ ?_⟩
    exact (Conduct.aside.job hj x [] m' trivial).mono fun _ _ _ _ ↦ trivial

end Runtime.Spares

theorem Outcome.isPanic_map (r : Outcome α) (f : α → β) :
    Outcome.isPanic (r.map f) = Outcome.isPanic r := by
  rcases r with (_ | _) | _ <;> rfl

def Host.RollsBack (h : Host σ) : Prop :=
  ∀ m c n s, Outcome.isPanic (h.answer m (.rollback c) n s).1.outcome = false

theorem Conduct.owning_upholds {asks : List Event → Memory → Operation → Prop}
    {L : List Event → Prop} (hh : h.Plain) (hr : h.RollsBack) (x : Context)
    (hL : ∀ l m o, L l → asks l m o → ∀ s, L (l ++ [o.event m s])) :
    (owning b c asks).Upholds h (Job.run x) (Runtime.Owned c L) where
  rely _ := .refl c _
  calm hJ hc := by
    obtain ⟨hl, hb, ht, hj⟩ := hc
    refine ⟨hJ.spares.change rfl ?_, ht.trans hJ.terminals, hJ.log⟩
    rw [Runtime.memory_withMemory, hj]
    exact hJ.spares.started
  act {l s o} hJ ha := by
    refine ⟨?_, hJ.spares.change (Runtime.tasks_perform h o s) ?_, ?_, hL l s.memory o hJ.log ha _⟩
    · rintro rfl
      rw [Runtime.perform_eq hh]
      exact (Outcome.isPanic_map _ _).trans (hr _ _ _ _)
    · rw [Runtime.memory_perform hh, register_started]
      exact hJ.spares.started
    · rw [Runtime.memory_perform hh, terminalsOf_register, hJ.terminals, List.filter_append]
      rfl
  spawn _ hj := hj.elim
  hand hJ hh := by
    obtain ⟨rfl, rfl⟩ := hh
    refine ⟨Runtime.Spares.spawn ?_ (j := .release b c) trivial x, hJ.terminals, hJ.log⟩
    exact hJ.spares.change rfl hJ.spares.started

theorem Binder.run_pool_bind (b : Nat) (k : PoolSpec → Call α) : (Binder.pool b >>= k).run =
    .memory id fun m ↦ match m.pools.lookup b with
      | some p => (k p).run
      | none => .done (.error (.error .noPoolSet)) := by
  refine congrArg (Action.memory id) (funext fun m ↦ ?_)
  change Action.bind (ExceptT.run (match m.pools.lookup b with
    | some p => pure p
    | none => Call.fail .noPoolSet)) _ = _
  cases m.pools.lookup b <;> rfl

def Leased (b c : Nat) : Outcome Entry → List Event → Memory → Prop
  | .ok e, l, m => e = ⟨b, c, true, false, 0⟩ ∧ l = [.operation (.lease b) c .done] ∧ m.Usable c
  | .error _, l, _ => ∀ e ∈ l, ∃ s ≠ .done, e = .operation (.lease b) c s

theorem Leased.later {r : Outcome Entry} (hr : Leased b c r l m) (hm : m.Undisturbed c m') :
    Leased b c r l m' := by
  cases r with
  | error f => exact hr
  | ok e => exact ⟨hr.1, hr.2.1, hm.usable hr.2.2⟩

def leasing (b c : Nat) (_ : List Event) (m : Memory) (o : Operation) : Prop :=
  o = .lease b ∧ m.leases + 1 = c

theorem Action.Obeys.pool {Q : Outcome α → List Event → Memory → Prop} {k : PoolSpec → Call α}
    (hk : ∀ p, (k p).run.Obeys C Q none l m) (he : Q (.error (.error .noPoolSet)) l m) :
    (Binder.pool b >>= k).run.Obeys C Q none l m := by
  rw [Binder.run_pool_bind]
  refine .inl ⟨C.calm_refl m, ?_⟩
  dsimp only [id]
  cases m.pools.lookup b with
  | none => exact he
  | some p => exact hk p

theorem Action.Obeys.lease (hc : m.leases + 1 = c) (hb : c ∉ m.busy) (p : PoolSpec) :
    (Call.operate (.lease b) >>= fun d : Nat ↦
      Call.modify (hold d p.autocommit) >>= fun _ ↦ pure d).run.Obeys
      (.owning b c (leasing b c))
      (fun r l m ↦ match r with
        | .ok d => d = c ∧ l = [.operation (.lease b) c .done] ∧ m.Usable c
        | .error _ => ∀ e ∈ l, ∃ s ≠ .done, e = .operation (.lease b) c s) none [] m := by
  refine call_bind (p := Call.operate (.lease b)) ⟨by simp, fun m₁ hm₁ ↦ ?_⟩
  have hm : m.Undisturbed c m₁ := hm₁
  have hc₁ : m₁.leases + 1 = c := by rw [hm.leases, hc]
  refine ⟨⟨rfl, hc₁⟩, fun s r m' hr _ hm' ↦ ?_⟩
  have hev : (Operation.lease b).event m₁ s = .operation (.lease b) c s := by rw [← hc₁]; rfl
  obtain ⟨⟨raw, rfl⟩, hok⟩ := hr
  cases raw with
  | error f =>
    refine List.forall_mem_singleton.2 ⟨s, fun hs ↦ ?_, hev⟩
    have hf := hok.2 hs
    cases hf
  | ok u =>
    have hd : (Operation.lease b).complete (Operation.number m₁ (.lease b)) u = c := hc₁
    have hbusy : m'.busy = m.busy := by rw [hm'.busy, register_busy, hm.busy]
    obtain rfl : s = .done := hok.1 rfl
    dsimp only [Except.map]
    rw [hd, hev]
    refine .inl ⟨⟨rfl, rfl, rfl, rfl⟩, rfl, rfl, ?_, ?_⟩
    · exact Option.isSome_of_mem lookup_setKey_self
    · change c ∉ m'.busy
      rw [hbusy]
      exact hb

theorem Action.Obeys.enter {scopes : Async.Scopes} (hs : scopes.lookup b = none)
    (hc : m.leases + 1 = c) (hb : c ∉ m.busy) :
    (Async.enter scopes b).run.Obeys (.owning b c (leasing b c)) (Leased b c) none [] m := by
  have he : Leased b c (.error (.error .noPoolSet)) [] m := by
    intro e he
    cases he
  unfold Async.enter
  rw [hs]
  refine .pool (fun _ ↦ call_bind (.pool (fun p ↦ ?_) he)) he
  refine (Action.Obeys.lease hc hb p).mono fun r l m hr ↦ ?_
  cases r with
  | error f => exact hr
  | ok d =>
    obtain ⟨rfl, hl, hu⟩ := hr
    exact ⟨rfl, hl, hu⟩

section Flag

variable {asks : List Event → Memory → Operation → Prop}

theorem Action.Obeys.autocommit (hu : m.Usable c) :
    (Async.locking c (Session.autocommit c)).run.Obeys (.owning b c asks)
      (fun r l' m' ↦ (∃ on, r = .ok on) ∧ l' = l ∧ m'.Usable c) none l m :=
  locking fun m' hm ↦ checked (hm.usable hu)
    (.inl ⟨Conduct.calm_refl _ m', ⟨_, rfl⟩, rfl, hm.usable hu⟩)

theorem Action.Obeys.setAutocommit (hu : m.Usable c) (on : Bool) :
    (Async.locking c (Session.setAutocommit c on)).run.Obeys (.owning b c asks)
      (fun r l' m' ↦ r = .ok () ∧ l' = l ∧ c ∉ m'.busy ∧ m'.held.lookup c = some on) none l m := by
  refine locking fun m' hm ↦ checked (hm.usable hu) (.inl ⟨⟨rfl, rfl, rfl, rfl⟩, rfl, rfl, ?_, ?_⟩)
  · exact (hm.usable hu).2
  · obtain ⟨flag, hf⟩ := Option.isSome_iff_exists.1 (hm.usable hu).1
    rw [lookup_setAutocommit, hf]
    simp

end Flag

abbrev Event.terminals (c : Nat) (l : List Event) : List Event := l.filter (Event.isTerminal c)

/-- The terminal actions of a scope whose body succeeded or not, as far as it has come, and whether
that is all of them. -/
inductive Terminates (c : Nat) : (ok ended : Bool) → List Event → Prop
  | pending (ok : Bool) : Terminates c ok false []
  | committed : Terminates c true true [.operation (.commit c) c .done]
  | failed {s : Status} (hs : s ≠ .done) : Terminates c true false [.operation (.commit c) c s]
  | uncommitted {s : Status} (hs : s ≠ .done) (s' : Status) :
    Terminates c true true [.operation (.commit c) c s, .operation (.rollback c) c s']
  | rolledBack (s : Status) : Terminates c false true [.operation (.rollback c) c s]

def ending (b c : Nat) (ok : Bool) (l : List Event) (m : Memory) (o : Operation) : Prop :=
  (o = .commit c ∨ o = .rollback c ∨ o = .release b c) ∧
    ∀ s, ∃ ended, Terminates c ok ended (Event.terminals c (l ++ [o.event m s]))

def Async.Entry.leave (e : Entry) (r : Except Error α) : Call α := do
  let settled ← settle e r
  let released ← (release e.binder e.connection).outcome
  match settled, released with
  | .error err, .ok _ | .error err, .error (.error _) => Call.fail err
  | .ok _, .error err | .error _, .error err => throw err
  | .ok a, .ok _ => return a

theorem Async.Entry.exit_eq {e : Entry} (he : e.owner) (r : Except Error α) :
    exit e r = protecting (cleanup e) (leave e r) := by
  unfold exit guarded
  rw [if_neg (by simp [he]), if_pos he]
  rfl

namespace Action.Obeys

variable {ok ended : Bool}

theorem release (hl : Terminates c ok ended (Event.terminals c l)) :
    (Async.release b c).run.Obeys (.owning b c (ending b c ok))
      (fun _ l' _ ↦ Terminates c ok ended (Event.terminals c l')) none l m := by
  have hrel : ∀ s, Event.terminals c (l ++ [.operation (.release b c) c s]) =
      Event.terminals c l := by
    intro s
    rw [Event.terminals, List.filter_append]
    exact List.append_nil _
  rw [Async.release_eq]
  refine locking fun m' _ ↦ .inl ⟨Conduct.calm_refl _ m', ?_⟩
  dsimp only [id]
  split
  · exact hl
  · split
    · exact .inr ⟨_, ⟨rfl, rfl⟩, by simp, rfl, fun _ _ _ ↦ hl⟩
    · refine .inl ⟨⟨rfl, rfl, rfl, rfl⟩, by simp, fun m₁ _ ↦ ⟨⟨.inr (.inr rfl), fun s ↦ ?_⟩, ?_⟩⟩
      · exact ⟨ended, (hrel s).symm ▸ hl⟩
      · intro s _ _ _ _ _
        change Terminates c ok ended (Event.terminals c (l ++ [.operation (.release b c) c s]))
        rw [hrel]
        exact hl

theorem rollbackQuietly (hu : m.Usable c)
    (hl : ∀ s, Terminates c ok true (Event.terminals c (l ++ [.operation (.rollback c) c s]))) :
    (Async.locking c (Session.rollbackQuietly c)).run.Obeys (.owning b c (ending b c ok))
      (fun r l' _ ↦ r = .ok () ∧ Terminates c ok true (Event.terminals c l')) none l m := by
  refine locking fun m' hm ↦ call_bind (outcome (session (o := .rollback c) rfl (hm.usable hu)
    ⟨.inr (.inl rfl), fun s ↦ ⟨true, hl s⟩⟩ fun s r m'' _ ha _ ↦ ?_))
  rcases r with (err | msg) | _
  · exact ⟨rfl, hl s⟩
  · have hp := ha rfl
    cases hp
  · exact ⟨rfl, hl s⟩

theorem commit (hu : m.Usable c) :
    (Async.locking c (Session.commit c)).run.Obeys (.owning b c (ending b c true))
      (fun r l m ↦ m.Usable c ∧ match r with
        | .ok _ => l = [.operation (.commit c) c .done]
        | .error _ => ∃ s ≠ .done, l = [.operation (.commit c) c s]) none [] m := by
  have hc : ∀ s, Event.terminals c [.operation (.commit c) c s] = [.operation (.commit c) c s] := by
    simp [Event.terminals, Event.isTerminal]
  refine locking fun m' hm ↦ session (o := .commit c) rfl (hm.usable hu)
    ⟨.inl rfl, fun s ↦ ?_⟩ fun s r m'' hr _ hm'' ↦ ⟨?_, ?_⟩
  · change ∃ ended, Terminates c true ended (Event.terminals c [.operation (.commit c) c s])
    rw [hc]
    by_cases hs : s = .done
    · exact ⟨true, hs ▸ .committed⟩
    · exact ⟨false, .failed hs⟩
  · have hm₁ : (m'.register (.commit c) 0 s).Usable c := hm.usable hu
    exact Undisturbed.usable hm'' hm₁
  · cases r with
    | ok u =>
      rw [← hr.2.1 rfl]
      rfl
    | error f =>
      refine ⟨s, fun hs ↦ ?_, rfl⟩
      have hok := hr.2.2 hs
      cases hok

theorem settle {e : Entry} (he : e.connection = c) (r : Except Error α) (hu : m.Usable c) :
    (Async.Entry.settle e r).run.Obeys (.owning b c (ending b c r.isOk))
      (fun s l _ ↦ ∃ ended, (Outcome.isPanic s = false → ended = true) ∧
        Terminates c r.isOk ended (Event.terminals c l)) none [] m := by
  subst he
  have hevent : ∀ o s, o = Operation.commit e.connection ∨ o = .rollback e.connection →
      Event.isTerminal e.connection (.operation o e.connection s) = true := by
    rintro o s (rfl | rfl) <;> simp [Event.isTerminal]
  cases r with
  | error err =>
    refine call_bind ((rollbackQuietly hu fun s ↦ ?_).mono fun s l m hs ↦ ?_)
    · rw [Event.terminals, List.nil_append, List.filter_singleton, hevent _ _ (.inr rfl)]
      exact .rolledBack s
    · obtain ⟨rfl, hl⟩ := hs
      exact ⟨true, fun _ ↦ rfl, hl⟩
  | ok a =>
    refine call_bind (outcome ((commit (b := b) hu).mono fun s l m hs ↦ ?_))
    obtain ⟨hu', hl⟩ := hs
    rcases s with (err' | msg) | _
    · obtain ⟨s, hs, rfl⟩ := hl
      refine call_bind ((rollbackQuietly hu' fun s' ↦ ?_).mono fun s' l m hs' ↦ ?_)
      · rw [Event.terminals, List.singleton_append, List.filter_cons, List.filter_singleton,
          hevent _ _ (.inl rfl), hevent _ _ (.inr rfl)]
        exact .uncommitted hs s'
      · obtain ⟨rfl, hl⟩ := hs'
        exact ⟨true, fun _ ↦ rfl, hl⟩
    · obtain ⟨s, hs, rfl⟩ := hl
      refine ⟨false, fun hp ↦ Bool.noConfusion hp, ?_⟩
      rw [Event.terminals, List.filter_singleton, hevent _ _ (.inl rfl)]
      exact .failed hs
    · refine ⟨true, fun _ ↦ rfl, ?_⟩
      rw [hl, Event.terminals, List.filter_singleton, hevent _ _ (.inl rfl)]
      exact .committed

theorem leave {e : Entry} (hb : e.binder = b) (he : e.connection = c) (r : Except Error α)
    (hu : m.Usable c) :
    (Async.Entry.leave e r).run.Obeys (.owning b c (ending b c r.isOk))
      (fun s l _ ↦ ∃ ended, (Outcome.isPanic s = false → ended = true) ∧
        Terminates c r.isOk ended (Event.terminals c l)) none [] m := by
  refine call_bind ((settle he r hu).mono fun s l m hs ↦ ?_)
  subst hb he
  obtain ⟨ended, hended, hl⟩ := hs
  rcases s with (err | msg) | settled
  · exact ⟨ended, fun _ ↦ hended rfl, hl⟩
  · exact ⟨ended, (fun hp ↦ nomatch hp), hl⟩
  · refine call_bind (outcome ((release hl).mono fun t l m ht ↦ ?_))
    have hend : ended = true := hended rfl
    rcases settled with err | a <;> rcases t with (err' | msg) | _ <;>
      exact ⟨ended, fun _ ↦ hend, ht⟩

end Action.Obeys

end BoundSql
