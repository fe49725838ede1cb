import BoundSql.Program.Execution
import BoundSql.Proofs.Effect.Waiting
import BoundSql.Proofs.Scope.Entering
import BoundSql.Proofs.Scope.Handover

namespace BoundSql

open Memory

variable {σ α β γ δ : Type} {h : Host σ} {cb : Callback σ} {L : Nat → Nat → Prop} {R : σ → σ → Prop}
  {x₀ : Context} {m m' : Memory}

/-- The active connection of each thread and binder. -/
abbrev Actives := List ((Nat × Nat) × Nat)

def Event.isClosing : Event → Bool
  | .operation (.close _ _) _ _ => true
  | _ => false

namespace Memory

/-- What has happened but for the closing of cursors, oldest first. -/
def history (m : Memory) : List Event := (m.trace.filter fun e ↦ !e.isClosing).reverse

/-- The same, but for active connections, tasks and when cursors are closed. The second one is a memory in
which tasks can be started. -/
structure Alike (m m' : Memory) : Prop where
  leases : m'.leases = m.leases
  cursors : m'.cursors = m.cursors
  held : m'.held = m.held
  pools : m'.pools = m.pools
  history : m'.history = m.history
  idle : m.busy = []
  idle' : m'.busy = []
  tasks : m'.tasks

namespace Alike

theorem number (hm : m.Alike m') (o : Operation) : o.number m' = o.number m := by
  cases o <;> simp [Operation.number, hm.leases, hm.cursors]

theorem register (hm : m.Alike m') (o : Operation) (n : Nat) (st : Status) :
    (m.register o n st).Alike (m'.register o n st) := by
  have htasks : (m'.register o n st).tasks = m'.tasks := by cases o <;> rfl
  have hpools : ∀ m : Memory, (m.register o n st).pools = m.pools := fun m ↦ by cases o <;> rfl
  have hhistory : (m'.register o n st).history = (m.register o n st).history := by
    have hrest := hm.history
    unfold Memory.history at hrest ⊢
    rw [register_trace, register_trace, List.filter_append, List.filter_append,
      List.reverse_append, List.reverse_append, hrest]
  refine ⟨?_, ?_, by simp [hm.held], by rw [hpools, hpools, hm.pools], hhistory, by simp [hm.idle],
    by simp [hm.idle'], by rw [htasks]; exact hm.tasks⟩
  · cases o <;> first | rfl | exact hm.leases
  · cases o <;> first | rfl | exact hm.cursors

theorem close_left (hm : m.Alike m') (d k n : Nat) (st : Status) :
    (m.register (.close d k) n st).Alike m' :=
  ⟨hm.leases, hm.cursors, hm.held, hm.pools, hm.history, hm.idle, hm.idle', hm.tasks⟩

theorem close_right (hm : m.Alike m') (d k n : Nat) (st : Status) :
    m.Alike (m'.register (.close d k) n st) :=
  ⟨hm.leases, hm.cursors, hm.held, hm.pools, hm.history, hm.idle, hm.idle', hm.tasks⟩

theorem active (hm : m.Alike m') (A : Actives) : { m with active := A }.Alike m' :=
  ⟨hm.leases, hm.cursors, hm.held, hm.pools, hm.history, hm.idle, hm.idle', hm.tasks⟩

theorem started (hm : m.Alike m') (js : List Job) : m.Alike { m' with started := js } :=
  ⟨hm.leases, hm.cursors, hm.held, hm.pools, hm.history, hm.idle, hm.idle', hm.tasks⟩

end Alike

end Memory

/-- Without a panic, and no step is run meanwhile. -/
structure Reaction.Calm {o : Operation} (r : Reaction o) : Prop where
  callback : r.callback = none
  returns : Outcome.isPanic r.outcome = false

/-- Pools to which it makes no difference when the cursors in `L`, each with its connection, are closed:
states that `R` relates answer alike, and `R` relates a state to what it is after such a closing. In those
states nothing panics, and statements run no steps. -/
structure Host.Indifferent (h : Host σ) (L : Nat → Nat → Prop) (R : σ → σ → Prop) : Prop where
  symm : ∀ {s s'}, R s s' → R s' s
  trans : ∀ {s s' s''}, R s s' → R s' s'' → R s s''
  calm : ∀ (m : Memory) (o : Operation) (n : Nat) {s : σ}, R s s → (h.answer m o n s).1.Calm
  answer : ∀ {m m' : Memory} {s s' : σ} (o : Operation), m.Alike m' → R s s' → o.site?.isSome →
    (h.answer m' o (o.number m') s').1 = (h.answer m o (o.number m) s).1 ∧
      R (h.answer m o (o.number m) s).2 (h.answer m' o (o.number m') s').2
  close : ∀ (m : Memory) {d n : Nat} {s : σ}, L d n → R s s → R s (h.answer m (.close d n) 0 s).2

/-- From a world on, the second action does what the first one does when it runs in sequence. The cursors
in `L` may be closed at another time. At the end `Q` holds of the two results and the first one's world. -/
inductive Twin (h : Host σ) (L : Nat → Nat → Prop) (Q : α → β → World σ → Prop) :
    World σ → Action α → Action β → Prop
  | done {w : World σ} {a : α} {b : β} (hq : Q a b w) : Twin h L Q w (.done a) (.done b)
  | memory {w : World σ} {f f' : Memory → Memory} {k : Memory → Action α} {k' : Memory → Action β}
    (hf : ∀ m', w.memory.Alike m' → (f w.memory).Alike (f' m') ∧ (f' m').started = m'.started)
    (hk : ∀ m', w.memory.Alike m' →
      Twin h L Q { w with memory := f w.memory } (k w.memory) (k' m')) :
    Twin h L Q w (.memory f k) (.memory f' k')
  | operation {w : World σ} {o : Operation} {js js' : List Job} {k : Outcome o.Answer → Action α}
    {k' : Outcome o.Answer → Action β} (ho : o.site?.isSome)
    (hk : (h.reaction o w).Calm →
      Twin h L Q (h.act o w).2 (k (h.act o w).1) (k' (h.act o w).1)) :
    Twin h L Q w (.operation o js k) (.operation o js' k')
  /-- Only the first one keeps active connections in the memory. -/
  | active {w : World σ} {f : Memory → Memory} {k : Memory → Action α} {q : Action β}
    (hf : ∀ m', w.memory.Alike m' → (f w.memory).Alike m')
    (hk : Twin h L Q { w with memory := f w.memory } (k w.memory) q) : Twin h L Q w (.memory f k) q
  | access {w : World σ} {p : Action α} {c : Nat} {js : List Job} {k : Outcome Unit → Action β}
    (hk : Twin h L Q w p (k (.ok ()))) : Twin h L Q w p (.wait (.access c) js k)
  | release {w : World σ} {b c : Nat} {js js' : List Job}
    {k : Outcome (Operation.release b c).Answer → Action α} {k' : Outcome Unit → Action β}
    (hk : (h.reaction (.release b c) w).Calm → Twin h L Q
      (h.act (.release b c) w).2 (k (h.act (.release b c) w).1) (k' (h.act (.release b c) w).1)) :
    Twin h L Q w (.operation (.release b c) js k) (.wait (.task (.release b c)) js' k')
  | close {w : World σ} {d n : Nat} {js : List Job} {k : Outcome (Operation.close d n).Answer → Action α}
    {q : Action β} (hn : L d n) (hk : (h.reaction (.close d n) w).Calm →
      Twin h L Q (h.act (.close d n) w).2 (k (h.act (.close d n) w).1) q) :
    Twin h L Q w (.operation (.close d n) js k) q
  | leave {w : World σ} {d n : Nat} {p : Action α} {k : Memory → Action β} (hn : L d n)
    (hk : ∀ m', w.memory.Alike m' → Twin h L Q w p (k m')) :
    Twin h L Q w p (.memory (Memory.start (.close d n)) k)

namespace Reaction.Calm

variable {w : World σ} {o : Operation}

theorem act (hc : (h.reaction o w).Calm) : Outcome.isPanic (h.act o w).1 = false :=
  (Outcome.isPanic_map _ _).trans hc.returns

theorem runInSequence (hc : (h.reaction o w).Calm) (js : List Job) (k : Outcome o.Answer → Action α) :
    (Action.operation o js k).runInSequence h cb w =
      (k (h.act o w).1).runInSequence h cb (h.act o w).2 := by
  rw [← Host.perform_of_callback hc.callback]
  rfl

theorem perform {s : Runtime σ} (hc : (h.reaction o s.world).Calm) :
    s.perform h o = ((h.act o s.world).1, { s with world := (h.act o s.world).2 }) := by
  unfold Runtime.perform
  rw [Host.perform_of_callback hc.callback]

end Reaction.Calm

namespace Twin

variable {Q : α → β → World σ → Prop} {w : World σ} {p : Action α} {q : Action β}

theorem bind {S : γ → δ → World σ → Prop} {k : α → Action γ} {k' : β → Action δ}
    (hp : Twin h L Q w p q) (hk : ∀ a b w', Q a b w' → Twin h L S w' (k a) (k' b)) :
    Twin h L S w (p >>= k) (q >>= k') := by
  change Twin h L S w (p.bind k) (q.bind k')
  induction hp with
  | done hq => exact hk _ _ _ hq
  | memory hf _ ih => exact .memory hf ih
  | operation ho _ ih => exact .operation ho ih
  | active hf _ ih => exact .active hf ih
  | access _ ih => exact .access ih
  | release _ ih => exact .release ih
  | close hn _ ih => exact .close hn ih
  | leave hn _ ih => exact .leave hn ih

theorem mono {S : α → β → World σ → Prop} (hp : Twin h L Q w p q)
    (hQ : ∀ a b w', Q a b w' → S a b w') : Twin h L S w p q := by
  rw [← Action.bind_done p, ← Action.bind_done q]
  exact hp.bind fun a b w' hq ↦ .done (hQ a b w' hq)

theorem orphaning (hp : Twin h L Q w p q) (j : Job) : Twin h L Q w p (q.orphaning j) := by
  induction hp with
  | done hq => exact .done hq
  | memory hf _ ih => exact .memory hf ih
  | operation ho _ ih => exact .operation ho ih
  | active hf _ ih => exact .active hf ih
  | access _ ih => exact .access ih
  | release _ ih => exact .release ih
  | close hn _ ih => exact .close hn ih
  | leave hn _ ih => exact .leave hn ih

theorem traced (cb : Callback σ) (hp : Twin h L Q w p q) :
    Twin h L (fun a b w' ↦ Q a b w' ∧ p.runInSequence h cb w = (a, w')) w p q := by
  induction hp with
  | done hq => exact .done ⟨hq, rfl⟩
  | memory hf _ ih => exact .memory hf ih
  | active hf _ ih => exact .active hf ih
  | access _ ih => exact .access ih
  | leave hn _ ih => exact .leave hn ih
  | operation ho _ ih =>
    refine .operation ho fun hc ↦ ?_
    rw [hc.runInSequence]
    exact ih hc
  | release _ ih =>
    refine .release fun hc ↦ ?_
    rw [hc.runInSequence]
    exact ih hc
  | close hn _ ih =>
    refine .close hn fun hc ↦ ?_
    rw [hc.runInSequence]
    exact ih hc

end Twin

inductive Suspended.Pending (o : Operation) (k : Outcome o.Answer → Action (Outcome Unit)) :
    Suspended (Outcome Unit) → Prop
  | start : Pending o k (.start (.operation o [] k))
  | asked : Pending o k (.asked o [] k)

def Suspended.Over (r : Outcome Unit) (q : Suspended (Outcome Unit)) : Prop :=
  q = .start (.done r) ∨ q = .done r

def Suspended.Leftover (L : Nat → Nat → Prop) (q : Suspended (Outcome Unit)) : Prop :=
  ∃ d n, L d n ∧ q.Pending (.close d n) .done

def Runtime.Tidy (L : Nat → Nat → Prop) (E : Nat → Prop) (s : Runtime σ) : Prop :=
  ∀ i q, s.tasks[i]? = some q → E i ∨ q.Leftover L ∨ ∃ r, q.Over r

/-- A world in which an action runs in sequence, and one in which its twin does. -/
structure Alongside (L : Nat → Nat → Prop) (R : σ → σ → Prop) (w : World σ) (s : Runtime σ) :
    Prop where
  memory : w.memory.Alike s.memory
  host : R w.host s.world.host
  started : ∀ j ∈ s.memory.started, ∃ d n, L d n ∧ j = .close d n

namespace Alongside

variable {w : World σ} {s s' : Runtime σ} {E : Nat → Prop} {d n : Nat}

theorem withMemory (ha : Alongside L R w s) {m m' : Memory} (hm : m.Alike m')
    (hj : m'.started = s.memory.started) :
    Alongside L R { w with memory := m } (s.withMemory m') :=
  ⟨hm, ha.host, fun j h ↦ ha.started j (hj ▸ h)⟩

theorem calm (hi : h.Indifferent L R) (ha : Alongside L R w s) (o : Operation) :
    (h.reaction o w).Calm := hi.calm _ _ _ (hi.trans ha.host (hi.symm ha.host))

theorem perform (hi : h.Indifferent L R) (ha : Alongside L R w s) {o : Operation}
    (ho : o.site?.isSome) : (s.perform h o).1 = (h.act o w).1 ∧
      Alongside L R (h.act o w).2 (s.perform h o).2 := by
  obtain ⟨hanswer, hhost⟩ := hi.answer o ha.memory ha.host ho
  have hreaction : h.reaction o s.world = h.reaction o w := hanswer
  have hnumber : o.number s.world.memory = o.number w.memory := ha.memory.number o
  have hstarted : ((h.act o s.world).2).memory.started = s.memory.started := by cases o <;> rfl
  have hcalm : (h.reaction o s.world).Calm := hi.calm _ _ _ (hi.trans (hi.symm ha.host) ha.host)
  rw [hcalm.perform]
  refine ⟨?_, ?_, hhost, fun j hj ↦ ha.started j ?_⟩
  · rw [Host.act, Host.act, hreaction, hnumber]
  · rw [Host.act, Host.act, hreaction, hnumber]
    exact ha.memory.register _ _ _
  · rw [← hstarted]
    exact hj

theorem leave (ha : Alongside L R w s) (hn : L d n) :
    Alongside L R w (s.withMemory (s.memory.start (.close d n))) := by
  rw [Memory.start, if_pos ha.memory.tasks]
  refine ⟨ha.memory.started _, ha.host, fun j hj ↦ ?_⟩
  obtain hj | hj := List.mem_append.1 hj
  · exact ha.started j hj
  · exact ⟨d, n, hn, List.mem_singleton.1 hj⟩

theorem close_left (hi : h.Indifferent L R) (ha : Alongside L R w s) (hn : L d n) :
    Alongside L R (h.act (.close d n) w).2 s := by
  have hself : R w.host w.host := hi.trans ha.host (hi.symm ha.host)
  exact ⟨ha.memory.close_left .., hi.trans (hi.symm (hi.close w.memory hn hself)) ha.host, ha.started⟩

theorem close_right (hi : h.Indifferent L R) (ha : Alongside L R w s) (hn : L d n) :
    Alongside L R w (s.perform h (.close d n)).2 := by
  have hself : R s.world.host s.world.host := hi.trans (hi.symm ha.host) ha.host
  have hcalm : (h.reaction (.close d n) s.world).Calm := hi.calm _ _ _ hself
  rw [hcalm.perform]
  exact ⟨ha.memory.close_right .., hi.trans ha.host (hi.close s.memory hn hself), ha.started⟩

end Alongside

/-- Where an action stands whose twin runs in sequence: what is left of both are twins, too. -/
inductive Abreast (h : Host σ) (L : Nat → Nat → Prop) (R : σ → σ → Prop) (Q : α → β → World σ → Prop) :
    Suspended β → Runtime σ → Prop
  | ready {w : World σ} {s : Runtime σ} {p : Action α} {js : List Job} {q : Action β}
    (ha : Alongside L R w s) (ht : s.Tidy L fun _ ↦ False) (hq : Twin h L Q w p q) :
    Abreast h L R Q (.ready js q) s
  | asked {w : World σ} {s : Runtime σ} {o : Operation} {p : Action α} {js : List Job}
    {k : Outcome o.Answer → Action β} (ha : Alongside L R w s) (ht : s.Tidy L fun _ ↦ False)
    (ho : o.site?.isSome) (hk : Twin h L Q (h.act o w).2 p (k (h.act o w).1)) :
    Abreast h L R Q (.asked o js k) s
  | waiting {w : World σ} {s : Runtime σ} {b c i : Nat} {p : Action α} {js : List Job}
    {t : Suspended (Outcome Unit)} {k : Outcome Unit → Action β} (ha : Alongside L R w s)
    (ht : s.Tidy L (· = i)) (hi : s.tasks[i]? = some t) (hp : t.Pending (.release b c) .done)
    (hk : Twin h L Q (h.act (.release b c) w).2 p (k (h.act (.release b c) w).1)) :
    Abreast h L R Q (.waiting i js k) s
  | answered {w : World σ} {s : Runtime σ} {p : Action α} {i : Nat} {js : List Job}
    {t : Suspended (Outcome Unit)} {r : Outcome Unit} {k : Outcome Unit → Action β}
    (ha : Alongside L R w s) (ht : s.Tidy L fun _ ↦ False) (hi : s.tasks[i]? = some t) (hr : t.Over r)
    (hk : Twin h L Q w p (k r)) : Abreast h L R Q (.waiting i js k) s
  | done {w : World σ} {s : Runtime σ} {a : α} {b : β} (ha : Alongside L R w s)
    (ht : s.Tidy L fun _ ↦ False) (hq : Q a b w) : Abreast h L R Q (.done b) s

namespace Runtime.Tidy

variable {s s' : Runtime σ} {E : Nat → Prop}

theorem change (hs : s.Tidy L E) (ht : s'.tasks = s.tasks) : s'.Tidy L E := by
  intro i q hq
  rw [ht] at hq
  exact hs i q hq

theorem mono {E' : Nat → Prop} (hs : s.Tidy L E) (hE : ∀ i, E i → E' i) : s.Tidy L E' :=
  fun i q hq ↦ (hs i q hq).imp_left (hE i)

theorem spawn (hs : s.Tidy L fun _ ↦ False) (jobs : Job → Call Unit) (j : Job) :
    (s.spawn jobs j).Tidy L (· = s.tasks.length) := by
  intro i q hq
  change (s.tasks ++ [_])[i]? = some q at hq
  rw [List.getElem?_append] at hq
  split at hq
  · exact (hs i q hq).imp_left False.elim
  · have hi : i < (s.tasks ++ [Suspended.start (jobs j).run]).length :=
      (List.getElem?_eq_some_iff.1 (by rw [List.getElem?_append_right (by omega)]; exact hq)).1
    rw [List.length_append, List.length_singleton] at hi
    exact .inl (by omega)

theorem set {E' : Nat → Prop} {i : Nat} {q : Suspended (Outcome Unit)} (hs : s.Tidy L E)
    (hq : E' i ∨ q.Leftover L ∨ ∃ r, q.Over r) (hE : ∀ k, E k → k ≠ i → E' k) :
    ({ s with tasks := s.tasks.set i q } : Runtime σ).Tidy L E' := by
  intro k t ht
  change (s.tasks.set i q)[k]? = some t at ht
  by_cases hik : i = k
  · subst hik
    rw [List.getElem?_set] at ht
    split at ht
    · split at ht
      · cases ht
        exact hq
      · cases ht
    · contradiction
  · rw [List.getElem?_set_ne hik] at ht
    exact (hs k t ht).imp_left fun hk ↦ hE k hk fun h ↦ hik h.symm

end Runtime.Tidy

section Turns

variable {Q : α → β → World σ → Prop} {w : World σ} {s s' : Runtime σ}

theorem Twin.proceed (hi : h.Indifferent L R) {p : Action α}
    {q : Action β} (hq : Twin h L Q w p q) (ha : Alongside L R w s) (ht : s.Tidy L fun _ ↦ False) :
    Abreast h L R Q (q.proceed h (Job.run x₀) s).next (q.proceed h (Job.run x₀) s).runtime := by
  induction hq generalizing s with
  | done hq => exact .done ha ht hq
  | memory hf hk ih =>
    obtain ⟨hm, hstarted⟩ := hf _ ha.memory
    exact ih _ ha.memory (ha.withMemory hm hstarted) (ht.change rfl)
  | @operation w o js js' k k' ho hk ih =>
    have hk := hk (ha.calm hi o)
    rw [Action.proceed]
    split
    · obtain ⟨hanswer, ha'⟩ := ha.perform hi ho
      rw [← hanswer] at hk
      exact .ready ha' (ht.change rfl) hk
    · exact .asked ha ht ho hk
  | active hf hk ih => exact ih (ha.withMemory (hf _ ha.memory) rfl) ht
  | access hk ih => exact .ready ha ht hk
  | release hk ih =>
    refine .waiting ⟨ha.memory, ha.host, ha.started⟩ (ht.spawn _ _) ?_ .start (hk (ha.calm hi _))
    exact List.getElem?_concat_length
  | close hn hk ih => exact ih (ha.calm hi _) (ha.close_left hi hn) ht
  | leave hn hk ih => exact ih _ ha.memory (ha.leave hn) (ht.change rfl)

namespace Abreast

theorem turn (hi : h.Indifferent L R) {q : Suspended β}
    (hq : Abreast h L R Q q s) {t : Turn σ β} (ht : q.turn h (Job.run x₀) s = some t) :
    Abreast h L R Q t.next t.runtime := by
  cases hq with
  | ready ha htidy hq =>
    cases ht
    exact hq.proceed hi ha htidy
  | @asked w s o p js k ha htidy ho hk =>
    obtain ⟨hanswer, ha'⟩ := ha.perform hi ho
    unfold Suspended.turn at ht
    dsimp only at ht
    rw [hanswer] at ht
    split at ht
    · cases ht
      exact hk.proceed hi ha' (htidy.change rfl)
    · cases ht
      exact .ready ha' (htidy.change rfl) hk
  | waiting ha htidy hi' hp hk =>
    unfold Suspended.turn at ht
    dsimp only at ht
    rw [hi'] at ht
    cases hp <;> cases ht
  | answered ha htidy hi' hover hk =>
    unfold Suspended.turn at ht
    dsimp only at ht
    rw [hi'] at ht
    obtain rfl | rfl := hover
    · cases ht
    · cases ht
      exact hk.proceed hi ha htidy
  | done => cases ht

end Abreast

theorem Suspended.tidy_turn {jobs : Job → Call Unit} {q : Suspended (Outcome Unit)}
    {t : Turn σ (Outcome Unit)} (hq : q.Leftover L ∨ ∃ r, q.Over r) (ht : q.turn h jobs s = some t) :
    (t.runtime = s ∨ ∃ d n, L d n ∧ t.runtime = (s.perform h (.close d n)).2) ∧
      (t.next.Leftover L ∨ ∃ r, t.next.Over r) := by
  obtain ⟨d, n, hn, hq⟩ | ⟨r, rfl | rfl⟩ := hq
  · cases hq with
    | start =>
      cases ht
      exact ⟨.inl rfl, .inl ⟨d, n, hn, .asked⟩⟩
    | asked =>
      cases ht
      exact ⟨.inr ⟨d, n, hn, rfl⟩, .inr ⟨_, .inl rfl⟩⟩
  · cases ht
    exact ⟨.inl rfl, .inr ⟨r, .inr rfl⟩⟩
  · cases ht

theorem Alongside.step (hi : h.Indifferent L R) {E : Nat → Prop}
    (ha : Alongside L R w s) (ht : s.Tidy L E) (hstep : s.Step h (Job.run x₀) s') :
    (∃ i, E i ∧ s.turn h (Job.run x₀) i = some s') ∨
      Alongside L R w s' ∧ s'.Tidy L E ∧ ∀ i t, E i → s.tasks[i]? = some t → s'.tasks[i]? = some t := by
  cases hstep with
  | gather =>
    refine .inr ⟨⟨ha.memory.started _, ha.host, nofun⟩, fun i q hq ↦ ?_, fun i t _ hti ↦ ?_⟩
    · change (s.tasks ++ _)[i]? = some q at hq
      rw [List.getElem?_append] at hq
      split at hq
      · exact ht i q hq
      · obtain ⟨j, hj, rfl⟩ := List.mem_map.1 (List.mem_of_getElem? hq)
        obtain ⟨d, n, hn, rfl⟩ := ha.started j hj
        exact .inr (.inl ⟨d, n, hn, .start⟩)
    · exact (List.getElem?_append_left (List.getElem?_eq_some_iff.1 hti).1).trans hti
  | @task _ i hturn =>
    by_cases hE : E i
    · exact .inl ⟨i, hE, hturn⟩
    obtain ⟨q, t, hq, hqt, rfl⟩ := Runtime.turn_eq_some hturn
    obtain ⟨hs, hnext⟩ := Suspended.tidy_turn ((ht i q hq).resolve_left hE) hqt
    have htasks : t.runtime.tasks = s.tasks := by
      obtain hs | ⟨d, n, -, hs⟩ := hs <;> rw [hs]
      exact Runtime.tasks_perform ..
    have ha' : Alongside L R w t.runtime := by
      obtain hs | ⟨d, n, hn, hs⟩ := hs <;> rw [hs]
      · exact ha
      · exact ha.close_right hi hn
    refine .inr ⟨⟨ha'.memory, ha'.host, ha'.started⟩, ?_, fun k v hk hv ↦ ?_⟩
    · exact (ht.change htasks).set (.inr hnext) fun _ hk _ ↦ hk
    · have hik : i ≠ k := fun hik ↦ hE (hik ▸ hk)
      change (t.runtime.tasks.set i t.next)[k]? = some v
      rw [List.getElem?_set_ne hik, htasks]
      exact hv

namespace Abreast

theorem step (hi : h.Indifferent L R) {q : Suspended β} (hq : Abreast h L R Q q s)
    (hstep : s.Step h (Job.run x₀) s') : Abreast h L R Q q s' := by
  cases hq with
  | ready ha ht hq =>
    obtain ⟨_, hE, -⟩ | ⟨ha', ht', -⟩ := ha.step hi ht hstep
    · exact hE.elim
    · exact .ready ha' ht' hq
  | asked ha ht ho hk =>
    obtain ⟨_, hE, -⟩ | ⟨ha', ht', -⟩ := ha.step hi ht hstep
    · exact hE.elim
    · exact .asked ha' ht' ho hk
  | @waiting w s b c i p js t k ha ht hti hp hk =>
    obtain ⟨_, hE, hturn⟩ | ⟨ha', ht', hkeep⟩ := ha.step hi ht hstep
    · cases hE
      obtain ⟨t', u, ht', hu, rfl⟩ := Runtime.turn_eq_some hturn
      cases hti.symm.trans ht'
      have hlt : i < s.tasks.length := (List.getElem?_eq_some_iff.1 hti).1
      cases hp with
      | start =>
        cases hu
        exact .waiting ⟨ha.memory, ha.host, ha.started⟩ (ht.set (.inl rfl) fun _ hk _ ↦ hk)
          (List.getElem?_set_self hlt) .asked hk
      | asked =>
        cases hu
        obtain ⟨hanswer, ha'⟩ := ha.perform hi (o := .release b c) rfl
        rw [← hanswer] at hk
        exact .answered ⟨ha'.memory, ha'.host, ha'.started⟩
          ((ht.change (Runtime.tasks_perform ..)).set (.inr (.inr ⟨_, .inl rfl⟩)) fun _ hk hne ↦ hne hk)
          (List.getElem?_set_self hlt) (.inl rfl) hk
    · exact .waiting ha' ht' (hkeep i t rfl hti) hp hk
  | @answered w s p i js t r k ha ht hti hover hk =>
    have ht₀ : s.Tidy L (· = i) := ht.mono fun _ ↦ False.elim
    obtain ⟨_, hE, hturn⟩ | ⟨ha', ht', hkeep⟩ := ha.step hi ht₀ hstep
    · cases hE
      obtain ⟨t', u, ht', hu, rfl⟩ := Runtime.turn_eq_some hturn
      cases hti.symm.trans ht'
      have hlt : i < s.tasks.length := (List.getElem?_eq_some_iff.1 hti).1
      obtain rfl | rfl := hover
      · cases hu
        exact .answered ⟨ha.memory, ha.host, ha.started⟩
          (ht.set (.inr (.inr ⟨r, .inr rfl⟩)) fun _ hk _ ↦ hk) (List.getElem?_set_self hlt) (.inr rfl) hk
      · cases hu
    · refine .answered ha' (fun j v hv ↦ .inr ?_) (hkeep i t rfl hti) hover hk
      obtain rfl | hrest := ht' j v hv
      · cases hv.symm.trans (hkeep j t rfl hti)
        exact .inr ⟨r, hover⟩
      · exact hrest
  | done ha ht hq =>
    obtain ⟨_, hE, -⟩ | ⟨ha', ht', -⟩ := ha.step hi ht hstep
    · exact hE.elim
    · exact .done ha' ht' hq

theorem reaches (hi : h.Indifferent L R) {q₀ q : Suspended β}
    {es : List Event} (hq : Abreast h L R Q q₀ s) (hreach : Reaches h (Job.run x₀) q₀ s es q s') :
    Abreast h L R Q q s' := by
  induction hreach with
  | refl => exact hq
  | turn _ ht ih => exact ih.turn hi ht
  | background _ hstep ih => exact ih.step hi hstep

end Abreast

theorem Twin.abreast {p : Action α} {q : Action β} (hq : Twin h L Q w p q) (ha : Alongside L R w s)
    (ht : s.tasks = []) : Abreast h L R Q (.start q) s :=
  .ready ha (fun i q hq ↦ by simp [ht] at hq) hq

theorem Twin.reaches (cb : Callback σ) (hi : h.Indifferent L R) {p : Action α} {q : Action β}
    (hq : Twin h L Q w p q) (ha : Alongside L R w s) (ht : s.tasks = [])
    {es : List Event} {b : β} (hreach : Reaches h (Job.run x₀) (.start q) s es (.done b) s') :
    Q (p.runInSequence h cb w).1 b (p.runInSequence h cb w).2 ∧
      Alongside L R (p.runInSequence h cb w).2 s' := by
  cases ((hq.traced cb).abreast ha ht).reaches hi hreach with
  | done ha' _ hq' =>
    rw [hq'.2]
    exact ⟨hq'.1, ha'⟩

end Turns

end BoundSql
