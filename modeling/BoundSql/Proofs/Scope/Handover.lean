import BoundSql.Proofs.Effect.Waiting
import BoundSql.Proofs.Scope.Custody
import BoundSql.Proofs.Scope.Owing

namespace BoundSql

open Memory

variable {σ α : Type} {h : Host σ} {x : Context} {c : Nat} {m m' : Memory} {s s₀ s₁ s' : Runtime σ}
  {cs : List Event} {due : Option Nat}

namespace Event

def uses (c : Nat) : Event → Bool
  | .operation o d _ => o.isLocked && d == c
  | _ => false

def commits (c : Nat) : Event → Bool
  | .operation (.commit _) d _ => d == c
  | _ => false

end Event

namespace Memory

def usesOf (m : Memory) (c : Nat) : List Event := m.trace.filter (Event.uses c)

def commitsOf (m : Memory) (c : Nat) : List Event := (m.trace.filter (Event.commits c)).reverse

theorem filter_operations {p : Event → Bool} (hp : ∀ e, p e → e.isOperation) (m : Memory) :
    m.operations.filter p = m.trace.filter p := by
  rw [operations, List.filter_filter]
  refine List.filter_congr fun e _ ↦ ?_
  cases he : p e with
  | false => rfl
  | true => rw [hp e he]; rfl

theorem filter_register {p : Event → Bool}
    (hp : ∀ o d s, o.site? = none → p (.operation o d s) = false) (o : Operation) (n : Nat)
    (s : Status) (m : Memory) : (m.register o n s).trace.filter p =
      [.operation o (o.connection?.getD n) s].filter p ++ m.trace.filter p := by
  rw [register_trace, List.filter_append]
  cases ho : o.site? with
  | none => simp [hp o _ s ho]
  | some site => rfl

end Memory

theorem Memory.foldl_start (ht : m.tasks = true) (js : List Job) :
    js.foldl (fun m j ↦ m.start j) m = { m with started := m.started ++ js } := by
  induction js generalizing m with
  | nil => simp
  | cons j js ih =>
    rw [List.foldl_cons, Memory.start, if_pos ht]
    refine (ih (m := { m with started := m.started ++ [j] }) ht).trans ?_
    rw [List.append_assoc, List.singleton_append]

/-- Operations return: none of them panics. -/
def Host.Returns (h : Host σ) : Prop := ∀ m o n s, Outcome.isPanic (h.answer m o n s).1.outcome = false

theorem Host.Returns.act (hr : h.Returns) (o : Operation) (w : World σ) :
    Outcome.isPanic (h.act o w).1 = false := (Outcome.isPanic_map _ _).trans (hr _ _ _ _)

inductive Suspended.Due (c : Nat) : Suspended (Outcome Unit) → Prop
  | ready (b : Nat) : Due c (.start (Call.operate (.release b c)).run)
  | asked (b : Nat) : Due c (.asked (.release b c) [] .done)

def Suspended.Tends (c : Nat) (q : Suspended (Outcome Unit)) (m : Memory) : Prop :=
  ∃ l, q.Obeys (.custody c False) (fun _ _ _ ↦ True) l m

theorem Suspended.Due.not_tends {q : Suspended (Outcome Unit)} (hd : q.Due c)
    (hm : Conduct.custody.Leased c m) : ¬q.Tends c m := by
  rintro ⟨l, hq⟩
  cases hd with
  | ready b => exact ((hq.2 m hm).2 m hm).1.1 b rfl
  | asked b => exact (hq.2.2 m hm).1.1 b rfl

/-- The connection is held, due to the task of that number, or released. -/
structure Runtime.Custody (c : Nat) (cs : List Event) (due : Option Nat) (s : Runtime σ) : Prop where
  leased : Conduct.custody.Leased c s.memory
  started : ∀ j ∈ s.memory.started, j.Cleans c
  tasks : ∀ i q, s.tasks[i]? = some q → due ≠ some i → q.Tends c s.memory
  pending : ∀ i, due = some i → ∃ q, s.tasks[i]? = some q ∧ q.Due c
  balance : (s.memory.held.lookup c).isSome.toNat + due.isSome.toNat + s.memory.releasesOf c = 1
  commits : s.memory.commitsOf c = cs

/-- Once the connection is out of its scope's hands it stays so, and nothing uses it. -/
structure Memory.Later (c : Nat) (m m' : Memory) : Prop where
  holds : m'.Holds c → m.Holds c
  uses : ¬m.Holds c → m'.usesOf c = m.usesOf c

/-- What has come about in a turn: tasks may have been started. -/
structure Runtime.Follows (c : Nat) (s₀ s : Runtime σ) : Prop extends
    Memory.Later c s₀.memory s.memory where
  started : s₀.memory.started <+: s.memory.started
  tasks : s₀.tasks <+: s.tasks

namespace Memory.Later

theorem refl (c : Nat) (m : Memory) : m.Later c m := ⟨id, fun _ ↦ rfl⟩

theorem trans {m'' : Memory} (h : m.Later c m') (h' : m'.Later c m'') : m.Later c m'' :=
  ⟨fun hm ↦ h.holds (h'.holds hm), fun hn ↦ (h'.uses fun hm ↦ hn (h.holds hm)).trans (h.uses hn)⟩

theorem untouched (hu : m.Untouched c m') : m.Later c m' := by
  refine ⟨hu.holds.1, fun _ ↦ ?_⟩
  have hp : ∀ e, Event.uses c e → e.isOperation := by
    intro e he
    cases e <;> first | rfl | cases he
  rw [usesOf, usesOf, ← filter_operations hp, ← filter_operations hp, hu.operations]

theorem letGo (c : Nat) (m : Memory) : m.Later c (m.letGo c) :=
  ⟨fun hm ↦ (not_holds_letGo c m hm).elim, fun _ ↦ rfl⟩

theorem register {o : Operation} (ho : o.isLocked → o.connection? = some c → m.Holds c) (n : Nat)
    (st : Status) : m.Later c (m.register o n st) := by
  refine ⟨fun hm ↦ ?_, fun hn ↦ ?_⟩
  · rwa [Holds, register_held] at hm
  · have he : Event.uses c (.operation o (o.connection?.getD n) st) = false := by
      rw [← Bool.not_eq_true]
      intro hu
      rw [Event.uses, Bool.and_eq_true, beq_iff_eq] at hu
      obtain ⟨hl, hc⟩ := hu
      refine hn (ho hl ?_)
      cases o <;> first | exact congrArg some hc | cases hl
    rw [usesOf, filter_register, List.filter_singleton, he]
    · rfl
    · intro o d s hs
      cases o <;> first | rfl | cases hs

end Memory.Later

namespace Runtime.Follows

theorem refl (c : Nat) (s : Runtime σ) : s.Follows c s :=
  ⟨.refl c _, List.prefix_rfl, List.prefix_rfl⟩

theorem trans (h : s₀.Follows c s₁) (h' : s₁.Follows c s) : s₀.Follows c s :=
  ⟨h.toLater.trans h'.toLater, h.started.trans h'.started, h.tasks.trans h'.tasks⟩

theorem task (h : s₀.Follows c s) {i : Nat} {q : Suspended (Outcome Unit)}
    (hq : s₀.tasks[i]? = some q) : s.tasks[i]? = some q := by
  obtain ⟨hi, rfl⟩ := List.getElem?_eq_some_iff.1 hq
  exact List.prefix_iff_getElem?.1 h.tasks i hi

theorem spawn (j : Job) : s.Follows c (s.spawn (Job.run x) j) :=
  ⟨.refl c _, List.prefix_rfl, List.prefix_append _ _⟩

end Runtime.Follows

namespace Suspended.Tends

theorem later {q : Suspended (Outcome Unit)} (hq : q.Tends c m)
    (hm : Conduct.custody.Leased c m') : q.Tends c m' := by
  obtain ⟨l, hq⟩ := hq
  exact ⟨l, hq.later (fun _ _ _ _ _ _ ↦ trivial) hm⟩

theorem start {j : Job} (hj : j.Cleans c) (x : Context) (m : Memory) :
    (Suspended.start (j.run x).run).Tends c m := by
  refine ⟨[], by simp, fun m' hm ↦ ?_⟩
  exact (Conduct.custody.job hj x [] m' hm).mono fun _ _ _ _ ↦ trivial

end Suspended.Tends

namespace Runtime.Custody

variable {m : Memory}

theorem untouched (hs : s.Custody c cs due) (hu : s.memory.Untouched c m) :
    (s.withMemory m).Custody c cs due := by
  have hl : Conduct.custody.Leased c m := Conduct.custody.leased hs.leased hu
  have hops : ∀ {p : Event → Bool}, (∀ e, p e → e.isOperation) →
      m.trace.filter p = s.memory.trace.filter p := by
    intro p hp
    rw [← filter_operations hp, ← filter_operations hp, hu.operations]
  have hrel : m.releasesOf c = s.memory.releasesOf c := by
    rw [releasesOf, releasesOf, List.countP_eq_length_filter, List.countP_eq_length_filter, hops]
    intro e he
    cases e <;> first | rfl | cases he
  refine ⟨hl, fun j hj ↦ ?_, fun i q hq hi ↦ (hs.tasks i q hq hi).later hl, hs.pending, ?_, ?_⟩
  · obtain ⟨js, he, hjs⟩ := hu.started
    rw [memory_withMemory, he, List.mem_append] at hj
    exact hj.elim (hs.started j) (hjs j)
  · have hh : (m.held.lookup c).isSome = (s.memory.held.lookup c).isSome :=
      Bool.eq_iff_iff.2 hu.holds
    rw [memory_withMemory, hh, hrel]
    exact hs.balance
  · rw [memory_withMemory, commitsOf, hops]
    · exact hs.commits
    · intro e he
      cases e <;> first | rfl | cases he

theorem perform (hh : h.Plain) (hs : s.Custody c cs due) {o : Operation}
    (ho : ∀ b, o ≠ .release b c) :
    (s.perform h o).2.Custody c (cs ++ [s.event h o].filter (Event.commits c)) due := by
  have hm : (s.perform h o).2.memory =
      s.memory.register o (o.number s.memory) (h.reaction o s.world).status := memory_perform hh o s
  have hl : Conduct.custody.Leased c (s.perform h o).2.memory := by
    rw [hm]
    cases o with
    | lease b => exact ⟨Nat.le_succ_of_le hs.leased.1, hs.leased.2⟩
    | _ => exact hs.leased
  have hrel : Event.releases c (s.event h o) = false := by
    cases o with
    | release b d =>
      exact beq_false_of_ne fun hd : d = c ↦ ho b (hd ▸ rfl)
    | _ => rfl
  refine ⟨hl, fun j hj ↦ ?_, fun i q hq hi ↦ (hs.tasks i q hq hi).later hl, hs.pending, ?_, ?_⟩
  · rw [hm, register_started] at hj
    exact hs.started j hj
  · have hb := hs.balance
    rw [releasesOf, List.countP_eq_length_filter] at hb ⊢
    rw [hm, register_held, filter_register]
    · change _ + _ + (List.filter _ [s.event h o] ++ _).length = 1
      rw [List.filter_singleton, hrel]
      exact hb
    · intro o d st hst
      cases o <;> first | rfl | cases hst
  · rw [commitsOf, hm, filter_register, List.reverse_append]
    · rw [← hs.commits, commitsOf]
      change _ ++ (List.filter _ [s.event h o]).reverse = _
      rw [List.filter_singleton]
      cases Event.commits c (s.event h o) <;> rfl
    · intro o d st hst
      cases o <;> first | rfl | cases hst

theorem join (hs : s.Custody c cs due) {js : List Job} (hjs : ∀ j ∈ js, j.Cleans c) (x : Context) :
    ({ s with tasks := s.tasks ++ js.map fun j ↦ .start (j.run x).run } : Runtime σ).Custody
      c cs due := by
  refine ⟨hs.leased, hs.started, fun i q hq hi ↦ ?_, fun i hi ↦ ?_, hs.balance, hs.commits⟩
  · dsimp only at hq
    rw [List.getElem?_append] at hq
    split at hq
    · exact hs.tasks i q hq hi
    · obtain ⟨j, hj, rfl⟩ := List.mem_map.1 (List.mem_of_getElem? hq)
      exact .start (hjs j hj) x _
  · obtain ⟨q, hq, hd⟩ := hs.pending i hi
    refine ⟨q, ?_, hd⟩
    rw [List.getElem?_append_left (List.getElem?_eq_some_iff.1 hq).1]
    exact hq

theorem spawn (hs : s.Custody c cs due) {j : Job} (hj : j.Cleans c) (x : Context) :
    (s.spawn (Job.run x) j).Custody c cs due :=
  Custody.join hs (List.forall_mem_singleton.2 hj) x

theorem gather (hs : s.Custody c cs due) (x : Context) : (s.gather (Job.run x)).Custody c cs due :=
  Custody.join (s := s.withMemory { s.memory with started := [] })
    ⟨hs.leased, by simp, fun i q hq hi ↦ (hs.tasks i q hq hi).later hs.leased, hs.pending,
      hs.balance, hs.commits⟩ hs.started x

theorem handOver (hs : s.Custody c cs due) (hh : s.memory.Holds c) (b : Nat) (x : Context) :
    ((s.withMemory (s.memory.letGo c)).spawn (Job.run x) (.release b c)).Custody c cs
      (some s.tasks.length) := by
  have hb := hs.balance
  rw [hh] at hb
  have hdue : due = none := by
    cases due with
    | none => rfl
    | some i =>
      simp at hb
      omega
  refine ⟨hs.leased, hs.started, fun i q hq hi ↦ ?_, fun i hi ↦ ?_, ?_, hs.commits⟩
  · change (s.tasks ++ [_])[i]? = some q at hq
    rw [List.getElem?_append] at hq
    split at hq
    · exact (hs.tasks i q hq (by simp [hdue])).later hs.leased
    · have hlt := (List.getElem?_eq_some_iff.1 hq).1
      rw [List.length_singleton] at hlt
      exact absurd (congrArg some (by omega)) hi
  · obtain rfl := Option.some.inj hi
    exact ⟨_, List.getElem?_concat_length .., .ready b⟩
  · change (((eraseKey c s.memory.held).lookup c).isSome.toNat + 1) + s.memory.releasesOf c = 1
    rw [lookup_eraseKey_self]
    simp only [Option.isSome_none, Bool.toNat_false]
    simp only [Bool.toNat_true] at hb
    omega

end Runtime.Custody

theorem Operation.returns_perform (hh : h.Plain) (hr : h.Returns) (hc : c ≤ s.memory.leases)
    (o : Operation) : o.Returns c (s.perform h o).1 := by
  have hp : Outcome.isPanic (s.perform h o).1 = false := by
    rw [Runtime.perform_eq hh]
    exact hr.act o s.world
  cases o with
  | lease b =>
    refine ⟨hp, fun d hd ↦ ?_⟩
    rw [Runtime.perform_eq hh] at hd
    change ((h.reaction (.lease b) s.world).outcome.map fun _ ↦ s.memory.leases + 1) = .ok d at hd
    cases hout : (h.reaction (.lease b) s.world).outcome with
    | error f =>
      rw [hout] at hd
      cases hd
    | ok u =>
      rw [hout] at hd
      cases hd
      exact Nat.ne_of_gt (Nat.lt_succ_of_le hc)
  | _ => exact hp

theorem Conduct.custody_upholds {commits : Prop} (hh : h.Plain) (hr : h.Returns) (x : Context)
    {cs : List Event → List Event} (hcs : ∀ l e, (commits ∨ Event.commits c e = false) →
      cs (l ++ [e]) = cs l ++ [e].filter (Event.commits c)) (s₀ : Runtime σ) :
    (Conduct.custody c commits).Upholds h (Job.run x)
      fun l s ↦ (∃ due, s.Custody c (cs l) due) ∧ s₀.Follows c s where
  rely := by
    rintro l s ⟨⟨due, hs⟩, -⟩
    exact hs.leased
  calm := by
    rintro l s m ⟨⟨due, hs⟩, hf⟩ hu
    refine ⟨⟨due, hs.untouched hu⟩, hf.trans ⟨.untouched hu, ?_, List.prefix_rfl⟩⟩
    obtain ⟨js, he, -⟩ := hu.started
    exact ⟨js, he.symm⟩
  act := by
    rintro l s o ⟨⟨due, hs⟩, hf⟩ ⟨hrel, hlock, hcommit⟩
    refine ⟨o.returns_perform hh hr hs.leased.1, ⟨due, ?_⟩, hf.trans ⟨?_, ?_, List.prefix_rfl⟩⟩
    · rw [hcs]
      · exact hs.perform hh hrel
      · rw [or_iff_not_imp_right, Bool.not_eq_false]
        intro he
        cases o with
        | commit d =>
          refine hcommit ?_
          rw [show d = c from beq_iff_eq.1 he]
        | _ => cases he
    · rw [Runtime.memory_perform hh]
      exact .register hlock _ _
    · have hst := register_started o (o.number s.memory) (h.reaction o s.world).status s.memory
      rw [← Runtime.memory_perform hh] at hst
      exact hst ▸ List.prefix_rfl
  spawn := by
    rintro l s j ⟨⟨due, hs⟩, hf⟩ hj
    exact ⟨⟨due, hs.spawn hj x⟩, hf.trans (.spawn j)⟩
  hand := by
    rintro l s m j ⟨⟨due, hs⟩, hf⟩ ⟨hm, rfl, b, rfl⟩
    have hlet : s.Follows c (s.withMemory (s.memory.letGo c)) :=
      ⟨.letGo c _, List.prefix_rfl, List.prefix_rfl⟩
    exact ⟨⟨_, hs.handOver hm b x⟩, (hf.trans hlet).trans (.spawn _)⟩

theorem Conduct.custody_false_upholds (hh : h.Plain) (hr : h.Returns) (x : Context)
    (cs : List Event) (s₀ : Runtime σ) :
    (Conduct.custody c False).Upholds h (Job.run x)
      fun _ s ↦ (∃ due, s.Custody c cs due) ∧ s₀.Follows c s := by
  refine custody_upholds hh hr x (fun l e he ↦ ?_) s₀
  rw [List.filter_singleton, he.resolve_left id]
  exact (List.append_nil cs).symm

namespace Runtime.Custody

theorem resume (hs : s.Custody c cs due) {i : Nat} (hi : due ≠ some i)
    {q : Suspended (Outcome Unit)} (hq : q.Tends c s.memory) :
    ({ s with tasks := s.tasks.set i q } : Runtime σ).Custody c cs due := by
  refine ⟨hs.leased, hs.started, fun k p hp hk ↦ ?_, fun k hk ↦ ?_, hs.balance, hs.commits⟩
  · obtain hp' | ⟨hik, hp'⟩ : s.tasks[k]? = some p ∨ i = k ∧ q = p := by
      dsimp only at hp
      rw [List.getElem?_set] at hp
      split at hp
      · split at hp
        · exact .inr ⟨‹_›, Option.some.inj hp⟩
        · cases hp
      · exact .inl hp
    · exact hs.tasks k p hp' hk
    · exact hp' ▸ hq
  · obtain ⟨p, hp, hd⟩ := hs.pending k hk
    refine ⟨p, ?_, hd⟩
    rw [List.getElem?_set_ne]
    · exact hp
    · rintro rfl
      exact hi hk

theorem tend (hh : h.Plain) (hr : h.Returns) (hs : s.Custody c cs due)
    {q : Suspended (Outcome Unit)} (hq : q.Tends c s.memory) {t : Turn σ (Outcome Unit)}
    (ht : q.turn h (Job.run x) s = some t) :
    (∃ due, t.runtime.Custody c cs due) ∧ s.Follows c t.runtime ∧
      t.next.Tends c t.runtime.memory := by
  obtain ⟨l, hq⟩ := hq
  obtain ⟨hn, hc, hf⟩ := hq.turn hh (Conduct.custody_false_upholds hh hr x cs s)
    ⟨⟨due, hs⟩, .refl c s⟩ ht
  exact ⟨hc, hf, _, hn⟩

theorem dueTurn (hh : h.Plain) {i : Nat} (hs : s.Custody c cs (some i))
    {q : Suspended (Outcome Unit)} (hi : s.tasks[i]? = some q) (hd : q.Due c)
    {t : Turn σ (Outcome Unit)} (ht : q.turn h (Job.run x) s = some t) :
    (∃ due, ({ t.runtime with tasks := t.runtime.tasks.set i t.next } : Runtime σ).Custody
      c cs due) ∧ s.memory.Later c t.runtime.memory := by
  have hlt : i < s.tasks.length := (List.getElem?_eq_some_iff.1 hi).1
  have hne : ∀ {k : Nat} {p p' : Suspended (Outcome Unit)}, (s.tasks.set i p')[k]? = some p →
      k ≠ i → s.tasks[k]? = some p := by
    intro k p p' hp hk
    rwa [List.getElem?_set_ne hk.symm] at hp
  cases hd with
  | ready b =>
    cases ht
    refine ⟨⟨some i, hs.leased, hs.started, fun k p hp hk ↦ ?_, fun k hk ↦ ?_, hs.balance,
      hs.commits⟩, .refl c _⟩
    · exact hs.tasks k p (hne hp fun h ↦ hk (h ▸ rfl)) hk
    · obtain rfl := Option.some.inj hk
      exact ⟨_, List.getElem?_set_self hlt, .asked b⟩
  | asked b =>
    have hturn := Option.some.inj ht
    have htasks : t.runtime.tasks = s.tasks := by rw [← hturn]
    have hm : t.runtime.memory = s.memory.register (.release b c) 0
        (h.reaction (.release b c) s.world).status := by
      rw [← hturn]
      exact memory_perform hh _ s
    have hn : t.next.Tends c t.runtime.memory := by
      rw [← hturn]
      exact ⟨[], by simp, fun _ _ ↦ trivial⟩
    have hl : Conduct.custody.Leased c t.runtime.memory := by
      rw [hm]
      exact hs.leased
    refine ⟨⟨none, hl, fun j hj ↦ ?_, fun k p hp _ ↦ ?_, fun k hk ↦ ?_, ?_, ?_⟩, ?_⟩
    · change j ∈ t.runtime.memory.started at hj
      rw [hm] at hj
      exact hs.started j hj
    · dsimp only at hp
      rw [htasks] at hp
      by_cases hk : k = i
      · subst hk
        rw [List.getElem?_set_self hlt] at hp
        exact Option.some.inj hp ▸ hn
      · refine (hs.tasks k p (hne hp hk) ?_).later hl
        exact fun h ↦ hk (Option.some.inj h).symm
    · cases hk
    · have hb := hs.balance
      change (t.runtime.memory.held.lookup c).isSome.toNat + _ + t.runtime.memory.releasesOf c = 1
      rw [hm, register_held]
      change _ + _ + List.countP _ (_ :: _) = 1
      rw [List.countP_cons_of_pos (by simp [Event.releases, Operation.connection?])]
      change _ + 1 + s.memory.trace.countP _ = 1 at hb
      simp only [Option.isSome_none, Bool.toNat_false]
      omega
    · change t.runtime.memory.commitsOf c = cs
      rw [hm]
      exact hs.commits
    · rw [hm]
      refine .register (fun hlocked ↦ ?_) _ _
      cases hlocked

theorem step (hh : h.Plain) (hr : h.Returns) (hs : s.Custody c cs due)
    (hstep : s.Step h (Job.run x) s') :
    (∃ due, s'.Custody c cs due) ∧ s.memory.Later c s'.memory := by
  cases hstep with
  | gather => exact ⟨⟨due, hs.gather x⟩, id, fun _ ↦ rfl⟩
  | @task _ i ht =>
    obtain ⟨q, t, hq, hturn, rfl⟩ := Runtime.turn_eq_some ht
    by_cases hi : due = some i
    · subst hi
      obtain ⟨q', hq', hd⟩ := hs.pending i rfl
      obtain rfl := Option.some.inj (hq.symm.trans hq')
      exact hs.dueTurn hh hq hd hturn
    · obtain ⟨⟨due', hc⟩, hf, hn⟩ := hs.tend hh hr (hs.tasks i q hq hi) hturn
      refine ⟨⟨due', hc.resume (fun hi' ↦ ?_) hn⟩, hf.toLater⟩
      obtain ⟨q', hq', hd⟩ := hc.pending i hi'
      obtain rfl := Option.some.inj ((hf.task hq).symm.trans hq')
      exact hd.not_tends hs.leased (hs.tasks i q hq hi)

end Runtime.Custody

theorem Operation.Returns.not_panic {o : Operation} {r : Outcome o.Answer} (hr : o.Returns c r) :
    Outcome.isPanic r = false := by
  cases o with
  | lease b => exact hr.1
  | _ => exact hr

theorem Runtime.Follows.attended (hf : s₀.Follows c s) (hs : s₀.memory.Attended c) :
    s.memory.Attended c := by
  obtain hn | ⟨j, hj, he⟩ := hs
  · exact .inl fun hm ↦ hn (hf.holds hm)
  · exact .inr ⟨j, hf.started.subset hj, he⟩

def Suspended.Owes (c : Nat) (D : List Job → Prop) (Q : α → Prop) : Suspended α → Prop
  | done a => Q a
  | ready js p => D js ∧ p.Owes c D Q
  | asked _ js k => D js ∧ ∀ r, Outcome.isPanic r = false → (k r).Owes c D Q
  | waiting _ js k => D js ∧ ∀ r, (k r).Owes c D Q

section

variable {commits : Prop} {D : List Job → Prop} {Q : α → List Event → Memory → Prop} {R : α → Prop}
  {l : List Event} {cs : List Event → List Event}

theorem Action.Owes.proceed (hh : h.Plain)
    (hu : ∀ s₀ : Runtime σ, (Conduct.custody c commits).Upholds h (Job.run x)
      fun l s ↦ (∃ due, s.Custody c (cs l) due) ∧ s₀.Follows c s)
    {p : Action α} (hp : p.Obeys (.custody c commits) Q none l s.memory)
    (hs : ∃ due, s.Custody c (cs l) due) (ho : p.Owes c D R) :
    (p.proceed h (Job.run x) s).next.Owes c D R ∨
      (p.proceed h (Job.run x) s).runtime.memory.Attended c := by
  -- What is attended to stays so to the end of the turn.
  have hkept : ∀ {s : Runtime σ} {p : Action α}, p.Obeys (.custody c commits) Q none l s.memory →
      (∃ due, s.Custody c (cs l) due) → s.memory.Attended c →
      (p.proceed h (Job.run x) s).runtime.memory.Attended c :=
    fun hp hs hatt ↦ (hp.proceed hh (hu _) ⟨hs, .refl c _⟩).kept.2.attended hatt
  induction p generalizing s with
  | done a => exact .inl ho
  | memory f k ih =>
    by_cases hatt : s.memory.Attended c
    · exact .inr (hkept hp hs hatt)
    rw [Memory.Attended, not_or, not_not] at hatt
    obtain ⟨hc, hk⟩ | ⟨j, hj, hk⟩ := hp
    · have hs' := ((hu s).calm ⟨hs, .refl c s⟩ hc).1
      obtain ⟨due, hcust⟩ := hs
      obtain hatt' | hk' := ho s.memory hcust.leased.2 hatt.1
      · exact .inr (hkept (s := s.withMemory (f s.memory)) hk hs' hatt')
      · exact ih _ hk hs' hk'
    · obtain ⟨js, k', hw, -⟩ := hk.exists_wait
      refine .inr (.inl ?_)
      rw [Action.proceed, hw]
      change ¬(f s.memory).Holds c
      rw [hj.2.1]
      exact not_holds_letGo c s.memory
  | operation o js k ih =>
    unfold Action.proceed
    split
    · rename_i hl
      obtain ⟨hask, -⟩ := hp.2 _ (Conduct.meets_self fun hn ↦ absurd hl (by rw [hn]; simp))
      obtain ⟨hans, -⟩ := (hu s).act ⟨hs, .refl c s⟩ hask
      exact .inl ⟨ho.1, ho.2 _ hans.not_panic⟩
    · exact .inl ho
  | wait w js k ih =>
    cases w with
    | task j => exact .inl ⟨ho.1, fun r ↦ ho.2 r trivial⟩
    | idle | access d => exact .inl ⟨ho.1, ho.2 _ rfl⟩

theorem Suspended.Owes.turn (hh : h.Plain)
    (hu : ∀ s₀ : Runtime σ, (Conduct.custody c commits).Upholds h (Job.run x)
      fun l s ↦ (∃ due, s.Custody c (cs l) due) ∧ s₀.Follows c s)
    {q : Suspended α} (hq : q.Obeys (.custody c commits) Q l s.memory)
    (hs : ∃ due, s.Custody c (cs l) due) (ho : q.Owes c D R) {t : Turn σ α}
    (ht : q.turn h (Job.run x) s = some t) : t.next.Owes c D R ∨ t.runtime.memory.Attended c := by
  have hrely := (hu s).rely ⟨hs, .refl c s⟩
  cases q with
  | done a => cases ht
  | ready js p =>
    cases ht
    exact ho.2.proceed hh hu (hq.2 _ hrely) hs
  | asked o js k =>
    obtain ⟨hl, hjs, hk⟩ := hq
    obtain ⟨hask, hk⟩ := hk s.memory (Conduct.meets_self fun _ ↦ hrely)
    obtain ⟨hans, hs', -⟩ := (hu s).act ⟨hs, .refl c s⟩ hask
    have hr := ho.2 _ hans.not_panic
    unfold Suspended.turn at ht
    dsimp only at ht
    split at ht
    · cases ht
      refine hr.proceed (s := (s.perform h o).2) (Q := Q) hh hu ?_ hs'
      have hrely' := (hu _).rely ⟨hs', .refl c _⟩
      rw [Runtime.memory_perform hh] at hrely' ⊢
      exact hk _ _ _ (Runtime.answers_perform hh o s) hans hrely'
    · cases ht
      exact .inl ⟨ho.1, hr⟩
  | waiting i js k =>
    unfold Suspended.turn at ht
    dsimp only at ht
    split at ht
    · cases ht
      exact (ho.2 _).proceed hh hu (hq.2 _ _ hrely) hs
    · cases ht

end

def Runtime.Attended (c : Nat) (s : Runtime σ) : Prop :=
  s.memory.Attended c ∨
    ∃ (i : Nat) (q : Suspended (Outcome Unit)), s.tasks[i]? = some q ∧
      q.Owes c Action.Owes.Never fun _ ↦ False

namespace Runtime

theorem Custody.not_holds {i : Nat} (hs : s.Custody c cs (some i)) : ¬s.memory.Holds c := by
  intro hh
  have hb := hs.balance
  rw [hh] at hb
  simp at hb
  omega

theorem Custody.releases_le (hs : s.Custody c cs due) : s.memory.releasesOf c ≤ 1 := by
  have hb := hs.balance
  omega

theorem Attended.follows (hs : s.Attended c) (hf : s.Follows c s') : s'.Attended c := by
  obtain hm | ⟨i, q, hi, hq⟩ := hs
  · exact .inl (hf.attended hm)
  · exact .inr ⟨i, q, hf.task hi, hq⟩

theorem Attended.step (hh : h.Plain) (hr : h.Returns) (hs : s.Custody c cs due)
    (ha : s.Attended c) (hstep : s.Step h (Job.run x) s') : s'.Attended c := by
  cases hstep with
  | gather =>
    obtain (hn | ⟨j, hj, he⟩) | ⟨i, q, hi, hq⟩ := ha
    · exact .inl (.inl hn)
    · have hmem : Suspended.start (j.run x).run ∈ (s.gather (Job.run x)).tasks :=
        List.mem_append_right _ (List.mem_map_of_mem hj)
      obtain ⟨i, hi⟩ := List.mem_iff_getElem?.1 hmem
      exact .inr ⟨i, _, hi, trivial, he.owes x⟩
    · refine .inr ⟨i, q, ?_, hq⟩
      exact (List.getElem?_append_left (List.getElem?_eq_some_iff.1 hi).1).trans hi
  | @task _ i ht =>
    obtain ⟨q, t, hi, hturn, rfl⟩ := Runtime.turn_eq_some ht
    by_cases hdue : due = some i
    · subst hdue
      have hlater := (hs.step hh hr (.task ht)).2
      exact .inl (.inl fun hm ↦ hs.not_holds (hlater.holds hm))
    · have hq := hs.tasks i q hi hdue
      obtain ⟨-, hf, -⟩ := hs.tend hh hr hq hturn
      obtain hm | ⟨k, p, hk, hp⟩ := ha
      · exact .inl (hf.attended hm)
      · have hset : ∀ k', (t.runtime.tasks.set i t.next)[k']? =
            if i = k' then some t.next else t.runtime.tasks[k']? := by
          intro k'
          rw [List.getElem?_set]
          split
          · subst k'
            rw [if_pos (List.getElem?_eq_some_iff.1 (hf.task hi)).1]
          · rfl
        by_cases hik : i = k
        · subst hik
          obtain rfl := Option.some.inj (hi.symm.trans hk)
          obtain ⟨l, hobeys⟩ := hq
          have hup := Conduct.custody_false_upholds (c := c) hh hr x cs
          obtain hn | hm := hp.turn hh hup hobeys ⟨due, hs⟩ hturn
          · exact .inr ⟨i, t.next, by rw [hset, if_pos rfl], hn⟩
          · exact .inl hm
        · exact .inr ⟨k, p, by rw [hset, if_neg hik]; exact hf.task hk, hp⟩

/-- All is in order without the action in the foreground: the tasks bring the connection back. -/
structure Orderly (c : Nat) (cs : List Event) (s : Runtime σ) : Prop where
  custody : ∃ due, s.Custody c cs due
  attended : s.Attended c
  linked : s.Linked

namespace Orderly

theorem steps (hh : h.Plain) (hr : h.Returns) (hs : s.Orderly c cs)
    (hsteps : Relation.ReflTransGen (Runtime.Step h (Job.run x)) s s') :
    s'.Orderly c cs ∧ s.memory.Later c s'.memory := by
  induction hsteps with
  | refl => exact ⟨hs, .refl c _⟩
  | tail _ hstep ih =>
    obtain ⟨⟨⟨due, hc⟩, ha, hl⟩, hlater⟩ := ih
    obtain ⟨hc', hlater'⟩ := hc.step hh hr hstep
    exact ⟨⟨hc', ha.step hh hr hc hstep, (hl.step hstep).1⟩, hlater.trans hlater'⟩

theorem released (hs : s.Orderly c cs) (hq : s.Quiet h (Job.run x)) :
    s.memory.releasesOf c = 1 := by
  obtain ⟨⟨due, hc⟩, ha, hl⟩ := hs
  have hdue : due = none := by
    cases due with
    | none => rfl
    | some i =>
      obtain ⟨q, hi, hd⟩ := hc.pending i rfl
      have hdone := hl.isDone hq hi
      cases hd <;> cases hdone
  have hn : ¬s.memory.Holds c := by
    obtain (hn | ⟨j, hj, -⟩) | ⟨i, q, hi, ho⟩ := ha
    · exact hn
    · rw [hq.1] at hj
      cases hj
    · have hdone := hl.isDone hq hi
      cases q with
      | done r => exact ho.elim
      | ready _ _ | asked _ _ _ | waiting _ _ _ => cases hdone
  have hb := hc.balance
  rw [hdue, Bool.eq_false_iff.2 hn] at hb
  simpa using hb

end Orderly

end Runtime

/-- What holds while the action in the foreground is in charge of the connection, after operations
that left the events `l`. -/
structure Charge (c : Nat) (l : List Event) (q : Suspended α) (s : Runtime σ) : Prop where
  obeys : q.Obeys (.custody c True) (fun _ _ _ ↦ True) l s.memory
  custody : ∃ due, s.Custody c (l.filter (Event.commits c)) due
  attended : s.Attended c ∨ q.Owes c (Heir c) fun _ ↦ False
  linked : s.Linked
  waits : q.Linked s

namespace Charge

variable {l es : List Event} {q q' : Suspended α}

theorem upholds (hh : h.Plain) (hr : h.Returns) (x : Context) (s₀ : Runtime σ) :
    (Conduct.custody c True).Upholds h (Job.run x) fun l s ↦
      (∃ due, s.Custody c (l.filter (Event.commits c)) due) ∧ s₀.Follows c s :=
  Conduct.custody_upholds hh hr x (fun _ _ _ ↦ List.filter_append ..) s₀

theorem turn (hh : h.Plain) (hr : h.Returns) (hq : Charge c l q s) {t : Turn σ α}
    (ht : q.turn h (Job.run x) s = some t) :
    Charge c (l ++ t.events) t.next t.runtime ∧ s.memory.Later c t.runtime.memory := by
  obtain ⟨hn, hc, hf⟩ := hq.obeys.turn hh (upholds hh hr x s) ⟨hq.custody, .refl c s⟩ ht
  have hl := Suspended.turn_linked ht
  refine ⟨⟨hn, hc, ?_, hq.linked.turn hl, fun k hk ↦ (hl.awaits k hk).2⟩, hf.toLater⟩
  obtain ha | ho := hq.attended
  · exact .inl (ha.follows hf)
  · exact (ho.turn hh (upholds hh hr x) hq.obeys hq.custody ht).symm.imp_left .inl

theorem background (hh : h.Plain) (hr : h.Returns) (hq : Charge c l q s)
    (hstep : s.Step h (Job.run x) s') : Charge c l q s' ∧ s.memory.Later c s'.memory := by
  obtain ⟨hobeys, ⟨due, hc⟩, ha, hl, hw⟩ := hq
  obtain ⟨⟨due', hc'⟩, hlater⟩ := hc.step hh hr hstep
  obtain ⟨hl', hle⟩ := hl.step hstep
  exact ⟨⟨hobeys.later (fun _ _ _ _ _ _ ↦ trivial) hc'.leased, ⟨due', hc'⟩,
    ha.imp_left fun ha ↦ ha.step hh hr hc hstep, hl',
    fun k hk ↦ Nat.lt_of_lt_of_le (hw k hk) hle⟩, hlater⟩

theorem reaches (hh : h.Plain) (hr : h.Returns) (hq : Charge c l q s)
    (hreach : Reaches h (Job.run x) q s es q' s') :
    Charge c (l ++ es) q' s' ∧ s.memory.Later c s'.memory := by
  induction hreach with
  | refl => simpa using ⟨hq, Memory.Later.refl c _⟩
  | turn _ ht ih =>
    obtain ⟨hc, hlater⟩ := ih.1.turn hh hr ht
    rw [← List.append_assoc]
    exact ⟨hc, ih.2.trans hlater⟩
  | background _ hstep ih =>
    obtain ⟨hc, hlater⟩ := ih.1.background hh hr hstep
    exact ⟨hc, ih.2.trans hlater⟩

theorem dropped (hq : Charge c l q s) :
    (s.orphaned q.orphans).Orderly c (l.filter (Event.commits c)) ∧
      s.memory.Later c (s.orphaned q.orphans).memory := by
  obtain ⟨hobeys, ⟨due, hc⟩, ha, hl, -⟩ := hq
  have hm : (s.orphaned q.orphans).memory =
      { s.memory with started := s.memory.started ++ q.orphans } :=
    foldl_start hc.leased.2 q.orphans
  have hjs : ∀ j ∈ q.orphans, j.Cleans c := by
    cases q with
    | done a => nofun
    | ready js p => exact hobeys.1
    | asked o js k => exact hobeys.2.1
    | waiting i js k => exact hobeys.1
  have hu : s.memory.Untouched c (s.orphaned q.orphans).memory := by
    rw [hm]
    exact ⟨rfl, rfl, Iff.rfl, rfl, q.orphans, rfl, hjs⟩
  refine ⟨⟨⟨due, hc.untouched hu⟩, ?_, hl⟩, .untouched hu⟩
  obtain ha | ho := ha
  · exact ha.follows ⟨.untouched hu, by rw [hm]; exact List.prefix_append _ _, List.prefix_rfl⟩
  · have heir : Heir c q.orphans → (s.orphaned q.orphans).Attended c := by
      rintro ⟨j, hj, he⟩
      refine .inl (.inr ⟨j, ?_, he⟩)
      rw [hm]
      exact List.mem_append_right _ hj
    cases q with
    | done a => exact ho.elim
    | ready js p => exact heir ho.1
    | asked o js k => exact heir ho.1
    | waiting i js k => exact heir ho.1

end Charge

end BoundSql
