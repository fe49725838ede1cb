import BoundSql.Proofs.Scope.Leasing

namespace BoundSql

open Memory

variable {σ α β : Type} {h : Host σ} {x : Context} {b c : Nat} {s s₀ s₁ s' : Runtime σ}
  {es es' l : List Event} {jobs : Job → Call Unit}

/-- Where an action gets to that may be dropped wherever it is; there is nothing left of it then. -/
inductive MayDrop (h : Host σ) (jobs : Job → Call Unit) (q₀ : Option (Suspended α))
    (s₀ : Runtime σ) : List Event → Option (Suspended α) → Runtime σ → Prop
  | refl : MayDrop h jobs q₀ s₀ [] q₀ s₀
  | turn {es : List Event} {q : Suspended α} {s : Runtime σ} {t : Turn σ α}
    (hr : MayDrop h jobs q₀ s₀ es (some q) s) (ht : q.turn h jobs s = some t) :
    MayDrop h jobs q₀ s₀ (es ++ t.events) (some t.next) t.runtime
  | background {es : List Event} {q : Option (Suspended α)} {s s' : Runtime σ}
    (hr : MayDrop h jobs q₀ s₀ es q s) (hs : s.Step h jobs s') : MayDrop h jobs q₀ s₀ es q s'
  | drop {es : List Event} {q : Suspended α} {s : Runtime σ}
    (hr : MayDrop h jobs q₀ s₀ es (some q) s) :
    MayDrop h jobs q₀ s₀ es none (s.orphaned q.orphans)

namespace MayDrop

theorem of_reaches {q₀ q : Suspended α} (hr : Reaches h jobs q₀ s₀ es q s) :
    MayDrop h jobs (some q₀) s₀ es (some q) s := by
  induction hr with
  | refl => exact .refl
  | turn _ ht ih => exact ih.turn ht
  | background _ hs ih => exact ih.background hs

theorem later {q₀ q : Option (Suspended α)} (hr : MayDrop h jobs q₀ s₀ es q s)
    (hs : Relation.ReflTransGen (Runtime.Step h jobs) s s') : MayDrop h jobs q₀ s₀ es q s' := by
  induction hs with
  | refl => exact hr
  | tail _ hs ih => exact ih.background hs

theorem cases {q₀ : Suspended α} {q : Option (Suspended α)}
    (hr : MayDrop h jobs (some q₀) s₀ es q s) :
    (∃ q', q = some q' ∧ Reaches h jobs q₀ s₀ es q' s) ∨
      ∃ q' s₁, q = none ∧ Reaches h jobs q₀ s₀ es q' s₁ ∧
        Relation.ReflTransGen (Runtime.Step h jobs) (s₁.orphaned q'.orphans) s := by
  induction hr with
  | refl => exact .inl ⟨q₀, rfl, .refl⟩
  | turn _ ht ih =>
    obtain ⟨q', hq, hr⟩ | ⟨q', s₁, hq, -⟩ := ih
    · cases hq
      exact .inl ⟨_, rfl, hr.turn ht⟩
    · cases hq
  | background _ hs ih =>
    obtain ⟨q', hq, hr⟩ | ⟨q', s₁, hq, hr, hs₁⟩ := ih
    · exact .inl ⟨q', hq, hr.background hs⟩
    · exact .inr ⟨q', s₁, hq, hr, hs₁.tail hs⟩
  | drop _ ih =>
    obtain ⟨q', hq, hr⟩ | ⟨q', s₁, hq, -⟩ := ih
    · cases hq
      exact .inr ⟨_, _, rfl, hr, .refl⟩
    · cases hq

end MayDrop

/-- The connection has been released, or somebody has asked for that. -/
def Runtime.Handed (c : Nat) (q : Option (Suspended α)) (s : Runtime σ) : Prop :=
  0 < s.memory.releasesOf c ∨ (∃ p, q = some p ∧ p.Releasing c) ∨ ∃ p ∈ s.tasks, p.Releasing c

/-- What holds of a leased connection wherever a call gets to whose operations left the events `es`,
whether it is dropped there or not. -/
structure ReleasesOnce (h : Host σ) (x : Context) (b c : Nat) (es : List Event)
    (q : Option (Suspended α)) (s : Runtime σ) : Prop where
  once : s.memory.releasesOf c ≤ 1
  last : s.Handed c q → ∀ {es' q' s'}, MayDrop h (Job.run x) q s es' q' s' →
    s'.memory.usesOf c = s.memory.usesOf c
  /-- When nobody can go on, the call is done or dropped, and it is back in its pool. -/
  back : s.Quiet h (Job.run x) → (∀ p, q = some p → p.turn h (Job.run x) s = none) →
    (∀ p, q = some p → p.isDone) ∧
      (.operation (.lease b) c .done ∈ es → s.memory.releasesOf c = 1)
  commits : s.memory.commitsOf c = es.filter (Event.commits c)

def Cared (c : Nat) (l : List Event) : Option (Suspended α) → Runtime σ → Prop
  | some q, s => Charge c l q s
  | none, s => s.Orderly c (l.filter (Event.commits c))

namespace Cared

variable {q q' : Option (Suspended α)}

theorem custody (hq : Cared c l q s) : ∃ due, s.Custody c (l.filter (Event.commits c)) due := by
  cases q with
  | some q => exact hq.custody
  | none => exact hq.custody

theorem reaches (hh : h.Plain) (hr : h.Returns) (hq : Cared c l q s)
    (hreach : MayDrop h (Job.run x) q s es q' s') :
    Cared c (l ++ es) q' s' ∧ s.memory.Later c s'.memory := by
  induction hreach with
  | refl => exact ⟨(List.append_nil l).symm ▸ hq, .refl c _⟩
  | turn _ ht ih =>
    obtain ⟨hc, hlater⟩ := Charge.turn hh hr ih.1 ht
    exact ⟨(List.append_assoc ..) ▸ hc, ih.2.trans hlater⟩
  | @background _ q _ _ _ hs ih =>
    cases q with
    | some q =>
      obtain ⟨hc, hlater⟩ := Charge.background hh hr ih.1 hs
      exact ⟨hc, ih.2.trans hlater⟩
    | none =>
      obtain ⟨hc, hlater⟩ := Runtime.Orderly.steps hh hr ih.1 (.single hs)
      exact ⟨hc, ih.2.trans hlater⟩
  | drop _ ih =>
    obtain ⟨hc, hlater⟩ := Charge.dropped ih.1
    exact ⟨hc, ih.2.trans hlater⟩

theorem not_holds (hq : Cared c l q s) (hs : s.Handed c q) : ¬s.memory.Holds c := by
  obtain ⟨due, hc⟩ := hq.custody
  obtain hpos | ⟨p, rfl, b, js, k, rfl⟩ | ⟨p, hp, b, js, k, rfl⟩ := hs
  · intro hm
    have hb := hc.balance
    rw [hm] at hb
    simp only [Bool.toNat_true] at hb
    omega
  · have hasks := (hq.obeys.2.2 s.memory hc.leased).1
    exact (hasks.1 b rfl).elim
  · obtain ⟨i, hi⟩ := List.mem_iff_getElem?.1 hp
    by_cases hdue : due = some i
    · subst hdue
      exact hc.not_holds
    · obtain ⟨l, hobeys⟩ := hc.tasks i _ hi hdue
      exact ((hobeys.2.2 s.memory hc.leased).1.1 b rfl).elim

theorem releasesOnce (hh : h.Plain) (hr : h.Returns) (hq : Cared c es q s) :
    ReleasesOnce h x b c es q s := by
  obtain ⟨due, hc⟩ := hq.custody
  refine ⟨hc.releases_le, fun hs _ _ _ hreach ↦ ?_, fun hquiet hstuck ↦ ?_, hc.commits⟩
  · exact (hq.reaches hh hr hreach).2.uses (hq.not_holds hs)
  · cases q with
    | none => exact ⟨nofun, fun _ ↦ Runtime.Orderly.released hq hquiet⟩
    | some p =>
      have hdone := hq.linked.isDone_of_turn hquiet hq.waits (hstuck p rfl)
      refine ⟨fun p' hp ↦ Option.some.inj hp ▸ hdone, fun _ ↦ ?_⟩
      have hord := hq.dropped.1
      cases p with
      | done a => exact hord.released hquiet
      | ready _ _ | asked _ _ _ | waiting _ _ _ => cases hdone

end Cared

theorem Connectionless.releasesOnce {q : Suspended α} (hq : Connectionless b c es q s)
    {q' : Option (Suspended α)} (hq' : ∀ p, q' = some p → p = q) :
    ReleasesOnce h x b c es q' s := by
  refine ⟨by simp [hq.released], fun hs ↦ ?_, fun _ hstuck ↦ ⟨fun p hp ↦ ?_, fun hmem ↦ ?_⟩, ?_⟩
  · obtain hpos | ⟨p, hp, hrel⟩ | ⟨p, hp, -⟩ := hs
    · rw [hq.released] at hpos
      cases hpos
    · exact (hq.releasing (hq' p hp ▸ hrel)).elim
    · rw [hq.idle.tasks] at hp
      cases hp
  · refine Suspended.isDone_of_turn (hstuck p hp) fun i hi ↦ ?_
    rw [hq' p hp, hq.awaits] at hi
    cases hi
  · obtain ⟨st, hst, he⟩ := hq.events _ hmem
    cases he
    exact (hst rfl).elim
  · rw [hq.commits, eq_comm, List.filter_eq_nil_iff]
    intro e he
    obtain ⟨st, -, rfl⟩ := hq.events e he
    exact Bool.false_ne_true

def Accounted (b c : Nat) (es : List Event) (q : Suspended α) (s : Runtime σ) : Prop :=
  Connectionless b c es q s ∨ Charge c es q s

namespace Accounted

variable {p p' : Action α} {q : Suspended α}

theorem releasesOnce (hh : h.Plain) (hr : h.Returns)
    (hp : ∀ {es q s}, Reaches h (Job.run x) (.start p) s₀ es q s → Accounted b c es q s)
    {q : Option (Suspended α)} (hreach : MayDrop h (Job.run x) (some (.start p)) s₀ es q s) :
    ReleasesOnce h x b c es q s := by
  obtain ⟨q', rfl, hkept⟩ | ⟨q', s₁, rfl, hdropped, hsteps⟩ := hreach.cases
  · obtain hn | hc := hp hkept
    · exact hn.releasesOnce fun p hp ↦ (Option.some.inj hp).symm
    · exact Cared.releasesOnce (q := some q') hh hr hc
  · obtain hn | hc := hp hdropped
    · have hsame : s₁.orphaned q'.orphans = s₁ := by
        rw [hn.orphans]
        rfl
      rw [hsame] at hsteps
      obtain rfl := hn.idle.steps hsteps
      exact hn.releasesOnce nofun
    · obtain ⟨hord, -⟩ := hc.dropped.1.steps hh hr hsteps
      exact Cared.releasesOnce (q := none) hh hr hord

theorem start (hs : s₀.Fresh c) (p : Action α) : Accounted b c [] (.start p) s₀ :=
  .inl ⟨hs.toIdle, hs.releasesOf, hs.commitsOf, nofun, rfl, rfl, nofun⟩

theorem done (hs : s₀.Fresh c) {a : α}
    (hr : Reaches h (Job.run x) (.start (.done a)) s₀ es q s) : Accounted b c es q s := by
  have hq : (q = .start (.done a) ∨ q = .done a) ∧ es = [] ∧ s = s₀ := by
    induction hr with
    | refl => exact ⟨.inl rfl, rfl, rfl⟩
    | turn _ ht ih =>
      obtain ⟨rfl | rfl, rfl, rfl⟩ := ih
      · rw [← Option.some.inj ht]
        exact ⟨.inr rfl, rfl, rfl⟩
      · cases ht
    | background _ hstep ih => exact ⟨ih.1, ih.2.1, hs.toIdle.step (ih.2.2 ▸ hstep)⟩
  obtain ⟨rfl | rfl, rfl, rfl⟩ := hq
  · exact start hs _
  · exact .inl ⟨hs.toIdle, hs.releasesOf, hs.commitsOf, nofun, rfl, rfl, nofun⟩

end Accounted

/-- While nothing goes on in the background, what an action does depends on its first turn alone. -/
theorem Reaches.of_proceed_eq (hs : s₀.Idle) {p p' : Action α}
    (hp : p.proceed h jobs s₀ = p'.proceed h jobs s₀) {q : Suspended α}
    (hr : Reaches h jobs (.start p) s₀ es q s) :
    Reaches h jobs (.start p') s₀ es q s ∨ q = .start p ∧ es = [] ∧ s = s₀ := by
  induction hr with
  | refl => exact .inr ⟨rfl, rfl, rfl⟩
  | turn _ ht ih =>
    obtain hr' | ⟨rfl, rfl, rfl⟩ := ih
    · exact .inl (hr'.turn ht)
    · rw [← Option.some.inj ht, hp]
      exact .inl (.turn .refl rfl)
  | background _ hstep ih =>
    obtain hr' | ⟨rfl, rfl, he⟩ := ih
    · exact .inl (hr'.background hstep)
    · exact .inr ⟨rfl, rfl, hs.step (he ▸ hstep)⟩

theorem Accounted.of_rendering (hs : s₀.Fresh c) {f : Bound} {args : Arguments}
    {k : Template.Rendered → Call α} {q : Suspended (Outcome α)}
    (hr : Reaches h (Job.run x) (.start (f.render args >>= k).run) s₀ es q s) :
    (∃ r, Reaches h (Job.run x) (.start (k r).run) s₀ es q s) ∨
      es = [] ∧ Accounted b c es q s ∧ ∀ a, q ≠ .done (.ok a) := by
  have hfirst : (f.render args >>= k).run.proceed h (Job.run x) s₀ = _ :=
    f.proceed_render_bind args k s₀
  generalize f.rendering s₀.memory args = r at hfirst
  obtain hr | ⟨rfl, rfl, rfl⟩ := hr.of_proceed_eq hs.toIdle hfirst
  · cases r with
    | ok r => exact .inl ⟨r, hr⟩
    | error e =>
      refine .inr ⟨hr.of_done.1, done hs hr, ?_⟩
      rintro a rfl
      cases hr.of_done.2.2 _ rfl
  · exact .inr ⟨rfl, start hs _, nofun⟩

end BoundSql
