import BoundSql.Proofs.Effect.Together
import BoundSql.Proofs.Scope.Custody
import BoundSql.Proofs.Scope.Fetching

namespace BoundSql

open Memory

variable {σ α β : Type} {x : Context} {S : Async.Scopes} {b c t u : Nat} {m m' : Memory} {l : List Event}

namespace Memory

/-- The active connections of a thread, by binder. -/
def activeOn (t : Nat) (m : Memory) : Async.Scopes :=
  m.active.filterMap fun p ↦ if p.1.1 = t then some (p.1.2, p.2) else none

theorem lookup_activeOn (t b : Nat) (m : Memory) :
    (m.activeOn t).lookup b = m.active.lookup (t, b) := by
  unfold activeOn
  induction m.active with
  | nil => rfl
  | cons p l ih =>
    obtain ⟨⟨u, d⟩, c⟩ := p
    by_cases hu : u = t
    · subst hu
      by_cases hd : b = d
      · subst hd
        simp
      · have hb : (b == d) = false := by simpa using hd
        have hp : ((u, b) == (u, d)) = false := by simpa using hd
        simp [List.lookup_cons, hb, hp, ih]
    · have hp : ((t, b) == (u, d)) = false := by
        simpa using fun h : t = u ↦ (hu h.symm).elim
      simp [List.lookup_cons, hp, hu, ih]

theorem activeOn_deactivate (t b : Nat) (m : Memory) :
    (m.deactivate t b).activeOn t = eraseKey b (m.activeOn t) := by
  unfold activeOn deactivate eraseKey
  induction m.active with
  | nil => rfl
  | cons p l ih =>
    obtain ⟨⟨u, d⟩, c⟩ := p
    by_cases hu : u = t
    · by_cases hd : d = b
      · simp_all
      · simp_all
    · simp_all

theorem activeOn_deactivate_of_ne (hu : u ≠ t) (b : Nat) (m : Memory) :
    (m.deactivate t b).activeOn u = m.activeOn u := by
  unfold activeOn deactivate eraseKey
  induction m.active with
  | nil => rfl
  | cons p l ih =>
    obtain ⟨⟨v, d⟩, c⟩ := p
    rw [List.filter_cons]
    split
    · rw [List.filterMap_cons, List.filterMap_cons, ih]
    · have hv : v ≠ u := by
        rintro rfl
        simp_all
      rw [List.filterMap_cons, if_neg hv, ih]

theorem activeOn_activate (hn : (m.activeOn t).lookup b = none) (c : Nat) :
    (m.activate t b c).activeOn t = (b, c) :: m.activeOn t := by
  have hd : (m.deactivate t b).activeOn t = m.activeOn t := by
    rw [activeOn_deactivate, eraseKey_of_lookup hn]
  have hcons : (m.activate t b c).activeOn t = (b, c) :: (m.deactivate t b).activeOn t := by
    simp [activeOn, activate, deactivate, setKey]
  rw [hcons, hd]

theorem activeOn_activate_of_ne (hu : u ≠ t) (b c : Nat) (m : Memory) :
    (m.activate t b c).activeOn u = m.activeOn u := by
  have hcons : (m.activate t b c).activeOn u = (m.deactivate t b).activeOn u := by
    simp [activeOn, activate, deactivate, setKey, Ne.symm hu]
  rw [hcons, activeOn_deactivate_of_ne hu]

end Memory

namespace Context

def thread? (x : Context) : Option Nat :=
  match x.mode with
  | .blocking => some x.thread
  | .async => none

/-- The open scopes that calls in the context join are these. -/
def Live (x : Context) (S : Async.Scopes) (m : Memory) : Prop :=
  match x.mode with
  | .blocking => m.activeOn x.thread = S
  | .async => x.scopes = S

theorem Live.of_active (hm : x.Live S m) (ha : m'.active = m.active) : x.Live S m' := by
  unfold Live at hm ⊢
  split
  · simp_all [activeOn]
  · simp_all

end Context

def Operation.isWork : Operation → Bool
  | .execute _ _ _ | .query _ _ _ | .fetch _ _ _ | .commit _ => true
  | _ => false

/-- No connection has been leased, nothing has been asked of one, and the active connections of other
threads are as they were. -/
structure Memory.Aloof (t : Option Nat) (m m' : Memory) : Prop where
  leases : m'.leases = m.leases
  operations : m'.operations = m.operations
  others : ∀ u, t ≠ some u → m'.activeOn u = m.activeOn u

/-- What others do while the thread waits: they leave its active connections as they are. -/
def Memory.Beside (t : Option Nat) (m m' : Memory) : Prop :=
  m.leases ≤ m'.leases ∧ ∀ u, t = some u → m'.activeOn u = m.activeOn u

/-- What a call does that asks for operations as `asks` allows: it changes the active connections of its
own thread at most, and nobody else changes those. -/
def Conduct.within (t : Option Nat) (asks : List Event → Operation → Prop) : Conduct where
  rely := Memory.Beside t
  rely_trans h h' := ⟨Nat.le_trans h.1 h'.1, fun u hu ↦ (h'.2 u hu).trans (h.2 u hu)⟩
  calm m m' := m.Aloof t m'
  calm_refl _ := ⟨rfl, rfl, fun _ _ ↦ rfl⟩
  asks l _ o := asks l o
  answers o r := t.isSome → ∀ c, o = .rollback c → Outcome.isPanic r = false
  leaves _ := True
  spawns _ := True
  hands _ _ _ := False

def Conduct.during (x : Context) (S : Async.Scopes) (asks : List Event → Operation → Prop) : Conduct where
  rely _ m := x.Live S m
  rely_trans _ := id
  calm m m' := m.Aloof x.thread? m' ∧ (x.Live S m → x.Live S m')
  calm_refl _ := ⟨⟨rfl, rfl, fun _ _ ↦ rfl⟩, id⟩
  asks l _ o := asks l o
  answers o r := x.thread?.isSome → ∀ c, o = .rollback c → Outcome.isPanic r = false
  leaves _ := True
  spawns _ := True
  hands _ _ _ := False

theorem Context.Live.later {asks : List Event → Operation → Prop} (hm : x.Live S m)
    (hr : (Conduct.within x.thread? asks).rely m m') : x.Live S m' := by
  obtain ⟨mode, thread, scopes⟩ := x
  cases mode with
  | blocking => exact (hr.2 thread rfl).trans hm
  | async => exact hm

theorem Action.Obeys.during {asks : List Event → Operation → Prop} {j : Option Job}
    {Q : α → List Event → Memory → Prop} {p : Action α}
    (hp : p.Obeys (.during x S asks) Q j l m) (hm : x.Live S m) :
    p.Obeys (.within x.thread? asks) Q j l m := by
  induction p generalizing j l m with
  | done a => cases j <;> exact hp
  | memory f k ih =>
    cases j with
    | none =>
      obtain ⟨hc, hk⟩ | ⟨j, hj, hk⟩ := hp
      · exact .inl ⟨hc.1, ih m hk (hc.2 hm)⟩
      · exact hj.elim
    | some j => exact hp
  | operation o js k ih =>
    cases j with
    | none =>
      refine ⟨hp.1, fun m₁ hm₁ ↦ ?_⟩
      have hlive : x.Live S m₁ := by
        unfold Conduct.Meets at hm₁
        split at hm₁
        · rw [hm₁]
          exact hm
        · exact hm.later hm₁
      have hmeets : (Conduct.during x S asks).Meets o m m₁ := by
        unfold Conduct.Meets at hm₁ ⊢
        split
        · rwa [if_pos ‹_›] at hm₁
        · exact hlive
      obtain ⟨hask, hk⟩ := hp.2 m₁ hmeets
      refine ⟨hask, fun s r m' hr hans hm' ↦ ?_⟩
      have hm'' : x.Live S m' := (hlive.of_active (register_active ..)).later hm'
      exact ih r (hk s r m' hr hans hm'') hm''
    | some j => exact hp
  | wait w js k ih =>
    cases j with
    | none =>
      refine ⟨hp.1, hp.2.1, fun r m' hr hm' ↦ ?_⟩
      exact ih r (hp.2.2 r m' hr (hm.later hm')) (hm.later hm')
    | some j =>
      refine ⟨hp.1, hp.2.1, fun r m' hm' ↦ ?_⟩
      exact ih r (hp.2.2 r m' (hm.later hm')) (hm.later hm')

theorem Conduct.Keeps.during {asks : List Event → Operation → Prop} {P : α → Prop} {p : Action α}
    (hp : (Conduct.during x S asks).Keeps (x.Live S) P p) :
    (Conduct.within x.thread? asks).Keeps (x.Live S) P p :=
  fun l m hm ↦ (hp l m hm).during hm

theorem Action.Obeys.kept {C : Conduct} {L : List Event → Prop} {j : Option Job}
    {Q : α → List Event → Memory → Prop} {p : Action α} (hp : p.Obeys C Q j l m) (hl : L l)
    (hL : ∀ l l', L l → l <+: l' → L l') : p.Obeys C (fun a l m ↦ Q a l m ∧ L l) j l m := by
  induction p generalizing j l m with
  | done a =>
    cases j with
    | none => exact ⟨hp, hl⟩
    | some j => exact hp
  | memory f k ih =>
    cases j with
    | none =>
      obtain ⟨hc, hk⟩ | ⟨j, hj, hk⟩ := hp
      · exact .inl ⟨hc, ih m hk hl⟩
      · exact .inr ⟨j, hj, ih m hk hl⟩
    | some j => exact hp
  | operation o js k ih =>
    cases j with
    | none =>
      refine ⟨hp.1, fun m₁ hm₁ ↦ ⟨(hp.2 m₁ hm₁).1, fun s r m' hr hans hm' ↦ ?_⟩⟩
      exact ih r ((hp.2 m₁ hm₁).2 s r m' hr hans hm') (hL _ _ hl (List.prefix_append ..))
    | some j => exact hp
  | wait w js k ih =>
    cases j with
    | none => exact ⟨hp.1, hp.2.1, fun r m' hr hm' ↦ ih r (hp.2.2 r m' hr hm') hl⟩
    | some j => exact ⟨hp.1, hp.2.1, fun r m' hm' ↦ ih r (hp.2.2 r m' hm') hl⟩

theorem Action.Obeys.asking {t : Option Nat} {asks asks' : List Event → Operation → Prop}
    {j : Option Job} {Q : α → List Event → Memory → Prop} {p : Action α}
    (hp : p.Obeys (.within t asks') Q j l m) (ha : ∀ l' o, l <+: l' → asks' l' o → asks l' o) :
    p.Obeys (.within t asks) Q j l m := by
  induction p generalizing j l m with
  | done a => cases j <;> exact hp
  | memory f k ih =>
    cases j with
    | none =>
      obtain ⟨hc, hk⟩ | ⟨j, hj, hk⟩ := hp
      · exact .inl ⟨hc, ih m hk ha⟩
      · exact hj.elim
    | some j => exact hp
  | operation o js k ih =>
    cases j with
    | none =>
      refine ⟨hp.1, fun m₁ hm₁ ↦ ⟨ha l o List.prefix_rfl (hp.2 m₁ hm₁).1, fun s r m' hr hans hm' ↦ ?_⟩⟩
      exact ih r ((hp.2 m₁ hm₁).2 s r m' hr hans hm') fun l' o hl ↦
        ha l' o ((List.prefix_append l _).trans hl)
    | some j => exact hp
  | wait w js k ih =>
    cases j with
    | none => exact ⟨hp.1, hp.2.1, fun r m' hr hm' ↦ ih r (hp.2.2 r m' hr hm') ha⟩
    | some j => exact ⟨hp.1, hp.2.1, fun r m' hm' ↦ ih r (hp.2.2 r m' hm') ha⟩

end BoundSql
