import BoundSql.Proofs.Effect.Conduct
import BoundSql.Scope.Async
import Mathlib.Logic.Relation

namespace BoundSql

variable {σ α β : Type} {h : Host σ} {jobs : Job → Call Unit}

def Suspended.bind (f : α → Action β) : Suspended α → Suspended β
  | done a => start (f a)
  | ready js p => ready js (p >>= f)
  | asked o js k => asked o js fun r ↦ k r >>= f
  | waiting i js k => waiting i js fun r ↦ k r >>= f

/-- A turn that goes on with `f` when the action is done. -/
def Turn.bind (h : Host σ) (jobs : Job → Call Unit) (f : α → Action β) (t : Turn σ α) : Turn σ β :=
  match t.next with
  | .done a => ((f a).proceed h jobs t.runtime).after t.events
  | q => { events := t.events, next := q.bind f, runtime := t.runtime }

@[simp]
theorem Turn.after_nil (t : Turn σ α) : t.after [] = t := rfl

theorem Turn.bind_after (f : α → Action β) (es : List Event) (t : Turn σ α) :
    (t.after es).bind h jobs f = (t.bind h jobs f).after es := by
  obtain ⟨es', q, s⟩ := t
  cases q <;> simp [Turn.bind, Turn.after]

theorem Action.proceed_bind (p : Action α) (f : α → Action β) (s : Runtime σ) :
    (p >>= f).proceed h jobs s = (p.proceed h jobs s).bind h jobs f := by
  change (p.bind f).proceed h jobs s = _
  induction p generalizing s with
  | done a => rfl
  | memory g k ih => exact ih _ _
  | operation o js k ih =>
    unfold Action.bind Action.proceed
    split <;> rfl
  | wait t js k ih => cases t <;> rfl

theorem Suspended.turn_bind {q : Suspended α} (hq : q.isDone = false) (f : α → Action β)
    (s : Runtime σ) : (q.bind f).turn h jobs s = (q.turn h jobs s).map (Turn.bind h jobs f) := by
  cases q with
  | done a => cases hq
  | ready js p => exact congrArg some (Action.proceed_bind p f s)
  | asked o js k =>
    unfold Suspended.bind Suspended.turn
    dsimp only
    split
    · rw [Option.map_some, Turn.bind_after, Action.proceed_bind]
    · rfl
  | waiting i js k =>
    unfold Suspended.bind Suspended.turn
    dsimp only
    split
    · rw [Option.map_some, Action.proceed_bind]
    · rfl

theorem Runtime.turn_eq_some {s s' : Runtime σ} {i : Nat} (ht : s.turn h jobs i = some s') :
    ∃ q t, s.tasks[i]? = some q ∧ q.turn h jobs s = some t ∧
      s' = { t.runtime with tasks := t.runtime.tasks.set i t.next } := by
  unfold Runtime.turn at ht
  simp only [Option.bind_eq_bind, Option.bind_eq_some_iff] at ht
  obtain ⟨q, hq, t, ht, he⟩ := ht
  exact ⟨q, t, hq, ht, (Option.some.inj he).symm⟩

namespace Reaches

variable {s₀ s s' : Runtime σ} {es es' : List Event}

theorem trans {q₀ q q' : Suspended α} (hr : Reaches h jobs q₀ s₀ es q s)
    (hr' : Reaches h jobs q s es' q' s') : Reaches h jobs q₀ s₀ (es ++ es') q' s' := by
  induction hr' with
  | refl => simpa using hr
  | turn _ ht ih =>
    rw [← List.append_assoc]
    exact ih.turn ht
  | background _ hs ih => exact ih.background hs

theorem later {q₀ q : Suspended α} (hr : Reaches h jobs q₀ s₀ es q s)
    (hs : Relation.ReflTransGen (Runtime.Step h jobs) s s') : Reaches h jobs q₀ s₀ es q s' := by
  induction hs with
  | refl => exact hr
  | tail _ hs ih => exact ih.background hs

theorem of_follow {schedule : List (Option Nat)} {q q' : Suspended α}
    (hf : q.follow h jobs schedule s = some (es, q', s')) : Reaches h jobs q s es q' s' := by
  induction schedule generalizing q s es with
  | nil =>
    cases hf
    exact .refl
  | cons i rest ih =>
    have hgather : Reaches h jobs q s [] q (s.gather jobs) := Reaches.refl.background (.gather s)
    cases i with
    | none =>
      simp only [Suspended.follow, Option.bind_eq_bind, Option.bind_eq_some_iff] at hf
      obtain ⟨t, ht, ⟨es₂, r⟩, hr, he⟩ := hf
      cases he
      exact (hgather.turn ht).trans (ih hr)
    | some i =>
      simp only [Suspended.follow, Option.bind_eq_bind, Option.bind_eq_some_iff] at hf
      obtain ⟨s₁, hs, hr⟩ := hf
      exact (hgather.background (.task hs)).trans (ih hr)

theorem of_memory {f : Memory → Memory} {a : α} {q : Suspended α}
    (hr : Reaches h jobs (.start (.memory f fun _ ↦ .done a)) s₀ es q s) :
    es = [] ∧ (q.isDone = false ∧ Relation.ReflTransGen (Runtime.Step h jobs) s₀ s ∨
      q = .done a) := by
  have hq : es = [] ∧ (q = .start (.memory f fun _ ↦ .done a) ∧
      Relation.ReflTransGen (Runtime.Step h jobs) s₀ s ∨ q = .done a) := by
    induction hr with
    | refl => exact ⟨rfl, .inl ⟨rfl, .refl⟩⟩
    | turn _ ht ih =>
      obtain ⟨rfl, ⟨rfl, -⟩ | rfl⟩ := ih
      · cases ht
        exact ⟨rfl, .inr rfl⟩
      · cases ht
    | background _ hs ih => exact ⟨ih.1, ih.2.imp_left (And.imp_right (·.tail hs))⟩
  exact ⟨hq.1, hq.2.imp_left (And.imp_left fun h ↦ by rw [h]; rfl)⟩

theorem of_finished {a : α} {q : Suspended α} (hr : Reaches h jobs (.done a) s₀ es q s) :
    q = .done a ∧ es = [] ∧ Relation.ReflTransGen (Runtime.Step h jobs) s₀ s := by
  induction hr with
  | refl => exact ⟨rfl, rfl, .refl⟩
  | turn _ ht ih =>
    obtain ⟨rfl, -⟩ := ih
    cases ht
  | background _ hs ih => exact ⟨ih.1, ih.2.1, ih.2.2.tail hs⟩

theorem of_done {a : α} {q : Suspended α} (hr : Reaches h jobs (.start (.done a)) s₀ es q s) :
    es = [] ∧ Relation.ReflTransGen (Runtime.Step h jobs) s₀ s ∧ ∀ r, q = .done r → r = a := by
  have hq : es = [] ∧ Relation.ReflTransGen (Runtime.Step h jobs) s₀ s ∧
      (q = .start (.done a) ∨ q = .done a) := by
    induction hr with
    | refl => exact ⟨rfl, .refl, .inl rfl⟩
    | turn _ ht ih =>
      obtain ⟨rfl, hs, rfl | rfl⟩ := ih
      · cases ht
        exact ⟨rfl, hs, .inr rfl⟩
      · cases ht
    | background _ hs ih => exact ⟨ih.1, ih.2.1.tail hs, ih.2.2⟩
  refine ⟨hq.1, hq.2.1, ?_⟩
  rintro r rfl
  obtain he | he := hq.2.2 <;> cases he
  rfl

/-- An action of two parts is still in the first one, or in the second one, which has gone on in the
turn in which the first was done. -/
theorem of_bind_turn {p : Action α} {f : α → Action β} {q : Suspended β}
    (hr : Reaches h jobs (.start (p >>= f)) s₀ es q s) :
    (∃ q', Reaches h jobs (.start p) s₀ es q' s ∧ q'.isDone = false ∧ q = q'.bind f) ∨
      ∃ a es₁ es₂ s₁, Reaches h jobs (.start p) s₀ es₁ (.done a) s₁ ∧
        es = es₁ ++ ((f a).proceed h jobs s₁).events ++ es₂ ∧
        Reaches h jobs ((f a).proceed h jobs s₁).next ((f a).proceed h jobs s₁).runtime es₂ q s := by
  induction hr with
  | refl => exact .inl ⟨.start p, .refl, rfl, rfl⟩
  | @turn es q s t _ ht ih =>
    obtain ⟨q', hr, hq, rfl⟩ | ⟨a, es₁, es₂, s₁, hr, rfl, hr'⟩ := ih
    · rw [Suspended.turn_bind hq, Option.map_eq_some_iff] at ht
      obtain ⟨t', ht', rfl⟩ := ht
      have hr' := hr.turn ht'
      obtain ⟨es', q', s'⟩ := t'
      cases q' with
      | done a =>
        refine .inr ⟨a, _, [], _, hr', ?_, .refl⟩
        simp [Turn.bind, Turn.after]
      | ready js p => exact .inl ⟨_, hr', rfl, rfl⟩
      | asked o js k => exact .inl ⟨_, hr', rfl, rfl⟩
      | waiting i js k => exact .inl ⟨_, hr', rfl, rfl⟩
    · exact .inr ⟨a, es₁, _, s₁, hr, List.append_assoc .., hr'.turn ht⟩
  | background _ hs ih =>
    obtain ⟨q', hr, hq⟩ | ⟨a, es₁, es₂, s₁, hr, he, hr'⟩ := ih
    · exact .inl ⟨q', hr.background hs, hq⟩
    · exact .inr ⟨a, es₁, es₂, s₁, hr, he, hr'.background hs⟩

theorem of_bind {p : Action α} {f : α → Action β} {q : Suspended β}
    (hr : Reaches h jobs (.start (p >>= f)) s₀ es q s) :
    (∃ q', Reaches h jobs (.start p) s₀ es q' s ∧ q'.isDone = false ∧ q = q'.bind f) ∨
      ∃ a es₁ es₂ s₁, es = es₁ ++ es₂ ∧ Reaches h jobs (.start p) s₀ es₁ (.done a) s₁ ∧
        Reaches h jobs (.start (f a)) s₁ es₂ q s := by
  obtain hp | ⟨a, es₁, es₂, s₁, hp, rfl, hf⟩ := hr.of_bind_turn
  · exact .inl hp
  · have hstart : Reaches h jobs (.start (f a)) s₁ _ _ _ := Reaches.refl.turn rfl
    exact .inr ⟨a, es₁, _, s₁, List.append_assoc .., hp, hstart.trans hf⟩

theorem of_call_bind {p : Call α} {k : α → Call β} {q : Suspended (Outcome β)}
    (hr : Reaches h jobs (.start (p >>= k).run) s₀ es q s) :
    (∃ q', Reaches h jobs (.start p.run) s₀ es q' s ∧ q'.isDone = false ∧ q.isDone = false) ∨
      (∃ f, Reaches h jobs (.start p.run) s₀ es (.done (.error f)) s ∧
        ∀ r, q = .done r → r = .error f) ∨
      ∃ a es₁ es₂ s₁, es = es₁ ++ es₂ ∧ Reaches h jobs (.start p.run) s₀ es₁ (.done (.ok a)) s₁ ∧
        Reaches h jobs (.start (k a).run) s₁ es₂ q s := by
  obtain ⟨q', hp, hq, rfl⟩ | ⟨r, es₁, es₂, s₁, rfl, hp, hk⟩ := of_bind hr
  · refine .inl ⟨q', hp, hq, ?_⟩
    cases q' <;> rfl
  · cases r with
    | error f =>
      obtain ⟨rfl, hs, hq⟩ := of_done hk
      exact .inr (.inl ⟨f, (List.append_nil es₁).symm ▸ hp.later hs, hq⟩)
    | ok a => exact .inr (.inr ⟨a, es₁, es₂, s₁, rfl, hp, hk⟩)

end Reaches

/-- The second action stands where the first one does, but for a task that it leaves behind if it is
dropped. -/
inductive Suspended.Orphaning (j : Job) : Suspended α → Suspended α → Prop
  | done (a : α) : Orphaning j (.done a) (.done a)
  | ready (js js' : List Job) (p : Action α) : Orphaning j (.ready js p) (.ready js' (p.orphaning j))
  | asked (o : Operation) (js js' : List Job) (k : Outcome o.Answer → Action α) :
    Orphaning j (.asked o js k) (.asked o js' fun r ↦ (k r).orphaning j)
  | waiting (i : Nat) (js js' : List Job) (k : Outcome Unit → Action α) :
    Orphaning j (.waiting i js k) (.waiting i js' fun r ↦ (k r).orphaning j)

theorem Suspended.Orphaning.isDone {j : Job} {q q' : Suspended α} (hq : q.Orphaning j q') :
    q'.isDone = q.isDone := by
  cases hq <;> rfl

/-- One turn, of an action and of one that leaves a task behind. -/
structure Turn.Orphaning (j : Job) (t t' : Turn σ α) : Prop where
  events : t'.events = t.events
  runtime : t'.runtime = t.runtime
  next : t.next.Orphaning j t'.next

theorem Action.proceed_orphaning (j : Job) (p : Action α) (s : Runtime σ) :
    (p.proceed h jobs s).Orphaning j ((p.orphaning j).proceed h jobs s) := by
  induction p generalizing s with
  | done a => exact ⟨rfl, rfl, .done a⟩
  | memory g k ih => exact ih _ _
  | operation o js k ih =>
    unfold Action.orphaning Action.proceed
    split
    · exact ⟨rfl, rfl, .ready _ _ _⟩
    · exact ⟨rfl, rfl, .asked _ _ _ _⟩
  | wait t js k ih =>
    cases t with
    | task i => exact ⟨rfl, rfl, .waiting _ _ _ _⟩
    | idle => exact ⟨rfl, rfl, .ready _ _ _⟩
    | access c => exact ⟨rfl, rfl, .ready _ _ _⟩

theorem Suspended.Orphaning.turn {j : Job} {q q' : Suspended α} (hq : q.Orphaning j q')
    {s : Runtime σ} {t' : Turn σ α} (ht : q'.turn h jobs s = some t') :
    ∃ t, q.turn h jobs s = some t ∧ t.Orphaning j t' := by
  cases hq with
  | done a => cases ht
  | ready js js' p =>
    cases ht
    exact ⟨_, rfl, Action.proceed_orphaning j p s⟩
  | asked o js js' k =>
    unfold Suspended.turn at ht ⊢
    dsimp only at ht ⊢
    split at ht
    · cases ht
      have hp : ((k (s.perform h o).1).proceed h jobs (s.perform h o).2).Orphaning j _ :=
        Action.proceed_orphaning j _ _
      exact ⟨_, if_pos ‹_›, congrArg (_ ++ ·) hp.events, hp.runtime, hp.next⟩
    · cases ht
      exact ⟨_, if_neg ‹_›, rfl, rfl, .ready _ _ _⟩
  | waiting i js js' k =>
    unfold Suspended.turn at ht ⊢
    dsimp only at ht ⊢
    split at ht
    · cases ht
      exact ⟨_, rfl, Action.proceed_orphaning j _ s⟩
    · cases ht

theorem Reaches.of_orphaning {s₀ s : Runtime σ} {es : List Event} {j : Job} {p : Action α}
    {q : Suspended α} (hr : Reaches h jobs (.start (p.orphaning j)) s₀ es q s) :
    ∃ q', Reaches h jobs (.start p) s₀ es q' s ∧ q'.Orphaning j q := by
  induction hr with
  | refl => exact ⟨.start p, .refl, .ready _ _ _⟩
  | turn _ ht ih =>
    obtain ⟨q', hr, hq⟩ := ih
    obtain ⟨t, ht', he, hs, hn⟩ := hq.turn ht
    rw [he, hs]
    exact ⟨t.next, hr.turn ht', hn⟩
  | background _ hs ih =>
    obtain ⟨q', hr, hq⟩ := ih
    exact ⟨q', hr.background hs, hq⟩

def Outcome.caught : Outcome α → Outcome (Except Error α)
  | .ok a => .ok (.ok a)
  | .error (.error e) => .ok (.error e)
  | .error (.panic m) => .error (.panic m)

theorem Action.bind_assoc {γ : Type} (p : Action α) (f : α → Action β) (g : β → Action γ) :
    p >>= f >>= g = p >>= fun a ↦ f a >>= g := by
  change (p.bind f).bind g = p.bind fun a ↦ (f a).bind g
  induction p with
  | done a => rfl
  | memory k _ ih => exact congrArg (Action.memory k) (funext ih)
  | operation o js _ ih => exact congrArg (Action.operation o js) (funext ih)
  | wait t js _ ih => exact congrArg (Action.wait t js) (funext ih)

theorem Call.run_caught (p : Call α) :
    (Blocking.caught p).run = p.run >>= fun r ↦ .done (Outcome.caught r) := by
  refine (Action.bind_assoc p.run _ _).trans (congrArg (p.run.bind ·) (funext fun r ↦ ?_))
  rcases r with (_ | _) | _ <;> rfl

namespace Reaches

variable {s₀ s : Runtime σ} {es : List Event} {p : Call α}

theorem of_caught {q : Suspended (Outcome (Except Error α))}
    (hr : Reaches h jobs (.start (Blocking.caught p).run) s₀ es q s) :
    (∃ q', Reaches h jobs (.start p.run) s₀ es q' s ∧ q'.isDone = false ∧ q.isDone = false) ∨
      ∃ r, Reaches h jobs (.start p.run) s₀ es (.done r) s ∧
        ∀ r', q = .done r' → r' = Outcome.caught r := by
  rw [Call.run_caught] at hr
  obtain ⟨q', hp, hq, rfl⟩ | ⟨r, es₁, es₂, s₁, rfl, hp, hk⟩ := of_bind hr
  · refine .inl ⟨q', hp, hq, ?_⟩
    cases q' <;> rfl
  · obtain ⟨rfl, hs, hq⟩ := of_done hk
    exact .inr ⟨r, (List.append_nil es₁).symm ▸ hp.later hs, hq⟩

theorem of_protecting {j : Job} {q : Suspended (Outcome α)}
    (hr : Reaches h jobs (.start (Async.protecting j p).run) s₀ es q s) :
    (∃ q', Reaches h jobs (.start p.run) s₀ es q' s ∧ q'.isDone = false ∧ q.isDone = false) ∨
      ∃ r s₁, Reaches h jobs (.start p.run) s₀ es (.done r) s₁ ∧
        (Relation.ReflTransGen (Runtime.Step h jobs) s₁ s ∧ (∀ r', q = .done r' → r' = r) ∨
          Outcome.isPanic r ∧ q = .done r) := by
  obtain ⟨q', hp, hq, rfl⟩ | ⟨r, es₁, es₂, s₁, rfl, hp, hk⟩ := of_bind hr
  · obtain ⟨q'', hp, hj⟩ := of_orphaning hp
    refine .inl ⟨q'', hp, hj.isDone.symm.trans hq, ?_⟩
    cases q' <;> rfl
  · obtain ⟨q', hp, hj⟩ := of_orphaning hp
    cases hj
    by_cases hpanic : Outcome.isPanic r
    · rw [if_pos hpanic] at hk
      obtain ⟨rfl, ⟨hq, hs⟩ | rfl⟩ := of_memory hk
      · refine .inr ⟨r, s₁, (List.append_nil es₁).symm ▸ hp, .inl ⟨hs, ?_⟩⟩
        rintro r' rfl
        cases hq
      · exact .inr ⟨r, s₁, (List.append_nil es₁).symm ▸ hp, .inr ⟨hpanic, rfl⟩⟩
    · rw [if_neg hpanic] at hk
      obtain ⟨rfl, hs, hq⟩ := of_done hk
      exact .inr ⟨r, s₁, (List.append_nil es₁).symm ▸ hp, .inl ⟨hs, hq⟩⟩

/-- A part of a scope is in progress, or has come to `r`, and what follows depends on that alone. -/
theorem of_part {j : Job} {q : Suspended (Outcome (Except Error α))}
    (hr : Reaches h jobs (.start (Async.protecting j (Blocking.caught p)).run) s₀ es q s) :
    (∃ q', Reaches h jobs (.start p.run) s₀ es q' s ∧ q'.isDone = false ∧ q.isDone = false) ∨
      ∃ r s₁, Reaches h jobs (.start p.run) s₀ es (.done r) s₁ ∧
        (Relation.ReflTransGen (Runtime.Step h jobs) s₁ s ∨ Outcome.isPanic r) ∧
        ∀ r', q = .done r' → r' = Outcome.caught r := by
  obtain ⟨q', hp, hq', hq⟩ | ⟨r', s₁, hp, hs⟩ := hr.of_protecting
  · obtain ⟨q'', hp, hq'', -⟩ | ⟨r, hp, -⟩ := hp.of_caught
    · exact .inl ⟨q'', hp, hq'', hq⟩
    · refine .inr ⟨r, s, hp, .inl .refl, ?_⟩
      rintro r' rfl
      cases hq
  · obtain ⟨q'', -, -, hq''⟩ | ⟨r, hd, hc⟩ := hp.of_caught
    · cases hq''
    · rw [hc r' rfl] at hs
      obtain ⟨hs, hq⟩ | ⟨hpanic, rfl⟩ := hs
      · exact .inr ⟨r, s₁, hd, .inl hs, hq⟩
      · refine .inr ⟨r, s₁, hd, .inr ?_, fun r' hr' ↦ (Suspended.done.inj hr').symm⟩
        rcases r with (_ | _) | _ <;> first | rfl | cases hpanic

end Reaches

section Upholds

variable {C D : Conduct} {Q : α → List Event → Memory → Prop} {l : List Event} {s s' : Runtime σ}

theorem Suspended.Obeys.later {q : Suspended α} {m m' : Memory} (hq : q.Obeys C Q l m)
    (hQ : ∀ a l m m', Q a l m → C.rely m m' → Q a l m') (hm : C.rely m m') : q.Obeys C Q l m' := by
  cases q with
  | done a => exact hQ _ _ _ _ hq hm
  | ready js p => exact ⟨hq.1, fun m'' h ↦ hq.2 m'' (C.rely_trans hm h)⟩
  | asked o js k =>
    obtain ⟨ho, hjs, hk⟩ := hq
    refine ⟨ho, hjs, fun m₁ h₁ ↦ hk m₁ ?_⟩
    rw [Conduct.Meets, if_neg (by simp [ho])] at h₁ ⊢
    exact C.rely_trans hm h₁
  | waiting i js k => exact ⟨hq.1, fun r m'' h ↦ hq.2 r m'' (C.rely_trans hm h)⟩

/-- Wherever an action gets to that keeps to its conduct, it goes on to keep to it, and what its turns
and the steps in the background uphold holds. -/
theorem Reaches.upholds {J : List Event → Runtime σ → Prop} (hh : h.Plain)
    (hu : C.Upholds h jobs J) (hQ : ∀ a l m m', Q a l m → C.rely m m' → Q a l m')
    (hback : ∀ {l s s'}, J l s → s.Step h jobs s' → C.rely s.memory s'.memory ∧ J l s')
    {q₀ q : Suspended α} {s₀ : Runtime σ} {es : List Event} (hr : Reaches h jobs q₀ s₀ es q s)
    (hq : q₀.Obeys C Q l s₀.memory) (hJ : J l s₀) :
    q.Obeys C Q (l ++ es) s.memory ∧ J (l ++ es) s := by
  induction hr with
  | refl => simpa using ⟨hq, hJ⟩
  | turn _ ht ih =>
    obtain ⟨hn, hk⟩ := ih.1.turn hh hu ih.2 ht
    rw [← List.append_assoc]
    exact ⟨hn, hk⟩
  | background _ hs ih =>
    obtain ⟨hm, hJ'⟩ := hback ih.2 hs
    exact ⟨ih.1.later hQ hm, hJ'⟩

def Runtime.Backed (D : Conduct) (s : Runtime σ) : Prop :=
  ∀ q ∈ s.tasks, ∃ l, q.Obeys D (fun _ _ _ ↦ True) l s.memory

structure Conduct.Backs (D : Conduct) (h : Host σ) (jobs : Job → Call Unit) (G : Memory → Prop) :
    Prop where
  rely : ∀ {m m'}, G m → G m' → D.rely m m'
  calm : ∀ {m m'}, G m → D.calm m m' → G m'
  act : ∀ {l o} {s : Runtime σ}, G s.memory → D.asks l s.memory o →
    D.answers o (s.perform h o).1 ∧ G (s.perform h o).2.memory
  gather : ∀ {m}, G m → G { m with started := [] } ∧ ∀ j ∈ m.started, D.leaves j
  hand : ∀ {m m' j}, G m → D.hands m m' j → G m' ∧ D.spawns j
  job : ∀ {m m' j}, G m → D.leaves j ∨ D.spawns j → D.rely m m' →
    (jobs j).run.Obeys D (fun _ _ _ ↦ True) none [] m'

namespace Conduct.Backs

variable {G : Memory → Prop}

theorem backed (hb : D.Backs h jobs G) (hG : G s.memory) (hG' : G s'.memory)
    (ht : s'.tasks = s.tasks) (hs : s.Backed D) : s'.Backed D := by
  intro q hq
  rw [ht] at hq
  obtain ⟨l, hq⟩ := hs q hq
  exact ⟨l, hq.later (fun _ _ _ _ _ _ ↦ trivial) (hb.rely hG hG')⟩

theorem spawn (hb : D.Backs h jobs G) {j : Job} (hj : D.leaves j ∨ D.spawns j) (hG : G s.memory)
    (hs : s.Backed D) : (s.spawn jobs j).Backed D := by
  intro q hq
  obtain hq | hq := List.mem_append.1 hq
  · exact hs q hq
  · rw [List.mem_singleton.1 hq]
    exact ⟨[], by simp, fun m' hm ↦ hb.job hG hj hm⟩

theorem upholds (hb : D.Backs h jobs G) :
    D.Upholds h jobs fun _ (s : Runtime σ) ↦ G s.memory ∧ s.Backed D where
  rely hJ := hb.rely hJ.1 hJ.1
  calm hJ hc := ⟨hb.calm hJ.1 hc, hb.backed hJ.1 (hb.calm hJ.1 hc) rfl hJ.2⟩
  act hJ ha := by
    obtain ⟨hans, hG⟩ := hb.act hJ.1 ha
    exact ⟨hans, hG, hb.backed hJ.1 hG rfl hJ.2⟩
  spawn hJ hj := ⟨hJ.1, hb.spawn (.inr hj) hJ.1 hJ.2⟩
  hand hJ hh := by
    obtain ⟨hG, hj⟩ := hb.hand hJ.1 hh
    exact ⟨hG, hb.spawn (.inr hj) hG (hb.backed hJ.1 hG rfl hJ.2)⟩

theorem step (hb : D.Backs h jobs G) (hh : h.Plain) (hG : G s.memory) (hs : s.Backed D)
    (hstep : s.Step h jobs s') : G s'.memory ∧ s'.Backed D := by
  cases hstep with
  | gather =>
    obtain ⟨hG', hj⟩ := hb.gather hG
    refine ⟨hG', fun q hq ↦ ?_⟩
    have hs' : (s.withMemory { s.memory with started := [] }).Backed D := hb.backed hG hG' rfl hs
    obtain hq | hq := List.mem_append.1 hq
    · exact hs' q hq
    · obtain ⟨j, hj', rfl⟩ := List.mem_map.1 hq
      exact ⟨[], by simp, fun m' hm ↦ hb.job hG' (.inl (hj j hj')) hm⟩
  | @task s' i ht =>
    obtain ⟨q, t, hq, ht', rfl⟩ := Runtime.turn_eq_some ht
    obtain ⟨l, hobeys⟩ := hs q (List.mem_of_getElem? hq)
    obtain ⟨hn, hG', hs'⟩ := hobeys.turn hh hb.upholds ⟨hG, hs⟩ ht'
    refine ⟨hG', fun q' hq' ↦ ?_⟩
    obtain hq' | rfl := List.mem_or_eq_of_mem_set hq'
    · exact hs' q' hq'
    · exact ⟨_, hn⟩

end Conduct.Backs

end Upholds

end BoundSql
