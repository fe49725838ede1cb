import BoundSql.Proofs.Scope.Using

namespace BoundSql

variable {α β : Type} {A : Operation → Prop}

/-- Does nothing but to ask for operations of that kind, leaves nothing behind if it is dropped, and
comes to what `P` says. -/
def Action.Only (A : Operation → Prop) (P : α → Prop) : Action α → Prop
  | .done a => P a
  | .memory _ _ | .wait _ _ _ => False
  | .operation o js k => js = [] ∧ A o ∧ ∀ r, (k r).Only A P

namespace Action.Only

variable {P : α → Prop} {p : Action α}

theorem bind {R : β → Prop} {f : α → Action β} (hp : p.Only A fun a ↦ (f a).Only A R) :
    (p >>= f).Only A R := by
  change (p.bind f).Only A R
  induction p with
  | done a => exact hp
  | memory g k ih => exact hp
  | operation o js k ih => exact ⟨hp.1, hp.2.1, fun r ↦ ih r (hp.2.2 r)⟩
  | wait t js k ih => exact hp

theorem mono {A' : Operation → Prop} {R : α → Prop} (hp : p.Only A P) (hA : ∀ o, A o → A' o)
    (hP : ∀ a, P a → R a) : p.Only A' R := by
  induction p with
  | done a => exact hP a hp
  | memory g k ih => exact hp
  | operation o js k ih => exact ⟨hp.1, hA o hp.2.1, fun r ↦ ih r (hp.2.2 r)⟩
  | wait t js k ih => exact hp

theorem keeps {C : Conduct} {I : Memory → Prop} (hI : ∀ m m', C.rely m m' → I m')
    (hA : ∀ l m o, I m → A o → C.asks l m o) (hp : p.Only A P) : C.Keeps I P p := by
  induction p with
  | done a => exact .done hp
  | memory g k ih => exact hp.elim
  | operation o js k ih =>
    intro l m hm
    refine ⟨by simp [hp.1], fun m₁ hm₁ ↦ ⟨hA l m₁ o ?_ hp.2.1, fun s r m' _ _ hm' ↦ ?_⟩⟩
    · unfold Conduct.Meets at hm₁
      split at hm₁
      · rw [hm₁]
        exact hm
      · exact hI m m₁ hm₁
    · exact ih r (hp.2.2 r) _ m' (hI _ m' hm')
  | wait t js k ih => exact hp.elim

theorem runs {C : Conduct} {I : Memory → Prop} {p : Call α} {R : Outcome α → Prop}
    (hI : ∀ m m', C.rely m m' → I m') (hA : ∀ l m o, I m → A o → C.asks l m o)
    (hp : p.run.Only A R) : C.Runs I (fun _ ↦ True) p :=
  Conduct.Keeps.mono (hp.keeps hI hA) fun _ _ _ _ ↦ trivial

end Action.Only

namespace Cursor

def Fetch (d n : Nat) (o : Operation) : Prop := ∃ i, o = .fetch d n i

def Fetches (p : Reading α) : Prop :=
  ∀ c : Cursor, (p.run c).run.Only (Fetch c.connection c.id) fun r ↦
    ∀ a, r = .ok a → a.2.connection = c.connection ∧ a.2.id = c.id

namespace Fetches

theorem pure (a : α) : Fetches (Pure.pure a) := by
  intro c b hb
  cases hb
  exact ⟨rfl, rfl⟩

theorem throw (e : Error) : Fetches (MonadExcept.throw e : Reading α) := fun _ _ hb ↦ by cases hb

theorem bind {p : Reading α} {k : α → Reading β} (hp : Fetches p) (hk : ∀ a, Fetches (k a)) :
    Fetches (p >>= k) := by
  intro c
  refine Action.Only.bind ((hp c).mono (fun _ ha ↦ ha) fun r hr ↦ ?_)
  cases r with
  | error f => exact fun b hb ↦ by cases hb
  | ok a =>
    obtain ⟨hd, hn⟩ := hr a rfl
    have hka := hk a.1 a.2
    rw [hd, hn] at hka
    exact hka

theorem fetchOne : Fetches fetchOne := by
  intro c
  rw [run_fetchOne]
  refine ⟨rfl, ⟨_, rfl⟩, fun r a ha ↦ ?_⟩
  rcases r with f | u <;> cases ha
  exact ⟨rfl, rfl⟩

theorem collect (n : Nat) : Fetches (Cursor.collect Cursor.fetchOne n) := by
  induction n with
  | zero => exact .pure _
  | succ n ih =>
    refine fetchOne.bind fun row ↦ ?_
    cases row with
    | none => exact .pure _
    | some row => exact ih.bind fun _ ↦ .pure _

theorem fetchAll : Fetches fetchAll := fun c ↦ collect _ c

theorem fetchRows (n : Option Nat) (s : Strategy) :
    Fetches (Cursor.fetchRows n Cursor.fetchOne Cursor.fetchAll s) := by
  unfold Cursor.fetchRows
  cases s with
  | none => exact .pure _
  | many => exact fetchAll
  | one required =>
    dsimp only
    split
    · exact .throw _
    · refine fetchOne.bind fun row ↦ ?_
      cases row with
      | none => exact .pure _
      | some row =>
        refine fetchOne.bind fun row' ↦ ?_
        cases row' with
        | none => exact .pure _
        | some _ => exact fetchAll.bind fun _ ↦ .throw _

end Fetches

theorem only_pull (c : Cursor) (s : Strategy) :
    (c.pull s).run.Only (Fetch c.connection c.id) fun _ ↦ True := by
  refine Action.Only.bind ((Fetches.fetchRows c.rowCount s c).mono (fun _ ha ↦ ha) fun r _ ↦ ?_)
  cases r <;> trivial

theorem only_fetchOne (c : Cursor) :
    (Cursor.fetchOne.run c).run.Only (Fetch c.connection c.id) fun r ↦
      ∀ a, r = .ok a → a.2.connection = c.connection ∧ a.2.id = c.id := Fetches.fetchOne c

theorem only_close (c : Cursor) :
    c.close.run.Only (· = .close c.connection c.id) fun _ ↦ True :=
  ⟨rfl, rfl, fun _ ↦ trivial⟩

end Cursor

end BoundSql
