import BoundSql.Proofs.Scope.Forwarding

namespace BoundSql

open Call

variable {σ α β : Type} {h : Host σ} {cb : Callback σ} {w : World σ}

def Account.as (r : Outcome β) (t : Account σ α) : Account σ β := ⟨t.deeds, r, t.world⟩

namespace Account

variable {ds : List Deed}

@[simp] theorem as_mk (r : Outcome β) (r' : Outcome α) :
    (⟨ds, r', w⟩ : Account σ α).as r = ⟨ds, r, w⟩ := rfl

@[simp] theorem as_outcome (r : Outcome β) (t : Account σ α) : (t.as r).outcome = r := rfl

@[simp] theorem as_deeds (r : Outcome β) (t : Account σ α) : (t.as r).deeds = t.deeds := rfl

@[simp] theorem as_world (r : Outcome β) (t : Account σ α) : (t.as r).world = t.world := rfl

@[simp] theorem as_andThen {γ : Type} (a : β) (t : Account σ α) (k : β → World σ → Account σ γ) :
    (t.as (.ok a)).andThen k = (k a t.world).after t.deeds := rfl

@[simp] theorem as_andThen_error {γ : Type} (f : Fault) (t : Account σ α)
    (k : β → World σ → Account σ γ) : (t.as (.error f)).andThen k = t.as (.error f) := rfl

end Account

namespace Session

theorem account_rollbackQuietly (hr : h.Returns) (c : Nat) (w : World σ) :
    account h cb (rollbackQuietly c) w = (account h cb (rollback c) w).as (.ok ()) := by
  unfold rollbackQuietly
  rw [account_outcome_bind]
  have hroll : (Session.rollback c).Forwards h cb := .rollback hr _
  obtain ⟨ds, a, w', ht⟩ | ⟨ds, e, w', ht⟩ := hroll.cases w
  all_goals
    rw [ht]
    simp

end Session

namespace Blocking

theorem account_closeQuietly (hr : h.Returns) (c : Cursor) (w : World σ) :
    account h cb (closeQuietly c) w = (account h cb c.close w).as (.ok ()) := by
  unfold closeQuietly
  rw [account_bind, account_caught]
  have hclose : c.close.Forwards h cb := .close hr _
  obtain ⟨ds, a, w', ht⟩ | ⟨ds, e, w', ht⟩ := hclose.cases w
  all_goals
    rw [ht]
    simp [Account.caught]

theorem account_closingOnFailure (hr : h.Returns) (c : Cursor) (p : Call α) (w : World σ) :
    account h cb (closingOnFailure c p) w = match account h cb p w with
      | ⟨ds, .ok a, w⟩ => ⟨ds, .ok a, w⟩
      | ⟨ds, .error f, w⟩ => ((account h cb c.close w).as (.error f)).after ds := by
  unfold closingOnFailure
  rw [account_outcome_bind]
  rcases account h cb p w with ⟨ds, f | a, w'⟩
  · simp only [account_bind, account_closeQuietly hr]
    simp [Account.as, Account.andThen]
  · simp

namespace Entry

open BoundSql (Entry)

variable {e : Entry}

theorem account_abandon (hr : h.Returns) (ho : e.owner) (w : World σ) :
    account h cb (abandon e) w =
      let t := account h cb (Session.rollback e.connection) w
      ((account h cb (release e) t.world).as (.ok ())).after t.deeds := by
  unfold abandon
  rw [if_pos ho, account_bind, Session.account_rollbackQuietly hr]
  rcases account h cb (Session.rollback e.connection) w with ⟨ds, r, w'⟩
  dsimp only [Account.as_mk, Account.andThen_ok]
  rw [account_outcome_bind]
  have hrel : (release e).Forwards h cb := .release hr _
  obtain ⟨ds', a, w'', ht⟩ | ⟨ds', err, w'', ht⟩ := hrel.cases w'
  all_goals
    rw [ht]
    simp

theorem account_abandon_joined (ho : e.owner = false) (w : World σ) :
    account h cb (abandon e) w = ⟨[], .ok (), w⟩ := by
  unfold abandon
  rw [if_neg (by simp [ho]), account_pure]

theorem outcome_abandon (hr : h.Returns) (e : Entry) (w : World σ) :
    (account h cb (abandon e) w).outcome = .ok () := by
  cases ho : e.owner with
  | true => rw [account_abandon hr ho]; rfl
  | false => rw [account_abandon_joined ho]

theorem account_guarded (e : Entry) (p : Call α) (w : World σ) :
    account h cb (guarded e p) w = match account h cb p w with
      | ⟨ds, .error (.panic m), w⟩ => ((account h cb (abandon e) w).as (.error (.panic m))).after ds
      | t => t := by
  unfold guarded
  rw [account_outcome_bind]
  rcases account h cb p w with ⟨ds, (err | m) | a, w'⟩
  · simp
  · simp only [account_outcome_bind, account_throw]
    simp [Account.as, Account.after]
  · simp

theorem account_exit_joined (ho : e.owner = false) (r : Except Error α) (w : World σ) :
    account h cb (exit e r) w = ⟨[], Outcome.ofResult r, w⟩ := by
  unfold exit
  rw [if_pos (by simp [ho]), account_ofResult]

theorem account_exit_error (hr : h.Returns) (e : Entry) (err : Error) (w : World σ) :
    account h cb (exit e (.error err : Except Error α)) w =
      (account h cb (abandon e) w).as (.error (.error err)) := by
  cases ho : e.owner with
  | false => rw [account_exit_joined ho, account_abandon_joined ho]; rfl
  | true =>
    rw [account_abandon hr ho]
    unfold exit settle
    rw [if_neg (by simp [ho]), account_guarded, account_bind, account_bind,
      Session.account_rollbackQuietly hr]
    rcases account h cb (Session.rollback e.connection) w with ⟨ds, r, w'⟩
    dsimp only [Account.as_mk, Account.andThen_ok, account_pure, Account.after_mk]
    rw [account_outcome_bind]
    have hrel : (release e).Forwards h cb := .release hr _
    obtain ⟨ds', a, w'', ht⟩ | ⟨ds', err', w'', ht⟩ := hrel.cases w'
    all_goals
      rw [ht]
      simp

/-- What an owner does after a success. A commit that fails is followed by what follows a failure. -/
theorem account_exit_ok (hr : h.Returns) (ho : e.owner) (a : α) (w : World σ) :
    account h cb (exit e (.ok a)) w = match account h cb (Session.commit e.connection) w with
      | ⟨ds, .ok _, w⟩ =>
        let t := account h cb (release e) w
        (t.as (t.outcome.map fun _ ↦ a)).after ds
      | ⟨ds, .error f, w⟩ => ((account h cb (abandon e) w).as (.error f)).after ds := by
  unfold exit settle
  rw [if_neg (by simp [ho]), account_guarded, account_bind]
  dsimp only
  rw [account_outcome_bind]
  -- The commit decides what comes next; the release comes last in any case.
  have hcommit : (Session.commit e.connection).Forwards h cb := .commit hr _
  obtain ⟨ds, u, w', hc⟩ | ⟨ds, err, w', hc⟩ := hcommit.cases w
  · rw [hc]
    dsimp only [account_pure, Account.after_mk, Account.andThen_ok]
    rw [account_outcome_bind]
    have hrel : (release e).Forwards h cb := .release hr _
    obtain ⟨ds', a, w'', ht⟩ | ⟨ds', err', w'', ht⟩ := hrel.cases w'
    all_goals
      rw [ht]
      simp [Except.map]
  · rw [hc]
    dsimp only
    rw [account_bind, account_abandon hr ho, Session.account_rollbackQuietly hr]
    rcases account h cb (Session.rollback e.connection) w' with ⟨ds₁, r, w₁⟩
    dsimp only [Account.as_mk, Account.andThen_ok, account_pure, Account.after_mk]
    rw [account_outcome_bind]
    have hrel : (release e).Forwards h cb := .release hr _
    obtain ⟨ds', a, w'', ht⟩ | ⟨ds', err', w'', ht⟩ := hrel.cases w₁
    all_goals
      rw [ht]
      simp

theorem returns_exit (hr : h.Returns) (e : Entry) (r : Except Error α) (w : World σ) :
    Outcome.isPanic (account h cb (exit e r) w).outcome = false := by
  cases r with
  | error err => rw [account_exit_error hr]; rfl
  | ok a =>
    cases ho : e.owner with
    | false => rw [account_exit_joined ho]; rfl
    | true =>
      have hcommit : (Session.commit e.connection).Forwards h cb := .commit hr _
      have hrel : (release e).Forwards h cb := .release hr _
      rw [account_exit_ok hr ho]
      obtain ⟨ds, u, w', hc⟩ | ⟨ds, err, w', hc⟩ := hcommit.cases w
      · rw [hc]
        exact (Outcome.isPanic_map _ _).trans (hrel w').returns
      · rw [hc]
        rfl

theorem account_exit_map (hr : h.Returns) (e : Entry) (a : α) (w : World σ) :
    account h cb (exit e (.ok a)) w =
      let t := account h cb (exit e (.ok ())) w
      t.as (t.outcome.map fun _ ↦ a) := by
  cases ho : e.owner with
  | false => rw [account_exit_joined ho, account_exit_joined ho]; rfl
  | true =>
    rw [account_exit_ok hr ho, account_exit_ok hr ho]
    have hcommit : (Session.commit e.connection).Forwards h cb := .commit hr _
    obtain ⟨ds, u, w', hc⟩ | ⟨ds, err, w', hc⟩ := hcommit.cases w
    · rw [hc]
      dsimp only
      cases (account h cb (release e) w').outcome <;> rfl
    · rw [hc]
      rfl

def enclosing (e : Entry) (p : Call α) : Call α := do
  let r ← guarded e (caught p)
  exit e r

theorem account_enclosing (hr : h.Returns) (e : Entry) (p : Call α) (w : World σ) :
    account h cb (enclosing e p) w = match account h cb p w with
      | ⟨ds, .ok a, w⟩ => (account h cb (exit e (.ok a)) w).after ds
      | ⟨ds, .error f, w⟩ => ((account h cb (abandon e) w).as (.error f)).after ds := by
  unfold enclosing
  rw [account_bind, account_guarded, account_caught]
  rcases account h cb p w with ⟨ds, (err | m) | a, w'⟩
  · simp [Account.caught, account_exit_error hr]
  · simp [Account.caught, Account.as, Account.after, Account.andThen]
  · simp [Account.caught]

end Entry

def scope (thread b : Nat) (register : Bool) (body : Nat → Call α) : Call α := do
  let e ← enter thread b register
  Entry.enclosing e (body e.connection)

end Blocking

end BoundSql
