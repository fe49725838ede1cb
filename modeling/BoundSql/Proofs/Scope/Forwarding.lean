import BoundSql.Proofs.Effect.Account
import BoundSql.Proofs.Scope.Handover

namespace BoundSql

open Call

variable {σ α β : Type} {h : Host σ} {cb : Callback σ} {w : World σ}

/-- Returns, and whatever failed first is what it came to. -/
structure Account.Forwards (t : Account σ α) : Prop where
  returns : Outcome.isPanic t.outcome = false
  first : ∀ f, t.deeds.findSome? Deed.fault = some f → t.outcome = .error f

namespace Account.Forwards

variable {t : Account σ α} {k : α → World σ → Account σ β} {ds : List Deed} {r : Outcome α}

theorem of_nil (hr : Outcome.isPanic r = false) : (⟨[], r, w⟩ : Account σ α).Forwards :=
  ⟨hr, by simp⟩

theorem findSome?_eq_none {a : α} (ht : (⟨ds, .ok a, w⟩ : Account σ α).Forwards) :
    ds.findSome? Deed.fault = none := by
  cases hf : ds.findSome? Deed.fault with
  | none => rfl
  | some f => cases ht.first f hf

theorem error {f : Fault} (ht : (⟨ds, .error f, w⟩ : Account σ α).Forwards) :
    (⟨ds, .error f, w⟩ : Account σ β).Forwards := by
  refine ⟨?_, fun f' hf ↦ ?_⟩
  · cases f with
    | error e => rfl
    | panic m => exact ht.returns
  · cases ht.first f' hf
    rfl

theorem andThen (ht : t.Forwards) (hk : ∀ a, t.outcome = .ok a → (k a t.world).Forwards) :
    (t.andThen k).Forwards := by
  obtain ⟨ds, f | a, w⟩ := t
  · exact ht.error
  · obtain ⟨hreturns, hfirst⟩ := hk a rfl
    refine ⟨hreturns, fun f hf ↦ hfirst f ?_⟩
    change (ds ++ (k a w).deeds).findSome? Deed.fault = some f at hf
    rwa [List.findSome?_append, ht.findSome?_eq_none, Option.none_or] at hf

end Account.Forwards

namespace Blocking.Entry

open BoundSql (Entry)

def giveBack (e : Entry) : Call Unit := Call.operate (.release e.binder e.connection)

def surrender (e : Entry) : Call Unit := do
  let m ← Call.read
  if e.connection ∈ m.busy then Call.fail Session.inUse
  else if (m.held.lookup e.connection).isNone then pure ()
  else
    Call.modify (Memory.letGo e.connection)
    giveBack e

theorem release_eq (e : Entry) : release e =
    if e.registered then Call.modify (Memory.deactivate e.thread e.binder) >>= fun _ ↦ surrender e
    else surrender e := rfl

end Blocking.Entry

theorem Host.outcome_perform (h : Host σ) (cb : Callback σ) (o : Operation) (w : World σ) :
    (h.perform cb o w).1 = (h.act o w).1 := by
  unfold Host.perform Host.act Host.reaction
  rfl

theorem Host.Returns.perform (hr : h.Returns) (cb : Callback σ) (o : Operation) (w : World σ) :
    Outcome.isPanic (h.perform cb o w).1 = false := by
  rw [h.outcome_perform]
  exact (Outcome.isPanic_map _ _).trans (hr _ _ _ _)

/-- From whatever world it starts, it returns, and its first failure is what it comes to. -/
def Call.Forwards (h : Host σ) (cb : Callback σ) (p : Call α) : Prop :=
  ∀ w, (account h cb p w).Forwards

namespace Call.Forwards

variable {p q : Call α} {k : α → Call β}

theorem pure (a : α) : (Pure.pure a : Call α).Forwards h cb := fun _ ↦ .of_nil rfl

theorem fail (e : Error) : (Call.fail e : Call α).Forwards h cb := fun _ ↦ .of_nil rfl

theorem ofResult (r : Except Error α) : (Call.ofResult r).Forwards h cb :=
  fun _ ↦ .of_nil (by cases r <;> rfl)

theorem read : Call.read.Forwards h cb := fun _ ↦ .of_nil rfl

theorem modify (f : Memory → Memory) : (Call.modify f).Forwards h cb := fun _ ↦ .of_nil rfl

theorem operate (hr : h.Returns) (o : Operation) : (Call.operate o).Forwards h cb := by
  intro w
  refine ⟨hr.perform cb o w, fun f hf ↦ ?_⟩
  change List.findSome? Deed.fault [⟨o, (h.perform cb o w).1.fault?⟩] = some f at hf
  change (h.perform cb o w).1 = .error f
  cases hp : (h.perform cb o w).1 with
  | ok a => simp [hp, Outcome.fault?] at hf
  | error f' => simpa [hp, Outcome.fault?] using hf

theorem bind (hp : p.Forwards h cb) (hk : ∀ a, (k a).Forwards h cb) :
    (p >>= k).Forwards h cb := by
  intro w
  rw [account_bind]
  exact (hp w).andThen fun a _ ↦ hk a _

theorem ite (c : Prop) [Decidable c] (hp : p.Forwards h cb) (hq : q.Forwards h cb) :
    (if c then p else q).Forwards h cb := by
  split
  · exact hp
  · exact hq

theorem cases (hp : p.Forwards h cb) (w : World σ) :
    (∃ ds a w', account h cb p w = ⟨ds, .ok a, w'⟩) ∨
      ∃ ds e w', account h cb p w = ⟨ds, .error (.error e), w'⟩ := by
  have hreturns := (hp w).returns
  generalize account h cb p w = t at hreturns
  obtain ⟨ds, (e | m) | a, w'⟩ := t
  · exact .inr ⟨ds, e, w', rfl⟩
  · cases hreturns
  · exact .inl ⟨ds, a, w', rfl⟩

variable {c : Nat}

theorem check (c : Nat) : (Session.check c).Forwards h cb :=
  read.bind fun _ ↦ ite _ (fail _) (ite _ (fail _) (pure ()))

theorem checked (hp : p.Forwards h cb) (c : Nat) :
    (Session.check c >>= fun _ ↦ p).Forwards h cb := (check c).bind fun _ ↦ hp

theorem execute (hr : h.Returns) (c : Nat) (sql : String) (params : List Value) :
    (Session.execute c sql params).Forwards h cb := checked (operate hr _) c

theorem query (hr : h.Returns) (c : Nat) (sql : String) (params : List Value) :
    (Session.query c sql params).Forwards h cb := checked (operate hr _) c

theorem commit (hr : h.Returns) (c : Nat) : (Session.commit c).Forwards h cb :=
  checked (operate hr _) c

theorem rollback (hr : h.Returns) (c : Nat) : (Session.rollback c).Forwards h cb :=
  checked (operate hr _) c

theorem autocommit (c : Nat) : (Session.autocommit c).Forwards h cb :=
  checked (read.bind fun _ ↦ pure _) c

theorem setAutocommit (c : Nat) (on : Bool) : (Session.setAutocommit c on).Forwards h cb :=
  checked (modify _) c

theorem pool (b : Nat) : (Binder.pool b).Forwards h cb := by
  refine read.bind fun m ↦ ?_
  cases m.pools.lookup b with
  | some p => exact pure p
  | none => exact fail _

theorem lease (hr : h.Returns) (b : Nat) : (Binder.lease b).Forwards h cb :=
  (pool b).bind fun _ ↦ (operate hr _).bind fun _ ↦ (modify _).bind fun _ ↦ pure _

theorem enter (hr : h.Returns) (thread b : Nat) (register : Bool) :
    (Blocking.enter thread b register).Forwards h cb := by
  refine (pool b).bind fun _ ↦ read.bind fun m ↦ ?_
  cases m.active.lookup (thread, b) with
  | some c => exact pure _
  | none => exact (lease hr b).bind fun _ ↦ ite _ ((modify _).bind fun _ ↦ pure _) (pure _)

theorem release (hr : h.Returns) (e : Entry) : (Blocking.Entry.release e).Forwards h cb := by
  have hrest : (Blocking.Entry.surrender e).Forwards h cb :=
    read.bind fun m ↦ ite _ (fail _) (ite _ (pure _) ((modify _).bind fun _ ↦ operate hr _))
  rw [Blocking.Entry.release_eq]
  exact ite _ ((modify _).bind fun _ ↦ hrest) hrest

theorem close (hr : h.Returns) (c : Cursor) : c.close.Forwards h cb := operate hr _

theorem fetchOne (hr : h.Returns) (c : Cursor) : (Cursor.fetchOne.run c).Forwards h cb := by
  have hp : Cursor.fetchOne.run c =
      Call.operate (.fetch c.connection c.id c.fetched) >>= fun _ ↦
        (Pure.pure (c.rows.head?, c.advance) : Call _) := by
    refine (Cursor.run_fetchOne c).trans (congrArg (Action.operation _ _) (funext fun r ↦ ?_))
    cases r <;> rfl
  rw [hp]
  exact (operate hr _).bind fun _ ↦ pure _

theorem collect (hr : h.Returns) (n : Nat) (c : Cursor) :
    ((Cursor.collect Cursor.fetchOne n).run c).Forwards h cb := by
  induction n generalizing c with
  | zero => exact pure _
  | succ n ih =>
    refine (fetchOne hr c).bind fun r ↦ ?_
    obtain ⟨row, c⟩ := r
    cases row with
    | none => exact pure _
    | some row => exact (ih c).bind fun _ ↦ pure _

theorem fetchRows (hr : h.Returns) (n : Option Nat) (s : Strategy) (c : Cursor) :
    ((Cursor.fetchRows n Cursor.fetchOne Cursor.fetchAll s).run c).Forwards h cb := by
  have hall : ∀ c : Cursor, (Cursor.fetchAll.run c).Forwards h cb := fun c ↦ collect hr _ c
  unfold Cursor.fetchRows
  cases s with
  | none => exact pure _
  | many => exact hall c
  | one required =>
    dsimp only
    split
    · exact fail _
    · refine (fetchOne hr c).bind fun r ↦ ?_
      obtain ⟨row, c⟩ := r
      cases row with
      | none => exact pure _
      | some row =>
        refine (fetchOne hr c).bind fun r ↦ ?_
        obtain ⟨row', c⟩ := r
        cases row' with
        | none => exact pure _
        | some _ => exact (hall c).bind fun _ ↦ fail _

theorem pull (hr : h.Returns) (c : Cursor) (s : Strategy) : (c.pull s).Forwards h cb :=
  (fetchRows hr _ s c).bind fun _ ↦ pure _

end Call.Forwards

end BoundSql
