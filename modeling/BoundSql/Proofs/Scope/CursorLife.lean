import BoundSql.Proofs.Scope.Fetching
import BoundSql.Proofs.Scope.Relay

namespace BoundSql

open Call

variable {σ α β : Type} {h : Host σ} {cb : Callback σ} {w : World σ}

/-- All operations that the call asks for itself are of a kind. -/
def Call.Asks (h : Host σ) (cb : Callback σ) (A : Operation → Prop) (p : Call α) : Prop :=
  ∀ w, ∀ d ∈ (account h cb p w).deeds, A d.operation

namespace Call.Asks

variable {A : Operation → Prop} {p q : Call α} {k : α → Call β}

theorem of_nil (hp : ∀ w, (account h cb p w).deeds = []) : p.Asks h cb A := by
  intro w d hd
  rw [hp w] at hd
  cases hd

theorem pure (a : α) : (Pure.pure a : Call α).Asks h cb A := of_nil fun _ ↦ rfl

theorem fail (e : Error) : (Call.fail e : Call α).Asks h cb A := of_nil fun _ ↦ rfl

theorem ofResult (r : Except Error α) : (Call.ofResult r).Asks h cb A := of_nil fun _ ↦ rfl

theorem read : Call.read.Asks h cb A := of_nil fun _ ↦ rfl

theorem modify (f : Memory → Memory) : (Call.modify f).Asks h cb A := of_nil fun _ ↦ rfl

theorem operate {o : Operation} (ho : A o) : (Call.operate o).Asks h cb A := by
  intro w d hd
  rw [List.mem_singleton.1 hd]
  exact ho

theorem bind (hp : p.Asks h cb A) (hk : ∀ a, (k a).Asks h cb A) : (p >>= k).Asks h cb A := by
  intro w d hd
  rw [account_bind] at hd
  have hp := hp w
  generalize account h cb p w = t at hd hp
  obtain ⟨ds, f | a, w'⟩ := t
  · exact hp d hd
  · obtain hd | hd := List.mem_append.1 hd
    · exact hp d hd
    · exact hk a w' d hd

theorem ite (c : Prop) [Decidable c] (hp : p.Asks h cb A) (hq : q.Asks h cb A) :
    (if c then p else q).Asks h cb A := by
  split
  · exact hp
  · exact hq

theorem checked (hp : p.Asks h cb A) (c : Nat) : (Session.check c >>= fun _ ↦ p).Asks h cb A :=
  (read.bind fun _ ↦ ite _ (fail _) (ite _ (fail _) (pure ()))).bind fun _ ↦ hp

end Call.Asks

theorem Session.account_check (c : Nat) (w : World σ) : account h cb (check c) w =
    ⟨[], if c ∈ w.memory.busy then .error (.error inUse)
      else if (w.memory.held.lookup c).isNone then .error (.error released) else .ok (), w⟩ := by
  unfold check
  rw [account_bind, account_read, Account.andThen_ok, Account.after_nil]
  split
  · rfl
  · split <;> rfl

/-- The terminal actions of scopes, and the handing back of connections. -/
def Operation.isTerminal : Operation → Bool
  | .commit _ | .rollback _ | .release _ _ => true
  | _ => false

namespace Blocking

variable {p : Call α}

def request (b : Nat) : Call Nat := Call.operate (.lease b)

theorem account_pool (b : Nat) (w : World σ) :
    account h cb (Binder.pool b) w = match w.memory.pools.lookup b with
      | some p => ⟨[], .ok p, w⟩
      | none => ⟨[], .error (.error .noPoolSet), w⟩ := by
  unfold Binder.pool
  rw [account_bind, account_read, Account.andThen_ok]
  cases w.memory.pools.lookup b <;> rfl

theorem account_lease (b : Nat) (w : World σ) :
    account h cb (Binder.lease b) w = match w.memory.pools.lookup b with
      | some p => (account h cb (request b) w).andThen fun c w ↦
        ⟨[], .ok c, { w with memory := w.memory.hold c p.autocommit }⟩
      | none => ⟨[], .error (.error .noPoolSet), w⟩ := by
  have hlease : Binder.lease b = Binder.pool b >>= fun p ↦ request b >>=
      fun c ↦ Call.modify (Memory.hold c p.autocommit) >>= fun _ ↦ pure c := rfl
  rw [hlease, account_bind, account_pool]
  cases w.memory.pools.lookup b with
  | none => rfl
  | some p =>
    rw [Account.andThen_ok, Account.after_nil, account_bind]
    rfl

theorem account_enter (thread b : Nat) (register : Bool) (w : World σ) :
    account h cb (enter thread b register) w =
      match w.memory.pools.lookup b, w.memory.active.lookup (thread, b) with
      | none, _ => ⟨[], .error (.error .noPoolSet), w⟩
      | some _, some c => ⟨[], .ok ⟨b, c, false, false, thread⟩, w⟩
      | some p, none => (account h cb (request b) w).andThen fun c w ↦
        ⟨[], .ok ⟨b, c, true, register, thread⟩, { w with
          memory := if register then (w.memory.hold c p.autocommit).activate thread b c
            else w.memory.hold c p.autocommit }⟩ := by
  unfold enter
  rw [account_bind, account_pool]
  cases hp : w.memory.pools.lookup b with
  | none => rfl
  | some p =>
    rw [Account.andThen_ok, Account.after_nil, account_bind, account_read, Account.andThen_ok,
      Account.after_nil]
    cases w.memory.active.lookup (thread, b) with
    | some c => rfl
    | none =>
      dsimp only
      rw [account_bind, account_lease, hp]
      rcases account h cb (request b) w with ⟨ds, f | c, w'⟩
      · rfl
      · cases register <;> simp [account_bind]

theorem asks_enter (thread b : Nat) (register : Bool) :
    (enter thread b register).Asks h cb fun o ↦ o.isLease := by
  intro w d hd
  have hlease : (request b).Asks h cb fun o ↦ o.isLease := .operate rfl
  have hl := hlease w
  rw [account_enter] at hd
  generalize account h cb (request b) w = t at hl hd
  split at hd
  · cases hd
  · cases hd
  · obtain ⟨ds, f | c, w'⟩ := t
    · exact hl d hd
    · exact hl d (by simpa using hd)

theorem asks_commit (c : Nat) : (Session.commit c).Asks h cb fun o ↦ o.isTerminal := by
  have hop : (Call.operate (.commit c)).Asks h cb fun o ↦ o.isTerminal := .operate rfl
  exact hop.checked c

theorem asks_release (e : Entry) : (Entry.release e).Asks h cb fun o ↦ o.isTerminal := by
  have hrest : (Entry.surrender e).Asks h cb fun o ↦ o.isTerminal :=
    .bind .read fun m ↦ .ite _ (.fail _) (.ite _ (.pure _) (.bind (.modify _) fun _ ↦ .operate rfl))
  rw [Entry.release_eq]
  exact .ite _ (.bind (.modify _) fun _ ↦ hrest) hrest

theorem asks_abandon (hr : h.Returns) (e : Entry) :
    (Entry.abandon e).Asks h cb fun o ↦ o.isTerminal := by
  intro w d hd
  cases ho : e.owner with
  | false =>
    rw [Entry.account_abandon_joined ho] at hd
    cases hd
  | true =>
    have hop : (Call.operate (.rollback e.connection)).Asks h cb fun o ↦ o.isTerminal :=
      .operate rfl
    have hroll : (Session.rollback e.connection).Asks h cb fun o ↦ o.isTerminal := hop.checked _
    rw [Entry.account_abandon hr ho] at hd
    obtain hd | hd := List.mem_append.1 hd
    · exact hroll _ d hd
    · exact asks_release e _ d hd

theorem asks_exit (hr : h.Returns) (e : Entry) (r : Except Error α) :
    (Entry.exit e r).Asks h cb fun o ↦ o.isTerminal := by
  intro w d hd
  cases r with
  | error err =>
    rw [Entry.account_exit_error hr] at hd
    exact asks_abandon hr e w d hd
  | ok a =>
    cases ho : e.owner with
    | false =>
      rw [Entry.account_exit_joined ho] at hd
      cases hd
    | true =>
      have hcommit : ∀ d ∈ (account h cb (Session.commit e.connection) w).deeds,
          d.operation.isTerminal := asks_commit e.connection w
      rw [Entry.account_exit_ok hr ho] at hd
      generalize account h cb (Session.commit e.connection) w = t at hcommit hd
      obtain ⟨ds, f | u, w'⟩ := t <;> obtain hd | hd := List.mem_append.1 hd
      · exact hcommit d hd
      · exact asks_abandon hr e w' d hd
      · exact hcommit d hd
      · exact asks_release e w' d hd

end Blocking

theorem Action.Only.asks {A : Operation → Prop} {P : Outcome α → Prop} {p : Call α}
    (hp : p.run.Only A P) : p.Asks h cb A := by
  have hall : ∀ {p : Action (Outcome α)}, p.Only A P →
      ∀ w, ∀ d ∈ p.deeds h cb w, A d.operation := by
    intro p hp
    induction p with
    | done r => exact fun _ _ hd ↦ by cases hd
    | memory f k ih => exact hp.elim
    | operation o js k ih =>
      intro w d hd
      obtain rfl | hd := List.mem_cons.1 hd
      · exact hp.2.1
      · exact ih _ (hp.2.2 _) _ d hd
    | wait t js k ih => exact hp.elim
  exact hall hp

/-- A cursor may not be opened. If it is, then it is read, closed once, and only after that the scope
may end. -/
inductive ClosesFirst : List Deed → Prop
  | unopened {ds : List Deed} (hd : ∀ d ∈ ds, d.operation.isLease ∨ d.operation.isTerminal ∨
      ∃ c sql params f, d = ⟨.query c sql params, some f⟩) : ClosesFirst ds
  | closed {before reads after : List Deed} (hb : ∀ d ∈ before, d.operation.isLease) {c k : Nat}
    (sql : String) (params : List Value) (hr : ∀ d ∈ reads, Cursor.Fetch c k d.operation)
    (f : Option Fault) (ha : ∀ d ∈ after, d.operation.isTerminal) :
    ClosesFirst (before ++ ⟨.query c sql params, none⟩ :: (reads ++ ⟨.close c k, f⟩ :: after))

namespace Blocking

theorem asks_deliver (ret : Return) (columns : List Column) (c : Nat) (rows : List Row) :
    (deliver ret columns c rows).Asks h cb fun o ↦ o.isTerminal := by
  refine .bind (.ofResult _) fun value ↦ .bind (.checked (.bind .read fun _ ↦ .pure _) c) fun on ↦ ?_
  exact .ite _ (.bind (asks_commit c) fun _ ↦ .pure _) (.pure _)

theorem account_checked (c : Nat) (p : Call α) (w : World σ) :
    account h cb (Session.check c >>= fun _ ↦ p) w = account h cb p w ∨
      ∃ err, account h cb (Session.check c >>= fun _ ↦ p) w = ⟨[], .error (.error err), w⟩ := by
  rw [account_bind, Session.account_check]
  split
  · exact .inr ⟨_, rfl⟩
  · split
    · exact .inr ⟨_, rfl⟩
    · exact .inl rfl

theorem account_query_cases (hr : h.Returns) (c : Nat) (sql : String) (params : List Value)
    (w : World σ) :
    (∃ ds err w', account h cb (Session.query c sql params) w = ⟨ds, .error (.error err), w'⟩ ∧
      ∀ d ∈ ds, ∃ f, d = ⟨.query c sql params, some f⟩) ∨
    ∃ cursor w', cursor.connection = c ∧ cursor.fetched = 0 ∧
      account h cb (Session.query c sql params) w =
        ⟨[⟨.query c sql params, none⟩], .ok cursor, w'⟩ := by
  obtain hq | ⟨err, hq⟩ : account h cb (Session.query c sql params) w = _ ∨ ∃ err, _ = _ :=
    account_checked c (Call.operate (.query c sql params)) w
  · rw [hq, account_operate]
    have hp := hr.perform cb (.query c sql params) w
    have hcursor := h.outcome_perform cb (.query c sql params) w
    unfold Host.act at hcursor
    generalize h.perform cb (.query c sql params) w = r at hp hcursor
    obtain ⟨(err | m) | cursor, w'⟩ := r
    · exact .inl ⟨_, err, w', rfl, by simp [Outcome.fault?]⟩
    · cases hp
    · refine .inr ⟨cursor, w', ?_, ?_, rfl⟩
      all_goals
        rcases hout : (h.reaction (.query c sql params) w).outcome with f | raw <;> rw [hout] at hcursor
        · cases hcursor
        · cases hcursor
          rfl
  · exact .inl ⟨[], err, w, hq, by simp⟩

theorem account_close (c : Cursor) (w : World σ) : ∃ (r : Outcome Unit) (w' : World σ),
    account h cb c.close w = ⟨[⟨.close c.connection c.id, r.fault?⟩], r, w'⟩ := ⟨_, _, rfl⟩

theorem closesFirst_queryBody (hr : h.Returns) (ret : Return) (r : Template.Rendered) (c : Nat)
    (w : World σ) {before after : List Deed} (hb : ∀ d ∈ before, d.operation.isLease)
    (ha : ∀ d ∈ after, d.operation.isTerminal) :
    ClosesFirst (before ++ (account h cb (queryBody ret r c) w).deeds ++ after) := by
  rw [account_queryBody, account_bind]
  obtain ⟨ds, err, w', hq, hd⟩ | ⟨cursor, w', rfl, hf, hq⟩ : _ ∨ _ :=
    account_query_cases hr c r.sql r.params w
  · rw [hq]
    refine .unopened fun d hmem ↦ ?_
    change d ∈ before ++ ds ++ after at hmem
    obtain hmem | hmem := List.mem_append.1 hmem
    · obtain hmem | hmem := List.mem_append.1 hmem
      · exact .inl (hb d hmem)
      · obtain ⟨f, rfl⟩ := hd d hmem
        exact .inr (.inr ⟨_, _, _, f, rfl⟩)
    · exact .inr (.inl (ha d hmem))
  -- Behind the query come reads and the close, and after those what belongs to the scope.
  · rw [hq, Account.andThen_ok, account_bind, account_reading hr]
    have hreads : ∀ d ∈ (account h cb (cursor.pull ret.strategy) w').deeds,
        Cursor.Fetch cursor.connection cursor.id d.operation := (Cursor.only_pull cursor _).asks w'
    have hrest : ∀ {after' : List Deed}, (∀ d ∈ after', d.operation.isTerminal) →
        ∀ d ∈ after' ++ after, d.operation.isTerminal := by
      intro after' ha' d hd
      obtain hd | hd := List.mem_append.1 hd
      · exact ha' d hd
      · exact ha d hd
    generalize account h cb (cursor.pull ret.strategy) w' = t at hreads ⊢
    obtain ⟨ds, f | rows, w''⟩ := t
    all_goals
      dsimp only at hreads ⊢
      obtain ⟨r', w₃, hclose⟩ : ∃ r' w₃, account h cb cursor.close w'' = _ := account_close cursor w''
      rw [hclose]
    · simpa using ClosesFirst.closed hb r.sql r.params hreads _ ha
    · cases r' with
      | error f => simpa [Except.map] using ClosesFirst.closed hb r.sql r.params hreads _ ha
      | ok u =>
        have hdeliver : ∀ d ∈ (account h cb (deliver ret cursor.columns cursor.connection rows) w₃).deeds,
            d.operation.isTerminal := asks_deliver _ _ _ _ w₃
        simpa [Except.map] using ClosesFirst.closed hb r.sql r.params hreads _ (hrest hdeliver)

/-- Around its body a scope leases at its beginning, and commits, rolls back or releases at its end. -/
theorem deeds_enclosing (hr : h.Returns) (e : Entry) (p : Call α) (w : World σ) :
    ∃ after, (account h cb (Entry.enclosing e p) w).deeds = (account h cb p w).deeds ++ after ∧
      ∀ d ∈ after, d.operation.isTerminal := by
  rw [Entry.account_enclosing hr]
  rcases account h cb p w with ⟨ds, f | a, w'⟩
  · exact ⟨_, rfl, asks_abandon hr e w'⟩
  · exact ⟨_, rfl, asks_exit hr e _ w'⟩

theorem closesFirst_query (hr : h.Returns) (thread : Nat) (f : Bound) (ret : Return)
    (args : Arguments) (w : World σ) :
    ClosesFirst (account h cb (query thread f ret args) w).deeds := by
  have hq : query thread f ret args = f.render args >>= fun r ↦ enter thread f.binder true >>=
      fun e ↦ Entry.enclosing e (queryBody ret r e.connection) := rfl
  obtain ⟨r, hrender⟩ : ∃ r, account h cb (f.render args) w = ⟨[], r, w⟩ :=
    ⟨_, f.account_render args w⟩
  rw [hq, account_bind, hrender]
  cases r with
  | error err => exact .unopened (by simp)
  | ok r =>
    have henter : ∀ d ∈ (account h cb (enter thread f.binder true) w).deeds, d.operation.isLease :=
      asks_enter thread f.binder true w
    rw [Account.andThen_ok, Account.after_nil, account_bind]
    generalize account h cb (enter thread f.binder true) w = t at henter ⊢
    obtain ⟨ds, err | e, w'⟩ := t
    · exact .unopened fun d hd ↦ .inl (henter d hd)
    · obtain ⟨after, hdeeds, hafter⟩ : ∃ after, (account h cb
          (Entry.enclosing e (queryBody ret r e.connection)) w').deeds = _ ∧ _ :=
        deeds_enclosing hr e _ w'
      rw [Account.andThen_ok, Account.after_deeds, hdeeds, ← List.append_assoc]
      exact closesFirst_queryBody hr ret r e.connection w' henter hafter

end Blocking

end BoundSql