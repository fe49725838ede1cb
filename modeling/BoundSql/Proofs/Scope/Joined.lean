import BoundSql.Program.Context
import BoundSql.Proofs.Scope.Using

namespace BoundSql

open Memory

variable {α β : Type} {x : Context} {b c : Nat}

namespace Context

def executeBody (count : Count) (r : Template.Rendered) (x : Context) (c : Nat) : Call Mapped := do
  let n ← x.locking c (Session.execute c r.sql r.params)
  if ← x.locking c (Session.autocommit c) then x.locking c (Session.commit c)
  Call.ofResult (count.ofAffected n)

/-- Reads from a cursor, which is closed if that fails. -/
def reading (x : Context) (c : Nat) (cursor : Cursor) (p : Call α) : Call α :=
  match x.mode with
  | .blocking => Blocking.closingOnFailure cursor p
  | .async => Async.cleaningUp (.close c cursor.id) p

def queryBody (ret : Return) (r : Template.Rendered) (x : Context) (c : Nat) : Call Mapped := do
  let cursor ← x.locking c (Session.query c r.sql r.params)
  let rows ← x.reading c cursor (cursor.pull ret.strategy)
  cursor.close
  let value ← Call.ofResult (ret.ofRows cursor.columns rows)
  if ← x.locking c (Session.autocommit c) then x.locking c (Session.commit c)
  return value

def transactionBody (body : Context → Nat → Call α) (x : Context) (c : Nat) : Call α := do
  let previous ← x.locking c (Session.autocommit c)
  x.locking c (Session.setAutocommit c false)
  let r ← Blocking.caught (body x c)
  let restored ← Blocking.caught (x.locking c (Session.setAutocommit c previous))
  let a ← Call.ofResult r
  Call.ofResult restored
  return a

theorem execute_eq (x : Context) (f : Bound) (count : Count) (args : Arguments) :
    x.execute f count args =
      f.render args >>= fun r ↦ x.connection f.binder (executeBody count r) := by
  obtain ⟨_ | _, thread, scopes⟩ := x <;> rfl

theorem query_eq (x : Context) (f : Bound) (ret : Return) (args : Arguments) :
    x.query f ret args = f.render args >>= fun r ↦ x.connection f.binder (queryBody ret r) := by
  obtain ⟨_ | _, thread, scopes⟩ := x <;> rfl

theorem transaction_eq (x : Context) (b : Nat) (body : Context → Nat → Call α) :
    x.transaction b body = x.connection b (transactionBody body) := by
  obtain ⟨_ | _, thread, scopes⟩ := x <;> rfl

end Context

/-- Nothing has changed but what a program notes for itself. -/
structure Memory.Noted (m m' : Memory) : Prop extends SameBooks m m' where
  started : m'.started = m.started
  tasks : m'.tasks = m.tasks

def Context.Joins (x : Context) (b c : Nat) (m : Memory) : Prop :=
  match x.mode with
  | .blocking => m.active.lookup (x.thread, b) = some c
  | .async => x.scopes.lookup b = some c

/-- Code in a scope of the binder `b` that leased the connection `c`. It is put together from bound
calls of that binder and from statements on the scope's session; it leaves the session's commit,
rollback and autocommit flag alone. -/
inductive Joined (x : Context) (b c : Nat) : {α : Type} → Action α → Prop
  | done {α : Type} (a : α) : Joined x b c (.done a)
  | bind {α β : Type} {p : Action α} {f : α → Action β} (hp : Joined x b c p)
    (hf : ∀ a, Joined x b c (f a)) : Joined x b c (p >>= f)
  | note {α : Type} {f : Memory → Memory} (hf : ∀ m : Memory, m.Noted (f m)) (k : Memory → α) :
    Joined x b c (.memory f fun m ↦ .done (k m))
  | pause : Joined x b c (Call.wait .idle).run
  | read {o : Operation} (ho : o.isRead) : Joined x b c (Call.operate o).run
  | statement (sql : String) (params : List Value) :
    Joined x b c (x.locking c (Session.execute c sql params)).run
  | rows (sql : String) (params : List Value) :
    Joined x b c (x.locking c (Session.query c sql params)).run
  | autocommit : Joined x b c (x.locking c (Session.autocommit c)).run
  | execute {f : Bound} (hf : f.binder = b) (count : Count) (args : Arguments) :
    Joined x b c (x.execute f count args).run
  | query {f : Bound} (hf : f.binder = b) (ret : Return) (args : Arguments) :
    Joined x b c (x.query f ret args).run
  | stream {β : Type} {f : Bound} (hf : f.binder = b) (shape : Shape) (args : Arguments)
    {k : Outcome Stream → Action β}
    (hk : ∀ r, (∀ s, r = .ok s → s.entry = none) → Joined x b c (k r)) :
    Joined x b c ((x.stream f shape args).run >>= k)
  | next {β : Type} {s : Stream} (hs : s.entry = none)
    {k : Outcome (Option (Except Error Mapped)) × Stream → Action β}
    (hk : ∀ r, r.2.entry = none → Joined x b c (k r)) : Joined x b c (x.next s >>= k)
  | drop {s : Stream} (hs : s.entry = none) : Joined x b c (x.dropStream s).run
  | connection {α : Type} {body : Context → Nat → Call α} (hbody : Joined x b c (body x c).run) :
    Joined x b c (x.connection b body).run
  | transaction {α : Type} {body : Context → Nat → Call α} (hbody : Joined x b c (body x c).run) :
    Joined x b c (x.transaction b body).run

/-- Statements on one connection, and reading; tasks may be left behind to close cursors. -/
def Conduct.inside (I : Memory → Prop) (c : Nat) : Conduct where
  rely _ m := I m
  rely_trans _ := id
  calm m m' := I m → I m'
  calm_refl _ := id
  asks _ _ o := o.isRead ∨ o.isStatement ∧ o.connection? = some c
  answers _ _ := True
  leaves j := ∃ d n, j = .close d n
  spawns _ := False
  hands _ _ _ := False

structure Shelter (x : Context) (b c : Nat) (I : Memory → Prop) : Prop where
  joins : ∀ m, I m → x.Joins b c m
  off : ∀ m, I m → (m.held.lookup c).getD false = false
  setOff : ∀ m, I m → I (m.setAutocommit c false)
  noted : ∀ m m' : Memory, m.Noted m' → I m → I m'
  start : ∀ m d n, I m → I (m.start (.close d n))

namespace Shelter

variable {I : Memory → Prop} {P : α → Prop} {p : Call α}

theorem resumes (m m' : Memory) (h : (Conduct.inside I c).rely m m') : I m' := h

theorem steady : (Conduct.inside I c).Steady I := ⟨resumes, fun _ _ _ _ ho ↦ .inl ho⟩

theorem locking (d : Nat) (hp : (Conduct.inside I c).Runs I P p) :
    (Conduct.inside I c).Runs I P (x.locking d p) := by
  unfold Context.locking
  cases x.mode with
  | blocking => exact hp
  | async => exact .locking resumes hp

theorem statement {o : Operation} (ho : o.isStatement) (hc : o.connection? = some c) :
    (Conduct.inside I c).Runs I (fun _ ↦ True)
      (Session.check c >>= fun _ ↦ Call.operate o) :=
  .checked resumes (by cases o <;> first | rfl | cases ho) fun _ _ _ _ ↦ .inr ⟨ho, hc⟩

theorem autocommit (hI : Shelter x b c I) :
    (Conduct.inside I c).Runs I (· = false) (Session.autocommit c) := by
  refine fun l m hm ↦ .check (fun _ ↦ ?_) fun e ↦ ⟨hm, fun _ h ↦ by cases h⟩
  refine .inl ⟨id, hm, fun on h ↦ ?_⟩
  rw [← Except.ok.inj h]
  exact hI.off m hm

theorem setAutocommit (hI : Shelter x b c I) :
    (Conduct.inside I c).Runs I (fun _ ↦ True) (Session.setAutocommit c false) := by
  refine fun l m hm ↦ .check (fun _ ↦ ?_) fun e ↦ ⟨hm, fun _ _ ↦ trivial⟩
  exact .inl ⟨hI.setOff m, hI.setOff m hm, fun _ _ ↦ trivial⟩

theorem protecting {d n : Nat} (hI : Shelter x b c I) (hp : (Conduct.inside I c).Runs I P p) :
    (Conduct.inside I c).Runs I P (Async.protecting (.close d n) p) :=
  .protecting ⟨d, n, rfl⟩ (fun m hm ↦ ⟨hI.start m d n, hI.start m d n hm⟩) hp

theorem cleaningUp {d n : Nat} (hI : Shelter x b c I) (hp : (Conduct.inside I c).Runs I P p) :
    (Conduct.inside I c).Runs I P (Async.cleaningUp (.close d n) p) :=
  .cleaningUp ⟨d, n, rfl⟩ (fun m hm ↦ ⟨hI.start m d n, hI.start m d n hm⟩) hp

theorem guarded_blocking {e : Entry} (he : e.owner = false)
    (hp : (Conduct.inside I c).Runs I P p) :
    (Conduct.inside I c).Runs I P (Blocking.Entry.guarded e p) := by
  refine Conduct.Runs.bind hp.outcome fun r hr ↦ ?_
  rcases r with (err | s) | a
  · exact .fail err
  · have ha : (Conduct.inside I c).Runs I (fun _ ↦ True) (Blocking.Entry.abandon e) := by
      unfold Blocking.Entry.abandon
      rw [he]
      exact .pure trivial
    exact ha.outcome.bind fun _ _ ↦ .throw _
  · exact .pure (hr a rfl)

theorem exit_blocking {e : Entry} (he : e.owner = false) {r : Except Error α}
    (hr : ∀ a, r = .ok a → P a) :
    (Conduct.inside I c).Runs I P (Blocking.Entry.exit e r) := by
  unfold Blocking.Entry.exit
  rw [he]
  exact .ofResult hr

theorem exit_async {e : Entry} (he : e.owner = false) {r : Except Error α}
    (hr : ∀ a, r = .ok a → P a) :
    (Conduct.inside I c).Runs I P (Async.Entry.exit e r) := by
  unfold Async.Entry.exit
  rw [he]
  exact .ofResult hr

theorem enter_blocking (hI : Shelter x b c I) (hx : x.mode = .blocking) (register : Bool) :
    (Conduct.inside I c).Runs I (fun e ↦ e = ⟨b, c, false, false, x.thread⟩)
      (Blocking.enter x.thread b register) := by
  refine (Conduct.Runs.pool b).bind fun _ _ ↦ Conduct.Runs.read.bind fun m hm ↦ ?_
  have hj := hI.joins m hm
  rw [Context.Joins, hx] at hj
  rw [hj]
  exact .pure rfl

theorem enter_async (hj : x.scopes.lookup b = some c) :
    (Conduct.inside I c).Runs I (fun e ↦ e = ⟨b, c, false, false, 0⟩)
      (Async.enter x.scopes b) := by
  refine (Conduct.Runs.pool b).bind fun _ _ ↦ ?_
  rw [hj]
  exact .pure rfl

theorem connection (hI : Shelter x b c I) {body : Context → Nat → Call α}
    (hbody : (Conduct.inside I c).Runs I P (body x c)) :
    (Conduct.inside I c).Runs I P (x.connection b body) := by
  intro l m hm
  have hj := hI.joins m hm
  obtain ⟨mode, thread, scopes⟩ := x
  cases mode with
  | blocking =>
    refine ((hI.enter_blocking rfl true).bind fun e he ↦ ?_) l m hm
    have ho : e.owner = false := by rw [he]
    have hc : e.connection = c := by rw [he]
    rw [hc]
    exact (guarded_blocking ho hbody.caught).bind fun r hr ↦ exit_blocking ho hr
  | async =>
    refine ((enter_async (x := ⟨.async, thread, scopes⟩) hj).bind fun e he ↦ ?_) l m hm
    rw [he]
    exact hbody.caught.bind fun r hr ↦ exit_async (e := ⟨b, c, false, false, 0⟩) rfl hr

theorem executeBody (hI : Shelter x b c I) (count : Count) (r : Template.Rendered) :
    (Conduct.inside I c).Runs I (fun _ ↦ True) (x.executeBody count r c) := by
  refine (locking c (statement (o := .execute c r.sql r.params) rfl rfl)).bind fun n _ ↦ ?_
  refine (locking c hI.autocommit).bind fun on hon ↦ ?_
  rw [hon]
  exact .ofResult fun _ _ ↦ trivial

theorem reading (hI : Shelter x b c I) (cursor : Cursor) (hp : Reads p.run) :
    (Conduct.inside I c).Runs I (fun _ ↦ True) (x.reading c cursor p) := by
  unfold Context.reading
  cases x.mode with
  | blocking => exact .reads steady (Reads.closingOnFailure cursor hp)
  | async => exact hI.cleaningUp (.reads steady hp)

theorem queryBody (hI : Shelter x b c I) (ret : Return) (r : Template.Rendered) :
    (Conduct.inside I c).Runs I (fun _ ↦ True) (x.queryBody ret r c) := by
  refine (locking c (statement (o := .query c r.sql r.params) rfl rfl)).bind fun cursor _ ↦ ?_
  refine (hI.reading cursor (.pullRows cursor _)).bind fun rows _ ↦ ?_
  refine (Conduct.Runs.reads steady (.close cursor)).bind fun _ _ ↦ ?_
  refine (Conduct.Runs.ofResult fun _ _ ↦ trivial).bind fun value _ ↦ ?_
  refine (locking c hI.autocommit).bind fun on hon ↦ ?_
  rw [hon]
  exact .pure trivial

theorem transactionBody (hI : Shelter x b c I) {body : Context → Nat → Call α}
    (hbody : (Conduct.inside I c).Runs I P (body x c)) :
    (Conduct.inside I c).Runs I P (x.transactionBody body c) := by
  refine (locking c hI.autocommit).bind fun previous hprev ↦ ?_
  rw [hprev]
  refine (locking c hI.setAutocommit).bind fun _ _ ↦ hbody.caught.bind fun r hr ↦ ?_
  refine (locking c hI.setAutocommit).caught.bind fun restored _ ↦ ?_
  refine (Conduct.Runs.ofResult hr).bind fun a ha ↦ ?_
  exact (Conduct.Runs.ofResult fun _ _ ↦ trivial).bind fun _ _ ↦ .pure ha

theorem stream (hI : Shelter x b c I) {f : Bound} (hf : f.binder = b) (shape : Shape)
    (args : Arguments) :
    (Conduct.inside I c).Runs I (·.entry = none) (x.stream f shape args) := by
  subst hf
  intro l m hm
  have hj := hI.joins m hm
  have hq : ∀ r : Template.Rendered,
      (Conduct.inside I c).Runs I (fun _ ↦ True) (Session.query c r.sql r.params) :=
    fun r ↦ statement (o := .query c r.sql r.params) rfl rfl
  obtain ⟨mode, thread, scopes⟩ := x
  cases mode with
  | blocking =>
    refine ((Conduct.Runs.render f args).bind fun r _ ↦
      (hI.enter_blocking rfl false).bind fun e he ↦ ?_) l m hm
    have ho : e.owner = false := by rw [he]
    have hc : e.connection = c := by rw [he]
    rw [hc]
    refine (guarded_blocking ho (hq r).caught).bind fun q _ ↦ ?_
    cases q with
    | error err => exact exit_blocking ho fun _ h ↦ by cases h
    | ok cursor => exact .pure (by rw [ho]; rfl)
  | async =>
    refine ((Conduct.Runs.render f args).bind fun r _ ↦
      (enter_async (x := ⟨.async, thread, scopes⟩) hj).bind fun e he ↦ ?_) l m hm
    rw [he]
    refine Conduct.Runs.bind (Conduct.Runs.locking resumes (hq r)).caught fun q _ ↦ ?_
    cases q with
    | error err =>
      exact exit_async (e := ⟨f.binder, c, false, false, 0⟩) rfl fun _ h ↦ by cases h
    | ok cursor => exact .pure rfl

theorem holding (hI : Shelter x b c I) {s : Stream} (hs : s.entry = none)
    (hp : (Conduct.inside I c).Runs I P p) : (Conduct.inside I c).Runs I P (Async.holding s p) := by
  obtain ⟨cursor, columns, shape, entry, closed, finished⟩ := s
  cases hs
  cases finished <;> cases closed <;> first | exact hp | exact hI.protecting hp

theorem finish (hI : Shelter x b c I) {s : Stream} (hs : s.entry = none)
    (failure : Option Error) :
    (Conduct.inside I c).Keeps I (fun r ↦ r.2.entry = none) (Blocking.finish s failure) ∧
      (Conduct.inside I c).Keeps I (fun r ↦ r.2.entry = none) (Async.finish s failure) := by
  have hc : (Conduct.inside I c).Runs I (fun _ ↦ True) (Blocking.caught s.cursor.close) :=
    .reads steady (Reads.close s.cursor).caught
  constructor
  · unfold Blocking.finish
    refine Conduct.Keeps.bind hc fun r _ ↦ ?_
    rcases r with f | closed
    · exact .done hs
    · simp only [hs]
      exact .done rfl
  · unfold Async.finish
    refine Conduct.Keeps.bind (hI.holding (s := { s with closed := true }) hs hc) fun r _ ↦ ?_
    rcases r with f | closed
    · exact .done rfl
    · simp only [hs]
      exact .done rfl

theorem next (hI : Shelter x b c I) {s : Stream} (hs : s.entry = none) :
    (Conduct.inside I c).Keeps I (fun r ↦ r.2.entry = none) (x.next s) := by
  have hf : (Conduct.inside I c).Runs I (fun _ ↦ True) (Cursor.fetchOne.run s.cursor) :=
    .reads steady (Reads.fetchOne s.cursor)
  obtain ⟨mode, thread, scopes⟩ := x
  cases mode with
  | blocking =>
    change (Conduct.inside I c).Keeps I _ (Blocking.next s)
    unfold Blocking.next
    split
    · exact .done hs
    · refine Conduct.Keeps.bind hf fun r _ ↦ ?_
      rcases r with (err | msg) | ⟨_ | row, cursor⟩
      · exact (hI.finish hs _).1
      · exact .done hs
      · exact (hI.finish (s := { s with cursor }) hs _).1
      · dsimp only
        split
        · exact .done hs
        · exact (hI.finish (s := { s with cursor }) hs _).1
  | async =>
    change (Conduct.inside I c).Keeps I _ (Async.next s)
    unfold Async.next
    split
    · exact .done hs
    · refine Conduct.Keeps.bind (hI.holding hs hf.caught) fun r _ ↦ ?_
      rcases r with f | err | ⟨_ | row, cursor⟩
      · exact .done hs
      · exact (hI.finish hs _).2
      · exact (hI.finish (s := { s with cursor }) hs _).2
      · dsimp only
        split
        · exact .done hs
        · exact (hI.finish (s := { s with cursor }) hs _).2

theorem dropStream (hI : Shelter x b c I) {s : Stream} (hs : s.entry = none) :
    (Conduct.inside I c).Runs I (fun _ ↦ True) (x.dropStream s) := by
  obtain ⟨mode, thread, scopes⟩ := x
  cases mode with
  | blocking =>
    have hp : (Conduct.inside I c).Runs I (fun _ ↦ True)
        (if s.closed then pure () else Blocking.closeQuietly s.cursor : Call Unit) := by
      split
      · exact .pure trivial
      · exact .reads steady (Reads.closeQuietly s.cursor)
    change (Conduct.inside I c).Runs I _ (Blocking.dropStream s)
    unfold Blocking.dropStream
    refine hp.outcome.bind fun r _ ↦ ?_
    rw [hs]
    exact (Conduct.Runs.pure (P := fun _ ↦ True) trivial).bind fun _ _ ↦ .ret fun _ _ ↦ trivial
  | async =>
    change (Conduct.inside I c).Runs I _ (Async.dropStream s)
    unfold Async.dropStream Async.cleanupOf
    rw [hs]
    split
    · rename_i j hj
      obtain ⟨d, n, rfl⟩ : ∃ d n, j = .close d n := by
        split at hj
        · cases hj
        · cases hc : s.closed <;> simp [hc] at hj
          exact ⟨_, _, hj.symm⟩
      exact .lift (.start fun m hm ↦ ⟨hI.start m d n, hI.start m d n hm⟩)
    · exact .pure trivial

end Shelter

/-- While autocommit is off, code in the scope keeps it off, and runs its statements on the scope's
connection. -/
theorem Joined.keeps {I : Memory → Prop} (hI : Shelter x b c I) {p : Action α}
    (hp : Joined x b c p) : (Conduct.inside I c).Keeps I (fun _ ↦ True) p := by
  have hany : ∀ {γ : Type} {q : Call γ}, (Conduct.inside I c).Runs I (fun _ ↦ True) q →
      (Conduct.inside I c).Keeps I (fun _ ↦ True) q.run :=
    fun hq ↦ Conduct.Keeps.mono hq fun _ _ ↦ trivial
  induction hp with
  | done a => exact .done trivial
  | bind _ _ ihp ihf => exact ihp.bind fun a _ ↦ ihf a
  | note hf k =>
    exact .memory (fun m hm ↦ ⟨hI.noted _ _ (hf m), hI.noted _ _ (hf m) hm⟩) fun _ _ ↦ trivial
  | pause => exact hany (.wait Shelter.resumes fun j h ↦ by cases h)
  | read ho => exact (Reads.operate ho).keeps Shelter.steady
  | statement sql params =>
    exact hany (Shelter.locking c (Shelter.statement (o := .execute c sql params) rfl rfl))
  | rows sql params =>
    exact hany (Shelter.locking c (Shelter.statement (o := .query c sql params) rfl rfl))
  | autocommit => exact hany ((Shelter.locking c hI.autocommit).mono fun _ _ ↦ trivial)
  | @execute f hf count args =>
    subst hf
    rw [Context.execute_eq]
    exact hany ((Conduct.Runs.render f args).bind fun r _ ↦ hI.connection (hI.executeBody count r))
  | @query f hf ret args =>
    subst hf
    rw [Context.query_eq]
    exact hany ((Conduct.Runs.render f args).bind fun r _ ↦ hI.connection (hI.queryBody ret r))
  | stream hf shape args _ ih =>
    exact Conduct.Keeps.bind (hI.stream hf shape args) fun r hr ↦ ih r hr
  | next hs _ ih => exact (hI.next hs).bind fun r hr ↦ ih r hr
  | drop hs => exact hany (hI.dropStream hs)
  | connection _ ih =>
    exact hany (hI.connection (Conduct.Keeps.mono ih fun _ _ _ _ ↦ trivial))
  | transaction _ ih =>
    rw [Context.transaction_eq]
    exact hany (hI.connection (hI.transactionBody (Conduct.Keeps.mono ih fun _ _ _ _ ↦ trivial)))

end BoundSql
