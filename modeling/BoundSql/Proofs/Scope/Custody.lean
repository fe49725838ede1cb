import BoundSql.Proofs.Scope.Aside
import BoundSql.Proofs.Scope.Joined

namespace BoundSql

open Memory

variable {σ α β : Type} {h : Host σ} {b c d : Nat} {m m' : Memory} {commits : Prop}

/-- Opens a stream on the connection of an entry. -/
def Async.opening (shape : Shape) (r : Template.Rendered) (e : Entry) : Call Stream := do
  match ← Entry.guarded e (caught (locking e.connection
      (Session.query e.connection r.sql r.params))) with
  | .error err => Entry.exit e (.error err)
  | .ok cursor =>
    return ⟨cursor, cursor.columns, shape, if e.owner then some e else none, false, false⟩

theorem Context.stream_eq {x : Context} (hx : x.mode = .async) (f : Bound) (shape : Shape) (args : Arguments) :
    x.stream f shape args = f.render args >>= fun r ↦
      Async.enter x.scopes f.binder >>= Async.opening shape r := by
  rw [Context.stream, hx]
  rfl

namespace Event

def isOperation : Event → Bool
  | .operation _ _ _ => true
  | _ => false

end Event

def Memory.operations (m : Memory) : List Event := m.trace.filter Event.isOperation

def Job.Cleans (c : Nat) : Job → Prop
  | .release _ d => d ≠ c
  | .steps _ _ => False
  | .close _ _ | .abandon _ _ | .abandonStream _ _ _ => True

/-- The connection is where it was, and nothing has been done to it; tasks that clean up may have been
started. -/
structure Memory.Untouched (c : Nat) (m m' : Memory) : Prop where
  leases : m'.leases = m.leases
  tasks : m'.tasks = m.tasks
  holds : m'.Holds c ↔ m.Holds c
  operations : m'.operations = m.operations
  started : ∃ js : List Job, m'.started = m.started ++ js ∧ ∀ j ∈ js, j.Cleans c

namespace Memory.Untouched

theorem refl (c : Nat) (m : Memory) : Untouched c m m :=
  ⟨rfl, rfl, Iff.rfl, rfl, [], by simp, by simp⟩

theorem start {j : Job} (hj : j.Cleans c) (m : Memory) : Untouched c m (m.start j) := by
  unfold Memory.start
  split
  · exact ⟨rfl, rfl, Iff.rfl, rfl, [j], rfl, by simpa using hj⟩
  · exact refl c m

theorem letGo (hd : d ≠ c) (m : Memory) : Untouched c m (m.letGo d) := by
  refine ⟨rfl, rfl, ?_, rfl, [], by simp [Memory.letGo], by simp⟩
  rw [Holds, Holds, Memory.letGo, lookup_eraseKey_ne hd.symm]

theorem hold (hd : d ≠ c) (on : Bool) (m : Memory) : Untouched c m (m.hold d on) := by
  refine ⟨rfl, rfl, ?_, rfl, [], by simp [Memory.hold], by simp⟩
  rw [Holds, Holds, Memory.hold, lookup_setKey_ne hd.symm]

theorem setAutocommit (d : Nat) (on : Bool) (m : Memory) :
    Untouched c m (m.setAutocommit d on) := by
  refine ⟨rfl, rfl, ?_, rfl, [], by simp [Memory.setAutocommit], by simp⟩
  rw [Holds, Holds, lookup_setAutocommit, Option.isSome_map]

theorem noted (hn : m.Noted m') : Untouched c m m' := by
  refine ⟨hn.leases, hn.tasks, ?_, ?_, [], by simp [hn.started], by simp⟩
  · rw [Holds, Holds, hn.held]
  · rw [Memory.operations, Memory.operations, hn.trace]

end Memory.Untouched

/-- Operations that return, and lease another connection at most. -/
def Operation.Returns (c : Nat) : (o : Operation) → Outcome o.Answer → Prop
  | .lease _, r => Outcome.isPanic r = false ∧ ∀ d : Nat, r = .ok d → d ≠ c
  | _, r => Outcome.isPanic r = false

def Conduct.custody (c : Nat) (commits : Prop) : Conduct where
  rely _ m := c ≤ m.leases ∧ m.tasks = true
  rely_trans _ := id
  calm m m' := m.Untouched c m'
  calm_refl m := .refl c m
  asks _ m o := (∀ b, o ≠ .release b c) ∧ (o.isLocked → o.connection? = some c → m.Holds c) ∧
    (o = .commit c → commits)
  answers o r := o.Returns c r
  leaves j := j.Cleans c
  spawns j := j.Cleans c
  hands m m' j := m.Holds c ∧ m' = m.letGo c ∧ ∃ b, j = .release b c

namespace Conduct.custody

abbrev Leased (c : Nat) (m : Memory) : Prop := c ≤ m.leases ∧ m.tasks = true

theorem resumes (m m' : Memory) (hm : (custody c commits).rely m m') : Leased c m' := hm

theorem leased (hm : Leased c m) (hu : m.Untouched c m') : Leased c m' :=
  ⟨by rw [hu.leases]; exact hm.1, by rw [hu.tasks]; exact hm.2⟩

theorem keeps (hm : Leased c m) (hu : m.Untouched c m') :
    (custody c commits).calm m m' ∧ Leased c m' := ⟨hu, leased hm hu⟩

theorem steady : (custody c commits).Steady (Leased c) where
  resumes := resumes
  reads _ _ o _ ho := by
    cases o with
    | fetch _ _ _ | close _ _ => exact ⟨nofun, nofun, nofun⟩
    | _ => cases ho

theorem ends (b d : Nat) : (custody c commits).Ends (Leased c) b d where
  resumes := resumes
  close _ _ _ _ := ⟨nofun, nofun, nofun⟩
  rollback _ m _ hu := ⟨nofun, fun _ hd ↦ Option.some.inj hd ▸ hu.1, nofun⟩
  handOver m hm hh _ := by
    by_cases hd : d = c
    · subst hd
      exact .inl ⟨hh, rfl, b, rfl⟩
    · obtain ⟨hc, hI⟩ := keeps hm (Untouched.letGo hd m)
      exact .inr ⟨hc, hI, hd⟩
  release m hm _ ht := by
    rw [hm.2] at ht
    cases ht
  leaves := trivial
  start m hm := keeps hm (Untouched.start (j := .abandon b d) trivial m)

theorem job {j : Job} (hj : j.Cleans c) (x : Context) :
    (custody c commits).Runs (Leased c) (fun _ ↦ True) (j.run x) := by
  cases j with
  | close d n => exact .reads steady (.operate (o := .close d n) rfl)
  | abandon b d => exact (ends b d).endAbandoned
  | abandonStream b d cursor => exact (ends b d).endAbandonedStream cursor
  | release b d =>
    refine Runs.operate (o := .release b d) (P := fun _ ↦ True) resumes ?_ fun _ _ _ _ _ ↦ trivial
    refine fun _ m _ ↦ ⟨fun b' he ↦ hj ?_, nofun, nofun⟩
    injection he
  | steps _ _ => exact hj.elim

variable {x : Context} {P : α → Prop} {p : Call α}

theorem statement {o : Operation} (ho : o.isLocked) (hd : o.connection? = some d)
    (hn : o = .commit c → commits) :
    (custody c commits).Runs (Leased c) (fun _ ↦ True)
      (Session.check d >>= fun _ ↦ Call.operate o) := by
  refine .checked resumes ho fun _ m _ hu ↦ ⟨?_, fun _ hc ↦ ?_, hn⟩
  · rintro b rfl
    cases ho
  · rw [hd] at hc
    exact Option.some.inj hc ▸ hu.1

theorem autocommit (d : Nat) :
    (custody c commits).Runs (Leased c) (fun _ ↦ True) (Session.autocommit d) :=
  fun _ m hm ↦ .check (fun _ ↦ .inl ⟨.refl c m, hm, fun _ _ ↦ trivial⟩) fun _ ↦
    ⟨hm, fun _ _ ↦ trivial⟩

theorem setAutocommit (d : Nat) (on : Bool) :
    (custody c commits).Runs (Leased c) (fun _ ↦ True) (Session.setAutocommit d on) := by
  refine fun _ m hm ↦ .check (fun _ ↦ ?_) fun _ ↦ ⟨hm, fun _ _ ↦ trivial⟩
  obtain ⟨hc, hI⟩ := keeps hm (Untouched.setAutocommit d on m)
  exact .inl ⟨hc, hI, fun _ _ ↦ trivial⟩

theorem locking (hx : x.mode = .async) (d : Nat) (hp : (custody c commits).Runs (Leased c) P p) :
    (custody c commits).Runs (Leased c) P (x.locking d p) := by
  rw [Context.locking, hx]
  exact .locking resumes hp

theorem protecting {j : Job} (hj : j.Cleans c) (hp : (custody c commits).Runs (Leased c) P p) :
    (custody c commits).Runs (Leased c) P (Async.protecting j p) :=
  .protecting hj (fun m hm ↦ keeps hm (.start hj m)) hp

theorem enter (scopes : Async.Scopes) (b : Nat) :
    (custody c commits).Runs (Leased c) (fun _ ↦ True) (Async.enter scopes b) := by
  refine (Runs.pool b).bind fun _ _ ↦ ?_
  cases scopes.lookup b with
  | some d => exact .pure trivial
  | none =>
    have hlease : (custody c commits).Runs (Leased c) (fun d : Nat ↦ d ≠ c)
        (Call.operate (.lease b)) :=
      .operate resumes (fun _ _ _ ↦ ⟨nofun, nofun, nofun⟩) fun _ _ d _ ha ↦ ha.2 d rfl
    refine Runs.bind (P := fun _ ↦ True) ?_ fun _ _ ↦ .pure trivial
    refine (Runs.pool b).bind fun p _ ↦ hlease.bind fun d hd ↦ ?_
    exact (Runs.modify fun m hm ↦ keeps hm (Untouched.hold hd p.autocommit m)).bind fun _ _ ↦
      .pure trivial

theorem exit {e : Entry} {r : Except Error α} :
    (custody c True).Runs (Leased c) (fun _ ↦ True) (Async.Entry.exit e r) := by
  refine (ends e.binder e.connection).exit (fun _ _ ↦ trivial) fun _ _ m _ hu ↦ ?_
  exact ⟨nofun, fun _ hd ↦ Option.some.inj hd ▸ hu.1, fun _ ↦ trivial⟩

theorem exit_error {e : Entry} (err : Error) :
    (custody c commits).Runs (Leased c) (fun _ ↦ True)
      (Async.Entry.exit (α := α) e (.error err)) :=
  (ends e.binder e.connection).exit (fun _ _ ↦ trivial) nofun

theorem scope (e : Entry) {body : Call α}
    (hbody : (custody c True).Runs (Leased c) (fun _ ↦ True) body) :
    (custody c True).Runs (Leased c) (fun _ ↦ True)
      (Async.Entry.guarded e (Blocking.caught body) >>= Async.Entry.exit e) :=
  ((ends e.binder e.connection).guarded hbody.caught).bind fun _ _ ↦ exit

theorem connection (hx : x.mode = .async) {b : Nat} {body : Context → Nat → Call α}
    (hbody : ∀ y c', y.mode = .async →
      (custody c True).Runs (Leased c) (fun _ ↦ True) (body y c')) :
    (custody c True).Runs (Leased c) (fun _ ↦ True) (x.connection b body) := by
  obtain ⟨mode, thread, scopes⟩ := x
  cases hx
  exact (enter scopes b).bind fun e _ ↦ scope e (hbody _ e.connection rfl)

theorem executeBody (hx : x.mode = .async) (count : Count) (r : Template.Rendered) (d : Nat) :
    (custody c True).Runs (Leased c) (fun _ ↦ True) (x.executeBody count r d) := by
  refine (locking hx d (statement (o := .execute d r.sql r.params) rfl rfl nofun)).bind fun n _ ↦
    (locking hx d (autocommit d)).bind fun on _ ↦ ?_
  have hend : (custody c True).Runs (Leased c) (fun _ ↦ True)
      (Call.ofResult (count.ofAffected n)) := .ofResult fun _ _ ↦ trivial
  cases on with
  | false => exact hend
  | true =>
    exact (locking hx d (statement (o := .commit d) rfl rfl fun _ ↦ trivial)).bind fun _ _ ↦ hend

theorem queryBody (hx : x.mode = .async) (ret : Return) (r : Template.Rendered) (d : Nat) :
    (custody c True).Runs (Leased c) (fun _ ↦ True) (x.queryBody ret r d) := by
  have hread : ∀ cursor : Cursor, (custody c True).Runs (Leased c) (fun _ ↦ True)
      (x.reading d cursor (cursor.pull ret.strategy)) := by
    intro cursor
    rw [Context.reading, hx]
    have hj : (Job.close d cursor.id).Cleans c := trivial
    exact .cleaningUp hj (fun m hm ↦ keeps hm (.start hj m))
      (.reads steady (.pullRows cursor _))
  refine (locking hx d (statement (o := .query d r.sql r.params) rfl rfl nofun)).bind fun cursor _ ↦
    (hread cursor).bind fun rows _ ↦ (Runs.reads steady (.close cursor)).bind fun _ _ ↦
    (Runs.ofResult fun _ _ ↦ trivial).bind fun value _ ↦
    (locking hx d (autocommit d)).bind fun on _ ↦ ?_
  cases on with
  | false => exact .pure trivial
  | true =>
    exact (locking hx d (statement (o := .commit d) rfl rfl fun _ ↦ trivial)).bind fun _ _ ↦
      .pure trivial

theorem transactionBody (hx : x.mode = .async) {body : Context → Nat → Call α} {d : Nat}
    (hbody : (custody c True).Runs (Leased c) (fun _ ↦ True) (body x d)) :
    (custody c True).Runs (Leased c) (fun _ ↦ True) (x.transactionBody body d) := by
  refine (locking hx d (autocommit d)).bind fun previous _ ↦
    (locking hx d (setAutocommit d false)).bind fun _ _ ↦ hbody.caught.bind fun r _ ↦
    (locking hx d (setAutocommit d previous)).caught.bind fun restored _ ↦
    (Runs.ofResult fun _ _ ↦ trivial).bind fun a _ ↦
    (Runs.ofResult fun _ _ ↦ trivial).bind fun _ _ ↦ .pure trivial

theorem opening (shape : Shape) (r : Template.Rendered) (e : Entry) :
    (custody c True).Runs (Leased c) (fun _ ↦ True) (Async.opening shape r e) := by
  have hq : (custody c True).Runs (Leased c) (fun _ ↦ True)
      (Async.locking e.connection (Session.query e.connection r.sql r.params)) :=
    .locking resumes
      (statement (o := .query e.connection r.sql r.params) rfl rfl nofun)
  refine ((ends e.binder e.connection).guarded hq.caught).bind fun q _ ↦ ?_
  cases q with
  | error err => exact exit_error err
  | ok cursor => exact .pure trivial

theorem stream (hx : x.mode = .async) (f : Bound) (shape : Shape) (args : Arguments) :
    (custody c True).Runs (Leased c) (fun _ ↦ True) (x.stream f shape args) := by
  rw [Context.stream_eq hx]
  exact (Runs.render f args).bind fun r _ ↦ (enter x.scopes f.binder).bind fun e _ ↦
    opening shape r e

theorem cleans_cleanupOf {s : Stream} {j : Job} (hj : Async.cleanupOf s = some j) : j.Cleans c := by
  obtain ⟨cursor, columns, shape, entry, closed, finished⟩ := s
  cases finished <;> cases closed <;> cases entry <;> cases hj <;> trivial

theorem holding {s : Stream} (hp : (custody c commits).Runs (Leased c) P p) :
    (custody c commits).Runs (Leased c) P (Async.holding s p) := by
  unfold Async.holding
  split
  · exact protecting (cleans_cleanupOf ‹_›) hp
  · exact hp

theorem finish (s : Stream) (failure : Option Error) :
    (custody c True).Keeps (Leased c) (fun _ ↦ True) (Async.finish s failure) := by
  have hc : (custody c True).Runs (Leased c) (fun _ ↦ True) (Async.caught s.cursor.close) :=
    .reads steady (Reads.close s.cursor).caught
  unfold Async.finish
  refine Keeps.bind (holding hc) fun r _ ↦ ?_
  rcases r with f | closed
  · exact .done trivial
  · dsimp only
    split
    · exact Keeps.bind exit fun _ _ ↦ .done trivial
    · exact .done trivial

theorem next (hx : x.mode = .async) (s : Stream) :
    (custody c True).Keeps (Leased c) (fun _ ↦ True) (x.next s) := by
  have hf : (custody c True).Runs (Leased c) (fun _ ↦ True)
      (Async.caught (Cursor.fetchOne.run s.cursor)) :=
    .reads steady (Reads.fetchOne s.cursor).caught
  rw [Context.next, hx]
  dsimp only
  unfold Async.next
  split
  · exact .done trivial
  · refine Keeps.bind (holding hf) fun r _ ↦ ?_
    rcases r with f | err | ⟨_ | row, cursor⟩
    · exact .done trivial
    · exact finish s _
    · exact finish { s with cursor } _
    · dsimp only
      split
      · exact .done trivial
      · exact finish { s with cursor } _

theorem dropStream (hx : x.mode = .async) (s : Stream) :
    (custody c commits).Runs (Leased c) (fun _ ↦ True) (x.dropStream s) := by
  rw [Context.dropStream, hx]
  dsimp only
  unfold Async.dropStream
  split
  · rename_i j hj
    exact .lift (.start fun m hm ↦ keeps hm (.start (cleans_cleanupOf hj) m))
  · exact .pure trivial

end Conduct.custody

/-- Asynchronous code that leaves connections to bound calls. It is put together from these, from
streams, and from uses of any sessions. -/
inductive AsyncCode : {α : Type} → Action α → Prop
  | done {α : Type} (a : α) : AsyncCode (.done a)
  | bind {α β : Type} {p : Action α} {f : α → Action β} (hp : AsyncCode p)
    (hf : ∀ a, AsyncCode (f a)) : AsyncCode (p >>= f)
  | note {α : Type} {f : Memory → Memory} (hf : ∀ m : Memory, m.Noted (f m)) (k : Memory → α) :
    AsyncCode (.memory f fun m ↦ .done (k m))
  | pause : AsyncCode (Call.wait .idle).run
  | read {o : Operation} (ho : o.isRead) : AsyncCode (Call.operate o).run
  | statement (c : Nat) (sql : String) (params : List Value) :
    AsyncCode (Async.locking c (Session.execute c sql params)).run
  | rows (c : Nat) (sql : String) (params : List Value) :
    AsyncCode (Async.locking c (Session.query c sql params)).run
  | commit (c : Nat) : AsyncCode (Async.locking c (Session.commit c)).run
  | rollback (c : Nat) : AsyncCode (Async.locking c (Session.rollback c)).run
  | autocommit (c : Nat) : AsyncCode (Async.locking c (Session.autocommit c)).run
  | setAutocommit (c : Nat) (on : Bool) :
    AsyncCode (Async.locking c (Session.setAutocommit c on)).run
  | execute {x : Context} (hx : x.mode = .async) (f : Bound) (count : Count) (args : Arguments) :
    AsyncCode (x.execute f count args).run
  | query {x : Context} (hx : x.mode = .async) (f : Bound) (ret : Return) (args : Arguments) :
    AsyncCode (x.query f ret args).run
  | stream {x : Context} (hx : x.mode = .async) (f : Bound) (shape : Shape) (args : Arguments) :
    AsyncCode (x.stream f shape args).run
  | next {x : Context} (hx : x.mode = .async) (s : Stream) : AsyncCode (x.next s)
  | drop {x : Context} (hx : x.mode = .async) (s : Stream) : AsyncCode (x.dropStream s).run
  | holding {s : Stream} {j : Job} (hj : Async.cleanupOf s = some j) {α : Type} {p : Action α}
    (hp : AsyncCode p) : AsyncCode (p.orphaning j)
  | connection {x : Context} (hx : x.mode = .async) (b : Nat) {α : Type}
    {body : Context → Nat → Call α} (hbody : ∀ y c, y.mode = .async → AsyncCode (body y c).run) :
    AsyncCode (x.connection b body).run
  | transaction {x : Context} (hx : x.mode = .async) (b : Nat) {α : Type}
    {body : Context → Nat → Call α} (hbody : ∀ y c, y.mode = .async → AsyncCode (body y c).run) :
    AsyncCode (x.transaction b body).run

theorem AsyncCode.custody {p : Action α} (hp : AsyncCode p) (c : Nat) :
    (Conduct.custody c True).Keeps (Conduct.custody.Leased c) (fun _ ↦ True) p := by
  have hany : ∀ {γ : Type} {q : Call γ},
      (Conduct.custody c True).Runs (Conduct.custody.Leased c) (fun _ ↦ True) q →
      (Conduct.custody c True).Keeps (Conduct.custody.Leased c) (fun _ ↦ True) q.run :=
    fun hq ↦ Conduct.Keeps.mono hq fun _ _ ↦ trivial
  have hlocked : ∀ {γ : Type} (d : Nat) {q : Call γ},
      (Conduct.custody c True).Runs (Conduct.custody.Leased c) (fun _ ↦ True) q →
      (Conduct.custody c True).Keeps (Conduct.custody.Leased c) (fun _ ↦ True)
        (Async.locking d q).run :=
    fun d _ hq ↦ hany (.locking Conduct.custody.resumes hq)
  induction hp with
  | done a => exact .done trivial
  | bind _ _ ihp ihf => exact ihp.bind fun a _ ↦ ihf a
  | note hf k =>
    exact .memory (fun m hm ↦ Conduct.custody.keeps hm (.noted (hf m))) fun _ _ ↦ trivial
  | pause => exact hany (.wait Conduct.custody.resumes nofun)
  | read ho => exact (Reads.operate ho).keeps Conduct.custody.steady
  | statement d sql params =>
    exact hlocked d (Conduct.custody.statement (o := .execute d sql params) rfl rfl nofun)
  | rows d sql params =>
    exact hlocked d (Conduct.custody.statement (o := .query d sql params) rfl rfl nofun)
  | commit d =>
    exact hlocked d (Conduct.custody.statement (o := .commit d) rfl rfl fun _ ↦ trivial)
  | rollback d =>
    exact hlocked d (Conduct.custody.statement (o := .rollback d) rfl rfl nofun)
  | autocommit d => exact hlocked d (Conduct.custody.autocommit d)
  | setAutocommit d on => exact hlocked d (Conduct.custody.setAutocommit d on)
  | execute hx f count args =>
    rw [Context.execute_eq]
    exact hany ((Conduct.Runs.render f args).bind fun r _ ↦
      Conduct.custody.connection hx fun _ d hy ↦ Conduct.custody.executeBody hy count r d)
  | query hx f ret args =>
    rw [Context.query_eq]
    exact hany ((Conduct.Runs.render f args).bind fun r _ ↦
      Conduct.custody.connection hx fun _ d hy ↦ Conduct.custody.queryBody hy ret r d)
  | stream hx f shape args => exact hany (Conduct.custody.stream hx f shape args)
  | next hx s => exact Conduct.custody.next hx s
  | drop hx s => exact hany (Conduct.custody.dropStream hx s)
  | holding hj _ ih => exact ih.orphaning (Conduct.custody.cleans_cleanupOf hj)
  | connection hx b _ ih =>
    exact hany (Conduct.custody.connection hx fun y d hy ↦
      Conduct.Keeps.mono (ih y d hy) fun _ _ _ _ ↦ trivial)
  | transaction hx b _ ih =>
    rw [Context.transaction_eq]
    exact hany (Conduct.custody.connection hx fun y d hy ↦ Conduct.custody.transactionBody hy
      (Conduct.Keeps.mono (ih y d hy) fun _ _ _ _ ↦ trivial))

end BoundSql
