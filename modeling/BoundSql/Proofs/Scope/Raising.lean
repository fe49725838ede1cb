import BoundSql.Program.Execution
import BoundSql.Proofs.Scope.Detached
import BoundSql.Proofs.Scope.Joined
import BoundSql.Proofs.Scope.Refusals

namespace BoundSql

open Error (AtCall)

variable {α β : Type} {P : α → Prop} {R : β → Prop} {p : Call α} {c : Nat} {x : Context}

def Job.IsRelease : Job → Prop
  | .release _ _ => True
  | _ => False

abbrev Call.Late (P : α → Prop) (p : Call α) : Prop := p.Yields Job.IsRelease AtCall AtCall P

theorem Bound.late_render (f : Bound) (args : Arguments) : (f.render args).Late fun _ ↦ True := by
  refine Call.Yields.bind (P := fun _ ↦ True) (.bind .read fun m _ ↦ ?_) fun marker _ ↦ ?_
  · cases m.pools.lookup f.binder with
    | none => exact .fail rfl
    | some p => exact .pure trivial
  · exact .ret (f.template.raises_render args marker.generator)

namespace Session

variable (c)

theorem late_check : (check c).Late fun _ ↦ True :=
  Call.Yields.bind .read fun _ _ ↦ .ite (.fail rfl) (.ite (.fail rfl) (.pure trivial))

theorem late_checked (o : Operation) :
    (check c >>= fun _ ↦ Call.operate o).Late fun _ ↦ True :=
  (late_check c).bind fun _ _ ↦ .operate o

theorem late_execute (sql : String) (params : List Value) :
    (execute c sql params).Late fun _ ↦ True := late_checked c (.execute c sql params)

theorem late_query (sql : String) (params : List Value) :
    (query c sql params).Late fun _ ↦ True := late_checked c (.query c sql params)

theorem late_commit : (commit c).Late fun _ ↦ True := late_checked c (.commit c)

theorem late_autocommit : (autocommit c).Late fun _ ↦ True :=
  (late_check c).bind fun _ _ ↦ Call.Yields.bind .read fun _ _ ↦ .pure trivial

theorem late_rollbackQuietly : (rollbackQuietly c).Late fun _ ↦ True := by
  refine ((late_checked c (.rollback c)).outcome AtCall).bind fun r _ ↦ ?_
  rcases r with (_ | m) | _
  · exact .pure trivial
  · exact .panic m
  · exact .pure trivial

end Session

theorem Binder.late_pool (b : Nat) : (Binder.pool b).Late fun _ ↦ True := by
  refine Call.Yields.bind .read fun m _ ↦ ?_
  cases m.pools.lookup b with
  | none => exact .fail rfl
  | some p => exact .pure trivial

theorem Binder.late_lease (b : Nat) : (Binder.lease b).Late fun _ ↦ True :=
  (Binder.late_pool b).bind fun _ _ ↦ (Call.Yields.operate _).bind fun _ _ ↦
    (Call.Yields.modify _).bind fun _ _ ↦ .pure trivial

namespace Cursor

def Late (p : Reading α) : Prop := ∀ c : Cursor, (p.run c).Late fun _ ↦ True

namespace Late

theorem pure (a : α) : Late (Pure.pure a) := fun _ ↦ .pure trivial

theorem throw {e : Error} (he : AtCall e) : Late (MonadExcept.throw e : Reading α) :=
  fun _ ↦ .fail he

theorem bind {p : Reading α} {k : α → Reading β} (hp : Late p) (hk : ∀ a, Late (k a)) :
    Late (p >>= k) := fun c ↦ (hp c).bind fun a _ ↦ hk a.1 a.2

theorem fetchOne : Late Cursor.fetchOne := by
  intro c
  change (Cursor.fetchOne.run c).run.Yields _ _ _
  rw [run_fetchOne]
  exact fun r hr ↦ hr.map fun _ _ ↦ trivial

theorem collect (n : Nat) : Late (Cursor.collect Cursor.fetchOne n) := by
  induction n with
  | zero => exact .pure _
  | succ n ih =>
    refine fetchOne.bind fun row ↦ ?_
    cases row with
    | none => exact .pure _
    | some row => exact ih.bind fun _ ↦ .pure _

theorem fetchAll : Late Cursor.fetchAll := fun c ↦ collect _ c

theorem fetchRows (n : Option Nat) (s : Strategy) :
    Late (Cursor.fetchRows n Cursor.fetchOne Cursor.fetchAll s) := by
  unfold Cursor.fetchRows
  cases s with
  | none => exact .pure _
  | many => exact fetchAll
  | one required =>
    dsimp only
    split
    · exact .throw rfl
    · refine fetchOne.bind fun row ↦ ?_
      cases row with
      | none => exact .pure _
      | some row =>
        refine fetchOne.bind fun row' ↦ ?_
        cases row' with
        | none => exact .pure _
        | some _ => exact fetchAll.bind fun _ ↦ .throw rfl

end Late

theorem late_pull (c : Cursor) (s : Strategy) : (c.pull s).Late fun _ ↦ True :=
  (Late.fetchRows c.rowCount s c).bind fun _ _ ↦ .pure trivial

theorem late_close (c : Cursor) : c.close.Late fun _ ↦ True := .operate _

end Cursor

section

variable {e : Entry} {r : Except Error α}

namespace Blocking

theorem late_enter (thread b : Nat) (register : Bool) :
    (enter thread b register).Late fun _ ↦ True := by
  refine (Binder.late_pool b).bind fun _ _ ↦ Call.Yields.bind .read fun m _ ↦ ?_
  cases m.active.lookup (thread, b) with
  | some c => exact .pure trivial
  | none =>
    refine (Binder.late_lease b).bind fun c _ ↦ ?_
    cases register with
    | true => exact (Call.Yields.modify _).bind fun _ _ ↦ .pure trivial
    | false => exact .pure trivial

theorem late_release (e : Entry) : (Entry.release e).Late fun _ ↦ True := by
  have hback : Call.Late (fun _ ↦ True) (do
      let m ← Call.read
      if e.connection ∈ m.busy then Call.fail Session.inUse
      else if (m.held.lookup e.connection).isNone then pure ()
      else
        Call.modify (Memory.letGo e.connection)
        Call.operate (.release e.binder e.connection) : Call Unit) := by
    refine Call.Yields.bind .read fun _ _ ↦ .ite (.fail rfl) (.ite (.pure trivial) ?_)
    exact (Call.Yields.modify _).bind fun _ _ ↦ .operate (.release e.binder e.connection)
  unfold Entry.release
  split
  · exact (Call.Yields.modify _).bind fun _ _ ↦ hback
  · exact hback

theorem late_abandon (e : Entry) : (Entry.abandon e).Late fun _ ↦ True := by
  unfold Entry.abandon
  split
  · refine (Session.late_rollbackQuietly e.connection).bind fun _ _ ↦
      ((late_release e).outcome AtCall).bind fun r _ ↦ ?_
    rcases r with (_ | m) | _
    · exact .pure trivial
    · exact .panic m
    · exact .pure trivial
  · exact .pure trivial

theorem late_guarded (e : Entry) (hp : p.Late P) : (Entry.guarded e p).Late P := by
  refine (hp.outcome AtCall).bind fun r hr ↦ ?_
  rcases r with (err | m) | a
  · exact .fail hr
  · exact ((late_abandon e).outcome AtCall).bind fun _ _ ↦ .panic m
  · exact .pure hr

theorem late_settle (hr : Within AtCall P r) : (Entry.settle e r).Late (Within AtCall P) := by
  have hroll : (Session.rollbackQuietly e.connection).Late fun _ ↦ True :=
    Session.late_rollbackQuietly e.connection
  cases r with
  | error err => exact hroll.bind fun _ _ ↦ .pure hr
  | ok a =>
    refine ((Session.late_commit e.connection).outcome AtCall).bind fun s hs ↦ ?_
    rcases s with (err | m) | _
    · exact hroll.bind fun _ _ ↦ .pure hs
    · exact .panic m
    · exact .pure hr

end Blocking

theorem late_verdict (s : Except Error α) (released : Outcome Unit) :
    Within AtCall P s → Outcome.FailsWith AtCall released →
    Call.Late P (match s, released with
      | .error err, .ok _ | .error err, .error (.error _) => Call.fail err
      | .ok _, .error err | .error _, .error err => throw err
      | .ok a, .ok _ => return a) := by
  intro hs hr
  rcases s with err | a <;> rcases released with (e | m) | _
  · exact .fail hs
  · exact .panic m
  · exact .fail hs
  · exact .fail hr
  · exact .panic m
  · exact .pure hs

theorem Blocking.late_exit (hr : Within AtCall P r) : (Blocking.Entry.exit e r).Late P := by
  unfold Blocking.Entry.exit
  split
  · exact .ofResult hr
  · exact late_guarded e ((late_settle hr).bind fun s hs ↦
      ((late_release e).outcome AtCall).bind fun _ hd ↦ late_verdict _ _ hs hd)

namespace Async

theorem late_enter (scopes : Scopes) (b : Nat) : (enter scopes b).Late fun _ ↦ True := by
  refine (Binder.late_pool b).bind fun _ _ ↦ ?_
  cases scopes.lookup b with
  | some c => exact .pure trivial
  | none => exact (Binder.late_lease b).bind fun _ _ ↦ .pure trivial

theorem late_release (b c : Nat) : (release b c).Late fun _ ↦ True := by
  rw [release_eq]
  refine .locking c fun m ↦ ?_
  dsimp only
  split
  · exact trivial
  · intro _
    split
    · refine ⟨fun j hj ↦ ?_, fun r _ hr ↦ ?_⟩
      · obtain rfl := Wait.task.inj hj
        exact trivial
      · rcases r with (e | m) | _
        · exact hr
        · exact rfl
        · exact trivial
    · exact fun _ hr ↦ hr

theorem late_guarded (e : Entry) (hp : p.Late P) : (Entry.guarded e p).Late P := by
  unfold Entry.guarded
  split
  · exact .protecting _ hp
  · exact hp

theorem late_settle (hr : Within AtCall P r) : (Entry.settle e r).Late (Within AtCall P) := by
  have hroll : (locking e.connection (Session.rollbackQuietly e.connection)).Late fun _ ↦ True :=
    .locking _ (Session.late_rollbackQuietly e.connection)
  cases r with
  | error err => exact hroll.bind fun _ _ ↦ .pure hr
  | ok a =>
    have hcommit : (locking e.connection (Session.commit e.connection)).Late fun _ ↦ True :=
      .locking _ (Session.late_commit e.connection)
    refine (hcommit.outcome AtCall).bind fun s hs ↦ ?_
    rcases s with (err | m) | _
    · exact hroll.bind fun _ _ ↦ .pure hs
    · exact .panic m
    · exact .pure hr

theorem late_exit (hr : Within AtCall P r) : (Entry.exit e r).Late P := by
  unfold Entry.exit
  split
  · exact .ofResult hr
  · exact late_guarded e ((late_settle hr).bind fun s hs ↦
      ((late_release e.binder e.connection).outcome AtCall).bind fun _ hd ↦ late_verdict _ _ hs hd)

end Async

end

namespace Context

theorem late_enter (x : Context) (b : Nat) (register : Bool) :
    (x.enter b register).Late fun _ ↦ True := by
  unfold Context.enter
  cases x.mode with
  | blocking => exact Blocking.late_enter x.thread b register
  | async => exact Async.late_enter x.scopes b

theorem late_guarded (x : Context) (e : Entry) (hp : p.Late P) : (x.guarded e p).Late P := by
  unfold Context.guarded
  cases x.mode with
  | blocking => exact Blocking.late_guarded e hp
  | async => exact Async.late_guarded e hp

theorem late_exit (x : Context) (e : Entry) {r : Except Error α} (hr : Within AtCall P r) :
    (x.exit e r).Late P := by
  unfold Context.exit
  cases x.mode with
  | blocking => exact Blocking.late_exit hr
  | async => exact Async.late_exit hr

theorem late_locking (x : Context) (c : Nat) (hp : p.Late P) : (x.locking c p).Late P := by
  unfold Context.locking
  cases x.mode with
  | blocking => exact hp
  | async => exact .locking c hp

theorem late_connection (x : Context) (b : Nat) {body : Context → Nat → Call α}
    (hbody : ∀ x c, (body x c).Late P) : (x.connection b body).Late P := by
  rw [connection_eq]
  exact (x.late_enter b true).bind fun e _ ↦
    (x.late_guarded e ((hbody _ _).caught AtCall)).bind fun _ hr ↦ x.late_exit e hr

theorem late_committing (x : Context) (c : Nat) {on : Bool} {k : Call α} (hk : k.Late P) :
    Call.Late P (do
      if on then x.locking c (Session.commit c)
      k) := by
  cases on with
  | true => exact (x.late_locking c (Session.late_commit c)).bind fun _ _ ↦ hk
  | false => exact hk

theorem late_executeBody (count : Count) (r : Template.Rendered) (x : Context) (c : Nat) :
    (executeBody count r x c).Late fun _ ↦ True :=
  (x.late_locking c (Session.late_execute c r.sql r.params)).bind fun n _ ↦
    (x.late_locking c (Session.late_autocommit c)).bind fun _ _ ↦
      x.late_committing c (.ofResult (count.raises_ofAffected n))

theorem late_reading (x : Context) (c : Nat) (cursor : Cursor) (hp : p.Late P) :
    (x.reading c cursor p).Late P := by
  unfold Context.reading
  cases x.mode with
  | blocking =>
    refine (hp.outcome AtCall).bind fun r hr ↦ ?_
    rcases r with f | a
    · have hclose : (Blocking.closeQuietly cursor).Late fun _ ↦ True :=
        (cursor.late_close.caught AtCall).bind fun _ _ ↦ .pure trivial
      exact hclose.bind fun _ _ ↦ Call.Yields.ret hr
    · exact .pure hr
  | async => exact .cleaningUp _ hp

theorem late_queryBody (ret : Return) (r : Template.Rendered) (x : Context) (c : Nat) :
    (queryBody ret r x c).Late fun _ ↦ True :=
  (x.late_locking c (Session.late_query c r.sql r.params)).bind fun cursor _ ↦
    (x.late_reading c cursor (cursor.late_pull ret.strategy)).bind fun rows _ ↦
      cursor.late_close.bind fun _ _ ↦
        (Call.Yields.ofResult (ret.raises_ofRows cursor.columns rows)).bind fun _ _ ↦
          (x.late_locking c (Session.late_autocommit c)).bind fun _ _ ↦
            x.late_committing c (.pure trivial)

theorem late_opening (x : Context) (shape : Shape) (r : Template.Rendered) (e : Entry) :
    (x.opening shape r e).Late fun _ ↦ True := by
  refine (x.late_guarded e ((x.late_locking e.connection
    (Session.late_query e.connection r.sql r.params)).caught AtCall)).bind fun q hq ↦ ?_
  cases q with
  | error err => exact x.late_exit e hq
  | ok cursor => exact .pure trivial

end Context

def ItemLate (item : Option (Except Error Mapped)) : Prop :=
  ∀ r ∈ item, FailsWith AtCall r

theorem itemLate_none : ItemLate none := nofun

theorem itemLate_some {r : Except Error Mapped} (hr : FailsWith AtCall r) :
    ItemLate (some r) := fun _ h ↦ Option.some.inj h ▸ hr

theorem atCall_some {e : Error} (he : AtCall e) : ∀ e' ∈ some e, AtCall e' :=
  fun _ h ↦ Option.some.inj h ▸ he

abbrev Action.Serves (p : Action (Outcome (Option (Except Error Mapped)) × Stream)) : Prop :=
  p.Yields Job.IsRelease AtCall fun r ↦ Outcome.Within AtCall ItemLate r.1

section

variable {s : Stream}

theorem within_ending {failure : Option Error} {closed : Except Error Unit}
    (hf : ∀ e ∈ failure, AtCall e) (hc : FailsWith AtCall closed) :
    FailsWith AtCall (failure.elim closed .error) := by
  cases failure with
  | none => exact hc
  | some e => exact hf e rfl

theorem serves_last {q : Call Unit} (hq : q.Late fun _ ↦ True) (s : Stream) :
    (q.run >>= fun r ↦ pure (match r with
      | .ok _ => .ok none
      | .error (.error err) => .ok (some (.error err))
      | .error (.panic m) => .error (.panic m), s)).Serves := by
  refine Action.Yields.bind hq fun r hr ↦ ?_
  rcases r with (e | m) | _
  · exact itemLate_some hr
  · exact trivial
  · exact itemLate_none

theorem Blocking.serves_finish {failure : Option Error} (hf : ∀ e ∈ failure, AtCall e) :
    (Blocking.finish s failure).Serves := by
  unfold Blocking.finish
  refine Action.Yields.bind (s.cursor.late_close.caught AtCall) fun r hr ↦ ?_
  rcases r with (e | m) | closed
  · exact hr
  · exact hr
  · have hend := within_ending hf hr
    cases failure <;> cases he : s.entry with
    | some e => exact serves_last (Blocking.late_exit hend) _
    | none => exact serves_last (Call.Yields.ofResult hend) _

theorem Async.late_holding (hp : p.Late P) : (Async.holding s p).Late P := by
  unfold Async.holding
  split
  · exact .protecting _ hp
  · exact hp

theorem Async.serves_finish {failure : Option Error} (hf : ∀ e ∈ failure, AtCall e) :
    (Async.finish s failure).Serves := by
  unfold Async.finish
  refine Action.Yields.bind (late_holding (s.cursor.late_close.caught AtCall)) fun r hr ↦ ?_
  rcases r with (e | m) | closed
  · exact hr
  · exact hr
  · have hend := within_ending hf hr
    cases failure <;> cases he : s.entry with
    | some e => exact serves_last (Async.late_exit hend) _
    | none => exact serves_last (Call.Yields.ofResult hend) _

theorem serves_row (s : Stream) (row : Row)
    {ending : Error → Action (Outcome (Option (Except Error Mapped)) × Stream)}
    (he : ∀ e, AtCall e → (ending e).Serves) :
    Action.Serves (match s.shape.ofRow s.columns row with
      | .ok m => pure (.ok (some (.ok m)), s)
      | .error e => ending e) := by
  have hrow := s.shape.raises_ofRow s.columns row
  cases hm : s.shape.ofRow s.columns row with
  | ok m => exact itemLate_some (trivial : FailsWith AtCall (.ok m))
  | error e =>
    rw [hm] at hrow
    exact he e hrow

theorem Blocking.serves_next : (Blocking.next s).Serves := by
  unfold Blocking.next
  split
  · exact itemLate_none
  · refine Action.Yields.bind (Cursor.Late.fetchOne s.cursor) fun r hr ↦ ?_
    rcases r with (e | m) | ⟨_ | row, cursor⟩
    · exact serves_finish (atCall_some hr)
    · exact trivial
    · exact serves_finish nofun
    · exact serves_row { s with cursor } row fun e he ↦ serves_finish (atCall_some he)

theorem Async.serves_next : (Async.next s).Serves := by
  unfold Async.next
  split
  · exact itemLate_none
  · refine Action.Yields.bind
      (late_holding ((Cursor.Late.fetchOne s.cursor).caught AtCall)) fun r hr ↦ ?_
    rcases r with (e | m) | e | ⟨_ | row, cursor⟩
    · exact hr
    · exact trivial
    · exact serves_finish (atCall_some hr)
    · exact serves_finish nofun
    · exact serves_row { s with cursor } row fun e he ↦ serves_finish (atCall_some he)

theorem Context.serves_next (x : Context) (s : Stream) : (x.next s).Serves := by
  unfold Context.next
  cases x.mode with
  | blocking => exact Blocking.serves_next
  | async => exact Async.serves_next

theorem Context.yields_pull (x : Context) (s : Stream) (n : Nat) :
    (x.pull s n).Yields Job.IsRelease AtCall fun r ↦
      Outcome.Within AtCall (fun l ↦ ∀ item ∈ l.1, FailsWith AtCall item) r.1 := by
  induction n generalizing s with
  | zero => exact nofun
  | succ n ih =>
    refine Action.Yields.bind (x.serves_next s) fun r hr ↦ ?_
    rcases r with ⟨(e | m) | _ | item, s⟩
    · exact hr
    · exact trivial
    · exact nofun
    · refine (ih s).bind fun r hrest ↦ hrest.map fun l hl i hi ↦ ?_
      obtain rfl | hi := List.mem_cons.1 hi
      · exact hr _ rfl
      · exact hl i hi

end

end BoundSql
