import BoundSql.Proofs.Scope.Counterpart
import BoundSql.Proofs.Scope.Fetching
import BoundSql.Program.Run

namespace BoundSql

open Memory

open Call (Twins exec)

variable {σ α β : Type} {h : Host σ} {cb : Callback σ} {L : Nat → Nat → Prop} {A : Actives}
  {W : World σ → Prop} {c : Nat}

namespace Cursor

def Twinned (h : Host σ) (L : Nat → Nat → Prop) (p : Reading α) : Prop :=
  ∀ (A : Actives) (c : Cursor), Twins h L (InScopes A) (Kept A) (p.run c) (p.run c)

namespace Twinned

theorem pure (a : α) : Twinned h L (Pure.pure a) := fun _ _ ↦ .pure _

theorem throw (e : Error) : Twinned h L (MonadExcept.throw e : Reading α) := fun _ _ ↦ .fail e

theorem bind {p : Reading α} {k : α → Reading β} (hp : Twinned h L p) (hk : ∀ a, Twinned h L (k a)) :
    Twinned h L (p >>= k) :=
  fun A c ↦ (hp A c).kept_bind (fun e _ ↦ .fail e) fun a ↦ hk a.1 A a.2

theorem fetchOne : Twinned h L fetchOne := by
  intro A c w hw
  rw [run_fetchOne]
  refine .operation rfl fun hr ↦ .done ⟨rfl, (Outcome.isPanic_map _ _).trans hr.act, ?_⟩
  exact (h.active_act _ w).trans hw

theorem collect (n : Nat) : Twinned h L (Cursor.collect Cursor.fetchOne n) := by
  induction n with
  | zero => exact .pure _
  | succ n ih =>
    refine fetchOne.bind fun row ↦ ?_
    cases row with
    | none => exact .pure _
    | some row => exact ih.bind fun _ ↦ .pure _

theorem fetchAll : Twinned h L fetchAll := fun A c ↦ collect _ A c

theorem fetchRows (n : Option Nat) (s : Strategy) :
    Twinned h L (Cursor.fetchRows n Cursor.fetchOne Cursor.fetchAll s) := by
  unfold Cursor.fetchRows
  cases s with
  | none => exact .pure _
  | many => exact fetchAll
  | one required =>
    dsimp only
    split
    · exact .throw _
    · refine fetchOne.bind fun row ↦ ?_
      cases row with
      | none => exact .pure _
      | some row =>
        refine fetchOne.bind fun row' ↦ ?_
        cases row' with
        | none => exact .pure _
        | some _ => exact fetchAll.bind fun _ ↦ .throw _

theorem run' {p : Reading α} (hp : Twinned h L p) (c : Cursor) :
    Twins h L (InScopes A) (Kept A) (p.run' c) (p.run' c) :=
  (hp A c).kept_bind (fun e _ ↦ .fail e) fun a ↦ .pure a.1

end Twinned

theorem twins_pull (c : Cursor) (s : Strategy) : Twins h L (InScopes A) (Kept A) (c.pull s) (c.pull s) :=
  (Twinned.fetchRows c.rowCount s).run' c

theorem twins_close (c : Cursor) : Twins h L (InScopes A) (Kept A) c.close c.close :=
  Call.Twins.operate (o := .close c.connection c.id) rfl

theorem twins_closingOnFailure (cb : Callback σ) (c : Cursor) {p q : Call α} (hp : Twins h L W (Kept A) p q)
    (hL : ∀ w f w', W w → exec h cb p w = (.error f, w') → L c.connection c.id) :
    Twins h L W (Kept A) (Blocking.closingOnFailure c p)
      (Async.cleaningUp (.close c.connection c.id) q) := by
  intro w hw
  unfold Blocking.closingOnFailure
  rw [Call.run_outcome_bind]
  refine Twin.bind (((hp w hw).orphaning _).traced cb) fun r r' w' hr ↦ ?_
  obtain ⟨⟨rfl, hpanic, hw'⟩, hrun⟩ := hr
  rcases r' with (e | m) | a
  · have hleft : L c.connection c.id := hL w (.error e) w' hw hrun
    refine .close hleft fun hcalm ↦ .leave hleft fun _ _ ↦ ?_
    have hr := hcalm.act
    have hscoped : InScopes A (h.act (.close c.connection c.id) w').2 := (h.active_act _ w').trans hw'
    generalize (h.act (.close c.connection c.id) w').1 = r at hr
    rcases r with (e' | m) | u
    · exact .done ⟨rfl, rfl, hscoped⟩
    · cases hr
    · exact .done ⟨rfl, rfl, hscoped⟩
  · cases hpanic
  · exact .done ⟨rfl, rfl, hw'⟩

end Cursor

theorem Session.twins_query_gives (sql : String) (params : List Value) :
    Twins h L (InScopes A) (Gives (fun cursor ↦ cursor.connection = c) A) (Session.query c sql params)
      (Session.query c sql params) := by
  refine Session.twins_check.kept_bind (fun e _ ↦ .fail e) fun _ w hw ↦ ?_
  refine .operation rfl fun hr ↦ .done ⟨rfl, ⟨hr.act, (h.active_act _ w).trans hw⟩, fun cursor hc ↦ ?_⟩
  rw [Host.act] at hc
  cases hraw : (h.reaction (.query c sql params) w).outcome with
  | error f =>
    rw [hraw] at hc
    cases hc
  | ok r =>
    rw [hraw] at hc
    cases hc
    rfl

/-- The cursor of a call, with its connection, from which the call fails to read its rows. -/
inductive Bound.Misreads (h : Host σ) (cb : Callback σ) (f : Bound) (ret : Return) (args : Arguments)
    (w : World σ) : Nat → Nat → Prop
  | intro {r : Template.Rendered} {e : Entry} {cursor : Cursor} {fault : Fault} {w₁ w₂ w₃ w₄ : World σ}
    (hrender : exec h cb (f.render args) w = (.ok r, w₁))
    (henter : exec h cb (Blocking.enter 0 f.binder true) w₁ = (.ok e, w₂))
    (hquery : exec h cb (Session.query e.connection r.sql r.params) w₂ = (.ok cursor, w₃))
    (hread : exec h cb (cursor.pull ret.strategy) w₃ = (.error fault, w₄)) :
    Misreads h cb f ret args w cursor.connection cursor.id

theorem Bound.twins_query (cb : Callback σ) {scopes : Async.Scopes} (hs : scopes.Of A)
    (f : Bound) (ret : Return) (args : Arguments) :
    Twins h L (fun w ↦ InScopes A w ∧ (f.render args).Returns h cb w ∧
        ∀ d n, f.Misreads h cb ret args w d n → L d n)
      (Gives (fun _ ↦ True) A) (Blocking.query 0 f ret args) (Async.query scopes f ret args) := by
  have hrender := (twins_render (h := h) (L := L) (A := A) cb f args).gives
  refine (hrender.pre fun w hw ↦ ⟨hw.1, hw.2.1⟩).gives_then cb (fun e _ ↦ .fail e) fun r _ ↦ ?_
  refine twins_connection cb hs _ (fun w hw ↦ hw.1) fun e B _ _ ↦ .gives ?_
  have hquery := Session.twins_query_gives (h := h) (L := L) (A := B) (c := e.connection) r.sql r.params
  refine (hquery.locking.pre fun w hw ↦ hw.1).gives_then cb (fun e _ ↦ .fail e) fun cursor hc ↦ ?_
  have hjob : Job.close e.connection cursor.id = .close cursor.connection cursor.id := by rw [hc]
  have hpull := cursor.twins_pull (h := h) (L := L) (A := B) ret.strategy
  rw [hjob]
  refine (Cursor.twins_closingOnFailure cb cursor (hpull.pre fun w hw ↦ hw.1) ?_).kept_bind
    (fun e _ ↦ .fail e) fun rows ↦ ?_
  · rintro w₃ fault w₄ ⟨-, w₂, ⟨-, w₁, ⟨-, w, ⟨-, -, hL⟩, hrender⟩, henter⟩, hquery⟩ hread
    exact hL _ _ (.intro hrender henter hquery hread)
  refine cursor.twins_close.kept_bind (fun e _ ↦ .fail e) fun _ ↦ ?_
  exact (Call.Twins.ofResult _).kept_bind (fun e _ ↦ .fail e) fun value ↦ twins_committing (.pure value)

namespace Stream

def Unshared (s : Stream) : Prop := ∀ e ∈ s.entry, e.registered = false

variable {s : Stream} {w : World σ}

def Served (A : Actives) (r r' : Outcome α × Stream) (w : World σ) : Prop :=
  r' = r ∧ Outcome.isPanic r.1 = false ∧ r.2.Unshared ∧ InScopes A w

def Told (A : Actives) (r : Outcome α) (v : Outcome (Except Error α)) (w : World σ) : Prop :=
  ((∃ a, r = .ok a ∧ v = .ok (.ok a)) ∨ ∃ e, r = .error (.error e) ∧ v = .ok (.error e)) ∧ InScopes A w

theorem twin_holding {γ : Type} {P : γ → Outcome α → World σ → Prop} {p : Action γ} {q : Call α}
    (hq : Twin h L P w p q.run) (hP : ∀ a r w', P a r w' → Outcome.isPanic r = false) (s : Stream) :
    Twin h L P w p (Async.holding s q).run := by
  unfold Async.holding
  split
  · exact hq.protecting hP _
  · exact hq

theorem twin_told {p q : Call α} (hp : Twins h L (InScopes A) (Kept A) p q) (hw : InScopes A w)
    (s : Stream) : Twin h L (Told A) w p.run (Async.holding s (Async.caught q)).run := by
  refine twin_holding ?_ (fun r v w' hr ↦ ?_) s
  · change Twin h L (Told A) w p.run (Blocking.caught q).run
    rw [Call.run_caught, ← Action.bind_done p.run]
    refine Twin.bind (hp w hw) fun r r' w' hr ↦ ?_
    obtain ⟨rfl, hpanic, hw'⟩ := hr
    rcases r' with (e | m) | a
    · exact .done ⟨.inr ⟨e, rfl, rfl⟩, hw'⟩
    · cases hpanic
    · exact .done ⟨.inl ⟨a, rfl, rfl⟩, hw'⟩
  · obtain ⟨⟨a, -, rfl⟩ | ⟨e, -, rfl⟩, -⟩ := hr <;> rfl

theorem twins_finish (hs : s.Unshared) (failure : Option Error) (hw : InScopes A w) :
    Twin h L (Served A) w (Blocking.finish s failure) (Async.finish s failure) := by
  have hclose : Twin h L (fun r r' w' ↦ r' = r ∧ Caught (fun _ ↦ True) A r w') w
      (Blocking.caught s.cursor.close).run
      (Async.holding { s with closed := true } (Async.caught s.cursor.close)).run :=
    twin_holding (s.cursor.twins_close.gives.caught w hw) (fun _ _ _ hr ↦ hr.1 ▸ hr.2.not_panic) _
  refine Twin.bind hclose fun r r' w' hr ↦ ?_
  obtain ⟨rfl, ⟨closed, rfl, -⟩, hw'⟩ := hr
  obtain ⟨cursor, columns, shape, entry, ended, finished⟩ := s
  cases entry with
  | none =>
    rcases failure with _ | err
    · cases closed <;> exact .done ⟨rfl, rfl, nofun, hw'⟩
    · exact .done ⟨rfl, rfl, nofun, hw'⟩
  | some e =>
    have hexit : ∀ r, Twins h L (InScopes A) (Kept A) (Blocking.Entry.exit e r : Call Unit)
        (Async.Entry.exit e r) := by
      intro r
      have hexit := Entry.twins_exit (h := h) (L := L) (A := A) e e rfl rfl rfl r
      rw [Entry.leaving, hs e rfl, if_neg Bool.false_ne_true, ite_self] at hexit
      exact hexit.mono fun _ _ ↦ And.left
    rcases failure with _ | err
    all_goals
      refine Twin.bind (hexit _ w' hw') fun r r' w' hr ↦ ?_
      obtain ⟨rfl, hpanic, hw'⟩ := hr
      rcases r' with (err | m) | u
      · exact .done ⟨rfl, rfl, nofun, hw'⟩
      · cases hpanic
      · exact .done ⟨rfl, rfl, nofun, hw'⟩

theorem twins_next (hs : s.Unshared) (hw : InScopes A w) :
    Twin h L (Served A) w (Blocking.next s) (Async.next s) := by
  obtain ⟨cursor, columns, shape, entry, closed, finished⟩ := s
  cases finished with
  | true => exact .done ⟨rfl, rfl, hs, hw⟩
  | false =>
    refine Twin.bind (twin_told (Cursor.Twinned.fetchOne A cursor) hw _) fun r v w' hr ↦ ?_
    have hfinish : ∀ (cursor : Cursor) failure, Twin h L (Served A) w'
        (Blocking.finish ⟨cursor, columns, shape, entry, closed, false⟩ failure)
        (Async.finish ⟨cursor, columns, shape, entry, closed, false⟩ failure) :=
      fun cursor failure ↦
        twins_finish (s := ⟨cursor, columns, shape, entry, closed, false⟩) hs failure hr.2
    obtain ⟨⟨⟨row, cursor⟩, rfl, rfl⟩ | ⟨e, rfl, rfl⟩, hw'⟩ := hr
    · cases row with
      | none => exact hfinish cursor none
      | some row =>
        dsimp only
        cases shape.ofRow columns row with
        | ok m => exact .done ⟨rfl, rfl, fun e he ↦ hs e he, hw'⟩
        | error err => exact hfinish cursor (some err)
    · exact hfinish _ (some e)

end Stream

theorem Bound.twins_stream (cb : Callback σ) {scopes : Async.Scopes} (hs : scopes.Of A) (f : Bound)
    (shape : Shape) (args : Arguments) :
    Twins h L (fun w ↦ InScopes A w ∧ (f.render args).Returns h cb w) (Gives Stream.Unshared A)
      (Blocking.stream 0 f shape args) (Async.stream scopes f shape args) := by
  refine (twins_render cb f args).kept_bind (fun e _ ↦ .fail e) fun rendered w hw ↦ ?_
  refine Twin.bind (twin_enter hs f.binder false hw) fun r r' w hr ↦ ?_
  obtain ⟨err, rfl, rfl, hw⟩ | ⟨e, rfl, rfl, he, hw⟩ := hr.of_unregistered
  · exact .done ⟨rfl, .fail err hw⟩
  have hquery : Twins h L (InScopes A) (Caught (fun _ ↦ True) A)
      (Blocking.caught (Session.query e.connection rendered.sql rendered.params))
      (Async.caught (Async.locking e.connection
        (Session.query e.connection rendered.sql rendered.params))) :=
    (Session.twins_query rendered.sql rendered.params).locking.gives.caught
  refine (Entry.twins_guarded e e (fun _ _ hv ↦ hv.not_panic) hquery).caught_bind (fun r _ ↦ ?_) w hw
  cases r with
  | ok cursor =>
    refine .ret fun w hw ↦ ⟨⟨rfl, hw⟩, fun s hs e' he' ↦ ?_⟩
    cases hs
    dsimp only at he'
    split at he'
    · cases he'
      exact he
    · cases he'
  | error err =>
    have hexit := Entry.twins_exit (h := h) (L := L) (A := A) (α := Stream) e e rfl rfl rfl (.error err)
    rw [Entry.leaving, he, if_neg Bool.false_ne_true, ite_self] at hexit
    refine hexit.mono fun r w hr ↦ ⟨hr.1, fun s hs ↦ ?_⟩
    cases hr.2 s hs

theorem Act.twins_run (u : Act) : Twins h L (InScopes A) (Kept A) (u.run c) (u.run c) := by
  cases u with
  | execute sql params =>
    exact (Session.twins_execute sql params).kept_bind (fun e _ ↦ .fail e) fun _ ↦ .pure _
  | query sql params =>
    refine (Session.twins_query sql params).kept_bind (fun e _ ↦ .fail e) fun cursor ↦ ?_
    refine (Cursor.Twinned.fetchAll.run' cursor).kept_bind (fun e _ ↦ .fail e) fun rows ↦ ?_
    exact cursor.twins_close.kept_bind (fun e _ ↦ .fail e) fun _ ↦ .pure _
  | commit => exact Session.twins_commit.kept_bind (fun e _ ↦ .fail e) fun _ ↦ .pure _
  | rollback => exact Session.twins_rollback.kept_bind (fun e _ ↦ .fail e) fun _ ↦ .pure _
  | autocommit => exact Session.twins_autocommit.kept_bind (fun e _ ↦ .fail e) fun _ ↦ .pure _
  | setAutocommit on =>
    exact (Session.twins_setAutocommit on).kept_bind (fun e _ ↦ .fail e) fun _ ↦ .pure _

end BoundSql
