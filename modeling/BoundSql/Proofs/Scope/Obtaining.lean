import BoundSql.Proofs.Scope.Consumption
import BoundSql.Proofs.Scope.Tenure

namespace BoundSql

open Memory

variable {α β : Type} {x : Context} {n b c : Nat} {t : Tenure}

namespace Context

def fetching (x : Context) (ret : Return) (r : Template.Rendered) (c : Nat) :
    Call (Cursor × List Row) := do
  let cursor ← x.locking c (Session.query c r.sql r.params)
  let rows ← x.reading c cursor (cursor.pull ret.strategy)
  return (cursor, rows)

def converting (x : Context) (ret : Return) (c : Nat) (v : Cursor × List Row) : Call Mapped := do
  let value ← Call.ofResult (ret.ofRows v.1.columns v.2)
  if ← x.locking c (Session.autocommit c) then x.locking c (Session.commit c)
  return value

theorem queryBody_eq (x : Context) (ret : Return) (r : Template.Rendered) (c : Nat) :
    x.queryBody ret r c =
      x.fetching ret r c >>= fun v ↦ v.1.close >>= fun _ ↦ x.converting ret c v := by
  rw [fetching, Call.bind_assoc]
  simp_rw [Call.bind_assoc]
  rfl

end Context

namespace Action.Minds

def Seeks (t : Tenure) (r : Outcome α) : Prop := t = .before ∧ Outcome.isPanic r = false

theorem Seeks.error {f : Fault} (ht : Seeks t (.error f : Outcome α)) :
    Seeks t (.error f : Outcome β) := by
  cases f <;> exact ht

def Lacks (t : Tenure) (r : Outcome α) : Prop := t = .after ∨ Seeks t r

theorem Lacks.error {f : Fault} (ht : Lacks t (.error f : Outcome α)) :
    Lacks t (.error f : Outcome β) :=
  ht.imp_right Seeks.error

theorem Lacks.not_held {r : Outcome α} (ht : Lacks t r) : t ≠ .held := by
  rintro rfl
  obtain h | h := ht
  · cases h
  · cases h.1

theorem Lacks.of_isPanic {r : Outcome α} (ht : Lacks t r) (hr : Outcome.isPanic r) : t = .after := by
  refine ht.resolve_right fun h ↦ ?_
  rw [h.2] at hr
  cases hr

theorem Lacks.caught {r : Outcome α} (ht : Lacks t r) : Lacks t (Outcome.caught r) :=
  ht.imp_right fun h ↦ ⟨h.1, (Outcome.isPanic_caught r).trans h.2⟩

theorem exit_of_lacks {e : Entry} (ht : t ≠ .held) (r : Except Error α) :
    (Async.Entry.exit e r).run.Minds n (fun t _ ↦ t ≠ .held) t := by
  have hexit : (Async.Entry.exit e r).run.Minds n (fun t _ ↦ t ≠ .held) .after :=
    (Forgets.exit e r).post fun t _ ht ↦ by simp [ht]
  cases t with
  | before => exact giveUp hexit fun _ _ ↦ by simp
  | held => exact absurd rfl ht
  | after => exact hexit

theorem pool {Q : Tenure → Outcome α → Prop} {k : PoolSpec → Call α} (hk : ∀ p, (k p).run.Minds n Q t)
    (he : Q t (.error (.error .noPoolSet))) : (Binder.pool b >>= k).run.Minds n Q t := by
  rw [Binder.run_pool_bind]
  refine ⟨t, .refl t, fun m _ ↦ .inl ⟨.refl n t m, ?_⟩⟩
  dsimp only
  split
  · exact hk _
  · exact he

theorem render (f : Bound) (args : Arguments) :
    (f.render args).run.Minds n (fun t _ ↦ t = .before) .before := by
  rw [f.run_render]
  exact ⟨.before, .refl _, fun m _ ↦ .inl ⟨.refl n .before m, rfl⟩⟩

theorem lease (b : Nat) : (Binder.lease b).run.Minds n Seeks .before := by
  refine pool (fun p ↦ call_bind ⟨.before, .refl _, .nil nofun, fun r hr _ ↦ ?_⟩) ⟨rfl, rfl⟩
  cases r with
  | error f => exact ⟨rfl, hr⟩
  | ok d =>
    refine ⟨.before, .refl _, fun m _ ↦ .inl ⟨⟨rfl, rfl, rfl, [], ?_, fun _ ↦ rfl, by simp⟩, rfl, rfl⟩⟩
    simp [Memory.hold]

theorem enter (scopes : Async.Scopes) (b : Nat) : (Async.enter scopes b).run.Minds n Seeks .before := by
  refine pool (fun _ ↦ ?_) ⟨rfl, rfl⟩
  cases scopes.lookup b with
  | some d => exact ⟨rfl, rfl⟩
  | none =>
    refine call_bind ((lease b).post fun t r hr ↦ ?_)
    cases r with
    | ok d => exact ⟨hr.1, rfl⟩
    | error f => exact hr.error

def Obtains (n : Nat) (t : Tenure) : Outcome Cursor → Prop
  | .ok cursor => t = .held ∧ cursor.id = n
  | .error f => Lacks t (.error f : Outcome Cursor)

theorem query (c : Nat) (sql : String) (params : List Value) :
    (Async.locking c (Session.query c sql params)).run.Minds n (Obtains n) .before := by
  have hasked : (Call.operate (.query c sql params)).run.Minds n (Obtains n) .before := by
    refine ⟨.before, .refl _, ⟨rfl, .nil nofun⟩, fun r hr hg ↦ ?_⟩
    cases r with
    | ok cursor => exact ⟨rfl, hg cursor rfl⟩
    | error f => exact .inl rfl
  exact locking nofun (check (k := fun _ ↦ Call.operate (.query c sql params)) hasked
    fun _ ↦ .inr ⟨rfl, rfl⟩)

theorem reading (hx : x.mode = .async) {cursor : Cursor} (hn : cursor.id = n) (s : Strategy) :
    (x.reading c cursor (cursor.pull s)).run.Minds n
      (fun t r ↦ t = if Outcome.isOk r then .held else .after) .held := by
  have hj : (Job.close c cursor.id).closes n := by simp [Job.closes, hn]
  rw [Context.reading, hx]
  refine bind ((orphaning_of_only hj (Cursor.only_pull cursor s) ?_).post fun t r ht ↦ ?_)
  · rintro o ⟨i, rfl⟩
    exact ⟨_, _, _, rfl⟩
  · obtain ⟨rfl, -⟩ := ht
    by_cases hok : Outcome.isOk r
    · rw [if_neg (by simp [hok])]
      exact (if_pos hok).symm
    · rw [if_pos (by simp [hok])]
      exact ⟨.held, .refl _, fun m _ ↦ .inr ⟨rfl, ⟨_, hj, rfl⟩, (if_neg hok).symm⟩⟩

theorem fetching (hx : x.mode = .async) (ret : Return) (r : Template.Rendered) :
    (x.fetching ret r c).run.Minds n (fun t q ↦ match q with
      | .ok v => t = .held ∧ v.1.id = n
      | .error f => Lacks t (.error f : Outcome Unit)) .before := by
  have hquery : (x.locking c (Session.query c r.sql r.params)).run.Minds n (Obtains n) .before := by
    rw [Context.locking, hx]
    exact query c r.sql r.params
  refine call_bind (hquery.post fun t q hq ↦ ?_)
  cases q with
  | error f => exact Lacks.error hq
  | ok cursor =>
    obtain ⟨rfl, hn⟩ := hq
    refine call_bind ((reading hx hn ret.strategy).post fun t q hq ↦ ?_)
    cases q with
    | error f => exact .inl hq
    | ok rows => exact ⟨hq, hn⟩

theorem queryBody (hx : x.mode = .async) (ret : Return) (r : Template.Rendered) :
    (x.queryBody ret r c).run.Minds n Lacks .before := by
  have hlast : ∀ {γ : Type} {p : Call γ}, p.run.Forgets n → p.run.Minds n Lacks .after :=
    fun hp ↦ hp.post fun _ _ ht ↦ .inl ht
  have hlock : ∀ {γ : Type} {p : Call γ}, p.run.Forgets n → (x.locking c p).run.Forgets n := by
    intro γ p hp
    rw [Context.locking, hx]
    exact Forgets.locking c hp
  rw [Context.queryBody_eq]
  refine call_bind ((fetching hx ret r).post fun t q hq ↦ ?_)
  cases q with
  | error f => exact Lacks.error hq
  | ok v =>
    obtain ⟨rfl, hn⟩ := hq
    have hclose : v.1.close.run.Minds n (fun t r ↦ t = .after ∧ Outcome.isPanic r = false) .held := by
      have hc := close (n := n) v.1.connection v.1.id
      rw [if_pos hn] at hc
      exact hc
    refine call_bind (hclose.post fun t q hq ↦ ?_)
    obtain ⟨rfl, -⟩ := hq
    cases q with
    | error f => exact .inl rfl
    | ok _ =>
      refine hlast (Forgets.call_bind (Forgets.ret _) fun value ↦
        Forgets.call_bind (hlock (Forgets.autocommit c)) fun on ↦ ?_)
      cases on with
      | false => exact Forgets.ret _
      | true =>
        exact Forgets.call_bind (hlock (Forgets.statement (o := .commit c) c rfl nofun))
          fun _ ↦ Forgets.ret _

theorem connection (hx : x.mode = .async) {body : Context → Nat → Call α}
    (hbody : ∀ y c, y.mode = .async → (body y c).run.Minds n Lacks .before) :
    (x.connection b body).run.Minds n (fun t _ ↦ t ≠ .held) .before := by
  rw [Context.connection_of_async hx]
  refine call_bind ((enter x.scopes b).post fun t r hr ↦ ?_)
  obtain ⟨rfl, -⟩ := hr
  cases r with
  | error f => exact nofun
  | ok e =>
    have hcaught : ∀ y, y.mode = .async →
        (Blocking.caught (body y e.connection)).run.Minds n Lacks .before := fun y hy ↦
      caught ((hbody y e.connection hy).post fun _ _ ↦ Lacks.caught)
    have hguarded : (Async.Entry.guarded e (Async.caught (body { x with
        scopes := if e.owner then (b, e.connection) :: x.scopes else x.scopes } e.connection))).run.Minds
          n Lacks .before := by
      unfold Async.Entry.guarded
      split
      · exact protecting rfl rfl (hcaught _ hx) fun t r ↦ Lacks.of_isPanic
      · exact hcaught _ hx
    refine call_bind (hguarded.post fun t r hr ↦ ?_)
    cases r with
    | error f => exact hr.not_held
    | ok v => exact exit_of_lacks hr.not_held v

theorem bound_query (hx : x.mode = .async) (f : Bound) (ret : Return) (args : Arguments) :
    (x.query f ret args).run.Minds n (fun t _ ↦ t ≠ .held) .before := by
  rw [Context.query_eq]
  refine call_bind ((render f args).post fun t r hr ↦ ?_)
  subst hr
  cases r with
  | error f => exact nofun
  | ok r => exact connection hx fun y c hy ↦ queryBody hy ret r

end Action.Minds

/-- The stream has the cursor of that number, which is still open. -/
structure Stream.Has (n : Nat) (s : Stream) : Prop where
  cursor : s.cursor.id = n
  closed : s.closed = false
  finished : s.finished = false

/-- How the cursor stands that the stream was opened with. -/
def Stream.Stands (n : Nat) (s : Stream) (t : Tenure) : Prop :=
  t = .held ∧ s.Has n ∨ t = .after ∧ s.finished

namespace Stream.Has

variable {s : Stream}

theorem cleanupOf (hs : s.Has n) : ∃ j, Async.cleanupOf s = some j ∧ j.closes n := by
  obtain ⟨cursor, columns, shape, entry, closed, finished⟩ := s
  obtain ⟨rfl, rfl, rfl⟩ := hs
  cases entry with
  | none => exact ⟨_, rfl, by simp [Job.closes]⟩
  | some e => exact ⟨_, rfl, by simp [Job.closes]⟩

end Stream.Has

namespace Action.Minds

/-- While a stream is open that has the cursor, a task closes the cursor if it is dropped, or panics. -/
theorem holding {s : Stream} (hs : s.Has n) {A : Operation → Prop} {P : Outcome α → Prop} {p : Call α}
    (hp : p.run.Only A P) (hA : ∀ o, A o → ∃ d i k, o = .fetch d i k) :
    (Async.holding s p).run.Minds n
      (fun t r ↦ P r ∧ t = if Outcome.isPanic r then .after else .held) .held := by
  obtain ⟨j, hj, hn⟩ := hs.cleanupOf
  unfold Async.holding
  rw [hj]
  refine bind ((orphaning_of_only hn hp hA).post fun t r hr ↦ ?_)
  obtain ⟨rfl, hP⟩ := hr
  by_cases hpanic : Outcome.isPanic r
  · rw [if_pos hpanic]
    refine ⟨.held, .refl _, fun m _ ↦ .inr ⟨rfl, ⟨j, hn, rfl⟩, hP, ?_⟩⟩
    rw [if_pos hpanic]
  · rw [if_neg hpanic]
    exact ⟨hP, by rw [if_neg hpanic]⟩

theorem finish {s : Stream} (hs : s.cursor.id = n) (failure : Option Error) :
    (Async.finish s failure).Minds n (fun t r ↦ t = .after ∧ r.2.finished) .held := by
  have hclose : (Async.holding { s with closed := true } (Async.caught s.cursor.close)).run.Minds n
      (fun t _ ↦ t = .after) .held := by
    have hc := close (n := n) s.cursor.connection s.cursor.id
    rw [if_pos hs] at hc
    have hcaught : (Async.caught s.cursor.close).run.Minds n (fun t _ ↦ t = .after) .held :=
      caught (hc.post fun t _ ht ↦ ht.1)
    unfold Async.holding
    split
    · rename_i j hj
      have hn : j.tidies ∧ j.closes n = false := by
        obtain ⟨cursor, columns, shape, entry, closed, finished⟩ := s
        cases finished <;> cases entry <;> cases hj
        exact ⟨rfl, rfl⟩
      exact protecting hn.1 hn.2 hcaught fun t _ ht _ ↦ ht
    · exact hcaught
  unfold Async.finish
  refine bind (hclose.post fun t r ht ↦ ?_)
  subst ht
  rcases r with f | closed
  · exact ⟨rfl, rfl⟩
  · dsimp only
    split
    · exact bind ((Forgets.exit _ _).post fun t _ ht ↦ ⟨ht, rfl⟩)
    · exact ⟨rfl, rfl⟩

theorem next (hx : x.mode = .async) {s : Stream} (hs : s.Stands n t) :
    (x.next s).Minds n (fun t r ↦ r.2.Stands n t) t := by
  rw [Context.next, hx]
  dsimp only
  unfold Async.next
  obtain ⟨rfl, hs⟩ | ⟨rfl, hf⟩ := hs
  · have hfetch : (Async.caught (Cursor.fetchOne.run s.cursor)).run.Only
        (Cursor.Fetch s.cursor.connection s.cursor.id)
        fun r ↦ (∀ a, r = .ok (.ok a) → a.2.id = s.cursor.id) ∧ ∀ e, r ≠ .error (.error e) := by
      rw [show Async.caught (Cursor.fetchOne.run s.cursor) = Blocking.caught _ from rfl, Call.run_caught]
      refine Only.bind ((Cursor.only_fetchOne s.cursor).mono (fun _ ho ↦ ho) fun r hr ↦ ?_)
      rcases r with (_ | _) | a
      · refine ⟨fun _ h ↦ ?_, fun _ h ↦ ?_⟩ <;> cases h
      · refine ⟨fun _ h ↦ ?_, fun _ h ↦ ?_⟩ <;> cases h
      · refine ⟨fun a' ha ↦ ?_, fun _ he ↦ ?_⟩
        · cases ha
          exact (hr a rfl).2
        · cases he
    have hend : ∀ r : Outcome Async.Item × Stream, r.2.finished → r.2.Stands n .after :=
      fun _ h ↦ .inr ⟨rfl, h⟩
    rw [if_neg (by simp [hs.finished])]
    refine bind ((holding hs hfetch ?_).post fun t r hr ↦ ?_)
    · rintro o ⟨i, rfl⟩
      exact ⟨_, _, _, rfl⟩
    · obtain ⟨⟨hid, hne⟩, ht⟩ := hr
      rcases r with (err | m) | err | ⟨_ | row, cursor⟩
      · exact absurd rfl (hne err)
      · subst ht
        exact hend _ rfl
      · subst ht
        exact (finish hs.cursor _).post fun t r hr ↦ hr.1 ▸ hend r hr.2
      · subst ht
        have hc : cursor.id = n := (hid _ rfl).trans hs.cursor
        exact (finish (s := { s with cursor }) hc _).post fun t r hr ↦ hr.1 ▸ hend r hr.2
      · subst ht
        have hc : cursor.id = n := (hid _ rfl).trans hs.cursor
        dsimp only
        split
        · exact .inl ⟨rfl, hc, hs.closed, hs.finished⟩
        · exact (finish (s := { s with cursor }) hc _).post fun t r hr ↦ hr.1 ▸ hend r hr.2
  · rw [if_pos hf]
    exact .inr ⟨rfl, hf⟩

theorem dropStream (hx : x.mode = .async) {s : Stream} (hs : s.Stands n t) :
    (x.dropStream s).run.Minds n (fun t _ ↦ t = .after) t := by
  rw [Context.dropStream, hx]
  dsimp only
  unfold Async.dropStream
  obtain ⟨rfl, hs⟩ | ⟨rfl, hf⟩ := hs
  · obtain ⟨j, hj, hn⟩ := hs.cleanupOf
    rw [hj]
    exact ⟨.held, .refl _, fun m _ ↦ .inr ⟨rfl, ⟨j, hn, rfl⟩, rfl⟩⟩
  · rw [show Async.cleanupOf s = none from if_pos hf]
    exact Forgets.ret _

theorem consumes {s : Stream} {p : Action β} (hp : Consumes x s p) (hx : x.mode = .async)
    (hs : s.Stands n t) : p.Minds n (fun t _ ↦ t = .after) t := by
  induction hp generalizing t with
  | drop s a => exact bind ((dropStream hx hs).post fun t _ ht ↦ ht)
  | next _ ih => exact bind ((next hx hs).post fun t r hr ↦ ih r.1 r.2 hr)
  | @pause s k _ ih =>
    refine ⟨t, .refl t, ?_, nofun, fun r _ ↦ ih r hs⟩
    obtain ⟨rfl, hs⟩ | ⟨rfl, hf⟩ := hs
    · obtain ⟨j, hj, hn⟩ := hs.cleanupOf
      rw [hj]
      refine ⟨by simpa using Job.tidies_of_closes hn, ?_⟩
      rw [Option.toList_some, List.countP_singleton, hn]
      rfl
    · rw [show Async.cleanupOf s = none from if_pos hf]
      exact .nil nofun

theorem exit_error (e : Entry) (err : Error) :
    (Async.Entry.exit (α := α) e (.error err)).run.Minds n (fun t r ↦ t = .after ∧ ∀ a, r ≠ .ok a)
      .after := by
  have hsettle : (Async.Entry.settle (α := α) e (.error err)).run.Minds n
      (fun t r ↦ t = .after ∧ ∀ v, r = .ok v → v = .error err) .after := by
    refine call_bind ((Forgets.locking e.connection (Forgets.rollbackQuietly e.connection)).post ?_)
    rintro t r rfl
    cases r with
    | error f => exact ⟨rfl, nofun⟩
    | ok _ => exact ⟨rfl, fun v hv ↦ (Except.ok.inj hv).symm⟩
  by_cases ho : e.owner
  · rw [Async.Entry.exit_eq ho]
    refine protecting (j := Async.Entry.cleanup e) rfl rfl (call_bind (hsettle.post fun t s hs ↦ ?_))
      fun t _ ht _ ↦ ht.1
    obtain ⟨rfl, hs⟩ := hs
    cases s with
    | error f => exact ⟨rfl, nofun⟩
    | ok v =>
      obtain rfl := hs v rfl
      refine call_bind ((Forgets.outcome (Forgets.release e.binder e.connection)).post ?_)
      rintro t r rfl
      rcases r with _ | (_ | _) | _ <;> exact ⟨rfl, nofun⟩
  · unfold Async.Entry.exit
    rw [if_pos (by simpa using ho)]
    exact ⟨rfl, nofun⟩

def ObtainsCaught (n : Nat) (t : Tenure) : Outcome (Except Error Cursor) → Prop
  | .ok (.ok cursor) => t = .held ∧ cursor.id = n
  | r => Lacks t r

theorem opening (shape : Shape) (r : Template.Rendered) (e : Entry) :
    (Async.opening shape r e).run.Minds n (fun t r ↦ match r with
      | .ok s => s.Stands n t
      | .error _ => t ≠ .held) .before := by
  have hcaught : (Async.caught (Async.locking e.connection
      (Session.query e.connection r.sql r.params))).run.Minds n (ObtainsCaught n) .before := by
    refine caught ((query (n := n) e.connection r.sql r.params).post fun t q hq ↦ ?_)
    rcases q with (_ | _) | cursor
    · exact Lacks.caught hq
    · exact Lacks.caught hq
    · exact hq
  have hguarded : (Async.Entry.guarded e (Async.caught (Async.locking e.connection
      (Session.query e.connection r.sql r.params)))).run.Minds n (ObtainsCaught n) .before := by
    unfold Async.Entry.guarded
    split
    · refine protecting rfl rfl hcaught fun t q hq hpanic ↦ ?_
      rcases q with f | err | cursor
      · exact Lacks.of_isPanic hq hpanic
      · cases hpanic
      · cases hpanic
    · exact hcaught
  refine call_bind (hguarded.post fun t q hq ↦ ?_)
  rcases q with f | err | cursor
  · exact Lacks.not_held hq
  · have hexit : (Async.Entry.exit (α := Stream) e (.error err)).run.Minds n
        (fun t r ↦ t ≠ .held ∧ ∀ a, r ≠ .ok a) .after :=
      (exit_error e err).post fun t r hr ↦ ⟨hr.1 ▸ Tenure.noConfusion, hr.2⟩
    have hfails : (Async.Entry.exit (α := Stream) e (.error err)).run.Minds n
        (fun t r ↦ t ≠ .held ∧ ∀ a, r ≠ .ok a) t := by
      obtain rfl | ⟨rfl, -⟩ := hq
      · exact hexit
      · exact giveUp hexit fun r hr ↦ ⟨Tenure.noConfusion, hr.2⟩
    refine hfails.post fun t r hr ↦ ?_
    cases r with
    | ok s => exact absurd rfl (hr.2 s)
    | error f => exact hr.1
  · obtain ⟨rfl, hn⟩ := hq
    exact .inl ⟨rfl, hn, rfl, rfl⟩

theorem stream (hx : x.mode = .async) (f : Bound) (shape : Shape) (args : Arguments) :
    (x.stream f shape args).run.Minds n (fun t r ↦ match r with
      | .ok s => s.Stands n t
      | .error _ => t ≠ .held) .before := by
  rw [Context.stream_eq hx]
  refine call_bind ((render f args).post fun t r hr ↦ ?_)
  subst hr
  cases r with
  | error f => exact nofun
  | ok r =>
    refine call_bind ((enter x.scopes f.binder).post fun t e he ↦ ?_)
    obtain ⟨rfl, -⟩ := he
    cases e with
    | error f => exact nofun
    | ok e => exact opening shape r e

theorem consumed (hx : x.mode = .async) (f : Bound) (shape : Shape) (args : Arguments)
    {consume : Stream → Action (Outcome β)} (hconsume : ∀ s, Consumes x s (consume s)) :
    (x.stream f shape args >>= fun s ↦ ExceptT.mk (consume s)).run.Minds n (fun t _ ↦ t ≠ .held)
      .before := by
  refine call_bind (k := fun s ↦ ExceptT.mk (consume s)) ((stream hx f shape args).post fun t s hs ↦ ?_)
  cases s with
  | error f => exact hs
  | ok s => exact (consumes (hconsume s) hx hs).post fun t _ ht ↦ by simp [ht]

end Action.Minds

end BoundSql
