import BoundSql.Proofs.Scope.Commits

namespace BoundSql

open Memory

variable {σ α β : Type} {h : Host σ} {x x₀ : Context} {b c : Nat} {s₀ s₁ : Runtime σ}
  {m : Memory} {l es : List Event} {P : List Event → Prop}

/-- Code that has the stream to itself: it takes items and awaits other things in between, and drops
the stream at its end. -/
inductive Consumes (x : Context) : Stream → Action β → Prop
  | drop (s : Stream) (a : β) : Consumes x s ((x.dropStream s).run >>= fun _ ↦ .done a)
  | next {s : Stream} {k : Outcome Async.Item × Stream → Action β}
    (hk : ∀ r s', Consumes x s' (k (r, s'))) : Consumes x s (x.next s >>= k)
  | pause {s : Stream} {k : Outcome Unit → Action β} (hk : ∀ r, Consumes x s (k r)) :
    Consumes x s (.wait .idle (Async.cleanupOf s).toList k)

theorem Consumes.custody {s : Stream} {p : Action β} (hp : Consumes x s p) (hx : x.mode = .async)
    (c : Nat) :
    (Conduct.custody c True).Keeps (Conduct.custody.Leased c) (fun _ ↦ True) p := by
  induction hp with
  | drop s a =>
    exact (Conduct.Keeps.mono (Conduct.custody.dropStream hx s) fun _ _ ↦ trivial).bind
      fun _ _ ↦ .done trivial
  | next _ ih => exact (Conduct.custody.next hx _).bind fun r _ ↦ ih r.1 r.2
  | pause _ ih =>
    refine fun l m hm ↦ ⟨fun j hj ↦ ?_, nofun, fun r m' _ hm' ↦ ih r l m' hm'⟩
    exact Conduct.custody.cleans_cleanupOf (Option.mem_toList.1 hj)

/-- The stream has the connection to itself, and has not ended. -/
structure Stream.Open (b c : Nat) (s : Stream) : Prop where
  entry : s.entry = some ⟨b, c, true, false, 0⟩
  closed : s.closed = false
  finished : s.finished = false

namespace Action.Owes

variable {s : Stream}

theorem cleanupOf (he : s.entry = some ⟨b, c, true, false, 0⟩) (hf : s.finished = false) :
    ∃ j, Async.cleanupOf s = some j ∧ j.Ends c := by
  refine ⟨.abandonStream b c (if s.closed then none else some s.cursor.id), ?_, rfl⟩
  rw [Async.cleanupOf, hf, he]
  rfl

theorem holding (he : s.entry = some ⟨b, c, true, false, 0⟩) (hf : s.finished = false)
    {Q : Outcome α → Prop} {p : Call α} (hp : p.run.Owes c Never Q) :
    (Async.holding s p).run.Owes c (Heir c) fun r ↦ Q r ∧ Outcome.isPanic r = false := by
  obtain ⟨j, hj, hends⟩ := cleanupOf he hf
  rw [Async.holding, hj]
  exact protecting hends hp

theorem finish (he : s.entry = some ⟨b, c, true, false, 0⟩) (hf : s.finished = false)
    (failure : Option Error) :
    (Async.finish s failure).Owes c (Heir c) fun _ ↦ False := by
  unfold Async.finish
  refine bind ((holding (s := { s with closed := true }) he hf
    (any s.cursor.close.run).caught).post ?_)
  rintro _ ⟨⟨r, -, rfl⟩, hn⟩
  rw [Outcome.isPanic_caught] at hn
  obtain ⟨v, hv⟩ := Outcome.eq_ok_of_caught hn
  rw [hv]
  dsimp only
  rw [he]
  exact bind ((exit (e := ⟨b, c, true, false, 0⟩) rfl rfl _).post fun _ ↦ False.elim)

theorem next (hx : x.mode = .async) (hs : s.Open b c) :
    (x.next s).Owes c (Heir c) fun r ↦ r.2.Open b c := by
  rw [Context.next, hx]
  dsimp only
  unfold Async.next
  rw [if_neg (by simp [hs.finished])]
  refine bind ((holding hs.entry hs.finished (any (Cursor.fetchOne.run s.cursor).run).caught).post ?_)
  rintro _ ⟨⟨r, -, rfl⟩, hn⟩
  rw [Outcome.isPanic_caught] at hn
  obtain ⟨v, hv⟩ := Outcome.eq_ok_of_caught hn
  rw [hv]
  rcases v with err | ⟨_ | row, cursor⟩
  · exact (finish hs.entry hs.finished _).post fun _ ↦ False.elim
  · exact (finish (s := { s with cursor }) hs.entry hs.finished _).post
      fun _ ↦ False.elim
  · dsimp only
    split
    · exact ⟨hs.entry, hs.closed, hs.finished⟩
    · exact (finish (s := { s with cursor }) hs.entry hs.finished _).post
        fun _ ↦ False.elim

end Action.Owes

theorem Consumes.owes {s : Stream} {p : Action β} (hp : Consumes x s p) (hx : x.mode = .async)
    (hs : s.Open b c) : p.Owes c (Heir c) fun _ ↦ False := by
  induction hp with
  | drop s a =>
    obtain ⟨j, hj, hends⟩ := Action.Owes.cleanupOf hs.entry hs.finished
    refine .bind ?_
    rw [Context.dropStream, hx]
    dsimp only
    rw [Async.dropStream, hj]
    exact .bind (.start hends _)
  | next _ ih => exact .bind ((Action.Owes.next hx hs).post fun r hr ↦ ih r.1 r.2 hr)
  | pause _ ih =>
    obtain ⟨j, hj, hends⟩ := Action.Owes.cleanupOf hs.entry hs.finished
    exact ⟨⟨j, by simp [hj], hends⟩, fun r _ ↦ ih r hs⟩

theorem Call.bind_assoc {γ : Type} (p : Call α) (f : α → Call β) (g : β → Call γ) :
    p >>= f >>= g = p >>= fun a ↦ f a >>= g := by
  refine (Action.bind_assoc p.run _ _).trans (congrArg (p.run.bind ·) (funext fun r ↦ ?_))
  cases r <;> rfl

theorem Context.stream_bind (hx : x.mode = .async) (f : Bound) (shape : Shape) (args : Arguments)
    (k : Stream → Call β) : x.stream f shape args >>= k = f.render args >>= fun r ↦
      Async.enter x.scopes f.binder >>= fun e ↦ Async.opening shape r e >>= k := by
  rw [stream_eq hx, Call.bind_assoc]
  simp_rw [Call.bind_assoc]

theorem Action.Owes.opening (shape : Shape) (r : Template.Rendered) :
    (Async.opening shape r ⟨b, c, true, false, 0⟩).run.Owes c (Heir c) fun r ↦
      ∃ s : Stream, r = .ok s ∧ s.Open b c := by
  unfold Async.opening Async.Entry.guarded
  rw [if_pos rfl]
  refine call_bind ((protecting (j := .abandon b c) rfl (any (Async.locking c
    (Session.query c r.sql r.params)).run).caught).post ?_)
  rintro _ ⟨⟨q, -, rfl⟩, hn⟩
  rw [Outcome.isPanic_caught] at hn
  obtain ⟨v, hv⟩ := Outcome.eq_ok_of_caught hn
  rw [hv]
  cases v with
  | error err => exact (exit (e := ⟨b, c, true, false, 0⟩) rfl rfl _).post fun _ ↦ False.elim
  | ok cursor => exact ⟨_, rfl, rfl, rfl, rfl⟩

def Action.Permits (c : Nat) (P : List Event → Prop) (Q : α → List Event → Prop) (p : Action α)
    (l : List Event) : Prop :=
  ∀ m, p.Obeys (.permitting c P) (fun a l _ ↦ Q a l) none l m

namespace Action.Permits

variable {Q : α → List Event → Prop} {R : β → List Event → Prop} {p : Action α}

theorem done {a : α} (ha : Q a l) : (Action.done a).Permits c P Q l := fun _ ↦ ha

theorem bind {f : α → Action β} (hp : p.Permits c P (fun a l ↦ (f a).Permits c P R l) l) :
    (p >>= f).Permits c P R l :=
  fun m ↦ .bind ((hp m).mono fun _ _ m' ha ↦ ha m')

theorem mono {Q' : α → List Event → Prop} (hp : p.Permits c P Q l) (hQ : ∀ a l, Q a l → Q' a l) :
    p.Permits c P Q' l :=
  fun m ↦ (hp m).mono fun a l _ ↦ hQ a l

theorem always (hp : p.Permits c P (fun _ _ ↦ True) l) (hQ : ∀ a l, Q a l) :
    p.Permits c P Q l :=
  hp.mono fun a l _ ↦ hQ a l

theorem of_keeps (hp : (Conduct.permitting c P).Keeps (fun _ ↦ True) (fun _ ↦ True) p) :
    p.Permits c P (fun _ _ ↦ True) l :=
  fun m ↦ (hp l m trivial).mono fun _ _ _ _ ↦ trivial

theorem reaches (hh : h.Plain) {q : Suspended α} {s : Runtime σ}
    (hp : p.Permits c P (fun _ _ ↦ True) []) (hr : Reaches h (Job.run x) (.start p) s₀ es q s) :
    Event.Permitted c P es :=
  (Conduct.permitting.reaches hh hp hr).1

variable {Q : Outcome α → List Event → Prop} {p : Call α} {e : Entry} {a : α}

theorem caught {Q : Outcome (Except Error α) → List Event → Prop}
    (hp : p.run.Permits c P (fun r l ↦ Q (Outcome.caught r) l) l) :
    (Blocking.caught p).run.Permits c P Q l :=
  fun m ↦ .caught (hp m)

theorem protecting {j : Job} (hp : p.run.Permits c P Q l) :
    (Async.protecting j p).run.Permits c P Q l := by
  refine bind fun m ↦ ((hp m).orphaning trivial).mono fun r l _ hr ↦ ?_
  beta_reduce
  by_cases hpanic : Outcome.isPanic r
  · rw [if_pos hpanic]
    exact fun m ↦ .inl ⟨trivial, hr⟩
  · rw [if_neg hpanic]
    exact done hr

theorem holding {s : Stream} (hp : p.run.Permits c P Q l) :
    (Async.holding s p).run.Permits c P Q l := by
  unfold Async.holding
  split
  · exact protecting hp
  · exact hp

theorem andThen {k : α → Call β} (hp : p.run.Permits c P (fun _ _ ↦ True) l)
    (hk : ∀ a, (Conduct.permitting c P).Runs (fun _ ↦ True) (fun _ ↦ True) (k a)) :
    (p >>= k).run.Permits c P (fun _ _ ↦ True) l := by
  refine bind (hp.mono fun r l _ ↦ ?_)
  cases r with
  | ok a => exact of_keeps (.mono (hk a) fun _ _ ↦ trivial)
  | error f => exact done trivial

theorem exit_error (err : Error) :
    (Async.Entry.exit (α := α) e (.error err)).run.Permits c P (fun _ _ ↦ True) l :=
  of_keeps (.mono (Conduct.permitting.exit_error (Q := fun _ ↦ True) err) fun _ _ ↦ trivial)

theorem commit (hl : P l) : (Session.commit c).run.Permits c P (fun _ _ ↦ True) l :=
  fun _ ↦ .check (fun _ ↦ ⟨by simp, fun _ _ ↦ ⟨fun _ ↦ hl, fun _ _ _ _ _ _ ↦ trivial⟩⟩)
    fun _ ↦ trivial

theorem exit_ok (he : e.connection = c) (hl : P l) :
    (Async.Entry.exit e (.ok a)).run.Permits c P (fun _ _ ↦ True) l := by
  obtain ⟨b, d, owner, registered, thread⟩ := e
  obtain rfl : d = c := he
  have hends : (Conduct.permitting d P).Ends (fun _ ↦ True) b d :=
    Conduct.permitting.ends b d
  have hroll : (Conduct.permitting d P).Runs (fun _ ↦ True) (fun _ ↦ True)
      (Async.locking d (Session.rollbackQuietly d)) :=
    .locking Conduct.permitting.resumes hends.rollbackQuietly
  have hcommit : (Async.locking d (Session.commit d)).outcome.run.Permits d P
      (fun _ _ ↦ True) l :=
    fun m ↦ .outcome (.locking fun m' _ ↦ commit hl m')
  have hsettle : (Async.Entry.settle ⟨b, d, owner, registered, thread⟩ (.ok a)).run.Permits d P
      (fun _ _ ↦ True) l := by
    refine andThen hcommit fun r ↦ ?_
    rcases r with (err | m) | _
    · exact hroll.bind fun _ _ ↦ .pure trivial
    · exact .throw _
    · exact .pure trivial
  cases owner with
  | false => exact done trivial
  | true =>
    rw [Async.Entry.exit_eq rfl]
    refine protecting (andThen hsettle fun settled ↦ hends.run_release.outcome.bind fun t _ ↦ ?_)
    rcases settled with err | a <;> rcases t with (err' | m) | _
    · exact .fail err
    · exact .throw _
    · exact .fail err
    · exact .throw _
    · exact .throw _
    · exact .pure trivial

end Action.Permits

/-- What it leaves to read a cursor to its end from the row of that index on, and to close it, if
nothing fails. -/
def Cursor.toEnd (connection cursor : Nat) : Nat → List Row → List Event
  | i, [] => [.operation (.fetch connection cursor i) connection .done,
      .operation (.close connection cursor) connection .done]
  | i, _ :: rows => .operation (.fetch connection cursor i) connection .done ::
      toEnd connection cursor (i + 1) rows

def Stream.Exhausted (s : Stream) (l : List Event) : Prop :=
  l = Cursor.toEnd s.cursor.connection s.cursor.id s.cursor.fetched s.cursor.rows ∧
    ∀ row ∈ s.cursor.rows, (s.shape.ofRow s.columns row).isOk

def Stream.Promises (P : List Event → Prop) (s : Stream) (l : List Event) : Prop :=
  (∀ row ∈ s.cursor.rows, (s.shape.ofRow s.columns row).isOk) →
    P (l ++ Cursor.toEnd s.cursor.connection s.cursor.id s.cursor.fetched s.cursor.rows)

namespace Action.Permits

variable {s : Stream} {R : Outcome Async.Item × Stream → List Event → Prop}

theorem closing (s t : Stream) :
    (Async.holding t (Async.caught s.cursor.close)).run.Permits c P (fun r l' ↦ r = .ok (.ok ()) →
      l' = l ++ [.operation (.close s.cursor.connection s.cursor.id) s.cursor.connection .done])
      l := by
  refine holding (caught fun m ↦ ⟨by simp, fun m₁ _ ↦ ⟨nofun, fun st r m' hr _ _ hok ↦ ?_⟩⟩)
  rcases r with (_ | _) | u <;> cases hok
  rw [hr.2.1 rfl]
  rfl

theorem fetching (s t : Stream) :
    (Async.holding t (Async.caught (Cursor.fetchOne.run s.cursor))).run.Permits c P
      (fun r l' ↦ ∀ v, r = .ok (.ok v) → v = (s.cursor.rows.head?, s.cursor.advance) ∧
        l' = l ++ [.operation (.fetch s.cursor.connection s.cursor.id s.cursor.fetched)
          s.cursor.connection .done]) l := by
  refine holding (caught ?_)
  rw [Cursor.run_fetchOne]
  refine fun m ↦ ⟨by simp, fun m₁ _ ↦ ⟨nofun, fun st r m' hr _ _ v hok ↦ ?_⟩⟩
  rcases r with (_ | _) | u <;> cases hok
  rw [hr.2.1 rfl]
  exact ⟨rfl, rfl⟩

theorem finish (he : s.entry = some ⟨b, c, true, false, 0⟩) {failure : Option Error}
    (hP : failure = none →
      P (l ++ [.operation (.close s.cursor.connection s.cursor.id) s.cursor.connection .done]))
    (hR : ∀ r s' l, s'.finished → R (r, s') l) : (Async.finish s failure).Permits c P R l := by
  unfold Async.finish
  refine bind ((closing { s with closed := true } _).mono fun r l' hl ↦ ?_)
  rcases r with f | closed
  · exact done (hR _ _ _ rfl)
  · dsimp only
    rw [he]
    refine bind (always ?_ fun r l ↦ done (hR _ _ _ rfl))
    cases failure with
    | some err => exact exit_error err
    | none =>
      cases closed with
      | error err => exact exit_error err
      | ok u =>
        rw [hl rfl]
        exact exit_ok rfl (hP rfl)

theorem next (hx : x.mode = .async) (hs : s.Open b c) (hP : s.Promises P l)
    (hR : ∀ r s' l, s'.finished ∨ s'.Open b c ∧ s'.Promises P l → R (r, s') l) :
    (x.next s).Permits c P R l := by
  have hend : ∀ r s' l, s'.finished → R (r, s') l := fun r s' l hf ↦ hR r s' l (.inl hf)
  rw [Context.next, hx]
  dsimp only
  unfold Async.next
  rw [if_neg (by simp [hs.finished])]
  refine bind ((fetching s s).mono fun r l' hl ↦ ?_)
  rcases r with f | err | ⟨row, cursor⟩
  · exact done (hend _ _ _ rfl)
  · exact finish hs.entry (fun h ↦ by cases h) hend
  · obtain ⟨hv, rfl⟩ := hl _ rfl
    obtain ⟨rfl, rfl⟩ := Prod.mk.inj hv
    unfold Stream.Promises at hP
    cases hrows : s.cursor.rows with
    | nil =>
      rw [hrows] at hP
      refine finish (s := { s with cursor := s.cursor.advance }) hs.entry (fun _ ↦ ?_) hend
      simpa [Cursor.toEnd, Cursor.advance] using hP (List.forall_mem_nil _)
    | cons row rows =>
      rw [hrows] at hP
      dsimp only [List.head?_cons]
      cases hrow : s.shape.ofRow s.columns row with
      | error err =>
        refine finish (s := { s with cursor := s.cursor.advance }) hs.entry (fun h ↦ ?_) hend
        cases h
      | ok m =>
        refine done (hR _ _ _ (.inr ⟨⟨hs.entry, hs.closed, hs.finished⟩, fun hrest ↦ ?_⟩))
        have hrows' : s.cursor.advance.rows = rows := by rw [Cursor.advance, hrows]; rfl
        rw [hrows'] at hrest ⊢
        rw [List.append_assoc]
        exact hP (List.forall_mem_cons.2 ⟨by rw [hrow]; rfl, hrest⟩)

end Action.Permits

theorem Consumes.permits_finished {s : Stream} {p : Action β} (hp : Consumes x s p)
    (hx : x.mode = .async) (hf : s.finished) : p.Permits c P (fun _ _ ↦ True) l := by
  have hclean : Async.cleanupOf s = none := if_pos hf
  induction hp with
  | drop s a =>
    rw [Context.dropStream, hx]
    dsimp only
    rw [Async.dropStream, hclean]
    exact .done trivial
  | @next s k _ ih =>
    have hnext : x.next s = .done (.ok none, s) := by
      rw [Context.next, hx]
      exact if_pos hf
    rw [hnext]
    exact ih _ s hf hclean
  | pause _ ih =>
    rw [hclean]
    refine fun m ↦ ⟨fun j hj ↦ ?_, fun j hj ↦ ?_, fun r m' _ _ ↦ ih r hf hclean m'⟩
    · cases hj
    · cases hj

theorem Consumes.permits {s : Stream} {p : Action β} (hp : Consumes x s p) (hx : x.mode = .async)
    (hs : s.Open b c) (hP : s.Promises P l) : p.Permits c P (fun _ _ ↦ True) l := by
  induction hp generalizing l with
  | drop s a =>
    have hdrop : (Conduct.permitting c P).Runs (fun _ ↦ True) (fun _ ↦ True) (x.dropStream s) := by
      rw [Context.dropStream, hx]
      dsimp only
      unfold Async.dropStream
      split
      · exact .lift (.start fun _ _ ↦ ⟨trivial, trivial⟩)
      · exact .pure trivial
    exact .bind ((Action.Permits.of_keeps (.mono hdrop fun _ _ ↦ trivial)).always
      fun _ _ ↦ .done trivial)
  | @next s k hk ih =>
    refine .bind (.next hx hs hP fun r s' l hs' ↦ ?_)
    obtain hf | ⟨hopen, hP'⟩ := hs'
    · exact (hk r s').permits_finished hx hf
    · exact ih r s' hopen hP'
  | pause _ ih =>
    refine fun m ↦ ⟨fun _ _ ↦ trivial, fun j hj ↦ ?_, fun r m' _ _ ↦ ih r hs hP m'⟩
    cases hj

namespace Conduct.permitting

theorem enter (scopes : Async.Scopes) (b : Nat) :
    (permitting c P).Runs (fun _ ↦ True) (fun _ ↦ True) (Async.enter scopes b) := by
  refine (Runs.pool b).bind fun _ _ ↦ ?_
  cases scopes.lookup b with
  | some d => exact .pure trivial
  | none =>
    have hlease : (permitting c P).Runs (fun _ ↦ True) (fun _ ↦ True) (Call.operate (.lease b)) :=
      .operate resumes (fun _ _ _ ↦ nofun) fun _ _ _ _ _ ↦ trivial
    refine Runs.bind (P := fun _ ↦ True) ?_ fun _ _ ↦ .pure trivial
    refine (Runs.pool b).bind fun p _ ↦ hlease.bind fun d _ ↦ ?_
    exact (Runs.modify fun _ _ ↦ ⟨trivial, trivial⟩).bind fun _ _ ↦ .pure trivial

theorem opening (shape : Shape) (r : Template.Rendered) (e : Entry) :
    (permitting c P).Runs (fun _ ↦ True)
      (fun s ↦ s.entry = (if e.owner then some e else none) ∧ s.closed = false ∧ s.finished = false)
      (Async.opening shape r e) := by
  have hq : (permitting c P).Runs (fun _ ↦ True) (fun _ ↦ True)
      (Async.locking e.connection (Session.query e.connection r.sql r.params)) :=
    .locking resumes (.checked (o := .query e.connection r.sql r.params) resumes rfl
      fun _ _ _ _ ↦ nofun)
  refine ((ends e.binder e.connection).guarded hq.caught).bind fun q _ ↦ ?_
  cases q with
  | error err => exact exit_error err
  | ok cursor => exact .pure ⟨rfl, rfl, rfl⟩

theorem stream (hx : x.mode = .async) (f : Bound) (shape : Shape) (args : Arguments) :
    (permitting c P).Runs (fun _ ↦ True) (fun _ ↦ True) (x.stream f shape args) := by
  rw [Context.stream_eq hx]
  exact (Runs.render f args).bind fun r _ ↦ (enter x.scopes f.binder).bind fun e _ ↦
    (opening shape r e).mono fun _ _ ↦ trivial

end Conduct.permitting

/-- How the operations go by of a stream that `consume` has, and that has a connection to itself. -/
inductive StreamRun (h : Host σ) (x₀ x : Context) (c : Nat) (f : Bound) (shape : Shape)
    (args : Arguments) (consume : Stream → Action (Outcome β)) (s₀ : Runtime σ) :
    List Event → Prop
  | opening {es : List Event} (he : ∀ e ∈ es, ¬e.commits c) :
    StreamRun h x₀ x c f shape args consume s₀ es
  | consuming {es es' : List Event} {s : Stream} {q : Suspended (Outcome β)} {s₁ s' : Runtime σ}
    (ho : Reaches h (Job.run x₀) (.start (x.stream f shape args).run) s₀ es (.done (.ok s)) s₁)
    (he : ∀ e ∈ es, ¬e.commits c)
    (hr : Reaches h (Job.run x₀) (.start (consume s)) s₁ es' q s')
    (hc : Event.Permitted c s.Exhausted es') :
    StreamRun h x₀ x c f shape args consume s₀ (es ++ es')

section

variable {f : Bound} {shape : Shape} {args : Arguments} {consume : Stream → Action (Outcome β)}

theorem Stream.accounted (hh : h.Plain) (hr : h.Returns) (hx : x.mode = .async)
    (hb : x.scopes.lookup f.binder = none) (hs : s₀.Fresh c)
    (hconsume : ∀ s, Consumes x s (consume s)) {q : Suspended (Outcome β)} {s : Runtime σ}
    (hreach : Reaches h (Job.run x₀)
      (.start (x.stream f shape args >>= fun s ↦ ExceptT.mk (consume s)).run) s₀ es q s) :
    Accounted f.binder c es q s := by
  rw [Context.stream_bind hx] at hreach
  obtain ⟨r, hreach⟩ | ⟨-, ha, -⟩ := Accounted.of_rendering hs hreach
  · refine Async.leasing_reaches hh hr hb hs ?_ ?_ ?_ hreach
    · have hrun : (Conduct.custody c True).Runs (Conduct.custody.Leased c) (fun _ ↦ True)
          (Async.opening shape r ⟨f.binder, c, true, false, 0⟩ >>= fun s ↦ ExceptT.mk (consume s)) :=
        (Conduct.custody.opening shape r _).bind fun s _ ↦
          ((hconsume s).custody hx c).mono fun _ _ _ _ ↦ trivial
      exact Conduct.Keeps.mono hrun fun _ _ ↦ trivial
    · refine Action.Owes.call_bind (k := fun s ↦ ExceptT.mk (consume s))
        ((Action.Owes.opening shape r).post ?_)
      rintro _ ⟨s, rfl, hopen⟩
      exact (hconsume s).owes hx hopen
    · exact fun e ↦ ⟨_, rfl⟩
  · exact ha

theorem Stream.isOpen (hh : h.Plain) (hx : x.mode = .async)
    (hb : x.scopes.lookup f.binder = none) (hs : s₀.Fresh c) {s : Stream} {s₁ : Runtime σ}
    (hreach : Reaches h (Job.run x₀) (.start (x.stream f shape args).run) s₀ es (.done (.ok s)) s₁) :
    s.Open f.binder c := by
  rw [Context.stream_eq hx] at hreach
  obtain ⟨r, hreach⟩ | ⟨-, -, hn⟩ := Accounted.of_rendering (b := f.binder) hs hreach
  · obtain ⟨e, es₁, es₂, s₂, rfl, henter, hopening⟩ := hreach.of_call_ok
    obtain ⟨-, hn⟩ | ⟨he, -⟩ := Async.enter_reaches hh hb hs henter
    · exact (hn e rfl).elim
    · cases he
      have hrun := Conduct.permitting.opening (c := c) (P := fun _ ↦ True) shape r
        ⟨f.binder, c, true, false, 0⟩
      have hs := (Conduct.permitting.reaches hh
        (fun m ↦ (hrun [] m trivial).mono fun _ _ _ ha ↦ ha.2) hopening).2 _ rfl s rfl
      exact ⟨hs.1, hs.2.1, hs.2.2⟩
  · exact (hn s rfl).elim

theorem Stream.run (hh : h.Plain) (hx : x.mode = .async)
    (hb : x.scopes.lookup f.binder = none) (hs : s₀.Fresh c)
    (hconsume : ∀ s, Consumes x s (consume s)) {q : Suspended (Outcome β)} {s : Runtime σ}
    (hreach : Reaches h (Job.run x₀)
      (.start (x.stream f shape args >>= fun s ↦ ExceptT.mk (consume s)).run) s₀ es q s) :
    StreamRun h x₀ x c f shape args consume s₀ es := by
  have hopening : ∀ {es q s}, Reaches h (Job.run x₀) (.start (x.stream f shape args).run) s₀ es q s →
      ∀ e ∈ es, ¬e.commits c :=
    fun hr ↦ Conduct.permitting.never hh (Conduct.permitting.stream hx f shape args) hr
  obtain ⟨_, ho, -⟩ | ⟨_, ho, -⟩ | ⟨t, es₁, es₂, s₁, rfl, ho, hr⟩ := hreach.of_call_bind
  · exact .opening (hopening ho)
  · exact .opening (hopening ho)
  · have hopen := Stream.isOpen hh hx hb hs ho
    have hpermits := (hconsume t).permits (P := t.Exhausted) (l := []) hx hopen
      fun hrows ↦ ⟨rfl, hrows⟩
    exact .consuming ho (hopening ho) hr (hpermits.reaches hh hr)

end

end BoundSql
