import BoundSql.Proofs.Scope.Cancellation
import BoundSql.Proofs.Scope.Closing

namespace BoundSql

open Memory

variable {σ α β : Type} {h : Host σ} {x x₀ : Context} {n b c : Nat} {s₀ s₁ s s' : Runtime σ}
  {es l : List Event} {f : Bound} {ret : Return} {args : Arguments}

theorem Action.Minds.eq_before {Q : Tenure → α → Prop} {t : Tenure} {p : Action α}
    (hp : p.Minds n Q t) (hQ : ∀ t a, Q t a → t = .before) : t = .before := by
  have hto : ∀ {t t' : Tenure}, t.To t' → t' = .before → t = .before := by
    rintro t t' ht rfl
    cases ht
    rfl
  induction p generalizing t with
  | done a => exact hQ t a hp
  | memory g k ih =>
    obtain ⟨t', ht, hk⟩ := hp
    obtain ⟨-, hk⟩ | ⟨-, -, hk⟩ := hk {} rfl
    · exact hto ht (ih _ hk)
    · cases ih _ hk
  | operation o js k ih =>
    obtain ⟨t', ht, ho, hk⟩ := hp
    -- An operation that fails gives no cursor.
    have hgives : o.Gives n (.error (.error .noPoolSet)) := by
      cases o <;> first | exact trivial | exact fun _ h ↦ nomatch h
    have hnext := ih _ (hk (.error (.error .noPoolSet)) rfl hgives)
    refine hto ht ?_
    cases o with
    | query _ _ _ => exact ho.1
    | close d m =>
      by_cases hm : m = n
      · rw [Tenure.next, if_pos hm] at hnext
        cases hnext
      · rwa [Tenure.next, if_neg hm] at hnext
    | _ => exact hnext
  | wait w js k ih =>
    obtain ⟨t', ht, -, -, hk⟩ := hp
    have hanswers : w.Answers (.ok ()) := by cases w <;> trivial
    exact hto ht (ih _ (hk _ hanswers))

theorem Attends.unopened {Q : Tenure → α → Prop} {F : Prop} {t : Tenure} {q : Suspended α}
    (hq : Attends n Q F l q s t) (hQ : ∀ t a, Q t a → t = .before) :
    t = .before ∧ ∀ e ∈ l, ¬e.opens := by
  obtain ⟨hminds, due, hs⟩ := hq
  have ht : t = .before := by
    cases q with
    | done a => exact hQ t a hminds
    | ready js p => exact hminds.2.eq_before hQ
    | asked o js k => exact Action.Minds.eq_before hminds hQ
    | waiting i js k => exact (hminds.2 (.ok ())).eq_before hQ
  subst ht
  have hroom : l.countP Event.isQuery + 1 ≤ 1 := hs.room
  have hnone : l.countP Event.isQuery = 0 := by omega
  exact ⟨rfl, fun e he ho ↦ List.countP_eq_zero.1 hnone e he (Event.isQuery_of_opens ho)⟩

namespace Reaches

variable {jobs : Job → Call Unit}

theorem of_operate {o : Operation} {q : Suspended (Outcome o.Answer)}
    (hr : Reaches h jobs (.start (Call.operate o).run) s₀ es q s) (ho : o.isLocked = false)
    (hl : o.isLease = false) :
    (es = [] ∧ q.isDone = false ∧ Relation.ReflTransGen (Runtime.Step h jobs) s₀ s) ∨
      ∃ s₁ : Runtime σ, es = [s₁.event h o] := by
  have hq : (es = [] ∧ (q = .start (Call.operate o).run ∨ q = .asked o [] .done) ∧
      Relation.ReflTransGen (Runtime.Step h jobs) s₀ s) ∨
      (∃ s₁ : Runtime σ, es = [s₁.event h o]) ∧ ((∃ r, q = .ready [] (.done r)) ∨ ∃ r, q = .done r) := by
    induction hr with
    | refl => exact .inl ⟨rfl, .inl rfl, .refl⟩
    | turn _ ht ih =>
      obtain ⟨rfl, rfl | rfl, hs⟩ | ⟨⟨s₁, rfl⟩, ⟨r, rfl⟩ | ⟨r, rfl⟩⟩ := ih
      · have hturn : (Call.operate o).run.proceed h jobs _ = _ := Option.some.inj ht
        rw [show (Call.operate o).run = .operation o [] .done from rfl, Action.proceed,
          if_neg (by simp [ho])] at hturn
        rw [← hturn]
        exact .inl ⟨rfl, .inr rfl, hs⟩
      · unfold Suspended.turn at ht
        dsimp only at ht
        rw [if_neg (by simp [hl])] at ht
        cases ht
        exact .inr ⟨⟨_, rfl⟩, .inl ⟨_, rfl⟩⟩
      · cases ht
        exact .inr ⟨⟨s₁, rfl⟩, .inr ⟨r, rfl⟩⟩
      · cases ht
    | background _ hstep ih =>
      obtain ⟨hes, hq, hs⟩ | ⟨hes, hq⟩ := ih
      · exact .inl ⟨hes, hq, hs.tail hstep⟩
      · exact .inr ⟨hes, hq⟩
  obtain ⟨hes, hq, hs⟩ | ⟨hes, -⟩ := hq
  · refine .inl ⟨hes, ?_, hs⟩
    obtain rfl | rfl := hq <;> rfl
  · exact .inr hes

/-- A part of a scope is in progress, or has come to its end, and what follows depends on that alone. -/
theorem of_guarded {e : Entry} {p : Call α} {q : Suspended (Outcome (Except Error α))}
    (hr : Reaches h jobs (.start (Async.Entry.guarded e (Async.caught p)).run) s₀ es q s) :
    (∃ q', Reaches h jobs (.start p.run) s₀ es q' s ∧ q'.isDone = false ∧ q.isDone = false) ∨
      ∃ r s₁, Reaches h jobs (.start p.run) s₀ es (.done r) s₁ := by
  unfold Async.Entry.guarded at hr
  split at hr
  · exact hr.of_part.imp_right fun ⟨r, s₁, hp, _⟩ ↦ ⟨r, s₁, hp⟩
  · exact hr.of_caught.imp_right fun ⟨r, hp, _⟩ ↦ ⟨r, _, hp⟩

end Reaches

namespace Context

def entering (x : Context) (f : Bound) (args : Arguments) : Call (Template.Rendered × Entry) := do
  let r ← f.render args
  let e ← Async.enter x.scopes f.binder
  return (r, e)

theorem query_entering (hx : x.mode = .async) (f : Bound) (ret : Return) (args : Arguments) :
    x.query f ret args = x.entering f args >>= fun v ↦
      Async.Entry.guarded v.2 (Async.caught (queryBody ret v.1 { x with scopes :=
        if v.2.owner then (f.binder, v.2.connection) :: x.scopes else x.scopes } v.2.connection)) >>=
      Async.Entry.exit v.2 := by
  rw [query_eq, entering, Call.bind_assoc]
  simp_rw [Call.bind_assoc, connection_of_async hx]
  rfl

theorem fetching_scopes (x : Context) (scopes : Async.Scopes) (ret : Return) (r : Template.Rendered)
    (c : Nat) : fetching { x with scopes } ret r c = x.fetching ret r c := by
  obtain ⟨_ | _, thread, scopes'⟩ := x <;> rfl

end Context

/-- The query has not read its rows: it has no cursor, or it has failed to read, or is still at it. -/
inductive Unread (h : Host σ) (x₀ x : Context) (f : Bound) (ret : Return) (args : Arguments)
    (s₀ : Runtime σ) : List Event → Prop
  | entering {es : List Event} (he : ∀ e ∈ es, ¬e.opens) : Unread h x₀ x f ret args s₀ es
  | fetching {es es' es'' : List Event} {v : Template.Rendered × Entry}
    {q : Suspended (Outcome (Cursor × List Row))} {s₁ s : Runtime σ}
    (he : Reaches h (Job.run x₀) (.start (x.entering f args).run) s₀ es (.done (.ok v)) s₁)
    (hf : Reaches h (Job.run x₀) (.start (x.fetching ret v.1 v.2.connection).run) s₁ es' q s)
    (hq : ∀ a, q ≠ .done (.ok a)) (hrest : q.isDone = false → es'' = []) :
    Unread h x₀ x f ret args s₀ (es ++ es' ++ es'')

theorem Context.of_queryBody {jobs : Job → Call Unit} {r : Template.Rendered}
    {q : Suspended (Outcome Mapped)}
    (hr : Reaches h jobs (.start (x.queryBody ret r c).run) s₀ es q s) :
    (∃ q', Reaches h jobs (.start (x.fetching ret r c).run) s₀ es q' s ∧ (∀ a, q' ≠ .done (.ok a)) ∧
      (q'.isDone = false → q.isDone = false)) ∨
    ∃ a es₁ es₂ s₁, es = es₁ ++ es₂ ∧
      Reaches h jobs (.start (x.fetching ret r c).run) s₀ es₁ (.done (.ok a)) s₁ ∧
      ((q.isDone = false ∧ Relation.ReflTransGen (Runtime.Step h jobs) s₁ s) ∨
        ∃ e ∈ es₂, Event.closes a.1.id e) := by
  rw [queryBody_eq] at hr
  obtain ⟨q', hp, hq', hq⟩ | ⟨f, hp, -⟩ | ⟨a, es₁, es₂, s₁, rfl, hp, hk⟩ := hr.of_call_bind
  · refine .inl ⟨q', hp, ?_, fun _ ↦ hq⟩
    rintro a rfl
    cases hq'
  · exact .inl ⟨_, hp, nofun, nofun⟩
  · refine .inr ⟨a, es₁, es₂, s₁, rfl, hp, ?_⟩
    -- Either the close is awaited, and nothing has happened since, or it has had its effect.
    have hclose : ∀ {es q s}, Reaches h jobs (.start a.1.close.run) s₁ es q s →
        (es = [] ∧ q.isDone = false ∧ Relation.ReflTransGen (Runtime.Step h jobs) s₁ s) ∨
          ∃ e ∈ es, Event.closes a.1.id e := by
      intro es q s hr
      refine (hr.of_operate rfl rfl).imp_right fun ⟨s₂, hes⟩ ↦ ?_
      exact ⟨_, by rw [hes]; exact List.mem_singleton_self _, beq_self_eq_true _⟩
    obtain ⟨q', hc, -, hq⟩ | ⟨f, hc, -⟩ | ⟨u, es₃, es₄, s₂, rfl, hc, -⟩ := hk.of_call_bind
    · exact (hclose hc).imp_left fun ⟨_, _, hs⟩ ↦ ⟨hq, hs⟩
    · exact .inr ((hclose hc).resolve_left fun ⟨_, hq, _⟩ ↦ nomatch hq)
    · obtain ⟨e, he, hn⟩ := (hclose hc).resolve_left fun ⟨_, hq, _⟩ ↦ nomatch hq
      exact .inr ⟨e, List.mem_append_left _ he, hn⟩

theorem Action.Minds.entering (f : Bound) (args : Arguments) :
    (x.entering f args).run.Minds n (fun t _ ↦ t = .before) .before := by
  refine call_bind ((render f args).post fun t r hr ↦ ?_)
  subst hr
  cases r with
  | error e => exact rfl
  | ok r =>
    refine call_bind ((enter x.scopes f.binder).post fun t e he ↦ ?_)
    cases e with
    | error e => exact he.1
    | ok e => exact he.1

section

variable (hh : h.Plain) (hr : h.Returns) (hx : x.mode = .async) (hs : s₀.Unopened n)
include hh hr

theorem Context.entering_reaches (hs : s₀.Unopened n) {q : Suspended (Outcome (Template.Rendered × Entry))}
    (hreach : Reaches h (Job.run x₀) (.start (x.entering f args).run) s₀ es q s) :
    Attends n (fun t _ ↦ t = .before) False es q s .before ∧ (∀ e ∈ es, ¬e.opens) ∧
      ∀ c, s₀.Undisposed c → s.Undisposed c := by
  obtain ⟨t, hq, -, hu⟩ := (hs.attends (Action.Minds.entering f args)).reaches hh hr hreach
  obtain ⟨rfl, hes⟩ := hq.unopened fun _ _ ht ↦ ht
  exact ⟨hq, hes, fun c hc ↦ hu c hc nofun⟩

include hx hs

/-- A query in its scope has not read its rows, or it has closed its cursor, or nothing has happened
since it read them. -/
theorem Context.queryBody_reaches {v : Template.Rendered × Entry} {scopes : Async.Scopes}
    (he : Reaches h (Job.run x₀) (.start (x.entering f args).run) s₀ l (.done (.ok v)) s₁)
    {q : Suspended (Outcome Mapped)}
    (hreach : Reaches h (Job.run x₀)
      (.start (queryBody ret v.1 { x with scopes } v.2.connection).run) s₁ es q s) :
    (∀ es', (q.isDone = false → es' = []) → Unread h x₀ x f ret args s₀ (l ++ es ++ es')) ∨
      (∃ e ∈ es, Event.closes n e) ∨
      q.isDone = false ∧ ∀ c, s₀.Undisposed c → s.Undisposed c := by
  obtain ⟨hl, -, hu⟩ := entering_reaches hh hr hs he
  obtain ⟨q', hf, hq', hd⟩ | ⟨a, es₁, es₂, s₂, rfl, hf, hclose⟩ := of_queryBody hreach
  · rw [fetching_scopes] at hf
    exact .inl fun es' hes' ↦ .fetching he hf hq' fun hn ↦ hes' (hd hn)
  · rw [fetching_scopes] at hf
    -- The call has the cursor in hand that it has the rows from.
    obtain ⟨-, due, hbooks⟩ := hl
    have hfetching : Attends n _ False l (.start (x.fetching ret v.1 v.2.connection).run) s₁ .before :=
      ⟨⟨.inl (.nil nofun), Action.Minds.fetching hx ret v.1⟩, due, hbooks⟩
    obtain ⟨t, ⟨hminds, -⟩, -, hu'⟩ := hfetching.reaches hh hr hf
    obtain ⟨rfl, hn⟩ : t = .held ∧ a.1.id = n := hminds
    right
    obtain ⟨hq, hsteps⟩ | ⟨e, he, hc⟩ := hclose
    · refine .inr ⟨hq, fun c hc ↦ ?_⟩
      have hu₂ := hu' c (hu c hc) nofun
      rw [hu₂.1.steps hsteps]
      exact hu₂
    · exact .inl ⟨e, List.mem_append_right _ he, hn ▸ hc⟩

theorem Context.query_closes {q : Suspended (Outcome Mapped)}
    (hreach : Reaches h (Job.run x₀) (.start (x.query f ret args).run) s₀ es q s) :
    Unread h x₀ x f ret args s₀ es ∨ 0 < s.memory.closesOf n ∨
      q.isDone = false ∧ ∀ c, s₀.Undisposed c → s.Undisposed c := by
  have hcloses : (∃ e ∈ es, Event.closes n e) → 0 < s.memory.closesOf n := by
    rintro ⟨e, he, hn⟩
    obtain ⟨-, -, hle, -⟩ := (hs.attends (.bound_query hx f ret args)).reaches hh hr hreach
    exact Nat.lt_of_lt_of_le (List.countP_pos_iff.2 ⟨e, he, hn⟩)
      (Nat.le_trans (Nat.le_add_left _ _) hle)
  rw [query_entering hx] at hreach
  obtain ⟨q', hp, -⟩ | ⟨e, hp, -⟩ | ⟨v, es₁, es₂, s₁, rfl, hp, hscope⟩ := hreach.of_call_bind
  · exact .inl (.entering (entering_reaches hh hr hs hp).2.1)
  · exact .inl (.entering (entering_reaches hh hr hs hp).2.1)
  -- Once its body is done, the cursor is closed or the rows have not been read.
  have hdone : ∀ {es₃ es₄ r s₂ scopes}, es₂ = es₃ ++ es₄ →
      Reaches h (Job.run x₀) (.start (queryBody ret v.1 { x with scopes } v.2.connection).run) s₁ es₃
        (.done r) s₂ → Unread h x₀ x f ret args s₀ (es₁ ++ es₂) ∨ 0 < s.memory.closesOf n := by
    rintro es₃ es₄ r s₂ scopes rfl hbody
    obtain hf | ⟨e, he, hn⟩ | ⟨hq, -⟩ := queryBody_reaches hh hr hx hs hp hbody
    · have hunread := hf es₄ nofun
      rw [List.append_assoc] at hunread
      exact .inl hunread
    · exact .inr (hcloses ⟨e, by simp [he], hn⟩)
    · cases hq
  have hjoin := @or_assoc (Unread h x₀ x f ret args s₀ (es₁ ++ es₂)) (0 < s.memory.closesOf n)
  obtain ⟨q', hp', -, hq⟩ | ⟨e, hp', -⟩ | ⟨r, es₃, es₄, s₂, rfl, hp', -⟩ := hscope.of_call_bind
  · obtain ⟨q'', hbody, -⟩ | ⟨r, s₂, hbody⟩ := hp'.of_guarded
    · obtain hf | ⟨e, he, hn⟩ | ⟨-, hu⟩ := queryBody_reaches hh hr hx hs hp hbody
      · have hunread := hf [] fun _ ↦ rfl
        rw [List.append_nil] at hunread
        exact .inl hunread
      · exact .inr (.inl (hcloses ⟨e, List.mem_append_right _ he, hn⟩))
      · exact .inr (.inr ⟨hq, hu⟩)
    · exact hjoin.1 (.inl (hdone (List.append_nil _).symm hbody))
  · obtain ⟨_, -, -, hq⟩ | ⟨r, s₂, hbody⟩ := hp'.of_guarded
    · cases hq
    · exact hjoin.1 (.inl (hdone (List.append_nil _).symm hbody))
  · obtain ⟨_, -, -, hq⟩ | ⟨r, s₂, hbody⟩ := hp'.of_guarded
    · cases hq
    · exact hjoin.1 (.inl (hdone rfl hbody))

end

/-- The action fetches from the cursor until it closes it, or goes on with what `T` says; till then it
leaves that task if it is dropped, and nothing else. -/
inductive Action.Guards (n : Nat) (j : Job) (T : Action α → Prop) : Action α → Prop
  | tail {p : Action α} (hp : T p) : Guards n j T p
  | close (d : Nat) (js : List Job) (k : Outcome (Operation.close d n).Answer → Action α) :
    Guards n j T (.operation (.close d n) js k)
  | fetch {d i : Nat} {k : Outcome (Operation.fetch d n i).Answer → Action α}
    (hk : ∀ r, Outcome.isPanic r = false → Guards n j T (k r)) :
    Guards n j T (.operation (.fetch d n i) [j] k)
  | pause {k : Outcome Unit → Action α} (hk : Guards n j T (k (.ok ()))) :
    Guards n j T (.wait .idle [j] k)

namespace Action.Guards

variable {j : Job} {T : Action β → Prop}

theorem bind {p : Action α} {f : α → Action β}
    (hp : p.Guards n j fun p ↦ ∃ a, p = .done a ∧ (f a).Guards n j T) : (p >>= f).Guards n j T := by
  induction hp with
  | tail hp =>
    obtain ⟨a, rfl, ha⟩ := hp
    exact ha
  | close d js k => exact .close d js _
  | fetch _ ih => exact .fetch ih
  | pause _ ih => exact .pause ih

theorem mono {T' : Action β → Prop} {p : Action β} (hp : p.Guards n j T) (hT : ∀ p, T p → T' p) :
    p.Guards n j T' := by
  induction hp with
  | tail hp => exact .tail (hT _ hp)
  | close d js k => exact .close d js k
  | fetch _ ih => exact .fetch ih
  | pause _ ih => exact .pause ih

theorem finish (s : Stream) (failure : Option Error) {T : Action (Outcome Async.Item × Stream) → Prop} :
    (Async.finish s failure).Guards s.cursor.id j T := by
  have hclose : ∀ t : Stream, ∃ js k, (Async.holding t (Async.caught s.cursor.close)).run =
      .operation (.close s.cursor.connection s.cursor.id) js k := by
    intro t
    unfold Async.holding
    split <;> exact ⟨_, _, rfl⟩
  obtain ⟨js, k, he⟩ := hclose { s with closed := true }
  unfold Async.finish
  dsimp only
  rw [he]
  exact .close _ js _

theorem next (hx : x.mode = .async) {s : Stream} (hs : s.Open b c) (hn : s.cursor.id = n) :
    (x.next s).Guards n (.abandonStream b c (some n)) fun p ↦
      ∃ r, p = .done r ∧ r.2.Open b c ∧ r.2.cursor.id = n := by
  have hclean : Async.cleanupOf s = some (.abandonStream b c (some n)) := by
    rw [Async.cleanupOf, hs.finished, hs.closed, hs.entry, hn]
    rfl
  obtain ⟨k, hfetch, hk⟩ : ∃ k, (Async.holding s (Async.caught (Cursor.fetchOne.run s.cursor))).run =
      .operation (.fetch s.cursor.connection s.cursor.id s.cursor.fetched)
        [.abandonStream b c (some n)] k ∧ ∀ r, Outcome.isPanic r = false →
          k r = .done (Outcome.caught (r.map fun _ ↦ (s.cursor.rows.head?, s.cursor.advance))) := by
    rw [Async.holding, hclean]
    change ∃ k, ((Blocking.caught (Cursor.fetchOne.run s.cursor)).run.orphaning _ >>= _) = _ ∧ _
    rw [Call.run_caught, Cursor.run_fetchOne]
    refine ⟨_, rfl, fun r hr ↦ ?_⟩
    rcases r with (err | m) | u <;> first | rfl | cases hr
  rw [Context.next, hx]
  dsimp only
  unfold Async.next
  rw [if_neg (by simp [hs.finished]), hfetch]
  subst hn
  refine .fetch fun r hr ↦ ?_
  rw [hk r hr]
  rcases r with (err | m) | u
  · exact finish s (some err)
  · cases hr
  cases s.cursor.rows.head? with
  | none => exact finish { s with cursor := s.cursor.advance } none
  | some row =>
    dsimp only [Action.bind, Outcome.caught, Except.map]
    cases s.shape.ofRow s.columns row with
    | ok m => exact .tail ⟨_, rfl, ⟨hs.entry, hs.closed, hs.finished⟩, rfl⟩
    | error err => exact finish { s with cursor := s.cursor.advance } _

end Action.Guards

def Action.Drops (j : Job) (p : Action α) : Prop := ∃ a, p = .memory (Memory.start j) fun _ ↦ .done a

theorem Consumes.guards {s : Stream} {p : Action β} (hp : Consumes x s p) (hx : x.mode = .async)
    (hs : s.Open b c) (hn : s.cursor.id = n) :
    p.Guards n (.abandonStream b c (some n)) (Action.Drops (.abandonStream b c (some n))) := by
  have hclean : ∀ {s : Stream}, s.Open b c → s.cursor.id = n →
      Async.cleanupOf s = some (.abandonStream b c (some n)) := by
    intro s hs hn
    rw [Async.cleanupOf, hs.finished, hs.closed, hs.entry, hn]
    rfl
  induction hp with
  | drop s a =>
    refine .tail ⟨a, ?_⟩
    rw [Context.dropStream, hx]
    dsimp only
    rw [Async.dropStream, hclean hs hn]
    rfl
  | @next s k _ ih =>
    refine .bind ((Action.Guards.next hx hs hn).mono ?_)
    rintro p ⟨r, rfl, hopen, hid⟩
    exact ⟨r, rfl, ih r.1 r.2 hopen hid⟩
  | pause _ ih =>
    rw [hclean hs hn]
    exact .pause (ih _ hs hn)

theorem Runtime.closesOf_perform_close (hh : h.Plain) (d n : Nat) (s : Runtime σ) :
    (s.perform h (.close d n)).2.memory.closesOf n = s.memory.closesOf n + 1 := by
  have hcloses : Event.closes n (s.event h (.close d n)) = true := beq_self_eq_true n
  rw [memory_perform hh, closesOf_register, ← event_eq, hcloses]
  rfl

/-- The stream is gone, and the one task that there is has yet to close its cursor. -/
inductive Runtime.Abandoned (n b c : Nat) (s : Runtime σ) : Prop
  | started (hs : s.memory.started = [.abandonStream b c (some n)]) (ht : s.tasks = [])
    (hr : s.memory.releasesOf c = 0) : Abandoned n b c s
  | ready {js : List Job} {k : Outcome (Operation.close c n).Answer → Action (Outcome Unit)}
    (hs : s.memory.started = []) (ht : s.tasks = [.start (.operation (.close c n) js k)])
    (hr : s.memory.releasesOf c = 0) : Abandoned n b c s
  | asked {js : List Job} {k : Outcome (Operation.close c n).Answer → Action (Outcome Unit)}
    (hs : s.memory.started = []) (ht : s.tasks = [.asked (.close c n) js k])
    (hr : s.memory.releasesOf c = 0) : Abandoned n b c s

namespace Runtime.Abandoned

theorem releasesOf (hs : s.Abandoned n b c) : s.memory.releasesOf c = 0 := by
  cases hs <;> assumption

theorem leave (hu : s.Undisposed c) (ha : s.memory.tasks = true) :
    (s.orphaned [.abandonStream b c (some n)]).Abandoned n b c := by
  have hm : (s.orphaned [.abandonStream b c (some n)]).memory =
      { s.memory with started := s.memory.started ++ [.abandonStream b c (some n)] } :=
    foldl_start ha _
  refine .started ?_ hu.1.tasks ?_
  · rw [hm, hu.1.started]
    rfl
  · rw [hm]
    exact hu.2

theorem step (hh : h.Plain) (hs : s.Abandoned n b c) (hstep : s.Step h (Job.run x) s') :
    s'.Abandoned n b c ∨ 0 < s'.memory.closesOf n := by
  cases hstep with
  | gather =>
    cases hs with
    | started hs ht hr =>
      obtain ⟨js, k, hrun⟩ : ∃ js k, (Job.run x (.abandonStream b c (some n))).run =
          .operation (.close c n) js k := ⟨_, _, rfl⟩
      have htasks : (s.gather (Job.run x)).tasks = [.start (.operation (.close c n) js k)] := by
        rw [← hrun]
        simp [Runtime.gather, ht, hs]
      exact .inl (.ready rfl htasks hr)
    | ready hs ht hr =>
      rw [gather_of_started hs]
      exact .inl (.ready hs ht hr)
    | asked hs ht hr =>
      rw [gather_of_started hs]
      exact .inl (.asked hs ht hr)
  | @task _ i ht' =>
    obtain ⟨q, turn, hq, hturn, rfl⟩ := Runtime.turn_eq_some ht'
    cases hs with
    | started hs ht hr =>
      rw [ht] at hq
      cases hq
    | @ready js k hs ht hr =>
      rw [ht] at hq
      obtain ⟨rfl, rfl⟩ : i = 0 ∧ q = _ := by
        cases i with
        | zero => exact ⟨rfl, (Option.some.inj hq).symm⟩
        | succ i => cases hq
      cases hturn
      have htasks : s.tasks.set 0 (.asked (.close c n) js k) = [.asked (.close c n) js k] := by
        rw [ht]
        rfl
      exact .inl (.asked hs htasks hr)
    | asked hs ht hr =>
      rw [ht] at hq
      obtain ⟨rfl, rfl⟩ : i = 0 ∧ q = _ := by
        cases i with
        | zero => exact ⟨rfl, (Option.some.inj hq).symm⟩
        | succ i => cases hq
      cases hturn
      right
      change 0 < (s.perform h (.close c n)).2.memory.closesOf n
      rw [closesOf_perform_close hh]
      exact Nat.succ_pos _

end Runtime.Abandoned

/-- The action in the foreground, with the stream open that the task closes. -/
inductive Suspended.Guards (n : Nat) (j : Job) : Suspended α → Prop
  | ready {js : List Job} {p : Action α} (hjs : js = [] ∨ js = [j])
    (hp : p.Guards n j (Action.Drops j)) : Guards n j (.ready js p)
  | fetching {d i : Nat} {k : Outcome (Operation.fetch d n i).Answer → Action α}
    (hk : ∀ r, Outcome.isPanic r = false → (k r).Guards n j (Action.Drops j)) :
    Guards n j (.asked (.fetch d n i) [j] k)
  | closing (d : Nat) (js : List Job) (k : Outcome (Operation.close d n).Answer → Action α) :
    Guards n j (.asked (.close d n) js k)

/-- The stream is open and nothing else goes on, or it is gone and a task is to close its cursor, or the
cursor is closed. -/
inductive Disposes (n b c : Nat) : Suspended α → Runtime σ → Prop
  | open {q : Suspended α} {s : Runtime σ} (hq : q.Guards n (.abandonStream b c (some n)))
    (hs : s.Undisposed c) : Disposes n b c q s
  | abandoned {q : Suspended α} {s : Runtime σ} (hq : q.isDone) (hs : s.Abandoned n b c) :
    Disposes n b c q s
  | closed {q : Suspended α} {s : Runtime σ} (hs : 0 < s.memory.closesOf n) : Disposes n b c q s

theorem Suspended.turn_of_isDone {jobs : Job → Call Unit} {q : Suspended α} (hq : q.isDone) :
    q.turn h jobs s = none := by
  cases q <;> first | rfl | cases hq

namespace Disposes

variable {q q' : Suspended α}

theorem turn (hh : h.Plain) (hr : h.Returns) (ha : s.memory.tasks = true)
    (hq : q.Guards n (.abandonStream b c (some n))) (hs : s.Undisposed c) {turn : Turn σ α}
    (ht : q.turn h (Job.run x) s = some turn) : Disposes n b c turn.next turn.runtime := by
  cases hq with
  | ready hjs hp =>
    cases ht
    cases hp with
    | tail hp =>
      obtain ⟨a, rfl⟩ := hp
      exact .abandoned rfl (Runtime.Abandoned.leave hs ha)
    | close d js k => exact .open (.closing d js k) hs
    | fetch hk => exact .open (.fetching hk) hs
    | pause hk => exact .open (.ready (.inr rfl) hk) hs
  | @fetching d i k hk =>
    have hm := Runtime.memory_perform hh (.fetch d n i) s
    have hpanic : Outcome.isPanic (s.perform h (.fetch d n i)).1 = false := by
      rw [Runtime.perform_eq hh]
      exact (Outcome.isPanic_map _ _).trans (hr _ _ _ _)
    have hu : (s.perform h (.fetch d n i)).2.Undisposed c := by
      refine ⟨⟨hs.1.tasks, ?_⟩, ?_⟩
      · rw [hm, register_started]
        exact hs.1.started
      · have hrel := releasesOf_register (o := .fetch d n i) nofun
          (h.reaction (.fetch d n i) s.world).status s.memory c
        rw [hm, hrel]
        exact hs.2
    cases ht
    exact .open (.ready (.inr rfl) (hk _ hpanic)) hu
  | closing d js k =>
    cases ht
    refine .closed ?_
    change 0 < (s.perform h (.close d n)).2.memory.closesOf n
    rw [Runtime.closesOf_perform_close hh]
    exact Nat.succ_pos _

theorem step (hh : h.Plain) (hle : s.memory.closesOf n ≤ s'.memory.closesOf n)
    (hd : Disposes n b c q s) (hstep : s.Step h (Job.run x) s') : Disposes n b c q s' := by
  cases hd with
  | «open» hq hs =>
    rw [hs.1.step hstep]
    exact .open hq hs
  | abandoned hq hs =>
    obtain hs | hs := hs.step hh hstep
    · exact .abandoned hq hs
    · exact .closed hs
  | closed hs => exact .closed (Nat.lt_of_lt_of_le hs hle)

theorem reaches (hh : h.Plain) (hr : h.Returns) {Q : Tenure → α → Prop} {F : Prop} {t : Tenure}
    (hq : Attends n Q F l q s t) (hd : Disposes n b c q s)
    (hreach : Reaches h (Job.run x) q s es q' s') : Disposes n b c q' s' := by
  induction hreach with
  | refl => exact hd
  | turn hreach ht ih =>
    obtain ⟨t', hq', -⟩ := hq.reaches hh hr hreach
    obtain ⟨t'', -, hm⟩ := hq'.turn hh hr ht
    obtain ⟨-, due, hbooks⟩ := hq'
    cases ih with
    | «open» hg hs => exact turn hh hr hbooks.alive hg hs ht
    | abandoned hdone _ =>
      rw [Suspended.turn_of_isDone hdone] at ht
      cases ht
    | closed hs => exact .closed (Nat.lt_of_lt_of_le hs (Nat.le_trans (Nat.le_add_right _ _) hm.closes))
  | background hreach hstep ih =>
    obtain ⟨t', ⟨-, due, hbooks⟩, -⟩ := hq.reaches hh hr hreach
    exact ih.step hh (hbooks.step hh hr hstep).2 hstep

/-- If the action is dropped, the cursor is closed before its connection is released, unless its close
was being awaited. -/
theorem dropped (hh : h.Plain) (hr : h.Returns) {Q : Tenure → α → Prop} {F : Prop} {t : Tenure}
    (hq : Attends n Q F l q s t) (hQ : ∀ t a, Q t a → t ≠ .held) (hd : Disposes n b c q s)
    (hsteps : Relation.ReflTransGen (Runtime.Step h (Job.run x)) (s.orphaned q.orphans) s')
    (hc : 0 < s'.memory.releasesOf c) : s'.memory.closesOf n = 1 ∨ q.Closing n := by
  obtain ⟨w, due, hbooks, -⟩ := hq.dropped hQ
  -- Nothing is left but tasks, and the one that is to close the cursor comes first.
  have hlater : ∀ {s'}, Relation.ReflTransGen (Runtime.Step h (Job.run x)) (s.orphaned q.orphans) s' →
      Disposes n b c (Suspended.done ()) (s.orphaned q.orphans) →
        Disposes n b c (Suspended.done ()) s' := by
    intro s' hsteps hd
    induction hsteps with
    | refl => exact hd
    | tail hsteps hstep ih =>
      obtain ⟨⟨due', hbooks'⟩, -⟩ := hbooks.steps hh hr hsteps
      exact ih.step hh (hbooks'.step hh hr hstep).2 hstep
  have hclosed : Disposes n b c (Suspended.done ()) (s.orphaned q.orphans) →
      s'.memory.closesOf n = 1 := by
    intro hd
    obtain ⟨⟨due', hbooks'⟩, -⟩ := hbooks.steps hh hr hsteps
    have hbalance := hbooks'.balance
    have hle := hbooks'.opens_le
    cases hlater hsteps hd with
    | «open» hg _ => cases hg
    | abandoned _ hs =>
      rw [hs.releasesOf] at hc
      cases hc
    | closed hs => omega
  obtain ⟨-, due', hpresent⟩ := hq
  cases hd with
  | «open» hg hs =>
    cases hg with
    | ready hjs hp =>
      obtain rfl | rfl := hjs
      · rw [hs.1.steps hsteps] at hc
        exact absurd hs.2 (Nat.ne_of_gt hc)
      · exact .inl (hclosed (.abandoned rfl (.leave hs hpresent.alive)))
    | fetching hk => exact .inl (hclosed (.abandoned rfl (.leave hs hpresent.alive)))
    | closing d js k => exact .inr ⟨d, rfl⟩
  | abandoned hdone hs =>
    have horphans : q.orphans = [] := by
      cases q with
      | done a => rfl
      | ready _ _ | asked _ _ _ | waiting _ _ _ => cases hdone
    refine .inl (hclosed (.abandoned rfl ?_))
    rw [horphans]
    exact hs
  | closed hs =>
    have hm : (s.orphaned q.orphans).memory =
        { s.memory with started := s.memory.started ++ q.orphans } :=
      foldl_start hpresent.alive _
    refine .inl (hclosed (.closed ?_))
    rw [hm]
    exact hs

end Disposes

theorem Stream.handed (hh : h.Plain) (hr : h.Returns) (hx : x.mode = .async) (hs : s₀.Unopened n)
    (hb : x.scopes.lookup f.binder = none) (hc : s₀.Fresh c) {shape : Shape} {t : Stream}
    (hreach : Reaches h (Job.run x₀) (.start (x.stream f shape args).run) s₀ es (.done (.ok t)) s) :
    t.Open f.binder c ∧ t.cursor.id = n ∧ s.Undisposed c ∧ ∃ due, s.Books n 0 none due .held es := by
  have hopen := Stream.isOpen hh hx hb hc hreach
  obtain ⟨t', ⟨hminds, hbooks⟩, -, hu⟩ :=
    (hs.attends (Action.Minds.stream hx f shape args)).reaches hh hr hreach
  obtain ⟨rfl, hhas⟩ | ⟨-, hf⟩ : t.Stands n t' := hminds
  · exact ⟨hopen, hhas.cursor, hu c ⟨hc.toIdle, hc.releasesOf⟩ nofun, hbooks⟩
  · rw [hopen.finished] at hf
    cases hf

/-- A call that obtains a cursor closes it once, however it goes on, is dropped, or takes turns with
others. A query that has read its rows closes their cursor before it returns, and before its scope's
connection is released; and so does a stream that has its connection to itself. What is dropped while
the close is awaited is not closed. -/
theorem cursors_closed_once (hh : h.Plain) (hr : h.Returns) (hx : x.mode = .async)
    (hs : s₀.Unopened n) :
    (∀ (f : Bound) (ret : Return) (args : Arguments) {es : List Event} {q : Suspended (Outcome Mapped)}
      {s : Runtime σ}, Reaches h (Job.run x₀) (.start (x.query f ret args).run) s₀ es q s →
        ClosesOnce h x₀ n es q s ∧
        (q.isDone ∨ (∃ c, x.scopes.lookup f.binder = none ∧ s₀.Fresh c ∧ 0 < s.memory.releasesOf c) →
          s.memory.closesOf n = 1 ∨ Unread h x₀ x f ret args s₀ es)) ∧
    ∀ {β : Type} (f : Bound) (shape : Shape) (args : Arguments) {consume : Stream → Action (Outcome β)},
      (∀ t, Consumes x t (consume t)) →
        (∀ {es : List Event} {q : Suspended (Outcome β)} {s : Runtime σ},
          Reaches h (Job.run x₀)
              (.start (x.stream f shape args >>= fun t ↦ ExceptT.mk (consume t)).run) s₀ es q s →
            ClosesOnce h x₀ n es q s) ∧
        ∀ {c : Nat} {es l : List Event} {t : Stream} {q : Suspended (Outcome β)} {s₁ s s' : Runtime σ},
          x.scopes.lookup f.binder = none → s₀.Fresh c →
            Reaches h (Job.run x₀) (.start (x.stream f shape args).run) s₀ es (.done (.ok t)) s₁ →
            Reaches h (Job.run x₀) (.start (consume t)) s₁ l q s →
            Relation.ReflTransGen (Runtime.Step h (Job.run x₀)) (s.orphaned q.orphans) s' →
              0 < s'.memory.releasesOf c → s'.memory.closesOf n = 1 ∨ q.Closing n := by
  constructor
  · intro f ret args es q s hreach
    have honce := hs.closesOnce hh hr (.bound_query hx f ret args) hreach
    refine ⟨honce, fun hend ↦ ?_⟩
    obtain hunread | hcloses | ⟨hq, hu⟩ := Context.query_closes hh hr hx hs hreach
    · exact .inr hunread
    · obtain ⟨t, ⟨-, due, hbooks⟩, -⟩ :=
        (hs.attends (Action.Minds.bound_query hx f ret args)).reaches hh hr hreach
      have hbalance := hbooks.balance
      have hle := hbooks.opens_le
      left
      omega
    · obtain hdone | ⟨c, -, hfresh, hrel⟩ := hend
      · rw [hq] at hdone
        cases hdone
      · have hreleases := (hu c ⟨hfresh.toIdle, hfresh.releasesOf⟩).2
        exact absurd hreleases (Nat.ne_of_gt hrel)
  · intro β f shape args consume hconsume
    refine ⟨fun hreach ↦ hs.closesOnce hh hr (.consumed hx f shape args hconsume) hreach, ?_⟩
    intro c es l t q s₁ s s' hb hc hstream hreach hsteps hrel
    obtain ⟨hopen, hn, hu, due, hbooks⟩ := Stream.handed hh hr hx hs hb hc hstream
    have hminds := Action.Minds.consumes (hconsume t) hx (.inl ⟨rfl, hn, hopen.closed, hopen.finished⟩)
    have hstart : Attends n _ True es (.start (consume t)) s₁ .held :=
      ⟨⟨.inr ⟨.inl trivial, rfl, .nil nofun⟩, hminds⟩, due, hbooks⟩
    have hguards := (hconsume t).guards hx hopen hn
    have hd := Disposes.reaches hh hr hstart (.open (.ready (.inl rfl) hguards) hu) hreach
    obtain ⟨t', hq, -⟩ := hstart.reaches hh hr hreach
    exact hd.dropped hh hr hq (fun _ _ ht ↦ by rw [ht]; exact nofun) hsteps hrel

namespace Program

theorem unopened_alive : alive.Unopened 1 :=
  ⟨rfl, rfl, rfl, nofun, nofun, nofun⟩

def isClosing {α : Type} (n : Nat) : Suspended α → Bool
  | .asked (.close _ m) _ _ => m == n
  | _ => false

theorem closing_of_isClosing {α : Type} {n : Nat} {q : Suspended α} (hq : isClosing n q) :
    q.Closing n := by
  cases q with
  | asked o js k =>
    cases o with
    | close d m => exact ⟨d, by rw [beq_iff_eq.1 hq]⟩
    | _ => cases hq
  | _ => cases hq

def value? {α : Type} : Suspended (Outcome α) → Option α
  | .done (.ok a) => some a
  | _ => none

theorem eq_done_of_value? {α : Type} {a : α} {q : Suspended (Outcome α)} (hq : value? q = some a) :
    q = .done (.ok a) := by
  cases q with
  | done r =>
    cases r with
    | ok b => rw [Option.some.inj hq]
    | error f => cases hq
  | _ => cases hq

def querying (schedule : List (Option Nat)) :
    Option (List Event × Suspended (Outcome Mapped) × Runtime Unit) :=
  let x := Context.start .async
  (Suspended.start (x.query Bound.deletion (.many .map) .none).run).follow (Script.affecting 1)
    (Job.run x) schedule alive

def sweepingUp {α : Type} (tasks : List Nat) (q : Suspended α) (s : Runtime Unit) :
    Option (Runtime Unit) :=
  ((Suspended.done ()).follow (Script.affecting 1) (Job.run (.start .async)) (tasks.map some)
    (s.orphaned q.orphans)).map fun r ↦ r.2.2

theorem steps_of_sweepingUp {α : Type} {tasks : List Nat} {q : Suspended α} {s s' : Runtime Unit}
    (hs : sweepingUp tasks q s = some s') :
    Relation.ReflTransGen (Runtime.Step (Script.affecting 1) (Job.run (.start .async)))
      (s.orphaned q.orphans) s' := by
  obtain ⟨⟨es, q', s''⟩, hf, rfl⟩ := Option.map_eq_some_iff.1 hs
  exact (Reaches.of_follow hf).of_finished.2.2

def opened : Option (List Event × Suspended (Outcome Stream) × Runtime Unit) :=
  let x := Context.start .async
  (Suspended.start (x.stream Bound.deletion .map .none).run).follow (Script.affecting 1) (Job.run x)
    (List.replicate 4 none) alive

end Program

/-- A query that comes to its end, one that is dropped while its cursor is closed, and a stream that is
dropped while it is read. -/
theorem cursors_closed_once_deletion :
    let x := Context.start .async
    let h := Script.affecting 1
    (∃ es q s, Reaches h (Job.run x) (.start (x.query Bound.deletion (.many .map) .none).run)
        Program.alive es q s ∧ q.isDone ∧ s.memory.closesOf 1 = 1 ∧ s.memory.releasesOf 1 = 1 ∧
        ClosesOnce h x 1 es q s) ∧
    (∃ es q s s', Reaches h (Job.run x) (.start (x.query Bound.deletion (.many .map) .none).run)
        Program.alive es q s ∧ q.Closing 1 ∧
        Relation.ReflTransGen (Runtime.Step h (Job.run x)) (s.orphaned q.orphans) s' ∧
        s'.Quiet h (Job.run x) ∧ s'.memory.releasesOf 1 = 1 ∧ s'.memory.closesOf 1 = 0) ∧
    ∃ es t s₁ l q s s', Reaches h (Job.run x)
        (.start (x.stream Bound.deletion .map .none).run) Program.alive es (.done (.ok t)) s₁ ∧
      Reaches h (Job.run x) (.start (Program.glance t)) s₁ l q s ∧
      Relation.ReflTransGen (Runtime.Step h (Job.run x)) (s.orphaned q.orphans) s' ∧
      s'.memory.releasesOf 1 = 1 ∧ (s'.memory.closesOf 1 = 1 ∨ q.Closing 1) := by
  intro x h
  have hall := @cursors_closed_once _ h x x 1 _ (Script.plain_affecting 1)
    (Script.returns_affecting 1) rfl Program.unopened_alive
  refine ⟨?_, ?_, ?_⟩
  · have hrun : (Program.querying (List.replicate 14 none ++ [some 0, some 0, some 0, none])).any
        (fun r ↦ r.2.1.isDone && r.2.2.memory.closesOf 1 == 1 && r.2.2.memory.releasesOf 1 == 1) =
          true := by decide +kernel
    simp only [Option.any_eq_true, Bool.and_eq_true, beq_iff_eq] at hrun
    obtain ⟨⟨es, q, s⟩, hs, ⟨hdone, hclosed⟩, hrel⟩ := hrun
    have hreach := Reaches.of_follow hs
    exact ⟨es, q, s, hreach, hdone, hclosed, hrel, (hall.1 _ _ _ hreach).1⟩
  · have hrun : (Program.querying (List.replicate 6 none)).any (fun r ↦ Program.isClosing 1 r.2.1 &&
        (Program.sweepingUp [0, 0, 0, 0, 0, 1, 1, 1, 0] r.2.1 r.2.2).any fun s ↦
          s.memory.started.isEmpty && s.tasks.all Suspended.isDone && s.memory.releasesOf 1 == 1) =
        true := by decide +kernel
    simp only [Option.any_eq_true, Bool.and_eq_true, beq_iff_eq, List.isEmpty_iff] at hrun
    obtain ⟨⟨es, q, s⟩, hs, hq, s', hs', ⟨hstarted, hdone⟩, hrel⟩ := hrun
    have hreach := Reaches.of_follow hs
    have hclosing : q.Closing 1 := Program.closing_of_isClosing hq
    have hsteps := Program.steps_of_sweepingUp hs'
    exact ⟨es, q, s, s', hreach, hclosing, hsteps, Runtime.quiet_of_isDone hstarted hdone, hrel,
      (hall.1 _ _ _ hreach).1.lost hclosing hsteps⟩
  · have hrun : Program.opened.any (fun r ↦ (Program.value? r.2.1).any fun t ↦
        ((Suspended.start (Program.glance t)).follow (Script.affecting 1) (Job.run (.start .async))
          [none] r.2.2).any fun r ↦
            (Program.sweepingUp [0, 0, 0, 0, 0, 0, 1, 1, 1, 0] r.2.1 r.2.2).any fun s ↦
              s.memory.releasesOf 1 == 1) = true := by decide +kernel
    simp only [Option.any_eq_true, beq_iff_eq] at hrun
    obtain ⟨⟨es, q₁, s₁⟩, hs₁, t, ht, ⟨l, q, s⟩, hs, s', hs', hrel⟩ := hrun
    obtain rfl : q₁ = .done (.ok t) := Program.eq_done_of_value? ht
    have hstream := Reaches.of_follow hs₁
    have hreach := Reaches.of_follow hs
    have hsteps := Program.steps_of_sweepingUp hs'
    have hglance : ∀ s, Consumes x s (Program.glance s) := fun s ↦ .next fun _ s' ↦ .drop s' _
    exact ⟨es, t, s₁, l, q, s, s', hstream, hreach, hsteps, hrel,
      (hall.2 Bound.deletion .map .none hglance).2 rfl Program.fresh_alive hstream hreach hsteps
        (by rw [hrel]; exact Nat.one_pos)⟩

end BoundSql
