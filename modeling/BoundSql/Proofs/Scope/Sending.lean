import BoundSql.Proofs.Scope.Begins
import BoundSql.Proofs.Scope.Rendering

namespace BoundSql

open Memory

variable {σ α β : Type} {h : Host σ} {jobs : Job → Call Unit} {s s' : Runtime σ} {x : Context}
  {S : Async.Scopes} {c : Nat} {es : List Event} {R : Memory → Memory → Prop} {f : Bound}
  {args : Arguments} {o : Operation}

def Event.isStatement : Event → Bool
  | .operation o _ _ => o.isStatement
  | _ => false

/-- The calls of a function with those arguments, and the statement that each one sends on a connection. -/
inductive Context.Sends (x : Context) (f : Bound) (args : Arguments) :
    {α : Type} → (Nat → Template.Rendered → Operation) → Call α → Prop
  | execute (count : Count) :
    Sends x f args (fun c r ↦ .execute c r.sql r.params) (x.execute f count args)
  | query (ret : Return) :
    Sends x f args (fun c r ↦ .query c r.sql r.params) (x.query f ret args)
  | stream (shape : Shape) :
    Sends x f args (fun c r ↦ .query c r.sql r.params) (x.stream f shape args)

/-- What such a call has done when it is over that has rendered its template in the memory `m`. It has sent
its statement on the connection `c`, and no other one; it succeeds only if the statement has. Else it has
done nothing: the template does not render, or the connection could not be used, as it can be if `kept`. -/
inductive Bound.Sent (f : Bound) (args : Arguments) (send : Template.Rendered → Operation) (c : Nat)
    (m : Memory) (kept : Prop) {α : Type} : List Event → Outcome α → Prop
  | unrendered {fault : Fault} (hf : f.rendering m args = .error fault) :
    Sent f args send c m kept [] (.error fault)
  | refused {r : Template.Rendered} {e : Error} (hf : f.rendering m args = .ok r) (hk : ¬kept)
    (he : e = Session.inUse ∨ e = Session.released) : Sent f args send c m kept [] (.error (.error e))
  | sent {r : Template.Rendered} {st : Status} {rest : List Event} {result : Outcome α}
    (hf : f.rendering m args = .ok r) (hrest : ∀ e ∈ rest, e.isStatement = false)
    (hdone : Outcome.isOk result → st = .done) :
    Sent f args send c m kept (.operation (send r) c st :: rest) result

def Conduct.tending (_ : List Event) (o : Operation) : Prop := o.isStatement = false

theorem Conduct.attends_tending (c : Nat) : Attends tending c := fun _ _ _ ho ↦ ho

def Context.Tends (x : Context) (S : Async.Scopes) (o : Operation) (k : o.Answer → Call α) : Prop :=
  ∀ n raw, (Conduct.during x S Conduct.tending).Runs (x.Live S) (fun _ ↦ True) (k (o.complete n raw))

namespace Context

theorem Tends.rest {k : o.Answer → Call α} {r : Outcome o.Answer} {r' : Outcome α} {st : Status}
    {m : Memory} (hk : x.Tends S o k) (hh : h.Plain) (hr : h.Unwinds x.thread?)
    (ha : o.Answers m st r) (hs : x.Live S s.memory)
    (hgo : x.Goes h jobs (Call.ofOutcome r >>= k).run s es (.done r') s') :
    (∀ e ∈ es, e.isStatement = false) ∧ (Outcome.isOk r' → st = .done) := by
  have hobeys : ∀ m', s.memory.Beside x.thread? m' → (Call.ofOutcome r >>= k).run.Obeys
      (.within x.thread? Conduct.tending) (fun r' _ _ ↦ Outcome.isOk r' → st = .done) none [] m' := by
    intro m' hm
    obtain ⟨⟨raw, rfl⟩, hdone⟩ := ha
    cases raw with
    | error fault => exact nofun
    | ok raw =>
      exact ((hk _ raw [] m' (hm.live hs)).during (hm.live hs)).mono fun _ _ _ _ _ ↦ hdone.1 rfl
  have hstep : ∀ l (o : Operation) m st, (∀ e ∈ l, e.isStatement = false) → Conduct.tending l o →
      ∀ e ∈ l ++ [o.event m st], e.isStatement = false := by
    intro l o m st hl ho e he
    obtain he | he := List.mem_append.1 he
    · exact hl e he
    · rw [List.mem_singleton.1 he]
      exact ho
  obtain ⟨hdone, -, hrest⟩ := hgo.upholds hh hr hstep (fun _ _ _ _ hd _ ↦ hd) hobeys nofun
  exact ⟨hrest, hdone⟩

end Context

theorem Session.proceed_statement (ho : o.isLocked) (c : Nat) (k : o.Answer → Call α) (s : Runtime σ) :
    ((check c >>= fun _ ↦ Call.operate o) >>= k).run.proceed h jobs s =
      if c ∈ s.memory.busy then { next := .done (.error (.error inUse)), runtime := s }
      else if (s.memory.held.lookup c).isNone then
        { next := .done (.error (.error released)), runtime := s }
      else
        { events := [s.event h o], next := .start (Call.ofOutcome (s.perform h o).1 >>= k).run
          runtime := (s.perform h o).2 } := by
  change ((check c >>= fun _ ↦ Call.operate o).run >>= ExceptT.bindCont k).proceed h jobs s = _
  rw [Action.proceed_bind, run_check_bind, Action.proceed]
  have hself : s.withMemory s.memory = s := rfl
  dsimp only [id]
  rw [hself]
  split
  · rfl
  · split
    · rfl
    · have hoperate : (Call.operate o).run.proceed h jobs s = _ := if_pos ho
      rw [hoperate]
      rfl

theorem kept_of_steps {I : Memory → Prop} {m m' : Memory} (hI : ∀ m m', R m m' → I m → I m')
    (hs : Relation.ReflTransGen R m m') (hm : I m) : I m' := by
  induction hs with
  | refl => exact hm
  | tail _ hstep ih => exact hI _ _ hstep ih

namespace Context.Tends

variable {k : o.Answer → Call α} {r : Outcome α}

theorem statement (hk : x.Tends S o k) (hh : h.Plain) (hr : h.Unwinds x.thread?) (ho : o.isLocked)
    (hc : o.connection? = some c) (hs : x.Live S s.memory) {t : Turn σ (Outcome α)}
    (ht : ((Session.check c >>= fun _ ↦ Call.operate o) >>= k).run.proceed h jobs s = t)
    (hgo : Among h jobs (Memory.Beside x.thread?) t.next t.runtime es (.done r) s') :
    (t.events ++ es = [] ∧ ¬s.memory.Usable c ∧
        ∃ e, r = .error (.error e) ∧ (e = Session.inUse ∨ e = Session.released)) ∨
      ∃ st rest, t.events ++ es = .operation o c st :: rest ∧ (∀ e ∈ rest, e.isStatement = false) ∧
        (Outcome.isOk r → st = .done) := by
  rw [Session.proceed_statement ho] at ht
  subst ht
  by_cases hbusy : c ∈ s.memory.busy
  · rw [if_pos hbusy] at hgo ⊢
    obtain ⟨rfl, hdone⟩ := hgo.of_done
    cases hdone
    exact .inl ⟨rfl, fun hu ↦ hu.2 hbusy, _, rfl, .inl rfl⟩
  rw [if_neg hbusy] at hgo ⊢
  by_cases hheld : (s.memory.held.lookup c).isNone
  · rw [if_pos hheld] at hgo ⊢
    obtain ⟨rfl, hdone⟩ := hgo.of_done
    cases hdone
    refine .inl ⟨rfl, fun hu ↦ ?_, _, rfl, .inr rfl⟩
    rw [isNone_lookup_iff] at hheld
    exact hheld hu.1
  · rw [if_neg hheld] at hgo ⊢
    have hlive : x.Live S (s.perform h o).2.memory := by
      rw [Runtime.memory_perform hh]
      exact hs.of_active (register_active ..)
    obtain ⟨hrest, hdone⟩ := hk.rest hh hr (Runtime.answers_perform hh o s) hlive hgo
    refine .inr ⟨_, es, ?_, hrest, hdone⟩
    rw [Runtime.event_eq, Operation.event, hc]
    rfl

theorem locking (hk : x.Tends S o k) (hh : h.Plain) (hr : h.Unwinds x.thread?) (ho : o.isLocked)
    (hc : o.connection? = some c) (hs : x.Live S s.memory) (hR : ∀ m m', R m m' → m.Beside x.thread? m')
    {t : Turn σ (Outcome α)}
    (ht : (x.locking c (Session.check c >>= fun _ ↦ Call.operate o) >>= k).run.proceed h jobs s = t)
    (hgo : Among h jobs R t.next t.runtime es (.done r) s') :
    (t.events ++ es = [] ∧
        ¬(s.memory.Usable c ∧ ∀ m m', R m m' → m.Usable c → m'.Usable c) ∧
        ∃ e, r = .error (.error e) ∧ (e = Session.inUse ∨ e = Session.released)) ∨
      ∃ st rest, t.events ++ es = .operation o c st :: rest ∧ (∀ e ∈ rest, e.isStatement = false) ∧
        (Outcome.isOk r → st = .done) := by
  unfold Context.locking at ht
  cases hx : x.mode with
  | blocking =>
    rw [hx] at ht
    refine (hk.statement hh hr ho hc hs ht (hgo.mono hR)).imp_left fun hnone ↦ ?_
    exact ⟨hnone.1, fun hkept ↦ hnone.2.1 hkept.1, hnone.2.2⟩
  | async =>
    rw [hx] at ht
    have hwait : t = { next := .start ((Session.check c >>= fun _ ↦ Call.operate o) >>= k).run
                       runtime := s } := ht.symm
    subst hwait
    obtain ⟨-, hdone, -⟩ | ⟨s₁, t₁, es', hs₁, ht₁, rfl, hgo₁⟩ := hgo.first_turn
    · cases hdone
    have hlive : x.Live S s₁.memory := kept_of_steps (fun _ _ hstep ↦ (hR _ _ hstep).live) hs₁ hs
    refine (hk.statement hh hr ho hc hlive (Option.some.inj ht₁) (hgo₁.mono hR)).imp_left fun hnone ↦ ?_
    exact ⟨hnone.1, fun hkept ↦ hnone.2.1 (kept_of_steps hkept.2 hs₁ hkept.1), hnone.2.2⟩

end Context.Tends

namespace Context

theorem opening_joined (x : Context) (b c : Nat) (shape : Shape) (r : Template.Rendered) :
    x.opening shape r (x.entry b c false false) =
      x.locking c (Session.query c r.sql r.params) >>= fun cursor ↦
        pure ⟨cursor, cursor.columns, shape, none, false, false⟩ := by
  have howner := x.entry_owner b c false false
  unfold opening
  rw [x.entry_connection, x.guarded_joined howner]
  refine Blocking.caught_bind _ _ _ (fun cursor ↦ ?_) fun err ↦ ?_
  · rw [howner]
    rfl
  · exact x.exit_joined howner (.error err)

namespace Sends

variable {send : Nat → Template.Rendered → Operation} {p : Call α}

theorem isLocked (hp : x.Sends f args send p) (c : Nat) (r : Template.Rendered) :
    (send c r).isLocked := by
  cases hp <;> rfl

theorem connection (hp : x.Sends f args send p) (c : Nat) (r : Template.Rendered) :
    (send c r).connection? = some c := by
  cases hp <;> rfl

theorem eq_render (h : Host σ) (jobs : Job → Call Unit) (S : Async.Scopes) (hp : x.Sends f args send p) :
    ∃ k : Template.Rendered → Call α,
    p = f.render args >>= k ∧ ∀ {c : Nat} {s : Runtime σ} (r : Template.Rendered),
      x.Live S s.memory → S.lookup f.binder = some c → (s.memory.pools.lookup f.binder).isSome →
        ∃ k' : (send c r).Answer → Call α, x.Tends S (send c r) k' ∧
          (k r).run.proceed h jobs s = (x.locking c (Session.check c >>= fun _ ↦
            Call.operate (send c r)) >>= k').run.proceed h jobs s := by
  cases hp with
  | execute count =>
    refine ⟨_, x.execute_eq f count args, fun {c s} r hs hc hpool ↦ ?_⟩
    refine ⟨fun n ↦ do
        if ← x.locking c (Session.autocommit c) then x.locking c (Session.commit c)
        Call.ofResult (count.ofAffected n), fun n raw ↦ ?_, ?_⟩
    · exact Conduct.during.committing (Conduct.attends_tending c) (.ofResult fun _ _ ↦ trivial)
    rw [proceed_joined hs hc, if_pos hpool]
    rfl
  | query ret =>
    refine ⟨_, x.query_eq f ret args, fun {c s} r hs hc hpool ↦ ?_⟩
    refine ⟨fun cursor ↦ do
        let rows ← x.reading c cursor (cursor.pull ret.strategy)
        cursor.close
        let value ← Call.ofResult (ret.ofRows cursor.columns rows)
        if ← x.locking c (Session.autocommit c) then x.locking c (Session.commit c)
        return value, fun n raw ↦ ?_, ?_⟩
    · exact Conduct.during.delivering (Conduct.attends_tending c) rfl ret
    rw [proceed_joined hs hc, if_pos hpool]
    rfl
  | stream shape =>
    refine ⟨_, x.stream_opens f shape args, fun {c s} r hs hc hpool ↦ ?_⟩
    refine ⟨fun cursor ↦ pure ⟨cursor, cursor.columns, shape, none, false, false⟩,
      fun n raw ↦ .pure trivial, ?_⟩
    rw [proceed_joining hs hc, if_pos hpool, opening_joined]
    rfl

/-- A call in a scope of its binder that is over, while others do as `R` says: they may have set the
binder's pool before it has rendered its template. -/
theorem sent (hp : x.Sends f args send p) (hh : h.Plain) (hr : h.Unwinds x.thread?)
    (hs : x.Live S s.memory) (hc : S.lookup f.binder = some c)
    (hR : ∀ m m', R m m' → m.Beside x.thread? m') {r : Outcome α}
    (hgo : Among h jobs R (.start p.run) s es (.done r) s') :
    ∃ m, Relation.ReflTransGen R s.memory m ∧ f.Sent args (send c) c m
      (s.memory.Usable c ∧ ∀ m m', R m m' → m.Usable c → m'.Usable c) es r := by
  obtain ⟨-, hdone, -⟩ | ⟨s₁, t, es', hs₁, ht, rfl, hgo₁⟩ := hgo.first_turn
  · cases hdone
  have hlive : x.Live S s₁.memory := kept_of_steps (fun _ _ hstep ↦ (hR _ _ hstep).live) hs₁ hs
  obtain ⟨k, rfl, hk⟩ := hp.eq_render h jobs S
  have hturn : _ = t := Option.some.inj ht
  rw [f.proceed_render_bind] at hturn
  refine ⟨s₁.memory, hs₁, ?_⟩
  cases hf : f.rendering s₁.memory args with
  | error fault =>
    rw [hf] at hturn
    subst hturn
    obtain ⟨rfl, hdone⟩ := hgo₁.of_done
    cases hdone
    exact .unrendered hf
  | ok rendered =>
    rw [hf] at hturn
    obtain ⟨k', hk', hproceed⟩ := hk rendered hlive hc (Bound.isSome_pool_of_rendering hf)
    obtain ⟨hnone, hkeep, e, rfl, he⟩ | ⟨st, rest, hsent, hrest, hok⟩ :=
      hk'.locking hh hr (hp.isLocked c rendered) (hp.connection c rendered) hlive hR
        (hproceed.symm.trans hturn) hgo₁
    · rw [hnone]
      exact .refused hf (fun hu ↦ hkeep ⟨kept_of_steps hu.2 hs₁ hu.1, hu.2⟩) he
    · rw [hsent]
      exact .sent hf hrest hok

end Sends

end Context

end BoundSql
