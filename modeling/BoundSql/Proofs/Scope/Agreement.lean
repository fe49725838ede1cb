import BoundSql.Pool.Scripted
import BoundSql.Proofs.Scope.Durability
import BoundSql.Proofs.Scope.Finishing
import BoundSql.Proofs.Scope.Leasing
import BoundSql.Proofs.Scope.Refinement

namespace BoundSql

open Memory

open Call (Twins exec)

variable {σ α β : Type} {h : Host σ} {cb : Callback σ} {L : Nat → Nat → Prop} {R : σ → σ → Prop}
  {A : Actives} {w : World σ} {P : α → Prop} {p : Context → Call α}

namespace Script

/-- Nothing panics, no statement runs a step, and no cursor in `L` fails to close. -/
structure Steady (L : Nat → Nat → Prop) (s : Script) : Prop where
  replies : ∀ r ∈ s.replies, callback r = none
  faults : ∀ f ∈ s.faults, f.2.1 = .fail
  closes : (∀ d n, ¬L d n) ∨ ∀ f ∈ s.faults, f.1 ≠ .close

namespace Steady

variable {s : Script}

theorem strike (hs : s.Steady L) (site : Site) : (s.strike site).2.Steady L := by
  unfold Script.strike
  split
  · exact hs
  · exact hs
  · next site' how times _ hfind =>
    have hmem := List.mem_of_find?_eq_some hfind
    have hfound := List.find?_some hfind
    have hsite : site' = site := eq_of_beq hfound
    subst hsite
    have hhow : how = .fail := hs.faults _ hmem
    have hrest := fun f (hf : f ∈ s.faults.filter fun f ↦ f.1 != site') ↦ (List.mem_filter.1 hf).1
    refine ⟨hs.replies, List.forall_mem_cons.2 ⟨hhow, fun f hf ↦ hs.faults f (hrest f hf)⟩, ?_⟩
    refine hs.closes.imp_right fun hc ↦ List.forall_mem_cons.2 ⟨?_, fun f hf ↦ hc f (hrest f hf)⟩
    have hclose : site' ≠ .close := hc _ hmem
    exact hclose

theorem fails (hs : s.Steady L) {site : Site} {how : Misbehaviour}
    (hh : (s.strike site).1 = some how) : how = .fail := by
  unfold Script.strike at hh
  split at hh
  · cases hh
  · cases hh
  · next hfind =>
    cases hh
    exact hs.faults _ (List.mem_of_find?_eq_some hfind)

theorem comply (hs : s.Steady L) (o : Operation) (n : Nat) : (Script.comply o n s).1.Calm ∧
    (o.site?.isSome → (Script.comply o n s).2.Steady L) := by
  obtain ⟨replies, faults, failing⟩ := s
  cases o with
  | execute _ _ _ | query _ _ _ =>
    cases replies with
    | nil => exact ⟨⟨rfl, rfl⟩, fun _ ↦ hs⟩
    | cons r replies =>
      obtain ⟨hr, hreplies⟩ := List.forall_mem_cons.1 hs.replies
      refine ⟨⟨hr, ?_⟩, fun _ ↦ ⟨hreplies, hs.faults, hs.closes⟩⟩
      cases r <;> rfl
  | fetch _ cursor i =>
    unfold Script.comply
    dsimp only
    split <;> exact ⟨⟨rfl, rfl⟩, fun _ ↦ hs⟩
  | instruct i => exact ⟨⟨rfl, rfl⟩, nofun⟩
  | _ => exact ⟨⟨rfl, rfl⟩, fun _ ↦ hs⟩

theorem answer (hs : s.Steady L) (o : Operation) (n : Nat) : (Script.answer o n s).1.Calm ∧
    (o.site?.isSome → (Script.answer o n s).2.Steady L) := by
  unfold Script.answer
  cases ho : o.site? with
  | none => exact ⟨(hs.comply o n).1, nofun⟩
  | some site =>
    have hstrike := hs.strike site
    dsimp only
    rcases hs' : s.strike site with ⟨_ | how, s'⟩
    all_goals rw [hs'] at hstrike
    · have hcomply := hstrike.comply o n
      rw [ho] at hcomply
      exact hcomply
    · obtain rfl : how = .fail := hs.fails (by rw [hs'])
      exact ⟨⟨rfl, rfl⟩, fun _ ↦ hstrike⟩

theorem close (hs : s.Steady L) {d n : Nat} (hn : L d n) : (Script.answer (.close d n) 0 s).2 = s := by
  have hnone : s.strike .close = (none, s) := by
    unfold Script.strike
    rw [List.find?_eq_none.2]
    intro f hf hclose
    obtain hL | hc := hs.closes
    · exact hL d n hn
    · exact hc f hf (eq_of_beq hclose)
  unfold Script.answer
  dsimp only [Operation.site?]
  rw [hnone]
  rfl

end Steady

theorem indifferent_host (L : Nat → Nat → Prop) :
    host.Indifferent L fun s s' ↦ s' = s ∧ s.Steady L where
  symm := by
    rintro s s' ⟨rfl, hs⟩
    exact ⟨rfl, hs⟩
  trans := by
    rintro s s' s'' ⟨rfl, hs⟩ ⟨rfl, -⟩
    exact ⟨rfl, hs⟩
  calm m o n s hs := (hs.2.answer o n).1
  answer := by
    rintro m m' s s' o hm ⟨rfl, hs⟩ ho
    rw [hm.number o]
    exact ⟨rfl, rfl, (hs.answer o _).2 ho⟩
  close m d n s hn hs := ⟨hs.2.close hn, hs.2⟩

end Script

/-- A program of such calls; a result is as `P` says. What a part of it has come to decides how it goes
on, an error too where it is caught. Streams are pulled from as often as the program wants. -/
inductive Sequential : {α : Type} → (α → Prop) → (Context → Call α) → Type 1
  | ofResult {α : Type} (r : Except Error α) : Sequential (fun a ↦ r = .ok a) fun _ ↦ Call.ofResult r
  | bind {α β : Type} {P : α → Prop} {Q : β → Prop} {p : Context → Call α} {k : α → Context → Call β}
    (hp : Sequential P p) (hk : ∀ a, P a → Sequential Q (k a)) : Sequential Q fun x ↦ p x >>= fun a ↦ k a x
  | caught {α : Type} {P : α → Prop} {p : Context → Call α} (hp : Sequential P p) :
    Sequential (fun r ↦ ∀ a, r = .ok a → P a) fun x ↦ Blocking.caught (p x)
  | weaken {α : Type} {P Q : α → Prop} {p : Context → Call α} (hp : Sequential P p)
    (hQ : ∀ a, P a → Q a) : Sequential Q p
  | execute (f : Bound) (count : Count) (args : Arguments) :
    Sequential (fun _ ↦ True) fun x ↦ x.execute f count args
  | query (f : Bound) (ret : Return) (args : Arguments) :
    Sequential (fun _ ↦ True) fun x ↦ x.query f ret args
  | stream (f : Bound) (shape : Shape) (args : Arguments) :
    Sequential Stream.Unshared fun x ↦ x.stream f shape args
  | pull (s : Stream) (hs : s.Unshared) (n : Nat) :
    Sequential (fun r ↦ r.2.Unshared) fun x ↦ ExceptT.lift (x.pull s n)
  | connection {α : Type} {P : α → Prop} (b : Nat) {body : Context → Nat → Call α}
    (hbody : ∀ c, Sequential P fun x ↦ body x c) : Sequential P fun x ↦ x.connection b body
  | transaction {α : Type} {P : α → Prop} (b : Nat) {body : Context → Nat → Call α}
    (hbody : ∀ c, Sequential P fun x ↦ body x c) : Sequential P fun x ↦ x.transaction b body
  /-- What a body does with the connection that it has been given. -/
  | session (c : Nat) (u : Act) : Sequential (fun _ ↦ True) fun x ↦ x.locking c (u.run c)

namespace Sequential

/-- The cursors, each with its connection, from which queries fail to read their rows when the program
runs in calls that block. -/
def Misreads (h : Host σ) (cb : Callback σ) : {α : Type} → {P : α → Prop} → {p : Context → Call α} →
    Sequential P p → World σ → Nat → Nat → Prop
  | _, _, _, .bind hp hk (p := p), w, d, n => hp.Misreads h cb w d n ∨
    ∃ a ha w', exec h cb (p (.start .blocking)) w = (.ok a, w') ∧ (hk a ha).Misreads h cb w' d n
  | _, _, _, caught hp, w, d, n => hp.Misreads h cb w d n
  | _, _, _, weaken hp _, w, d, n => hp.Misreads h cb w d n
  | _, _, _, query f ret args, w, d, n => f.Misreads h cb ret args w d n
  | _, _, _, connection b hbody, w, d, n => ∃ e w', exec h cb (Blocking.enter 0 b true) w = (.ok e, w') ∧
    (hbody e.connection).Misreads h cb w' d n
  | _, _, _, transaction b hbody, w, d, n => ∃ e on w₁ w₂ w₃,
    exec h cb (Blocking.enter 0 b true) w = (.ok e, w₁) ∧
    exec h cb (Session.autocommit e.connection) w₁ = (.ok on, w₂) ∧
    exec h cb (Session.setAutocommit e.connection false) w₂ = (.ok (), w₃) ∧
    (hbody e.connection).Misreads h cb w₃ d n
  | _, _, _, _, _, _, _ => False

theorem twins_pull {s : Stream} (hs : s.Unshared) (scopes : Async.Scopes) (n : Nat)
    (hw : InScopes A w) : Twin h L (Stream.Served A) w ((Context.start .blocking).pull s n)
      ({ Context.start .async with scopes }.pull s n) := by
  induction n generalizing s w with
  | zero => exact .done ⟨rfl, rfl, hs, hw⟩
  | succ n ih =>
    refine Twin.bind (Stream.twins_next hs hw) fun r r' w' hr ↦ ?_
    obtain ⟨rfl, hpanic, hs, hw⟩ := hr
    obtain ⟨(_ | _) | _ | item, s⟩ := r'
    · exact .done ⟨rfl, rfl, hs, hw⟩
    · cases hpanic
    · exact .done ⟨rfl, rfl, hs, hw⟩
    · refine Twin.bind (ih hs hw) fun r r' w' hr ↦ ?_
      obtain ⟨rfl, hpanic, hs, hw⟩ := hr
      exact .done ⟨rfl, (Outcome.isPanic_map _ _).trans hpanic, hs, hw⟩

/-- Worlds in which those are the active connections, and from which the program fails to read from no
cursors but those in `L`, and does not panic. -/
structure Spares (h : Host σ) (cb : Callback σ) (L : Nat → Nat → Prop) (A : Actives)
    (hp : Sequential P p) (w : World σ) : Prop where
  scopes : InScopes A w
  reads : ∀ d n, hp.Misreads h cb w d n → L d n
  returns : (p (.start .blocking)).Returns h cb w

theorem twins (cb : Callback σ) (hp : Sequential P p) {scopes : Async.Scopes} (hs : scopes.Of A) :
    Twins h L (hp.Spares h cb L A) (Gives P A) (p (.start .blocking))
      (p { Context.start .async with scopes }) := by
  induction hp generalizing A scopes with
  | ofResult r =>
    cases r with
    | ok a => exact .ret fun w hw ↦ ⟨⟨rfl, hw.scopes⟩, fun b hb ↦ congrArg _ (Except.ok.inj hb)⟩
    | error e => exact .ret fun w hw ↦ .fail e hw.scopes
  | bind hp hk ihp ihk =>
    have hfirst := (ihp hs).pre fun w (hw : (hp.bind hk).Spares h cb L A w) ↦
      ⟨hw.scopes, fun d n hn ↦ hw.reads d n (.inl hn), hw.returns.first⟩
    refine hfirst.gives_then cb (fun e _ ↦ .fail e) fun a ha ↦ (ihk a ha hs).pre fun w hw ↦ ?_
    obtain ⟨hw, w₀, hw₀, hrun⟩ := hw
    exact ⟨hw, fun d n hn ↦ hw₀.reads d n (.inr ⟨a, ha, w, hrun, hn⟩), hw₀.returns.next hrun⟩
  | caught hp ih =>
    have hbody := (ih hs).pre fun w (hw : hp.caught.Spares h cb L A w) ↦
      ⟨hw.scopes, hw.reads, hw.returns.of_caught⟩
    refine hbody.caught.mono fun v w hv ↦ ⟨⟨hv.not_panic, hv.2⟩, fun r hr ↦ ?_⟩
    obtain ⟨⟨r', rfl, hP⟩, -⟩ := hv
    cases hr
    exact hP
  | weaken hp hQ ih =>
    have hweak := (ih hs).pre fun w (hw : (hp.weaken hQ).Spares h cb L A w) ↦
      ⟨hw.scopes, hw.reads, hw.returns⟩
    exact hweak.mono fun r w hr ↦ ⟨hr.1, fun a ha ↦ hQ a (hr.2 a ha)⟩
  | execute f count args =>
    exact (f.twins_execute cb hs count args).pre fun w hw ↦ ⟨hw.scopes, hw.returns.first⟩
  | query f ret args =>
    exact (f.twins_query cb hs ret args).pre fun w hw ↦ ⟨hw.scopes, hw.returns.first, hw.reads⟩
  | stream f shape args =>
    exact (f.twins_stream cb hs shape args).pre fun w hw ↦ ⟨hw.scopes, hw.returns.first⟩
  | pull s hs' n =>
    intro w hw
    refine Twin.bind (twins_pull hs' scopes n hw.scopes) fun r r' w' hr ↦ ?_
    obtain ⟨rfl, -, hs, hw⟩ := hr
    refine .done ⟨rfl, ⟨rfl, hw⟩, fun a ha ↦ ?_⟩
    cases ha
    exact hs
  | @connection α P b body hbody ih =>
    change Twins h L _ _ (Blocking.connection 0 b (body (.start .blocking)))
      (Async.connection scopes b fun scopes ↦ body { Context.start .async with scopes })
    refine twins_connection cb hs b (fun w hw ↦ hw.scopes) fun e B scopes hs ↦
      (ih e.connection hs).pre fun w hw ↦ ?_
    obtain ⟨hw, w₀, hw₀, henter⟩ := hw
    have hreturns : (Blocking.connection 0 b (body (.start .blocking))).Returns h cb w₀ := hw₀.returns
    exact ⟨hw, fun d n hn ↦ hw₀.reads d n ⟨e, w, henter, hn⟩, hreturns.connection henter⟩
  | @transaction α P b body hbody ih =>
    change Twins h L _ _ (Blocking.transaction 0 b (body (.start .blocking)))
      (Async.transaction scopes b fun scopes ↦ body { Context.start .async with scopes })
    refine twins_transaction cb hs b (fun w hw ↦ hw.scopes) fun e on B scopes hs ↦
      (ih e.connection hs).pre fun w hw ↦ ?_
    obtain ⟨hw, w₂, ⟨w₁, ⟨w₀, hw₀, henter⟩, hon⟩, hoff⟩ := hw
    have hreturns : (Blocking.transaction 0 b (body (.start .blocking))).Returns h cb w₀ := hw₀.returns
    exact ⟨hw, fun d n hn ↦ hw₀.reads d n ⟨e, on, w₁, w₂, w, henter, hon, hoff, hn⟩,
      hreturns.transaction henter hon hoff⟩
  | session c u =>
    exact (Act.twins_run u).locking.gives.pre fun w hw ↦ hw.scopes

end Sequential

/-- Run as asynchronous calls, in whatever order the tasks in the background have their turns, a program
comes to what it comes to as calls that block, if these do not panic, and the same has happened: the same
operations with the same statements and parameters on the same connections, one after the other, but for
the closing of cursors. The pool must not be able to tell when a cursor is closed from which a query has
failed to read its rows. -/
theorem async_calls_refine_blocking (hp : Sequential P p) (cb : Callback σ) {s : Runtime σ}
    {scopes : Async.Scopes} (hm : w.memory.Alike s.memory) (hs : s.Idle)
    (hscopes : scopes.Of w.memory.active) (hi : h.Indifferent (hp.Misreads h cb w) R)
    (hR : R w.host s.world.host) (x₀ : Context)
    (hr : Outcome.isPanic (exec h cb (p (.start .blocking)) w).1 = false) :
    let r := exec h cb (p (.start .blocking)) w
    let q := (p { Context.start .async with scopes }).run
    q.ComesTo h (Job.run x₀) s r.1 ∧
      ∀ es b s', Reaches h (Job.run x₀) (.start q) s es (.done b) s' →
        s'.memory.history = r.2.memory.history ∧ s'.memory.held = r.2.memory.held ∧
          R r.2.host s'.world.host := by
  intro r q
  have htwins : Twin h (hp.Misreads h cb w) _ w (p (.start .blocking)).run q :=
    hp.twins cb hscopes w ⟨rfl, fun _ _ ↦ id, hr⟩
  have ha : Alongside (hp.Misreads h cb w) R w s := by
    refine ⟨hm, hR, fun j hj ↦ ?_⟩
    rw [hs.started] at hj
    cases hj
  refine ⟨htwins.comesTo hi ha hs.tasks fun b hb ↦ hb.1, fun es b s' hreach ↦ ?_⟩
  obtain ⟨-, ha'⟩ := htwins.reaches cb hi ha hs.tasks hreach
  exact ⟨ha'.memory.history, ha'.memory.held, ha'.host⟩

def Program.retrying (x : Context) : Call Mapped := x.connection 0 fun x _ ↦ do
  let _ ← Blocking.caught (x.query Bound.deletion (.many .map) .none)
  x.query Bound.deletion (.many .map) .none

def Sequential.retrying : Sequential (fun _ ↦ True) Program.retrying :=
  .connection 0 fun _ ↦ .bind (.caught (.query Bound.deletion (.many .map) .none)) fun _ _ ↦
    .query Bound.deletion (.many .map) .none

def Script.stumbling (faults : List (Site × Misbehaviour × Option Nat)) : Script :=
  { replies := [.rows ⟨[], [[]], true⟩ (some 0), .rows ⟨[], [[]], true⟩ none], faults }

/-- The first query fails, and its cursor is closed in a task, or before the query returns. -/
theorem async_calls_refine_blocking_retrying :
    let s : Runtime Script := ⟨⟨{ Program.ready with tasks := true }, Script.stumbling []⟩, []⟩
    ∃ r es s', exec Script.host (fun _ w ↦ (.step (.ok .unit) [] [] none, w))
        (Program.retrying (.start .blocking)) s.world = r ∧
      (r.2.memory.history.any fun e ↦ match e with
        | .operation (.fetch _ _ _) _ .refused => true
        | _ => false) = true ∧
      Reaches Script.host (Job.run (.start .async)) (.start (Program.retrying (.start .async)).run) s es
        (.done r.1) s' ∧
      s'.memory.history = r.2.memory.history := by
  intro s
  have hsteady : ∀ L, (Script.stumbling []).Steady L := fun L ↦
    ⟨by simp [Script.stumbling, Script.callback], nofun, .inr nofun⟩
  obtain ⟨hcomes, hends⟩ := async_calls_refine_blocking Sequential.retrying
    (fun _ w ↦ (.step (.ok .unit) [] [] none, w)) (w := s.world) (s := s)
    ⟨rfl, rfl, rfl, rfl, rfl, rfl, rfl, rfl⟩ ⟨rfl, rfl⟩ (fun _ ↦ rfl : Async.Scopes.Of [] [])
    (Script.indifferent_host _) ⟨rfl, hsteady _⟩ (.start .async) (by decide +kernel)
  have hrefused : ((exec Script.host (fun _ w ↦ (.step (.ok .unit) [] [] none, w))
      (Program.retrying (.start .blocking)) s.world).2.memory.history.any fun e ↦ match e with
        | .operation (.fetch _ _ _) _ .refused => true
        | _ => false) = true := by decide +kernel
  generalize exec Script.host (fun _ w ↦ (.step (.ok .unit) [] [] none, w))
    (Program.retrying (.start .blocking)) s.world = r at hcomes hends hrefused
  obtain ⟨⟨es, b, s', hreach⟩, -⟩ := hcomes _ _ _ .refl
  obtain rfl : b = r.1 := (hcomes _ _ _ hreach).2 b rfl
  obtain ⟨hhistory, -⟩ := hends _ _ _ hreach
  exact ⟨r, es, s', rfl, hrefused, hreach, hhistory⟩

def Suspended.fault? : Suspended (Outcome α) → Option Fault
  | done (.error f) => some f
  | _ => none

theorem Suspended.eq_done_of_fault? {q : Suspended (Outcome α)} {f : Fault} (hq : q.fault? = some f) :
    q = .done (.error f) := by
  cases q with
  | done r =>
    cases r with
    | ok a => cases hq
    | error g => rw [Option.some.inj hq]
  | _ => cases hq

/-- The pool fails to close a cursor, once. Calls that block ignore that, since it is the cursor that could
not be read; an asynchronous query closes its own cursor before the task has closed the other one. -/
theorem late_close_fails_next_query :
    let s : Runtime Script :=
      ⟨⟨{ Program.ready with tasks := true }, Script.stumbling [(.close, .fail, some 1)]⟩, []⟩
    Outcome.isOk (exec Script.host (fun _ w ↦ (.step (.ok .unit) [] [] none, w))
      (Program.retrying (.start .blocking)) s.world).1 = true ∧
    ∃ es s', Reaches Script.host (Job.run (.start .async))
      (.start (Program.retrying (.start .async)).run) s es
      (.done (.error (.error (.connection "close failed")))) s' := by
  intro s
  refine ⟨by decide +kernel, ?_⟩
  have hrun : ((Suspended.start (Program.retrying (.start .async)).run).follow Script.host
      (Job.run (.start .async)) (List.replicate 17 none ++ [some 1, some 1, some 1, none]) s).any
      (fun r ↦ r.2.1.fault? == some (.error (.connection "close failed"))) = true := by decide +kernel
  simp only [Option.any_eq_true, beq_iff_eq] at hrun
  obtain ⟨⟨es, q, s'⟩, hs', hq⟩ := hrun
  obtain rfl : q = .done (.error (.error (.connection "close failed"))) := Suspended.eq_done_of_fault? hq
  exact ⟨es, s', Reaches.of_follow hs'⟩

end BoundSql
