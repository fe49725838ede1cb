import BoundSql.Proofs.Scope.Consumer
import BoundSql.Proofs.Scope.Durability

namespace BoundSql

open Call

variable {σ α β : Type} {h : Host σ} {cb : Callback σ} {w : World σ}

inductive Taken
  | operation (d : Deed)
  /-- The rollback of a scope that ends without success. How it goes is told to nobody. -/
  | rollback (d : Deed)
  /-- A failure that comes from no operation: a row does not fit, a connection cannot be used, no pool is
  set, a template cannot be rendered, or the code has raised it itself. -/
  | raised (f : Fault)

namespace Taken

def fault? : Taken → Option Fault
  | operation d => d.fault
  | rollback _ => none
  | raised f => some f

def deed? : Taken → Option Deed
  | operation d | rollback d => some d
  | raised _ => none

end Taken

namespace Account

/-- The steps of code that stops at its first failure. -/
def steps (t : Account σ α) : List Taken :=
  t.deeds.map .operation ++ match t.deeds.findSome? Deed.fault, t.outcome with
    | none, .error f => [.raised f]
    | _, _ => []

/-- The steps account for all operations, and the run came to what the first of them came to that
failed. It panics only where it does so by itself. -/
structure Tells (t : Account σ α) (l : List Taken) : Prop where
  operations : l.filterMap Taken.deed? = t.deeds
  result : t.outcome.fault? = l.findSome? Taken.fault?
  panics : ∀ m, t.outcome = .error (.panic m) → .raised (.panic m) ∈ l

end Account

/-- What an owner does at the end of its scope when there is no success: it rolls back and hands the
connection back. -/
def Entry.abandoning (h : Host σ) (cb : Callback σ) (e : Entry) (w : World σ) : List Taken :=
  let t := account h cb (Session.rollback e.connection) w
  t.deeds.map .rollback ++ (account h cb (Blocking.Entry.release e) t.world).steps

def Entry.lastSteps (h : Host σ) (cb : Callback σ) (e : Entry) (t : Account σ α) : List Taken :=
  if e.owner then
    match t.outcome with
    | .ok _ =>
      let c := account h cb (Session.commit e.connection) t.world
      c.steps ++ match c.outcome with
        | .ok _ => (account h cb (Blocking.Entry.release e) c.world).steps
        | .error _ => e.abandoning h cb c.world
    | .error _ => e.abandoning h cb t.world
  else []

/-- Does something after a part, whether that succeeds or fails. The first error counts. -/
def Blocking.thereafter (p : Call α) (q : Call Unit) : Call α := do
  let r ← caught p
  let s ← caught q
  let a ← Call.ofResult r
  Call.ofResult s
  return a

/-- Code that passes on every error it receives. -/
inductive Relay (h : Host σ) (cb : Callback σ) : {α : Type} → Call α → Type 1
  | plain {α : Type} {p : Call α} (hp : p.Forwards h cb) : Relay h cb p
  | render (f : Bound) (args : Arguments) : Relay h cb (f.render args)
  | bind {α β : Type} {p : Call α} {k : α → Call β} (hp : Relay h cb p)
    (hk : ∀ a, Relay h cb (k a)) : Relay h cb (p >>= k)
  | thereafter {α : Type} {p : Call α} {q : Call Unit} (hp : Relay h cb p) (hq : q.Forwards h cb) :
    Relay h cb (Blocking.thereafter p q)
  | reading {α : Type} (c : Cursor) {p : Call α} (hp : Relay h cb p) : Relay h cb (Blocking.reading c p)
  | scope {α : Type} (thread b : Nat) (register : Bool) {body : Nat → Call α}
    (hbody : ∀ c, Relay h cb (body c)) : Relay h cb (Blocking.scope thread b register body)
  | alike {α : Type} {p q : Call α} (he : ∀ w, account h cb p w = account h cb q w)
    (hq : Relay h cb q) : Relay h cb p

namespace Relay

/-- The steps of a run from a world, in the order in which they are taken. -/
def steps : {α : Type} → {p : Call α} → Relay h cb p → World σ → List Taken
  | _, p, plain _, w => (account h cb p w).steps
  | _, _, render f args, w => (account h cb (f.render args) w).steps
  | _, _, .bind hp hk (p := p), w =>
    hp.steps w ++ match account h cb p w with
      | ⟨_, .ok a, w⟩ => (hk a).steps w
      | ⟨_, .error _, _⟩ => []
  | _, _, thereafter hp _ (p := p) (q := q), w =>
    hp.steps w ++ match account h cb p w with
      | ⟨_, .error (.panic _), _⟩ => []
      | ⟨_, _, w⟩ => (account h cb q w).steps
  | _, _, reading c hp (p := p), w =>
    hp.steps w ++ (account h cb c.close (account h cb p w).world).steps
  | _, _, @scope _ _ _ _ thread b register body hbody, w =>
    let t := account h cb (Blocking.enter thread b register) w
    t.steps ++ match t with
      | ⟨_, .ok e, w⟩ =>
        (hbody e.connection).steps w ++ e.lastSteps h cb (account h cb (body e.connection) w)
      | ⟨_, .error _, _⟩ => []
  | _, _, alike _ hq, w => hq.steps w

end Relay

namespace Account

variable {t : Account σ α} {l : List Taken} {ds : List Deed}

theorem Forwards.tells (ht : t.Forwards) : t.Tells t.steps := by
  have hdeeds : (t.deeds.map Taken.operation).filterMap Taken.deed? = t.deeds := by
    rw [List.filterMap_map]
    exact List.filterMap_some
  have hfaults : (t.deeds.map Taken.operation).findSome? Taken.fault? =
      t.deeds.findSome? Deed.fault := by
    rw [List.findSome?_map]
    rfl
  obtain ⟨ds, r, w⟩ := t
  refine ⟨?_, ?_, fun m (hm : r = .error (.panic m)) ↦ ?_⟩
  · unfold steps
    dsimp only at hdeeds ⊢
    rw [List.filterMap_append, hdeeds]
    split <;> simp [Taken.deed?]
  · unfold steps
    dsimp only at hfaults ⊢
    rw [List.findSome?_append, hfaults]
    cases hf : ds.findSome? Deed.fault with
    | some f =>
      obtain rfl : r = .error f := ht.first f hf
      rfl
    | none => cases r <;> rfl
  · have hreturns := ht.returns
    rw [hm] at hreturns
    cases hreturns

theorem tells_steps_of_nil (r : Outcome α) (w : World σ) :
    (⟨[], r, w⟩ : Account σ α).Tells (⟨[], r, w⟩ : Account σ α).steps := by
  cases r with
  | ok a => exact ⟨rfl, rfl, nofun⟩
  | error f =>
    refine ⟨rfl, rfl, fun m hm ↦ ?_⟩
    cases hm
    exact List.mem_singleton.2 rfl

theorem filterMap_rollback (ds : List Deed) :
    (ds.map Taken.rollback).filterMap Taken.deed? = ds := by
  rw [List.filterMap_map]
  exact List.filterMap_some

namespace Tells

theorem none_of_ok {a : α} (ht : (⟨ds, .ok a, w⟩ : Account σ α).Tells l) :
    l.findSome? Taken.fault? = none := ht.result.symm

theorem some_of_error {f : Fault} (ht : (⟨ds, .error f, w⟩ : Account σ α).Tells l) :
    l.findSome? Taken.fault? = some f := ht.result.symm

theorem after {a : α} {u : Account σ β} {l' : List Taken}
    (ht : (⟨ds, .ok a, w⟩ : Account σ α).Tells l) (hu : u.Tells l') :
    (u.after ds).Tells (l ++ l') where
  operations := by
    rw [List.filterMap_append, ht.operations, hu.operations]
    rfl
  result := by
    rw [List.findSome?_append, ht.none_of_ok, Option.none_or]
    exact hu.result
  panics m hm := List.mem_append_right l (hu.panics m hm)

theorem failed {γ : Type} {f : Fault} {u : Account σ γ} {l' : List Taken}
    (ht : (⟨ds, .error f, w⟩ : Account σ α).Tells l) (hu : l'.filterMap Taken.deed? = u.deeds) :
    ((u.as (.error f : Outcome β)).after ds).Tells (l ++ l') where
  operations := by
    rw [List.filterMap_append, ht.operations, hu]
    rfl
  result := by
    rw [List.findSome?_append, ht.some_of_error]
    rfl
  panics m hm := List.mem_append_left l' (ht.panics m (congrArg Except.error (Except.error.inj hm)))

theorem stopped {f : Fault} (ht : (⟨ds, .error f, w⟩ : Account σ α).Tells l) :
    (⟨ds, .error f, w⟩ : Account σ β).Tells (l ++ []) := by
  have hu : ([] : List Taken).filterMap Taken.deed? = (⟨[], .ok (), w⟩ : Account σ Unit).deeds := rfl
  have hf := ht.failed hu (β := β)
  simpa [Account.as, Account.after] using hf

theorem map (ht : t.Tells l) (g : α → β) : (t.as (t.outcome.map g)).Tells l where
  operations := ht.operations
  result := by
    rw [← ht.result]
    cases t.outcome <;> rfl
  panics m hm := by
    refine ht.panics m ?_
    change t.outcome.map g = .error (.panic m) at hm
    cases hr : t.outcome <;> rw [hr] at hm <;> cases hm
    rfl

end Tells

end Account

namespace Blocking

variable {e : Entry} {l : List Taken}

theorem account_thereafter {p : Call α} {q : Call Unit} (hq : q.Forwards h cb) :
    account h cb (thereafter p q) w = match account h cb p w with
      | ⟨ds, .ok a, w⟩ =>
        let t := account h cb q w
        (t.as (t.outcome.map fun _ ↦ a)).after ds
      | ⟨ds, .error (.error err), w⟩ => ((account h cb q w).as (.error (.error err))).after ds
      | ⟨ds, .error (.panic m), w⟩ => ⟨ds, .error (.panic m), w⟩ := by
  unfold thereafter
  rw [account_bind, account_caught]
  rcases account h cb p w with ⟨ds, (err | m) | a, w'⟩
  · obtain ⟨ds', u, w'', hc⟩ | ⟨ds', err', w'', hc⟩ := hq.cases w'
    all_goals
      simp [Account.caught, account_bind, account_caught, hc, Outcome.ofResult]
  · rfl
  · obtain ⟨ds', u, w'', hc⟩ | ⟨ds', err', w'', hc⟩ := hq.cases w'
    all_goals
      simp [Account.caught, account_bind, account_caught, hc, Outcome.ofResult, Except.map]

theorem deeds_abandoning (hr : h.Returns) (ho : e.owner) (w : World σ) :
    (e.abandoning h cb w).filterMap Taken.deed? = (account h cb (Entry.abandon e) w).deeds := by
  have hrel : (Entry.release e).Forwards h cb := .release hr e
  rw [Entry.account_abandon hr ho]
  unfold Entry.abandoning
  rw [List.filterMap_append, Account.filterMap_rollback, (hrel _).tells.operations]
  rfl

theorem tells_lastSteps (hr : h.Returns) (e : Entry) {p : Call α}
    (hp : (account h cb p w).Tells l) : (account h cb (Entry.enclosing e p) w).Tells
      (l ++ e.lastSteps h cb (account h cb p w)) := by
  rw [Entry.account_enclosing hr]
  generalize account h cb p w = t at hp ⊢
  -- The body has failed or succeeded, under an entry that joined its scope or owns it.
  obtain ⟨ds, f | a, w'⟩ := t <;> unfold Entry.lastSteps <;> dsimp only <;> cases ho : e.owner
  · exact hp.failed (by rw [Entry.account_abandon_joined ho]; rfl)
  · exact hp.failed (deeds_abandoning hr ho w')
  · rw [Entry.account_exit_joined ho]
    exact hp.after ⟨rfl, rfl, nofun⟩
  · have hrel : (Entry.release e).Forwards h cb := .release hr e
    have hcommit : (Session.commit e.connection).Forwards h cb := .commit hr _
    have htells := (hcommit w').tells
    rw [Entry.account_exit_ok hr ho, if_pos rfl]
    generalize account h cb (Session.commit e.connection) w' = c at htells ⊢
    refine hp.after ?_
    obtain ⟨ds', f | u, w''⟩ := c
    · exact htells.failed (deeds_abandoning hr ho w'')
    · exact htells.after ((hrel w'').tells.map _)

end Blocking

namespace Relay

theorem tells (hr : h.Returns) {p : Call α} (hp : Relay h cb p) (w : World σ) :
    (account h cb p w).Tells (hp.steps w) := by
  -- At each joint the first part decides: after its failure nothing of the second one counts.
  induction hp generalizing w with
  | plain hp => exact (hp w).tells
  | render f args =>
    unfold steps
    rw [f.account_render]
    exact Account.tells_steps_of_nil _ w
  | @bind _ _ p k hp hk ihp ihk =>
    have ht := ihp w
    rw [account_bind]
    unfold steps
    generalize account h cb p w = t at ht ⊢
    obtain ⟨ds, f | a, w'⟩ := t
    · exact ht.stopped
    · exact ht.after (ihk a w')
  | @thereafter _ p q hp hq ih =>
    have ht := ih w
    rw [Blocking.account_thereafter hq]
    unfold steps
    generalize account h cb p w = t at ht ⊢
    obtain ⟨ds, (err | m) | a, w'⟩ := t
    · exact ht.failed (hq w').tells.operations
    · exact ht.stopped
    · exact ht.after ((hq w').tells.map _)
  | @reading _ c p hp ih =>
    have ht := ih w
    have hclose : c.close.Forwards h cb := .close hr c
    rw [Blocking.account_reading hr]
    unfold steps
    generalize account h cb p w = t at ht ⊢
    obtain ⟨ds, f | a, w'⟩ := t
    · exact ht.failed (hclose w').tells.operations
    · exact ht.after ((hclose w').tells.map _)
  | @scope _ thread b register body hbody ih =>
    have henter : (Blocking.enter thread b register).Forwards h cb := .enter hr thread b register
    have ht := (henter w).tells
    unfold steps Blocking.scope
    rw [account_bind]
    generalize account h cb (Blocking.enter thread b register) w = t at ht ⊢
    obtain ⟨ds, f | e, w'⟩ := t
    · exact ht.stopped
    · exact ht.after (Blocking.tells_lastSteps hr e (ih e.connection w'))
  | alike he hq ih =>
    rw [he]
    exact ih w

def connection (thread b : Nat) {body : Nat → Call α} (hbody : ∀ c, Relay h cb (body c)) :
    Relay h cb (Blocking.connection thread b body) := .scope thread b true hbody

def transaction (thread b : Nat) {body : Nat → Call α} (hbody : ∀ c, Relay h cb (body c)) :
    Relay h cb (Blocking.transaction thread b body) :=
  .connection thread b fun c ↦ .bind (.plain (.autocommit c)) fun previous ↦
    .bind (.plain (.setAutocommit c false)) fun _ ↦
      .thereafter (hbody c) (.setAutocommit c previous)

end Relay

theorem Call.Forwards.executeBody (hr : h.Returns) (count : Count) (r : Template.Rendered) (c : Nat) :
    (Blocking.executeBody count r c).Forwards h cb := by
  refine (Call.Forwards.execute hr c _ _).bind fun n ↦ (Call.Forwards.autocommit c).bind fun on ↦ ?_
  exact ite _ ((Call.Forwards.commit hr c).bind fun _ ↦ .ofResult _) (.ofResult _)

def Blocking.deliver (ret : Return) (columns : List Column) (c : Nat) (rows : List Row) :
    Call Mapped := do
  let value ← Call.ofResult (ret.ofRows columns rows)
  if ← Session.autocommit c then Session.commit c
  return value

theorem Call.Forwards.deliver (hr : h.Returns) (ret : Return) (columns : List Column) (c : Nat)
    (rows : List Row) : (Blocking.deliver ret columns c rows).Forwards h cb := by
  refine (Call.Forwards.ofResult _).bind fun value ↦ (Call.Forwards.autocommit c).bind fun on ↦ ?_
  exact ite _ ((Call.Forwards.commit hr c).bind fun _ ↦ .pure _) (.pure _)

theorem Blocking.account_queryBody (ret : Return) (r : Template.Rendered) (c : Nat) (w : World σ) :
    account h cb (queryBody ret r c) w = account h cb (Session.query c r.sql r.params >>= fun cursor ↦
      reading cursor (cursor.pull ret.strategy) >>= deliver ret cursor.columns c) w := by
  unfold queryBody reading deliver
  simp only [account_bind, Account.andThen_andThen, account_pure, Account.andThen_ok,
    Account.after_nil]

namespace Relay

def execute (hr : h.Returns) (cb : Callback σ) (thread : Nat) (f : Bound) (count : Count) (args : Arguments) :
    Relay h cb (Blocking.execute thread f count args) :=
  .bind (.render f args) fun r ↦
    .connection thread f.binder fun c ↦ .plain (.executeBody hr count r c)

def query (hr : h.Returns) (cb : Callback σ) (thread : Nat) (f : Bound) (ret : Return) (args : Arguments) :
    Relay h cb (Blocking.query thread f ret args) :=
  .bind (.render f args) fun r ↦ .connection thread f.binder fun c ↦
    .alike (Blocking.account_queryBody ret r c) <|
      .bind (.plain (.query hr c r.sql r.params)) fun cursor ↦
        .bind (.reading cursor (.plain (.pull hr cursor ret.strategy))) fun rows ↦
          .plain (.deliver hr ret cursor.columns c rows)

variable {k : β → Mapped → Call β}

def walk (hr : h.Returns) (shape : Shape) (columns : List Column)
    (hk : ∀ b x, Relay h cb (k b x)) :
    (n : Nat) → (b : β) → (c : Cursor) → Relay h cb (c.walk shape columns k n b)
  | 0, b, _ => .plain (.pure b)
  | n + 1, b, c => .bind (.plain (.fetchOne hr c)) fun
    | (none, _) => .plain (.pure b)
    | (some row, c) => .bind (.plain (.ofResult (shape.ofRow columns row))) fun x ↦
      .bind (hk b x) fun b ↦ walk hr shape columns hk n b c

def forEach (hr : h.Returns) (thread : Nat) (f : Bound) (shape : Shape) (args : Arguments) (b : β)
    (hk : ∀ b x, Relay h cb (k b x)) : Relay h cb (Blocking.forEach thread f shape args b k) :=
  .alike (Blocking.account_forEach hr thread f shape args b k) <|
    .bind (.render f args) fun r ↦ .scope thread f.binder false fun c ↦
      .bind (.plain (.query hr c r.sql r.params)) fun cursor ↦
        .reading cursor (.walk hr shape cursor.columns hk (cursor.rows.length + 1) b cursor)

def collect (hr : h.Returns) (cb : Callback σ) (thread : Nat) (f : Bound) (shape : Shape)
    (args : Arguments) : Relay h cb (Blocking.collect thread f shape args) :=
  .forEach hr thread f shape args [] fun xs x ↦ .plain (.pure (xs ++ [x]))

end Relay

/-- What taking all items of a stream comes to that takes these steps. If there is a stream, its items are
rows, and then the error if there was one. -/
inductive Drained (l : List Taken) : Outcome (List (Except Error Mapped) × Bool) → Prop
  | unopened {f : Fault} (hl : l.findSome? Taken.fault? = some f) : Drained l (.error f)
  | failed {err : Error} (hl : l.findSome? Taken.fault? = some (.error err)) (xs : List Mapped) :
    Drained l (.ok (xs.map .ok ++ [.error err], true))
  | exhausted (hl : l.findSome? Taken.fault? = none) (xs : List Mapped) :
    Drained l (.ok (xs.map .ok, true))

theorem Blocking.drained (hr : h.Returns) (cb : Callback σ) {x : Context} (hx : x.mode = .blocking)
    (f : Bound) (shape : Shape) (args : Arguments) (w : World σ) :
    let l := (Relay.collect hr cb x.thread f shape args).steps w
    let t := account h cb (drain x f shape args) w
    l.filterMap Taken.deed? = t.deeds ∧ Drained l t.outcome := by
  dsimp only
  generalize hl : (Relay.collect hr cb x.thread f shape args).steps w = l
  have ht : (account h cb (collect x.thread f shape args) w).Tells l :=
    hl ▸ (Relay.collect hr cb x.thread f shape args).tells hr w
  have hresult := ht.result
  obtain ⟨err, hd, hf⟩ | ⟨items, hd, hi⟩ :
      (∃ err, account h cb (drain x f shape args) w = Account.as _ _ ∧ _) ∨ _ :=
    account_drain hr hx f shape args w
  all_goals
    rw [hd]
    refine ⟨ht.operations, ?_⟩
  · rw [hf] at hresult
    exact .unopened hresult.symm
  · generalize (account h cb (collect x.thread f shape args) w).outcome = r at hi hresult
    cases hi with
    | success xs => exact .exhausted hresult.symm xs
    | failure xs err => exact .failed hresult.symm xs

/-- Whatever fails in a bound call that blocks, at whichever of its steps, the call succeeds if no step
failed but rollbacks at the ends of scopes; else it tells the first failure, as it was. -/
theorem calls_tell_first_failure (hr : h.Returns) (cb : Callback σ) (thread : Nat) (w : World σ) :
    (∀ {α : Type} (b : Nat) {body : Nat → Call α} (hbody : ∀ c, Relay h cb (body c)),
      (account h cb (Blocking.connection thread b body) w).Tells
        ((Relay.connection thread b hbody).steps w)) ∧
    (∀ {α : Type} (b : Nat) {body : Nat → Call α} (hbody : ∀ c, Relay h cb (body c)),
      (account h cb (Blocking.transaction thread b body) w).Tells
        ((Relay.transaction thread b hbody).steps w)) ∧
    (∀ (f : Bound) (count : Count) (args : Arguments),
      (account h cb (Blocking.execute thread f count args) w).Tells
        ((Relay.execute hr cb thread f count args).steps w)) ∧
    (∀ (f : Bound) (ret : Return) (args : Arguments),
      (account h cb (Blocking.query thread f ret args) w).Tells
        ((Relay.query hr cb thread f ret args).steps w)) ∧
    (∀ {β : Type} (f : Bound) (shape : Shape) (args : Arguments) (b : β)
      {k : β → Mapped → Call β} (hk : ∀ b x, Relay h cb (k b x)),
      (account h cb (Blocking.forEach thread f shape args b k) w).Tells
        ((Relay.forEach hr thread f shape args b hk).steps w)) ∧
    ∀ {x : Context}, x.mode = .blocking → ∀ (f : Bound) (shape : Shape) (args : Arguments),
      let l := (Relay.collect hr cb x.thread f shape args).steps w
      let t := account h cb (Blocking.drain x f shape args) w
      l.filterMap Taken.deed? = t.deeds ∧ Drained l t.outcome :=
  ⟨fun b _ hbody ↦ (Relay.connection thread b hbody).tells hr w,
    fun b _ hbody ↦ (Relay.transaction thread b hbody).tells hr w,
    fun f count args ↦ (Relay.execute hr cb thread f count args).tells hr w,
    fun f ret args ↦ (Relay.query hr cb thread f ret args).tells hr w,
    fun f shape args b _ hk ↦ (Relay.forEach hr thread f shape args b hk).tells hr w,
    fun hx f shape args ↦ Blocking.drained hr cb hx f shape args w⟩

def Script.refusing (sites : List Site) : Host Unit :=
  ⟨fun _ o id _ ↦ match o.site?.filter (· ∈ sites) with
    | some site => ({ outcome := .error (Script.fault site .fail), fault := some .fail }, ())
    | none => ((Script.comply o id {}).1, ())⟩

theorem Script.returns_refusing (sites : List Site) : (Script.refusing sites).Returns := by
  intro m o n s
  unfold Script.refusing
  dsimp only
  cases o.site?.filter (· ∈ sites) with
  | some site => rfl
  | none => cases o <;> rfl

theorem calls_tell_first_failure_fetch :
    let h := Script.refusing [.fetch, .close, .rollback, .release]
    ∃ cb l,
      let t := account h cb (Blocking.transaction 0 0 fun _ ↦
        Blocking.query 0 Bound.deletion (.many .map) .none) ⟨Program.ready, ()⟩
      t.Tells l ∧ t.deeds.length = 6 ∧
        t.outcome.fault? = some (.error (.connection "fetch failed")) := by
  intro h
  refine ⟨fun _ w ↦ (.step (.ok .unit) [] [] none, w), ?_⟩
  obtain ⟨-, htransaction, -⟩ := calls_tell_first_failure (h := h) (Script.returns_refusing _)
    (fun _ w ↦ (.step (.ok .unit) [] [] none, w)) 0 ⟨Program.ready, ()⟩
  refine ⟨_, htransaction 0 fun _ ↦ .query (Script.returns_refusing _) _ 0 Bound.deletion _ .none, ?_⟩
  decide +kernel

end BoundSql
