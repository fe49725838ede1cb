import BoundSql.Proofs.Row.Counting
import BoundSql.Proofs.Scope.Eager
import BoundSql.Proofs.Scope.Finishing
import BoundSql.Proofs.Scope.Leasing
import BoundSql.Proofs.Scope.Refinement

namespace BoundSql

open Call

variable {σ α : Type} {h : Host σ} {cb : Callback σ} {w : World σ} {g : (o : Operation) → o.Raw}

/-- Each operation succeeds, with an answer of its own, and nothing else happens meanwhile. -/
def Host.Grants (h : Host σ) (g : (o : Operation) → o.Raw) : Prop :=
  ∀ m o n s, (h.answer m o n s).1 = { outcome := .ok (g o) }

def Operation.resultOf (g : (o : Operation) → o.Raw) (c : Nat) (sql : String) (params : List Value) :
    ResultSet := g (.query c sql params)

namespace Host.Grants

theorem plain (hg : h.Grants g) : h.Plain where
  callback m o n s := by rw [hg]
  fault m o n s hf := by
    rw [hg] at hf
    cases hf

theorem lawful (hg : h.Grants g) : h.Lawful where
  step m o n s _ hs := by
    rw [hg] at hs
    cases hs
  callback m o n s _ := hg.plain.callback m o n s
  fault := hg.plain.fault
  rollback m c n s := by
    rw [hg]
    rfl

theorem returns (hg : h.Grants g) : h.Returns := fun m o n s ↦ by
  rw [hg]
  rfl

theorem indifferent (hg : h.Grants g) (L : Nat → Nat → Prop) : h.Indifferent L fun _ _ ↦ True where
  symm _ := trivial
  trans _ _ := trivial
  calm m o n s _ := ⟨hg.plain.callback m o n s, hg.returns m o n s⟩
  answer o _ _ _ := ⟨by rw [hg, hg], trivial⟩
  close _ _ _ _ _ _ := trivial

theorem act (hg : h.Grants g) (o : Operation) (w : World σ) :
    (h.act o w).1 = .ok (o.complete (o.number w.memory) (g o)) := by
  unfold Host.act Host.reaction
  rw [hg]
  rfl

theorem perform (hg : h.Grants g) (o : Operation) (w : World σ) :
    h.perform cb o w = (.ok (o.complete (o.number w.memory) (g o)), (h.act o w).2) := by
  rw [Host.perform_of_callback (hg.plain.callback ..), ← hg.act]

theorem account_operate (hg : h.Grants g) (o : Operation) (w : World σ) :
    account h cb (operate o) w =
      ⟨[⟨o, none⟩], .ok (o.complete (o.number w.memory) (g o)), (h.act o w).2⟩ := by
  rw [Call.account_operate, hg.perform]
  rfl

theorem deeds (hg : h.Grants g) (p : Action α) (w : World σ) :
    ∀ d ∈ p.deeds h cb w, d.fault = none := by
  induction p generalizing w with
  | done a => exact fun _ hd ↦ by cases hd
  | memory f k ih => exact ih _ _
  | operation o js k ih =>
    refine List.forall_mem_cons.2 ⟨?_, ih _ _⟩
    rw [hg.perform]
    rfl
  | wait t js k ih =>
    cases t with
    | task j => exact ih _ _
    | idle => exact ih _ _
    | access c => exact ih _ _

theorem readsSucceed (hg : h.Grants g) (p : Call α) (w : World σ) :
    (account h cb p w).ReadsSucceed := fun d hd _ ↦ hg.deeds _ w d hd

end Host.Grants

namespace Cursor

def evaluation (h : Host σ) (cb : Callback σ) : Evaluation Reading (Cursor × World σ) where
  eval p s :=
    let t := account h cb (p.run s.1) s.2
    t.outcome.map fun r ↦ (r.1, r.2, t.world)
  eval_pure _ _ := rfl
  eval_bind p k s := by
    have hrun : (p >>= k).run s.1 = p.run s.1 >>= fun r ↦ (k r.1).run r.2 := rfl
    dsimp only
    rw [hrun, account_bind]
    rcases account h cb (p.run s.1) s.2 with ⟨ds, f | r, w⟩ <;> rfl
  eval_throw _ _ := rfl

theorem eval_fetchOne (hg : h.Grants g) (c : Cursor) (w : World σ) :
    ∃ w', (evaluation h cb).eval fetchOne (c, w) = .ok (c.rows.head?, c.advance, w') := by
  have hreads : (account h cb (fetchOne.run c) w).ReadsSucceed := hg.readsSucceed _ w
  obtain ⟨w', hf⟩ := c.account_fetchOne_succeeds hreads
  refine ⟨w', ?_⟩
  change (account h cb (fetchOne.run c) w).outcome.map _ = _
  rw [hf]
  rfl

theorem yields (hg : h.Grants g) (c : Cursor) (w : World σ) :
    Yields (evaluation h cb) fetchOne (c, w) c.rows := by
  generalize hrows : c.rows = rows
  induction rows generalizing c w with
  | nil =>
    obtain ⟨w', hf⟩ : ∃ w', (evaluation h cb).eval fetchOne (c, w) = _ := eval_fetchOne hg c w
    rw [hrows] at hf
    exact .exhausted hf
  | cons row rows ih =>
    obtain ⟨w', hf⟩ : ∃ w', (evaluation h cb).eval fetchOne (c, w) = _ := eval_fetchOne hg c w
    rw [hrows] at hf
    exact .row hf (ih c.advance w' (rows_advance hrows))

theorem fetchesAll (hg : h.Grants g) (n : Nat) :
    FetchesAll (evaluation h cb) fetchOne fetchAll n := by
  rintro ⟨c, w⟩ rows - hrows
  obtain rfl := hrows.unique (yields hg c w)
  exact (yields hg c w).eval_collect (Nat.lt_succ_self _)

theorem fresh (hg : h.Grants g) {c : Cursor} (hc : c.rowCount = none ∨ c.rowCount = some c.rows.length)
    (w : World σ) : Fresh (evaluation h cb) c.rowCount fetchOne fetchAll (c, w) c.rows :=
  ⟨yields hg c w, hc, .inl (fetchesAll hg _)⟩

theorem outcome_pull (hg : h.Grants g) {c : Cursor}
    (hc : c.rowCount = none ∨ c.rowCount = some c.rows.length) (s : Strategy) (w : World σ) :
    (account h cb (c.pull s) w).outcome = Outcome.ofResult (s.pick c.rows) := by
  have hpull : c.pull s = (fetchRows c.rowCount fetchOne fetchAll s).run c >>= fun r ↦ pure r.1 := rfl
  have hfresh : Fresh (evaluation h cb) c.rowCount fetchOne fetchAll (c, w) c.rows := fresh hg hc w
  have hpick := hfresh.eval_fetchRows s
  rw [hpull, account_bind]
  dsimp only [evaluation] at hpick
  generalize account h cb ((fetchRows c.rowCount fetchOne fetchAll s).run c) w = t at hpick ⊢
  obtain ⟨ds, f | r, w'⟩ := t
  · exact hpick
  · exact hpick

end Cursor

namespace Memory

/-- The connection that a call of the thread gets: the active one, or the next one to be leased. -/
def connectionFor (m : Memory) (thread b : Nat) : Nat :=
  (m.active.lookup (thread, b)).getD (m.leases + 1)

def Admits (m : Memory) (thread b : Nat) : Prop :=
  m.connectionFor thread b ∉ m.busy ∧ ∀ c, m.active.lookup (thread, b) = some c → m.Holds c

end Memory

/-- The binder's pool is set, and with its markers the template renders so. -/
def Bound.Renders (f : Bound) (m : Memory) (args : Arguments) (r : Template.Rendered) : Prop :=
  ∃ p, m.pools.lookup f.binder = some p ∧
    ((f.template.render args).run.run p.marker.generator).1 = .ok r

theorem Bound.Renders.rendering {f : Bound} {m : Memory} {args : Arguments} {r : Template.Rendered}
    (hr : f.Renders m args r) : f.rendering m args = .ok r := by
  obtain ⟨p, hp, hr⟩ := hr
  rw [Bound.rendering, hp]
  exact hr

theorem Bound.Renders.account_render {f : Bound} {args : Arguments} {r : Template.Rendered}
    (hr : f.Renders w.memory args r) : account h cb (f.render args) w = ⟨[], .ok r, w⟩ := by
  rw [f.account_render, hr.rendering]

def Return.of (ret : Return) (rs : ResultSet) : Except Error Mapped :=
  (ret.strategy.pick rs.rows).bind (ret.ofRows rs.columns)

namespace Blocking

variable {c thread b : Nat} {ret : Return} {r : Template.Rendered}

theorem account_enter_granted (hg : h.Grants g) {p : PoolSpec} (hp : w.memory.pools.lookup b = some p)
    (ha : w.memory.Admits thread b) : ∃ ds e w', account h cb (enter thread b true) w = ⟨ds, .ok e, w'⟩ ∧
      e.connection = w.memory.connectionFor thread b ∧ w'.memory.Usable e.connection := by
  obtain ⟨hbusy, hheld⟩ := ha
  rw [account_enter, hp]
  rw [Memory.connectionFor] at hbusy ⊢
  cases hc : w.memory.active.lookup (thread, b) with
  | some c =>
    rw [hc] at hbusy
    exact ⟨_, _, _, rfl, rfl, hheld c hc, hbusy⟩
  | none =>
    rw [hc] at hbusy
    have hlease : account h cb (request b) w =
        ⟨[⟨.lease b, none⟩], .ok (w.memory.leases + 1), (h.act (.lease b) w).2⟩ :=
      hg.account_operate (.lease b) w
    dsimp only
    rw [hlease]
    refine ⟨_, _, _, rfl, rfl, ?_, ?_⟩
    · simp [Memory.Holds, Memory.hold, Memory.activate, Memory.lookup_setKey_self]
    · simpa [Memory.hold, Memory.activate] using hbusy

theorem account_deliver_granted (hg : h.Grants g) (hu : w.memory.Usable c) (columns : List Column)
    (rows : List Row) : ∃ ds w', account h cb (deliver ret columns c rows) w =
      ⟨ds, Outcome.ofResult (ret.ofRows columns rows), w'⟩ ∧ w'.memory.Usable c := by
  unfold deliver
  rw [account_bind, account_ofResult]
  cases ret.ofRows columns rows with
  | error err => exact ⟨[], w, rfl, hu⟩
  | ok value =>
    have hflag : account h cb (Session.autocommit c) w = ⟨[], .ok (w.memory.flag c), w⟩ := by
      unfold Session.autocommit
      rw [Session.account_checked_of_usable hu]
      rfl
    change ∃ ds w', (account h cb (Session.autocommit c >>= fun on ↦ _) w).after [] = _ ∧ _
    rw [account_bind, hflag, Account.andThen_ok]
    cases w.memory.flag c with
    | false => exact ⟨_, _, rfl, hu⟩
    | true =>
      have hcommit : account h cb (Session.commit c) w =
          ⟨[⟨.commit c, none⟩], .ok (), (h.act (.commit c) w).2⟩ :=
        (Session.account_checked_of_usable hu _).trans (hg.account_operate (.commit c) w)
      change ∃ ds w', ((account h cb (Session.commit c >>= fun _ ↦ pure value) w).after []).after [] = _ ∧ _
      rw [account_bind, hcommit]
      exact ⟨_, _, rfl, Entry.usable_act (.commit c) hu⟩

theorem account_query_granted (hg : h.Grants g) (hu : w.memory.Usable c) (sql : String)
    (params : List Value) : ∃ cursor w', account h cb (Session.query c sql params) w =
        ⟨[⟨.query c sql params, none⟩], .ok cursor, w'⟩ ∧
      cursor.columns = (Operation.resultOf g c sql params).columns ∧
      cursor.rows = (Operation.resultOf g c sql params).rows ∧
      (cursor.rowCount = none ∨ cursor.rowCount = some cursor.rows.length) ∧ w'.memory.Usable c := by
  generalize hrs : Operation.resultOf g c sql params = rs
  obtain rfl : g (.query c sql params) = rs := hrs
  refine ⟨(Operation.query c sql params).complete (w.memory.cursors + 1) _, _,
    (Session.account_checked_of_usable hu _).trans (hg.account_operate (.query c sql params) w),
    rfl, rfl, ?_, Entry.usable_act _ hu⟩
  obtain ⟨columns, rows, _ | _⟩ := (g (.query c sql params) : ResultSet)
  · exact .inl rfl
  · exact .inr rfl

theorem account_queryBody_granted (hg : h.Grants g) (hu : w.memory.Usable c) (ret : Return)
    (r : Template.Rendered) : ∃ ds w', account h cb (queryBody ret r c) w =
      ⟨ds, Outcome.ofResult (ret.of (Operation.resultOf g c r.sql r.params)), w'⟩ ∧ w'.memory.Usable c := by
  obtain ⟨cursor, w₁, hquery, hcolumns, hrows, hcount, hu₁⟩ : ∃ cursor w₁,
      account h cb (Session.query c r.sql r.params) w = _ ∧ _ :=
    account_query_granted hg hu r.sql r.params
  obtain ⟨reads, w₂, hreading, -, hread⟩ : ∃ reads w₂,
      account h cb (reading cursor (cursor.pull ret.strategy)) w₁ = _ ∧ _ :=
    account_reading_succeeds hg.lawful hg.returns (.pullRows cursor ret.strategy)
      (hg.readsSucceed _ w₁) fun _ ↦ cursor.outcome_pull hg hcount ret.strategy w₁
  have hu₂ : w₂.memory.Usable c := (hread.quiet []).usable hu₁
  rw [account_queryBody, account_bind, hquery, Account.andThen_ok, account_bind, hreading]
  rw [Return.of, ← hrows, ← hcolumns]
  cases ret.strategy.pick cursor.rows with
  | error err => exact ⟨_, _, rfl, hu₂⟩
  | ok rows =>
    obtain ⟨ds, w₃, hdeliver, hu₃⟩ : ∃ ds w₃,
        account h cb (deliver ret cursor.columns c rows) w₂ = _ ∧ _ :=
      account_deliver_granted hg hu₂ cursor.columns rows
    change ∃ ds w', ((account h cb (deliver ret cursor.columns c rows) w₂).after reads).after _ = _ ∧ _
    rw [hdeliver]
    exact ⟨_, _, rfl, hu₃⟩

theorem outcome_exit_granted (hg : h.Grants g) {e : Entry} (hu : w.memory.Usable e.connection)
    (r : Except Error α) : (account h cb (Entry.exit e r) w).outcome = Outcome.ofResult r := by
  cases r with
  | error err =>
    rw [Entry.account_exit_error hg.returns]
    rfl
  | ok a =>
    have hnone : (account h cb (Entry.exit e (.ok a)) w).deeds.findSome? Deed.fault = none :=
      List.findSome?_eq_none_iff.2 (hg.deeds _ w)
    rw [Entry.outcome_exit_ok hg.lawful hg.returns fun _ ↦ hu, hnone]
    rfl

theorem outcome_query_granted (hg : h.Grants g) {f : Bound} {args : Arguments}
    (hr : f.Renders w.memory args r) (ha : w.memory.Admits thread f.binder) (ret : Return) :
    (account h cb (query thread f ret args) w).outcome = Outcome.ofResult
      (ret.of (Operation.resultOf g (w.memory.connectionFor thread f.binder) r.sql r.params)) := by
  have hquery : account h cb (query thread f ret args) w = account h cb
      (f.render args >>= fun r ↦ scope thread f.binder true (queryBody ret r)) w := rfl
  have hrender : account h cb (f.render args) w = ⟨[], .ok r, w⟩ := hr.account_render
  obtain ⟨p, hp, -⟩ := hr
  obtain ⟨ds, e, w₁, henter, hc, hu⟩ : ∃ ds e w₁,
      account h cb (enter thread f.binder true) w = ⟨ds, .ok e, w₁⟩ ∧ _ :=
    account_enter_granted hg hp ha
  obtain ⟨ds', w₂, hbody, hu'⟩ : ∃ ds' w₂, account h cb (queryBody ret r e.connection) w₁ = _ ∧ _ :=
    account_queryBody_granted hg hu ret r
  -- The template is rendered, the scope is entered, its body is run, and the scope is left.
  rw [hquery, account_bind, hrender, Account.andThen_ok, Account.after_nil, scope, account_bind, henter,
    Account.andThen_ok, account_enclosing_result hg.returns e hbody, ← hc]
  exact outcome_exit_granted hg hu' _

end Blocking

/-- Nothing goes on in the background, where something could, and no statement runs a step. -/
structure Runtime.Alone (s : Runtime σ) : Prop extends s.Idle where
  able : s.memory.tasks
  busy : s.memory.busy = []

namespace Async

variable {s : Runtime σ} {scopes : Scopes} {r : Template.Rendered}

def Scopes.actives (scopes : Scopes) : Actives := scopes.map fun p ↦ ((0, p.1), p.2)

theorem Scopes.of_actives (scopes : Scopes) : scopes.Of scopes.actives := by
  intro b
  induction scopes with
  | nil => rfl
  | cons p scopes ih =>
    obtain ⟨b', c⟩ := p
    change List.lookup b ((b', c) :: scopes) = List.lookup (0, b) (((0, b'), c) :: actives scopes)
    rw [List.lookup_cons, List.lookup_cons, ih]
    have hkey : ((0, b) == ((0, b') : Nat × Nat)) = (b == b') := by simp [BEq.beq]
    rw [hkey]

def alongside (scopes : Scopes) (s : Runtime σ) : World σ :=
  ⟨{ s.memory with active := scopes.actives }, s.world.host⟩

theorem alongside_self (hs : s.Alone) (scopes : Scopes) (L : Nat → Nat → Prop) :
    Alongside L (fun _ _ ↦ True) (alongside scopes s) s where
  memory := ⟨rfl, rfl, rfl, rfl, rfl, hs.busy, hs.busy, hs.able⟩
  host := trivial
  started j hj := by
    rw [hs.started] at hj
    cases hj

theorem query_granted (hg : h.Grants g) {x₀ : Context} (hs : s.Alone) {f : Bound}
    {args : Arguments} (hr : f.Renders s.memory args r)
    (hheld : ∀ c, scopes.lookup f.binder = some c → s.memory.Holds c) (ret : Return) :
    (query scopes f ret args).run.ComesTo h (Job.run x₀) s (Outcome.ofResult (ret.of
      (Operation.resultOf g ((scopes.lookup f.binder).getD (s.memory.leases + 1)) r.sql r.params))) := by
  have hlookup : (alongside scopes s).memory.active.lookup (0, f.binder) = scopes.lookup f.binder :=
    (scopes.of_actives f.binder).symm
  have hadmits : (alongside scopes s).memory.Admits 0 f.binder := by
    constructor
    · change _ ∉ s.memory.busy
      rw [hs.busy]
      exact List.not_mem_nil
    · intro c hc
      exact hheld c (hlookup.symm.trans hc)
  -- The answers mention no callback, so any will do.
  let cb : Callback σ := fun _ w ↦ (.step (.ok .unit) [] [] none, w)
  have hquery : (account h cb (Blocking.query 0 f ret args) (alongside scopes s)).outcome = _ :=
    Blocking.outcome_query_granted (w := alongside scopes s) hg hr hadmits ret
  rw [Memory.connectionFor, hlookup] at hquery
  have hreturns : (f.render args).Returns h cb (alongside scopes s) := by
    have hrendered : f.rendering (alongside scopes s).memory args = .ok r := hr.rendering
    rw [Call.Returns, Bound.exec_render, hrendered]
    rfl
  have htwins : Twin h (fun _ _ ↦ True) _ (alongside scopes s) (Blocking.query 0 f ret args).run
      (query scopes f ret args).run :=
    f.twins_query cb scopes.of_actives ret args _ ⟨rfl, hreturns, fun _ _ _ ↦ trivial⟩
  exact htwins.comesTo (hg.indifferent _) (alongside_self hs scopes _) hs.tasks
    fun b' (hb : b' = (account h cb (Blocking.query 0 f ret args) (alongside scopes s)).outcome ∧ _) ↦
      hb.1.trans hquery

end Async

/-- A cursor that is fresh gives no rows, all of them, or at most one and otherwise their number,
whether it tells it in advance or not, however it fetches all rows, and whether or not its use awaits
anything. So a bound call returns what its rows make, whether it blocks or not. -/
theorem queries_return_rows :
    (∀ {m : Type → Type} [Monad m] [MonadExceptOf Error m] {γ : Type} {ev : Cursor.Evaluation m γ}
      {rowCount : Option Nat} {fetchOne : m (Option Row)} {fetchAll : m (List Row)} {c : γ}
      {rows : List Row}, Cursor.Fresh ev rowCount fetchOne fetchAll c rows →
      let fetched (s : Strategy) := ev.eval (Cursor.fetchRows rowCount fetchOne fetchAll s) c
      fetched .none = .ok ([], c) ∧ (∃ c', fetched .many = .ok (rows, c')) ∧
      ∀ required : Bool, (rows.length ≤ 1 → ∃ c', fetched (.one required) = .ok (rows, c')) ∧
        (2 ≤ rows.length → fetched (.one required) = .error (.error (.tooManyRows rows.length)))) ∧
    ∀ {σ : Type} {h : Host σ} {g : (o : Operation) → o.Raw}, h.Grants g →
      ∀ (f : Bound) (ret : Return) {args : Arguments} {r : Template.Rendered},
      (∀ (cb : Callback σ) (thread : Nat) (w : World σ), f.Renders w.memory args r →
        w.memory.Admits thread f.binder →
        let rs := Operation.resultOf g (w.memory.connectionFor thread f.binder) r.sql r.params
        ∃ x, (account h cb (Blocking.query thread f ret args) w).outcome = Outcome.ofResult x ∧
          ret.Makes rs.columns rs.rows x) ∧
      ∀ (x₀ : Context) (s : Runtime σ) (scopes : Async.Scopes), s.Alone → f.Renders s.memory args r →
        (∀ c, scopes.lookup f.binder = some c → s.memory.Holds c) →
        let rs := Operation.resultOf g
          ((scopes.lookup f.binder).getD (s.memory.leases + 1)) r.sql r.params
        ∃ x, (Async.query scopes f ret args).run.ComesTo h (Job.run x₀) s (Outcome.ofResult x) ∧
          ret.Makes rs.columns rs.rows x := by
  constructor
  · intro m _ _ γ ev rowCount fetchOne fetchAll c rows hc fetched
    refine ⟨Cursor.eval_none .., hc.eval_many, fun required ↦ ⟨fun hle ↦ ?_, fun hlt ↦ ?_⟩⟩
    · exact hc.eval_of_pick_ok (if_pos hle)
    · exact hc.eval_of_pick_error (if_neg (Nat.not_le.2 hlt))
  · intro σ h g hg f ret args r
    constructor
    · intro cb thread w hr ha
      exact ⟨_, Blocking.outcome_query_granted hg hr ha ret, Return.makes_pick _ ret _⟩
    · intro x₀ s scopes hs hr hheld
      exact ⟨_, Async.query_granted hg hs hr hheld ret, Return.makes_pick _ ret _⟩

def Script.granted (r : ResultSet) : (o : Operation) → o.Raw
  | .execute _ _ _ => r.rows.length
  | .query _ _ _ => r
  | .idle _ => (none : Option Nat)
  | .inTransaction _ => (none : Option Bool)
  | .lease _ | .fetch _ _ _ | .close _ _ | .commit _ | .rollback _ | .release _ _ | .instruct _ => ()

theorem Script.grants_granting (r : ResultSet) : (Script.granting r).Grants (Script.granted r) := by
  intro m o n s
  cases o <;> rfl

/-- Two rows for an optional one: the buffered cursor knows their number, the other ones find it. -/
theorem queries_return_rows_two :
    let rows : List Row := [[.null], [.null]]
    let h := Script.granting ⟨[], rows, false⟩
    let m := { Program.ready with tasks := true }
    let ret := Return.optional (.scalar ⟨.bool, true⟩)
    let failure : Outcome Mapped := .error (.error (.tooManyRows 2))
    (Cursor.Evaluation.direct Cursor.Buffered).eval
        (Cursor.fetchRows (some 2) (ExceptT.lift Cursor.Buffered.fetchOne)
          (ExceptT.lift Cursor.Buffered.fetchAll) (.one false)) (.ofRows [] rows) =
      .error (.error (.tooManyRows 2)) ∧
    (∃ cb, (account h cb (Blocking.query 0 Bound.deletion ret .none) ⟨m, ()⟩).outcome = failure) ∧
    ∃ es s, Reaches h (Job.run (Context.start .async))
      (.start (Async.query [] Bound.deletion ret .none).run) ⟨⟨m, ()⟩, []⟩ es (.done failure) s := by
  intro rows h m ret failure
  obtain ⟨hcursors, hcalls⟩ := queries_return_rows
  have hfresh := Cursor.Buffered.fresh [] rows
  obtain ⟨-, -, hone⟩ := hcursors hfresh
  have hg : h.Grants (Script.granted ⟨[], rows, false⟩) := Script.grants_granting _
  obtain ⟨hblocking, hasync⟩ := @hcalls Unit h _ hg Bound.deletion ret .none ⟨"DELETE", []⟩
  have hr : Bound.deletion.Renders m .none ⟨"DELETE", []⟩ := ⟨_, rfl, rfl⟩
  have hmade : ∀ {x : Except Error Mapped}, (Return.optional (.scalar ⟨.bool, true⟩)).Makes []
      [[.null], [.null]] x → Outcome.ofResult x = failure := by
    intro x hx
    cases hx with
    | tooMany => rfl
  refine ⟨(hone false).2 (by decide), ?_, ?_⟩
  · have hadmits : m.Admits 0 0 := ⟨List.not_mem_nil, nofun⟩
    obtain ⟨x, hx, hmakes⟩ :=
      hblocking (fun _ w ↦ (.step (.ok .unit) [] [] none, w)) 0 ⟨m, ()⟩ hr hadmits
    exact ⟨_, hx.trans (hmade hmakes)⟩
  · have hidle : Runtime.Alone (σ := Unit) ⟨⟨m, ()⟩, []⟩ := ⟨⟨rfl, rfl⟩, rfl, rfl⟩
    obtain ⟨x, hcomes, hmakes⟩ := hasync (Context.start .async) ⟨⟨m, ()⟩, []⟩ [] hidle hr (fun _ ↦ nofun)
    obtain ⟨⟨es, b, s, hreach⟩, -⟩ := hcomes _ _ _ .refl
    obtain rfl : b = Outcome.ofResult x := (hcomes _ _ _ hreach).2 b rfl
    rw [hmade hmakes] at hreach
    exact ⟨es, s, hreach⟩

end BoundSql
