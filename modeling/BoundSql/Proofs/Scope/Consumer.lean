import BoundSql.Proofs.Scope.Leaving
import BoundSql.Proofs.Scope.Stream

namespace BoundSql

open Call

variable {σ α β : Type} {h : Host σ} {cb : Callback σ} {w : World σ}

/-- Reads up to `n` rows, and goes on with each of them when it has taken its shape. -/
def Cursor.walk (shape : Shape) (columns : List Column) (k : β → Mapped → Call β) :
    Nat → β → Cursor → Call β
  | 0, b, _ => pure b
  | n + 1, b, c => do
    match ← Cursor.fetchOne.run c with
    | (none, _) => return b
    | (some row, c) =>
      let x ← Call.ofResult (shape.ofRow columns row)
      let b ← k b x
      walk shape columns k n b c

section

variable {c : Cursor} {row : Row} {rows : List Row}

theorem Cursor.rows_advance (hrows : c.rows = row :: rows) : c.advance.rows = rows :=
  congrArg List.tail hrows

theorem Cursor.length_advance_lt (hrows : c.rows = row :: rows) {n : Nat}
    (hn : c.rows.length < n + 1) : c.advance.rows.length < n := by
  rw [rows_advance hrows]
  rw [hrows] at hn
  exact Nat.lt_of_succ_lt_succ hn

end

namespace Blocking

def reading (c : Cursor) (p : Call α) : Call α := do
  let a ← closingOnFailure c p
  c.close
  return a

/-- Takes items from a stream until there are none, at most `n` of them, and goes on with each one. It
ends at the first failure; the stream is dropped in any case. -/
def consume (k : β → Mapped → Call β) : Nat → β → Stream → Call β
  | 0, b, s => do
    dropStream s
    return b
  | n + 1, b, s => do
    match ← ExceptT.lift (next s) with
    | (.ok (some (.ok x)), s) =>
      match ← (k b x).outcome with
      | .ok b => consume k n b s
      | .error f =>
        dropStream s
        throw f
    | (.ok (some (.error e)), s) =>
      dropStream s
      Call.fail e
    | (.ok none, s) =>
      dropStream s
      return b
    | (.error f, s) =>
      dropStream s
      throw f

def forEach (thread : Nat) (f : Bound) (shape : Shape) (args : Arguments) (b : β)
    (k : β → Mapped → Call β) : Call β := do
  let s ← stream thread f shape args
  consume k (s.cursor.rows.length + 1) b s

end Blocking

namespace Stream

/-- Not read to its end yet; it has the scope of `e` to itself if that scope leased its connection. -/
structure OpenIn (e : Entry) (s : Stream) : Prop where
  entry : s.entry = if e.owner then some e else none
  closed : s.closed = false
  finished : s.finished = false

def start (e : Entry) (shape : Shape) (c : Cursor) : Stream :=
  ⟨c, c.columns, shape, if e.owner then some e else none, false, false⟩

def ended (s : Stream) : Stream := { s with finished := true, closed := true, entry := none }

def advance (s : Stream) : Stream := { s with cursor := s.cursor.advance }

variable {e : Entry} {s : Stream}

theorem OpenIn.advance (hs : s.OpenIn e) : s.advance.OpenIn e := ⟨hs.entry, hs.closed, hs.finished⟩

end Stream

namespace Blocking

variable {e : Entry} {s : Stream}

def itemOf : Outcome Unit → Outcome Item
  | .ok _ => .ok none
  | .error (.error err) => .ok (some (.error err))
  | .error (.panic m) => .error (.panic m)

theorem account_fetchOne (c : Cursor) (w : World σ) :
    account h cb (Cursor.fetchOne.run c) w =
      let t := account h cb (operate (.fetch c.connection c.id c.fetched)) w
      t.as (t.outcome.map fun _ ↦ (c.rows.head?, c.advance)) := by
  have hc : Cursor.fetchOne.run c = ExceptT.mk _ := Cursor.run_fetchOne c
  rw [hc]
  rfl

def leave (s : Stream) (r : Except Error Unit) : Action (Outcome Item × Stream) :=
  match s.entry with
  | some e => do return (itemOf (← (Entry.exit e r).run), s.ended)
  | none => return (itemOf (Outcome.ofResult r), { s with finished := true, closed := true })

theorem account_leave (hs : s.OpenIn e) (r : Except Error Unit) (w : World σ) :
    account h cb (ExceptT.lift (leave s r)) w =
      let t := account h cb (Entry.exit e r) w
      t.as (.ok (itemOf t.outcome, s.ended)) := by
  obtain ⟨cursor, columns, shape, entry, closed, finished⟩ := s
  obtain rfl : entry = _ := hs.entry
  unfold leave
  cases ho : e.owner with
  | true =>
    rw [if_pos rfl]
    dsimp only
    rw [account_lift_run_bind, account_lift]
    simp [Account.as, Account.after]
  | false =>
    rw [if_neg Bool.false_ne_true, Entry.account_exit_joined ho, account_lift]
    rfl

theorem finish_eq (s : Stream) (failure : Option Error) :
    finish s failure = (caught s.cursor.close).run >>= fun
      | .error f => return (.error f, { s with finished := true, closed := true })
      | .ok closed => leave s (match failure with
        | some err => .error err
        | none => closed) := by
  refine congrArg (_ >>= ·) (funext fun r ↦ ?_)
  cases r with
  | error f => rfl
  | ok closed =>
    unfold leave
    cases s.entry <;> cases failure <;> rfl

theorem account_finish_error (hr : h.Returns) (hs : s.OpenIn e) (err : Error) (w : World σ) :
    account h cb (ExceptT.lift (finish s (some err))) w =
      let c := account h cb s.cursor.close w
      ((account h cb (Entry.abandon e) c.world).as
        (.ok (.ok (some (.error err)), s.ended))).after c.deeds := by
  rw [finish_eq, account_lift_run_bind, account_caught]
  have hclose : s.cursor.close.Forwards h cb := .close hr _
  obtain ⟨ds, u, w', hc⟩ | ⟨ds, err', w', hc⟩ := hclose.cases w
  all_goals
    rw [hc]
    dsimp only [Account.caught]
    rw [account_leave hs, Entry.account_exit_error hr]
    rfl

theorem account_finish_none (hr : h.Returns) (hs : s.OpenIn e) (w : World σ) :
    account h cb (ExceptT.lift (finish s none)) w = match account h cb s.cursor.close w with
      | ⟨ds, .ok _, w⟩ =>
        let t := account h cb (Entry.exit e (.ok ())) w
        (t.as (.ok (itemOf t.outcome, s.ended))).after ds
      | ⟨ds, .error f, w⟩ =>
        ((account h cb (Entry.abandon e) w).as (.ok (itemOf (.error f), s.ended))).after ds := by
  rw [finish_eq, account_lift_run_bind, account_caught]
  have hclose : s.cursor.close.Forwards h cb := .close hr _
  obtain ⟨ds, u, w', hc⟩ | ⟨ds, err, w', hc⟩ := hclose.cases w
  · rw [hc]
    dsimp only [Account.caught]
    rw [account_leave hs]
  · rw [hc]
    dsimp only [Account.caught]
    rw [account_leave hs, Entry.account_exit_error hr]
    rfl

/-- The next item of a stream that has not ended, by how the fetch goes and by what the row takes. -/
theorem account_next (hr : h.Returns) (hs : s.OpenIn e) (w : World σ) :
    account h cb (ExceptT.lift (next s)) w =
      match account h cb (operate (.fetch s.cursor.connection s.cursor.id s.cursor.fetched)) w with
      | ⟨ds, .error (.error err), w⟩ => (account h cb (ExceptT.lift (finish s (some err))) w).after ds
      | ⟨ds, .error (.panic m), w⟩ => ⟨ds, .ok (.error (.panic m), s), w⟩
      | ⟨ds, .ok _, w⟩ =>
        match s.cursor.rows.head?.map (s.shape.ofRow s.columns) with
        | none => (account h cb (ExceptT.lift (finish s.advance none)) w).after ds
        | some (.ok x) => ⟨ds, .ok (.ok (some (.ok x)), s.advance), w⟩
        | some (.error err) =>
          (account h cb (ExceptT.lift (finish s.advance (some err))) w).after ds := by
  unfold next
  rw [if_neg (by simp [hs.finished]), account_lift_run_bind, account_fetchOne]
  have hop : Call.Forwards h cb
      (operate (.fetch s.cursor.connection s.cursor.id s.cursor.fetched)) := .operate hr _
  obtain ⟨ds, u, w', hf⟩ | ⟨ds, err, w', hf⟩ := hop.cases w
  · rw [hf]
    cases s.cursor.rows.head? with
    | none => rfl
    | some row =>
      simp only [Account.as_mk, Except.map, Option.map_some]
      cases s.shape.ofRow s.columns row with
      | error err => rfl
      | ok x => simp [Stream.advance]
  · rw [hf]
    rfl

theorem account_dropStream (hr : h.Returns) (hs : s.OpenIn e) (w : World σ) :
    account h cb (dropStream s) w =
      let c := account h cb s.cursor.close w
      ((account h cb (Entry.abandon e) c.world).as (.ok ())).after c.deeds := by
  unfold dropStream
  rw [hs.closed, if_neg Bool.false_ne_true, account_outcome_bind, account_closeQuietly hr, hs.entry]
  cases ho : e.owner with
  | true =>
    rw [if_pos rfl]
    simp only [account_bind, Account.as_world, Account.as_deeds]
    have hok : (account h cb (Entry.abandon e) (account h cb s.cursor.close w).world).outcome = .ok () :=
      Entry.outcome_abandon hr e _
    generalize account h cb (Entry.abandon e) (account h cb s.cursor.close w).world = t at hok ⊢
    obtain ⟨ds, r, w'⟩ := t
    obtain rfl : r = .ok () := hok
    simp
  | false =>
    rw [if_neg Bool.false_ne_true]
    dsimp only
    rw [Entry.account_abandon_joined ho]
    simp

theorem account_dropStream_ended (s : Stream) (w : World σ) :
    account h cb (dropStream s.ended) w = ⟨[], .ok (), w⟩ := rfl

theorem account_reading (hr : h.Returns) (c : Cursor) (p : Call α) (w : World σ) :
    account h cb (reading c p) w = match account h cb p w with
      | ⟨ds, .ok a, w⟩ =>
        let t := account h cb c.close w
        (t.as (t.outcome.map fun _ ↦ a)).after ds
      | ⟨ds, .error f, w⟩ => ((account h cb c.close w).as (.error f)).after ds := by
  unfold reading
  rw [account_bind, account_closingOnFailure hr]
  rcases account h cb p w with ⟨ds, f | a, w'⟩
  · simp [Account.as]
  · simp only [Account.andThen_ok, account_bind]
    rcases account h cb c.close w' with ⟨ds', f | u, w''⟩ <;> simp [Except.map]

section

variable {γ : Type} {c : Cursor} {p : Call α} {g : α → Call γ} {ds : List Deed} {w' : World σ}

theorem account_reading_pure (hr : h.Returns) (e : Entry) (c : Cursor) (a : α) (w : World σ) :
    account h cb (Entry.enclosing e (reading c (pure a))) w = match account h cb c.close w with
      | ⟨ds, .ok _, w⟩ => (account h cb (Entry.exit e (.ok a)) w).after ds
      | ⟨ds, .error f, w⟩ => ((account h cb (Entry.abandon e) w).as (.error f)).after ds := by
  rw [Entry.account_enclosing hr, account_reading hr, account_pure]
  dsimp only
  rcases account h cb c.close w with ⟨ds, f | u, w'⟩ <;> simp [Except.map]

theorem account_reading_of_ok (hr : h.Returns) (e : Entry) (c : Cursor) {a : α}
    (hp : account h cb p w = ⟨ds, .ok a, w'⟩) :
    account h cb (Entry.enclosing e (reading c (p >>= g))) w =
      (account h cb (Entry.enclosing e (reading c (g a))) w').after ds := by
  rw [Entry.account_enclosing hr, Entry.account_enclosing hr, account_reading hr, account_reading hr,
    account_bind, hp, Account.andThen_ok]
  rcases account h cb (g a) w' with ⟨ds', f | x, w''⟩
  · simp [Account.as]
  · dsimp only [Account.after_mk]
    rcases account h cb c.close w'' with ⟨ds'', f | u, w₃⟩ <;> simp [Except.map]

theorem account_reading_of_error (hr : h.Returns) (e : Entry) (c : Cursor) {f : Fault}
    (hp : account h cb p w = ⟨ds, .error f, w'⟩) :
    account h cb (Entry.enclosing e (reading c (p >>= g))) w =
      let t := account h cb c.close w'
      ((account h cb (Entry.abandon e) t.world).as (.error f)).after (ds ++ t.deeds) := by
  rw [Entry.account_enclosing hr, account_reading hr, account_bind, hp]
  simp [Account.as]

end

theorem close_advance (s : Stream) : s.advance.cursor.close = s.cursor.close := rfl

section

variable {k : β → Mapped → Call β} {n : Nat} {b : β} {ds : List Deed} {t : Stream} {w' : World σ}

theorem account_consume_none
    (hn : account h cb (ExceptT.lift (next s)) w = ⟨ds, .ok (.ok none, t.ended), w'⟩) :
    account h cb (consume k (n + 1) b s) w = ⟨ds, .ok b, w'⟩ := by
  unfold consume
  rw [account_bind, hn]
  simp [account_bind, account_dropStream_ended]

theorem account_consume_error {err : Error}
    (hn : account h cb (ExceptT.lift (next s)) w =
      ⟨ds, .ok (.ok (some (.error err)), t.ended), w'⟩) :
    account h cb (consume k (n + 1) b s) w = ⟨ds, .error (.error err), w'⟩ := by
  unfold consume
  rw [account_bind, hn]
  simp [account_bind, account_dropStream_ended]

theorem account_consume_some {x : Mapped}
    (hn : account h cb (ExceptT.lift (next s)) w = ⟨ds, .ok (.ok (some (.ok x)), t), w'⟩) :
    account h cb (consume k (n + 1) b s) w = match account h cb (k b x) w' with
      | ⟨ds', .ok b, w⟩ => (account h cb (consume k n b t) w).after (ds ++ ds')
      | ⟨ds', .error f, w⟩ =>
        ((account h cb (dropStream t) w).andThen fun _ w ↦ ⟨[], .error f, w⟩).after (ds ++ ds') := by
  rw [consume, account_bind, hn, Account.andThen_ok]
  dsimp only
  rw [account_outcome_bind, Account.after_after]
  rcases account h cb (k b x) w' with ⟨ds', f | b', w''⟩
  · simp [account_bind]
  · rfl

end

theorem account_consume (hr : h.Returns) {n : Nat} (hs : s.OpenIn e) (hn : s.cursor.rows.length < n)
    (k : β → Mapped → Call β) (b : β) (w : World σ) :
    account h cb (consume k n b s) w = account h cb (Entry.enclosing e
      (reading s.cursor (s.cursor.walk s.shape s.columns k n b))) w := by
  -- By induction on the number of items; each case is one of how the fetch can go.
  induction n generalizing s b w with
  | zero => omega
  | succ n ih =>
    have hfetch : account h cb (Cursor.fetchOne.run s.cursor) w = _ := account_fetchOne s.cursor w
    have hnext : account h cb (ExceptT.lift (next s)) w = _ := account_next hr hs w
    have hop : Call.Forwards h cb
      (operate (.fetch s.cursor.connection s.cursor.id s.cursor.fetched)) := .operate hr _
    unfold Cursor.walk
    obtain ⟨ds, u, w', hf⟩ | ⟨ds, err, w', hf⟩ := hop.cases w
    all_goals
      rw [hf] at hfetch hnext
      dsimp only [Account.as_mk, Except.map] at hfetch hnext
    · rw [account_reading_of_ok hr e _ hfetch]
      cases hrows : s.cursor.rows with
      | nil =>
        rw [hrows] at hnext
        dsimp only [List.head?_nil, Option.map_none] at hnext ⊢
        rw [account_finish_none hr hs.advance, close_advance] at hnext
        rw [account_reading_pure hr]
        have hclose : s.cursor.close.Forwards h cb := .close hr _
        obtain ⟨ds', u, w'', hc⟩ | ⟨ds', err, w'', hc⟩ := hclose.cases w'
        · rw [hc] at hnext ⊢
          dsimp only at hnext ⊢
          -- The end of the scope is the last item, unless all has succeeded.
          have hreturns : Outcome.isPanic (account h cb (Entry.exit e (.ok ())) w'').outcome = false :=
            Entry.returns_exit hr e (.ok ()) w''
          rw [Entry.account_exit_map hr e b]
          dsimp only
          generalize account h cb (Entry.exit e (.ok ())) w'' = t at hnext hreturns ⊢
          obtain ⟨ds'', (err | m) | u, w₃⟩ := t
          · exact account_consume_error hnext
          · cases hreturns
          · exact account_consume_none hnext
        · rw [hc] at hnext ⊢
          exact account_consume_error hnext
      | cons row rows =>
        rw [hrows] at hnext
        dsimp only [List.head?_cons, Option.map_some] at hnext ⊢
        cases hx : s.shape.ofRow s.columns row with
        | error err =>
          rw [hx] at hnext
          dsimp only at hnext
          rw [account_finish_error hr hs.advance, close_advance] at hnext
          rw [account_reading_of_error hr e _ (account_ofResult _), account_consume_error hnext]
          simp [Account.as, Account.after]
        | ok x =>
          rw [hx] at hnext
          rw [account_reading_of_ok hr e _ (account_ofResult _), account_consume_some hnext]
          rcases hk : account h cb (k b x) w' with ⟨ds', f | b', w''⟩
          · rw [account_reading_of_error hr e _ hk]
            dsimp only
            rw [account_dropStream hr hs.advance, close_advance]
            simp [Account.as, Account.after]
          · rw [account_reading_of_ok hr e _ hk]
            dsimp only
            rw [ih hs.advance (Cursor.length_advance_lt hrows hn)]
            simp only [Account.after_after]
            rfl
    · rw [account_finish_error hr hs] at hnext
      rw [account_reading_of_error hr e _ hfetch, account_consume_error hnext]
      simp [Account.as, Account.after]

theorem next_cases (hr : h.Returns) (hs : s.OpenIn e) (w : World σ) :
    (∃ ds x w', s.cursor.rows ≠ [] ∧
      account h cb (ExceptT.lift (next s)) w = ⟨ds, .ok (.ok (some (.ok x)), s.advance), w'⟩) ∨
    (∃ ds err t w', account h cb (ExceptT.lift (next s)) w =
      ⟨ds, .ok (.ok (some (.error err)), Stream.ended t), w'⟩) ∨
    ∃ ds t w', account h cb (ExceptT.lift (next s)) w = ⟨ds, .ok (.ok none, Stream.ended t), w'⟩ := by
  have hfail : ∀ {t : Stream} (err : Error) (w : World σ), t.OpenIn e → ∃ ds w',
      account h cb (ExceptT.lift (finish t (some err))) w =
        ⟨ds, .ok (.ok (some (.error err)), t.ended), w'⟩ := fun err w ht ↦
    ⟨_, _, account_finish_error hr ht err w⟩
  have hop : Call.Forwards h cb
      (operate (.fetch s.cursor.connection s.cursor.id s.cursor.fetched)) := .operate hr _
  rw [account_next hr hs]
  obtain ⟨ds, u, w', hf⟩ | ⟨ds, err, w', hf⟩ := hop.cases w
  · rw [hf]
    cases hrows : s.cursor.rows with
    | nil =>
      have hclose : s.advance.cursor.close.Forwards h cb := .close hr _
      refine .inr ?_
      dsimp only [List.head?_nil, Option.map_none]
      rw [account_finish_none hr hs.advance]
      obtain ⟨ds', u, w'', hc⟩ | ⟨ds', err, w'', hc⟩ := hclose.cases w'
      · have hexit : Outcome.isPanic (account h cb (Entry.exit e (.ok ())) w'').outcome = false :=
          Entry.returns_exit hr e (.ok ()) w''
        rw [hc]
        dsimp only
        generalize account h cb (Entry.exit e (.ok ())) w'' = t at hexit
        obtain ⟨ds'', (err | m) | u', w₃⟩ := t
        · exact .inl ⟨_, err, _, _, rfl⟩
        · cases hexit
        · exact .inr ⟨_, _, _, rfl⟩
      · rw [hc]
        exact .inl ⟨_, err, _, _, rfl⟩
    | cons row rows =>
      dsimp only [List.head?_cons, Option.map_some]
      cases s.shape.ofRow s.columns row with
      | ok x => exact .inl ⟨_, x, _, by simp, rfl⟩
      | error err =>
        obtain ⟨ds', w'', hw⟩ := hfail err w' hs.advance
        exact .inr (.inl ⟨ds ++ ds', err, _, w'', by dsimp only; rw [hw]; rfl⟩)
  · rw [hf]
    obtain ⟨ds', w'', hw⟩ := hfail err w' hs
    exact .inr (.inl ⟨ds ++ ds', err, _, w'', by dsimp only; rw [hw]; rfl⟩)

def push (xs : List Mapped) (x : Mapped) : Call (List Mapped) := pure (xs ++ [x])

/-- Items in a row and what collecting them comes to. An error is the last item. -/
inductive Itemizes : Outcome (List Mapped) → List (Except Error Mapped) → Prop
  | success (xs : List Mapped) : Itemizes (.ok xs) (xs.map .ok)
  | failure (xs : List Mapped) (err : Error) :
    Itemizes (.error (.error err)) (xs.map .ok ++ [.error err])

theorem account_pull_ended {x : Context} (hx : x.mode = .blocking) (s : Stream) (n : Nat)
    (w : World σ) : account h cb (ExceptT.lift (x.pull s.ended (n + 1))) w =
      ⟨[], .ok (.ok ([], true), s.ended), w⟩ := by
  have hnext : x.next s.ended = pure (.ok none, s.ended) := by
    rw [Context.next, hx]
    rfl
  rw [Context.pull, hnext]
  rfl

theorem account_pull (hr : h.Returns) {x : Context} (hx : x.mode = .blocking) {n : Nat}
    (hs : s.OpenIn e) (hn : s.cursor.rows.length < n) (ys : List Mapped) (w : World σ) :
    ∃ items t, account h cb (ExceptT.lift (x.pull s (n + 1))) w =
        (account h cb (consume push n ys s) w).as (.ok (.ok (items, true), Stream.ended t)) ∧
      Itemizes (account h cb (consume push n ys s) w).outcome (ys.map .ok ++ items) := by
  have hnext : ∀ s, x.next s = next s := fun s ↦ by rw [Context.next, hx]
  -- The rows in `ys` have been taken before; a stream that has ended gives no more items.
  induction n generalizing s ys w with
  | zero => omega
  | succ n ih =>
    rw [Context.pull, hnext, account_lift_bind]
    obtain ⟨ds, y, w', hrows, hw⟩ | ⟨ds, err, t, w', hw⟩ | ⟨ds, t, w', hw⟩ := next_cases hr hs w
    · obtain ⟨row, rows, hrows⟩ := List.exists_cons_of_ne_nil hrows
      obtain ⟨items, t, hp, hi⟩ :=
        ih hs.advance (Cursor.length_advance_lt hrows hn) (ys ++ [y]) w'
      have hpush : account h cb (push ys y) w' = ⟨[], .ok (ys ++ [y]), w'⟩ := rfl
      rw [account_consume_some hw, hpush, hw, Account.andThen_ok]
      refine ⟨.ok y :: items, t, ?_, by simpa using hi⟩
      dsimp only
      rw [account_lift_bind, hp]
      simp [Except.map]
      rfl
    · rw [account_consume_error hw, hw, Account.andThen_ok]
      refine ⟨[.error err], t, ?_, .failure ys err⟩
      dsimp only
      rw [account_lift_bind, account_pull_ended hx]
      simp [Except.map]
    · rw [account_consume_none hw, hw, Account.andThen_ok]
      refine ⟨[], t, by simp, ?_⟩
      rw [List.append_nil]
      exact .success ys

theorem stream_eq (thread : Nat) (f : Bound) (shape : Shape) (args : Arguments) :
    stream thread f shape args = f.render args >>= fun r ↦ enter thread f.binder false >>= fun e ↦
      Entry.guarded e (caught (Session.query e.connection r.sql r.params)) >>=
        Stream.onCursor e shape := rfl

theorem account_opening (hr : h.Returns) (e : Entry) (shape : Shape) (p : Call Cursor) (w : World σ) :
    account h cb (Entry.guarded e (caught p) >>= Stream.onCursor e shape) w =
      match account h cb p w with
      | ⟨ds, .ok c, w⟩ => ⟨ds, .ok (Stream.start e shape c), w⟩
      | ⟨ds, .error f, w⟩ => ((account h cb (Entry.abandon e) w).as (.error f)).after ds := by
  rw [account_bind, Entry.account_guarded, account_caught]
  rcases account h cb p w with ⟨ds, (err | m) | c, w'⟩
  · simp only [Account.caught, Account.andThen_ok, Stream.onCursor, Entry.account_exit_error hr]
  · simp [Account.caught]
  · simp [Account.caught, Stream.onCursor, Stream.start]

def streamBody (shape : Shape) (b : β) (k : β → Mapped → Call β) (r : Template.Rendered) (c : Nat) :
    Call β := do
  let cursor ← Session.query c r.sql r.params
  reading cursor (cursor.walk shape cursor.columns k (cursor.rows.length + 1) b)

/-- A loop over a stream of its own is a connection scope that walks over the rows, but for its connection
not being the active one. -/
theorem account_forEach (hr : h.Returns) (thread : Nat) (f : Bound) (shape : Shape) (args : Arguments)
    (b : β) (k : β → Mapped → Call β) (w : World σ) :
    account h cb (forEach thread f shape args b k) w = account h cb (f.render args >>= fun r ↦
      scope thread f.binder false (streamBody shape b k r)) w := by
  unfold forEach scope
  rw [stream_eq]
  simp only [account_bind, Account.andThen_andThen]
  refine congrArg _ (funext fun r ↦ funext fun w ↦ congrArg _ (funext fun e ↦ funext fun w ↦ ?_))
  have hopen : account h cb (Entry.guarded e (caught (Session.query e.connection r.sql r.params)) >>=
      Stream.onCursor e shape) w = _ := account_opening hr e shape _ w
  rw [account_bind] at hopen
  rw [← Account.andThen_andThen, hopen, Entry.account_enclosing hr]
  unfold streamBody
  rw [account_bind]
  rcases account h cb (Session.query e.connection r.sql r.params) w with ⟨ds, f | c, w'⟩
  · simp
  · have hs : (Stream.start e shape c).OpenIn e := ⟨rfl, rfl, rfl⟩
    have hc : account h cb (consume k ((Stream.start e shape c).cursor.rows.length + 1) b
        (Stream.start e shape c)) w' = account h cb (Entry.enclosing e (reading c
          (c.walk shape c.columns k (c.rows.length + 1) b))) w' :=
      account_consume hr hs (Nat.lt_succ_self _) k b w'
    simp only [Account.andThen_ok]
    rw [hc, Entry.account_enclosing hr]
    rcases account h cb (reading c _) w' with ⟨ds', f | a, w''⟩ <;> simp

def collect (thread : Nat) (f : Bound) (shape : Shape) (args : Arguments) : Call (List Mapped) :=
  forEach thread f shape args [] push

/-- Opens a stream and takes its items until there are no more. -/
def drain (x : Context) (f : Bound) (shape : Shape) (args : Arguments) :
    Call (List (Except Error Mapped) × Bool) := do
  let s ← stream x.thread f shape args
  let (r, _) ← ExceptT.lift (x.pull s (s.cursor.rows.length + 2))
  ExceptT.mk (.done r)

theorem openIn_of_stream (hr : h.Returns) {thread : Nat} {f : Bound} {shape : Shape}
    {args : Arguments} (hs : (account h cb (stream thread f shape args) w).outcome = .ok s) :
    ∃ e, s.OpenIn e := by
  unfold stream at hs
  rw [account_bind] at hs
  obtain ⟨r, -, hs⟩ := Account.of_andThen_ok hs
  rw [account_bind] at hs
  obtain ⟨e, -, hs⟩ := Account.of_andThen_ok hs
  rw [account_bind] at hs
  obtain ⟨err | c, -, hs⟩ := Account.of_andThen_ok hs
  · dsimp only at hs
    rw [Entry.account_exit_error hr] at hs
    cases hs
  · cases hs
    exact ⟨e, rfl, rfl, rfl⟩

/-- Whoever takes all items of a stream sees what collecting them comes to, unless there is no stream. -/
theorem account_drain (hr : h.Returns) {x : Context} (hx : x.mode = .blocking) (f : Bound)
    (shape : Shape) (args : Arguments) (w : World σ) :
    let t := account h cb (collect x.thread f shape args) w
    (∃ err, account h cb (drain x f shape args) w = t.as (.error err) ∧ t.outcome = .error err) ∨
      ∃ items, account h cb (drain x f shape args) w = t.as (.ok (items, true)) ∧
        Itemizes t.outcome items := by
  unfold drain collect forEach
  rw [account_bind, account_bind]
  rcases ht : account h cb (stream x.thread f shape args) w with ⟨ds, err | s, w'⟩
  · exact .inl ⟨err, rfl, rfl⟩
  · obtain ⟨e, hs⟩ : ∃ e, s.OpenIn e := openIn_of_stream hr (congrArg Account.outcome ht)
    obtain ⟨items, t, hp, hi⟩ : ∃ items t, account h cb
        (ExceptT.lift (x.pull s (s.cursor.rows.length + 1 + 1))) w' = _ ∧ _ :=
      account_pull hr hx hs (Nat.lt_succ_self _) [] w'
    refine .inr ⟨items, ?_, hi⟩
    rw [Account.andThen_ok, account_bind, hp]
    simp
    rfl

end Blocking

end BoundSql
