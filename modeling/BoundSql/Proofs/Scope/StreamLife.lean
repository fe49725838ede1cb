import BoundSql.Proofs.Scope.CursorLife
import BoundSql.Proofs.Scope.Handover

namespace BoundSql

open Call

variable {σ α β : Type} {h : Host σ} {cb : Callback σ} {w : World σ} {e : Entry}

/-- What the end of a scope asks for, where a success or a failure is reported to it. A joined entry
leaves all to the scope that it has joined. -/
inductive Entry.Concludes (e : Entry) : Bool → List Deed → Prop
  | joined (ho : e.owner = false) (ok : Bool) : Concludes e ok []
  | committed (ho : e.owner) (f : Option Fault) :
    Concludes e true [⟨.commit e.connection, none⟩, ⟨.release e.binder e.connection, f⟩]
  | uncommitted (ho : e.owner) (f : Fault) (f' f'' : Option Fault) :
    Concludes e true [⟨.commit e.connection, some f⟩, ⟨.rollback e.connection, f'⟩,
      ⟨.release e.binder e.connection, f''⟩]
  | rolledBack (ho : e.owner) (f f' : Option Fault) :
    Concludes e false [⟨.rollback e.connection, f⟩, ⟨.release e.binder e.connection, f'⟩]

theorem Entry.Concludes.terminal {ok : Bool} {ds : List Deed} (hd : e.Concludes ok ds) :
    ∀ d ∈ ds, d.operation.isTerminal := by
  cases hd <;> simp [Operation.isTerminal]

theorem Call.account_act (hl : h.Lawful) {o : Operation} (ho : o.isStatement = false) :
    account h cb (operate o) w = ⟨[⟨o, (h.act o w).1.fault?⟩], (h.act o w).1, (h.act o w).2⟩ := by
  have hp : h.perform cb o w = h.act o w := hl.perform_eq ho
  rw [account_operate, hp]

namespace Session

variable {c : Nat}

theorem account_checked_of_usable (hu : w.memory.Usable c) (p : Call α) :
    account h cb (check c >>= fun _ ↦ p) w = account h cb p w := by
  rw [account_bind, account_check, if_neg hu.2, if_neg fun hn ↦ Memory.isNone_lookup_iff.1 hn hu.1,
    Account.andThen_ok, Account.after_nil]

theorem account_commit (hl : h.Lawful) (hu : w.memory.Usable c) :
    account h cb (commit c) w = ⟨[⟨.commit c, (h.act (.commit c) w).1.fault?⟩],
      (h.act (.commit c) w).1, (h.act (.commit c) w).2⟩ :=
  (account_checked_of_usable hu (operate (.commit c))).trans (account_act hl rfl)

theorem account_rollback (hl : h.Lawful) (hu : w.memory.Usable c) :
    account h cb (rollback c) w = ⟨[⟨.rollback c, (h.act (.rollback c) w).1.fault?⟩],
      (h.act (.rollback c) w).1, (h.act (.rollback c) w).2⟩ :=
  (account_checked_of_usable hu (operate (.rollback c))).trans (account_act hl rfl)

end Session

namespace Blocking.Entry

open BoundSql (Entry)

theorem account_release (hl : h.Lawful) (hu : w.memory.Usable e.connection) :
    account h cb (release e) w = ⟨[⟨.release e.binder e.connection, (e.handBack h w).1.fault?⟩],
      (e.handBack h w).1, (e.handBack h w).2⟩ := by
  have hn : (w.memory.held.lookup e.connection).isNone = false :=
    Bool.eq_false_iff.2 fun hn ↦ Memory.isNone_lookup_iff.1 hn hu.1
  have hp : account h cb (giveBack e) { w with memory := e.leave w.memory } =
      ⟨[⟨.release e.binder e.connection, (e.handBack h w).1.fault?⟩],
        (e.handBack h w).1, (e.handBack h w).2⟩ := account_act hl rfl
  -- Whether or not the connection was the active one, the scope still has it, and it is at rest.
  have hrest : ∀ m : Memory, m.held = w.memory.held → m.busy = w.memory.busy →
      account h cb (surrender e) { w with memory := m } =
        account h cb (giveBack e) { w with memory := m.letGo e.connection } := by
    intro m hheld hbusy
    unfold surrender
    rw [account_bind, account_read, Account.andThen_ok, Account.after_nil,
      if_neg (by rw [hbusy]; exact hu.2), if_neg (by rw [hheld, hn]; exact Bool.false_ne_true),
      account_bind, account_modify, Account.andThen_ok, Account.after_nil]
  rw [release_eq]
  by_cases hr : e.registered
  · rw [Entry.leave, if_pos hr] at hp
    rw [if_pos hr, account_bind, account_modify, Account.andThen_ok, Account.after_nil]
    exact (hrest (w.memory.deactivate e.thread e.binder) rfl rfl).trans hp
  · rw [Entry.leave, if_neg hr] at hp
    rw [if_neg hr]
    exact (hrest w.memory rfl rfl).trans hp

theorem concludes_abandon (hl : h.Lawful) (hr : h.Returns)
    (hu : e.owner → w.memory.Usable e.connection) :
    e.Concludes false (account h cb (abandon e) w).deeds := by
  cases ho : e.owner with
  | false =>
    rw [account_abandon_joined ho]
    exact .joined ho _
  | true =>
    rw [account_abandon hr ho, Session.account_rollback hl (hu ho)]
    dsimp only
    rw [account_release hl (Entry.usable_act _ (hu ho))]
    exact .rolledBack ho _ _

theorem concludes_exit (hl : h.Lawful) (hr : h.Returns)
    (hu : e.owner → w.memory.Usable e.connection) (a : α) :
    e.Concludes true (account h cb (exit e (.ok a)) w).deeds ∧
      (account h cb (exit e (.ok a)) w).outcome.fault? =
        (account h cb (exit e (.ok a)) w).deeds.findSome? Deed.fault := by
  cases ho : e.owner with
  | false =>
    rw [account_exit_joined ho]
    exact ⟨.joined ho _, rfl⟩
  | true =>
    have hu' : ∀ o, (h.act o w).2.memory.Usable e.connection := fun o ↦ Entry.usable_act o (hu ho)
    rw [account_exit_ok hr ho, Session.account_commit hl (hu ho)]
    rcases hc : h.act (.commit e.connection) w with ⟨f | u, w'⟩
    all_goals
      have hw := hu' (.commit e.connection)
      rw [hc] at hw
    · dsimp only
      rw [account_abandon hr ho, Session.account_rollback hl hw]
      dsimp only
      rw [account_release hl (Entry.usable_act _ hw)]
      exact ⟨.uncommitted ho _ _ _, rfl⟩
    · dsimp only
      rw [account_release hl hw]
      refine ⟨.committed ho _, ?_⟩
      cases (e.handBack h w').1 <;> rfl

end Blocking.Entry

namespace Cursor

variable {c : Cursor} {shape : Shape} {xs : List Mapped}

def skip (n : Nat) (c : Cursor) : Cursor :=
  { c with rows := c.rows.drop n, fetched := c.fetched + n }

def fetches (c : Cursor) (n : Nat) : List Deed :=
  (List.range n).map fun i ↦ ⟨.fetch c.connection c.id (c.fetched + i), none⟩

def Maps (c : Cursor) (shape : Shape) (xs : List Mapped) : Prop :=
  List.Forall₂ (fun row x ↦ shape.ofRow c.columns row = .ok x) (c.rows.take xs.length) xs

theorem advance_skip (c : Cursor) (n : Nat) : (c.skip n).advance = c.skip (n + 1) := by
  unfold advance skip
  rw [List.tail_drop, Nat.add_assoc]

theorem fetches_succ (c : Cursor) (n : Nat) :
    c.fetches (n + 1) = c.fetches n ++ [⟨.fetch c.connection c.id (c.fetched + n), none⟩] := by
  rw [fetches, List.range_succ, List.map_append]
  rfl

theorem fetch_of_mem_fetches (c : Cursor) (n : Nat) :
    ∀ d ∈ c.fetches n, Fetch c.connection c.id d.operation := by
  intro d hd
  obtain ⟨i, -, rfl⟩ := List.mem_map.1 hd
  exact ⟨_, rfl⟩

theorem head?_skip (c : Cursor) (n : Nat) : (c.skip n).rows.head? = c.rows[n]? :=
  List.head?_drop

theorem Maps.concat (hx : c.Maps shape xs) {row : Row} (hrow : c.rows[xs.length]? = some row)
    {x : Mapped} (hx' : shape.ofRow c.columns row = .ok x) : c.Maps shape (xs ++ [x]) := by
  unfold Maps
  rw [List.length_append, List.length_singleton, List.take_add_one, hrow]
  exact List.rel_append hx (.cons hx' .nil)

theorem Maps.length_le (hx : c.Maps shape xs) : xs.length ≤ c.rows.length := by
  have hlen := hx.length_eq
  rw [List.length_take] at hlen
  omega

end Cursor

namespace Stream

open Blocking (Item)

variable {c : Cursor} {shape : Shape} {xs : List Mapped} {ds : List Deed} {s : Stream}

def reach (e : Entry) (shape : Shape) (c : Cursor) (n : Nat) : Stream :=
  { start e shape c with cursor := c.skip n }

/-- How a stream ends that has given the rows `xs`: with the error, if there is one, and with these
operations from its beginning on. -/
inductive Ends (e : Entry) (c : Cursor) (shape : Shape) :
    List Mapped → Option Error → List Deed → Prop
  | unfetched {xs : List Mapped} (hx : c.Maps shape xs) (err : Error) (f : Option Fault)
    {ds : List Deed} (hd : e.Concludes false ds) :
    Ends e c shape xs (some err) (c.fetches xs.length ++
      ⟨.fetch c.connection c.id (c.fetched + xs.length), some (.error err)⟩ ::
        ⟨.close c.connection c.id, f⟩ :: ds)
  | unmapped {xs : List Mapped} (hx : c.Maps shape xs) {row : Row}
    (hrow : c.rows[xs.length]? = some row) {err : Error}
    (herr : shape.ofRow c.columns row = .error err) (f : Option Fault) {ds : List Deed}
    (hd : e.Concludes false ds) :
    Ends e c shape xs (some err)
      (c.fetches (xs.length + 1) ++ ⟨.close c.connection c.id, f⟩ :: ds)
  | unclosed {xs : List Mapped} (hx : c.Maps shape xs) (hn : xs.length = c.rows.length) (err : Error)
    {ds : List Deed} (hd : e.Concludes false ds) :
    Ends e c shape xs (some err)
      (c.fetches (xs.length + 1) ++ ⟨.close c.connection c.id, some (.error err)⟩ :: ds)
  | exhausted {xs : List Mapped} (hx : c.Maps shape xs) (hn : xs.length = c.rows.length)
    {err : Option Error} {ds : List Deed} (hd : e.Concludes true ds)
    (herr : ds.findSome? Deed.fault = err.map .error) :
    Ends e c shape xs err (c.fetches (xs.length + 1) ++ ⟨.close c.connection c.id, none⟩ :: ds)

/-- The life of a stream that was dropped at last: the items that it gave, and its operations. -/
inductive Lived (e : Entry) (c : Cursor) (shape : Shape) : List Item → List Deed → Prop
  | dropped {xs : List Mapped} (hx : c.Maps shape xs) (f : Option Fault) {ds : List Deed}
    (hd : e.Concludes false ds) : Lived e c shape (xs.map fun x ↦ some (.ok x))
      (c.fetches xs.length ++ ⟨.close c.connection c.id, f⟩ :: ds)
  | ended {xs : List Mapped} {err : Option Error} {ds : List Deed} (he : Ends e c shape xs err ds)
    (n : Nat) : Lived e c shape
      (xs.map (fun x ↦ some (.ok x)) ++ err.map .error :: List.replicate n none) ds

/-- A stream in the hands of its consumer, and the sessions that are at hand besides. -/
structure InHand (a K : List Nat) (s : Stream) (m : Memory) : Prop where
  balanced : m.Balanced (s.own ++ a)
  entitled : s.Entitled m
  shared : ∀ c ∈ K, m.Shared (s.own ++ a) c

/-- The items that a consumer has taken from a stream, and the operations for them, whatever else was
done in between. Whenever it took one, the stream was in its hands. -/
inductive Consumed (h : Host σ) (s₀ : Stream) : List Item → List Deed → Stream → Prop
  | opened : Consumed h s₀ [] [] s₀
  | next {items : List Item} {item : Item} {ds ds' : List Deed} {s s' : Stream}
    (hs : Consumed h s₀ items ds s) {cb : Callback σ} {a K : List Nat} {w w' : World σ}
    (hw : InHand a K s w.memory)
    (hn : account h cb (ExceptT.lift (Blocking.next s)) w = ⟨ds', .ok (.ok item, s'), w'⟩) :
    Consumed h s₀ (items ++ [item]) (ds ++ ds') s'

theorem openIn_reach (e : Entry) (shape : Shape) (c : Cursor) (n : Nat) :
    (reach e shape c n).OpenIn e := ⟨rfl, rfl, rfl⟩

theorem advance_reach (e : Entry) (shape : Shape) (c : Cursor) (n : Nat) :
    (reach e shape c n).advance = reach e shape c (n + 1) := by
  unfold advance reach
  rw [Cursor.advance_skip]

section

variable {n : Nat}

theorem usable_of_entitled (hw : (reach e shape c n).Entitled w.memory) (ho : e.owner) :
    w.memory.Usable e.connection :=
  (hw e (by rw [(openIn_reach e shape c n).entry, if_pos ho])).usable

theorem account_close_reach (hl : h.Lawful) (e : Entry) (shape : Shape) (c : Cursor) (n : Nat)
    (w : World σ) :
    account h cb (reach e shape c n).cursor.close w =
      ⟨[⟨.close c.connection c.id, (h.act (.close c.connection c.id) w).1.fault?⟩],
        (h.act (.close c.connection c.id) w).1, (h.act (.close c.connection c.id) w).2⟩ :=
  account_act hl rfl

theorem account_finish_failed (hl : h.Lawful) (hr : h.Returns)
    (hu : e.owner → w.memory.Usable e.connection) (err : Error) :
    ∃ f ds w', e.Concludes false ds ∧
      account h cb (ExceptT.lift (Blocking.finish (reach e shape c n) (some err))) w =
        ⟨⟨.close c.connection c.id, f⟩ :: ds,
          .ok (.ok (some (.error err)), (reach e shape c n).ended), w'⟩ := by
  rw [Blocking.account_finish_error hr (openIn_reach e shape c n), account_close_reach hl]
  exact ⟨_, _, _, Blocking.Entry.concludes_abandon hl hr fun ho ↦ Entry.usable_act _ (hu ho), rfl⟩

theorem account_finish_exhausted (hl : h.Lawful) (hr : h.Returns)
    (hu : e.owner → w.memory.Usable e.connection) :
    ∃ err f ds w',
      account h cb (ExceptT.lift (Blocking.finish (reach e shape c n) none)) w =
        ⟨⟨.close c.connection c.id, f⟩ :: ds,
          .ok (.ok (err.map .error), (reach e shape c n).ended), w'⟩ ∧
      (f = none ∧ e.Concludes true ds ∧ ds.findSome? Deed.fault = err.map .error ∨
        ∃ err', err = some err' ∧ f = some (.error err') ∧ e.Concludes false ds) := by
  have hret := hr.act (.close c.connection c.id) w
  have hu' : e.owner → (h.act (.close c.connection c.id) w).2.memory.Usable e.connection :=
    fun ho ↦ Entry.usable_act _ (hu ho)
  rw [Blocking.account_finish_none hr (openIn_reach e shape c n), account_close_reach hl]
  generalize h.act (.close c.connection c.id) w = t at hret hu'
  obtain ⟨(err | m) | u, w'⟩ := t
  · exact ⟨some err, _, _, _, rfl, .inr ⟨err, rfl, rfl, Blocking.Entry.concludes_abandon hl hr hu'⟩⟩
  · cases hret
  · have hpanic : Outcome.isPanic (account h cb (Blocking.Entry.exit e (.ok ())) w').outcome = false :=
      Blocking.Entry.returns_exit hr e (.ok ()) w'
    obtain ⟨hd, hfirst⟩ : e.Concludes true (account h cb (Blocking.Entry.exit e (.ok ())) w').deeds ∧ _ :=
      Blocking.Entry.concludes_exit hl hr hu' ()
    dsimp only
    generalize account h cb (Blocking.Entry.exit e (.ok ())) w' = t at hpanic hd hfirst
    obtain ⟨ds, (err | m) | u, w''⟩ := t
    · exact ⟨some err, _, _, _, rfl, .inl ⟨rfl, hd, hfirst.symm⟩⟩
    · cases hpanic
    · exact ⟨none, _, _, _, rfl, .inl ⟨rfl, hd, hfirst.symm⟩⟩

theorem account_next_reach (hl : h.Lawful) (hr : h.Returns) (n : Nat) (w : World σ) :
    account h cb (ExceptT.lift (Blocking.next (reach e shape c n))) w =
      match h.act (.fetch c.connection c.id (c.fetched + n)) w with
      | (.error (.error err), w) =>
        (account h cb (ExceptT.lift (Blocking.finish (reach e shape c n) (some err))) w).after
          [⟨.fetch c.connection c.id (c.fetched + n), some (.error err)⟩]
      | (.error (.panic m), w) => ⟨[⟨.fetch c.connection c.id (c.fetched + n), some (.panic m)⟩],
          .ok (.error (.panic m), reach e shape c n), w⟩
      | (.ok _, w) =>
        (match c.rows[n]?.map (shape.ofRow c.columns) with
          | none =>
            account h cb (ExceptT.lift (Blocking.finish (reach e shape c (n + 1)) none)) w
          | some (.ok x) => ⟨[], .ok (.ok (some (.ok x)), reach e shape c (n + 1)), w⟩
          | some (.error err) =>
            account h cb (ExceptT.lift (Blocking.finish (reach e shape c (n + 1)) (some err))) w).after
          [⟨.fetch c.connection c.id (c.fetched + n), none⟩] := by
  have hhead : (reach e shape c n).cursor.rows.head? = c.rows[n]? := Cursor.head?_skip c n
  have hfetch : account h cb (operate (.fetch (reach e shape c n).cursor.connection
      (reach e shape c n).cursor.id (reach e shape c n).cursor.fetched)) w =
        ⟨[⟨.fetch c.connection c.id (c.fetched + n),
          (h.act (.fetch c.connection c.id (c.fetched + n)) w).1.fault?⟩],
        (h.act (.fetch c.connection c.id (c.fetched + n)) w).1,
        (h.act (.fetch c.connection c.id (c.fetched + n)) w).2⟩ := account_act hl rfl
  have hof : (reach e shape c n).shape.ofRow (reach e shape c n).columns = shape.ofRow c.columns := rfl
  rw [Blocking.account_next hr (openIn_reach e shape c n), hfetch, advance_reach, hhead, hof]
  rcases h.act (.fetch c.connection c.id (c.fetched + n)) w with ⟨(err | m) | u, w'⟩
  · rfl
  · rfl
  · dsimp only
    rcases c.rows[n]?.map (shape.ofRow c.columns) with _ | _ | _ <;> rfl

theorem next_reach (hl : h.Lawful) (hr : h.Returns) (hx : c.Maps shape xs)
    (hw : (reach e shape c xs.length).Entitled w.memory) :
    (∃ x w', c.Maps shape (xs ++ [x]) ∧
      account h cb (ExceptT.lift (Blocking.next (reach e shape c xs.length))) w =
        ⟨[⟨.fetch c.connection c.id (c.fetched + xs.length), none⟩],
          .ok (.ok (some (.ok x)), reach e shape c (xs.length + 1)), w'⟩) ∨
    ∃ err ds s w', Ends e c shape xs err (c.fetches xs.length ++ ds) ∧
      account h cb (ExceptT.lift (Blocking.next (reach e shape c xs.length))) w =
        ⟨ds, .ok (.ok (err.map .error), Stream.ended s), w'⟩ := by
  have hret := hr.act (.fetch c.connection c.id (c.fetched + xs.length)) w
  have hu : e.owner →
      (h.act (.fetch c.connection c.id (c.fetched + xs.length)) w).2.memory.Usable e.connection :=
    fun ho ↦ Entry.usable_act _ (usable_of_entitled hw ho)
  have hsplit : ∀ ds, c.fetches xs.length ++
      ⟨.fetch c.connection c.id (c.fetched + xs.length), none⟩ :: ds =
        c.fetches (xs.length + 1) ++ ds := fun ds ↦ by
    rw [Cursor.fetches_succ, List.append_assoc, List.singleton_append]
  rw [account_next_reach hl hr]
  generalize h.act (.fetch c.connection c.id (c.fetched + xs.length)) w = t at hret hu
  -- The fetch fails, or there is no row left, or there is one that takes the shape or does not.
  obtain ⟨(err | m) | u, w'⟩ := t
  · obtain ⟨f, ds, w'', hd, hf⟩ : ∃ f ds w'', e.Concludes false ds ∧ account h cb
        (ExceptT.lift (Blocking.finish (reach e shape c xs.length) (some err))) w' = _ :=
      account_finish_failed hl hr hu err
    dsimp only
    rw [hf]
    exact .inr ⟨some err, _, _, w'', .unfetched hx err f hd, rfl⟩
  · cases hret
  · cases hrow : c.rows[xs.length]? with
    | none =>
      have hn : xs.length = c.rows.length :=
        Nat.le_antisymm hx.length_le (List.getElem?_eq_none_iff.1 hrow)
      obtain ⟨err, f, ds, w'', hf, hcases⟩ : ∃ err f ds w'', account h cb
          (ExceptT.lift (Blocking.finish (reach e shape c (xs.length + 1)) none)) w' = _ ∧ _ :=
        account_finish_exhausted hl hr hu
      dsimp only [Option.map_none]
      rw [hf]
      refine .inr ⟨err, _, _, w'', ?_, rfl⟩
      rw [List.singleton_append, hsplit]
      obtain ⟨rfl, hd, hfirst⟩ | ⟨err, rfl, rfl, hd⟩ := hcases
      · exact .exhausted hx hn hd hfirst
      · exact .unclosed hx hn err hd
    | some row =>
      dsimp only [Option.map_some]
      cases hmap : shape.ofRow c.columns row with
      | ok x => exact .inl ⟨x, w', hx.concat hrow hmap, rfl⟩
      | error err =>
        obtain ⟨f, ds, w'', hd, hf⟩ : ∃ f ds w'', e.Concludes false ds ∧ account h cb
            (ExceptT.lift (Blocking.finish (reach e shape c (xs.length + 1)) (some err))) w' = _ :=
          account_finish_failed hl hr hu err
        dsimp only
        rw [hf]
        refine .inr ⟨some err, _, _, w'', ?_, rfl⟩
        rw [List.singleton_append, hsplit]
        exact .unmapped hx hrow hmap f hd

end

namespace InHand

variable {a K : List Nat} {m m' : Memory}

theorem keeps (hs : InHand a K s m) (hk : Memory.Keeps (s.own ++ a) m m') : InHand a K s m' where
  balanced := hk.balanced
  entitled e he := by
    have hc : e.connection ∈ s.own ++ a := List.mem_append_left _ (mem_own.2 ⟨e, he, rfl⟩)
    refine (hs.entitled e he).mono ⟨hk.balanced.inHand _ hc, ?_⟩ hk.frame.trace
    rw [hk.busy]
    exact (hs.entitled e he).usable.2
  shared c hc := hk.frame.shared (hs.shared c hc)

theorem next (hl : h.Lawful) (hs : InHand a K s w.memory) (hf : s.finished = false) {item : Item}
    {ds : List Deed} {s' : Stream} {w' : World σ}
    (hn : account h cb (ExceptT.lift (Blocking.next s)) w = ⟨ds, .ok (.ok item, s'), w'⟩) :
    InHand a K s' w'.memory := by
  have hp : Pulled h s w (itemized ((Blocking.next s).runInSequence h cb w).1.1)
      ((Blocking.next s).runInSequence h cb w).1.2 ((Blocking.next s).runInSequence h cb w).2 :=
    pulled_next hl hs.entitled hf
  rw [account_lift] at hn
  injection hn with _ hr hw
  rw [Except.ok.inj hr, hw] at hp
  obtain ⟨hk, he, -⟩ := hp.passes hl hs.balanced hs.entitled
  exact ⟨hk.balanced, he, fun c hc ↦ hk.frame.shared (hs.shared c hc)⟩

end InHand

inductive Lives (e : Entry) (c : Cursor) (shape : Shape) : List Item → List Deed → Stream → Prop
  | reading {xs : List Mapped} (hx : c.Maps shape xs) : Lives e c shape
      (xs.map fun x ↦ some (.ok x)) (c.fetches xs.length) (reach e shape c xs.length)
  | ended {xs : List Mapped} {err : Option Error} {ds : List Deed} (he : Ends e c shape xs err ds)
    (n : Nat) (s : Stream) : Lives e c shape
      (xs.map (fun x ↦ some (.ok x)) ++ err.map .error :: List.replicate n none) ds s.ended

theorem account_next_ended (s : Stream) (w : World σ) :
    account h cb (ExceptT.lift (Blocking.next s.ended)) w = ⟨[], .ok (.ok none, s.ended), w⟩ := rfl

theorem Lives.next (hl : h.Lawful) (hr : h.Returns) {a K : List Nat} {items : List Item}
    (hs : Lives e c shape items ds s) (hw : InHand a K s w.memory) :
    ∃ item ds' s' w',
      account h cb (ExceptT.lift (Blocking.next s)) w = ⟨ds', .ok (.ok item, s'), w'⟩ ∧
      Lives e c shape (items ++ [item]) (ds ++ ds') s' ∧ InHand a K s' w'.memory := by
  cases hs with
  | @reading xs hx =>
    have hnext : ∀ {item : Item} {ds : List Deed} {s' : Stream} {w' : World σ},
        account h cb (ExceptT.lift (Blocking.next (reach e shape c xs.length))) w =
          ⟨ds, .ok (.ok item, s'), w'⟩ → InHand a K s' w'.memory := hw.next hl rfl
    obtain ⟨x, w', hx', hn⟩ | ⟨err, ds, s, w', he, hn⟩ : (∃ x w', c.Maps shape (xs ++ [x]) ∧
        account h cb (ExceptT.lift (Blocking.next (reach e shape c xs.length))) w = _) ∨ _ :=
      next_reach hl hr hx hw.entitled
    · refine ⟨_, _, _, w', hn, ?_, hnext hn⟩
      have hlives := Lives.reading (e := e) hx'
      rwa [List.map_append, List.length_append, List.length_singleton, Cursor.fetches_succ] at hlives
    · exact ⟨_, _, _, w', hn, .ended he 0 s, hnext hn⟩
  | @ended xs err ds he n s =>
    refine ⟨none, [], s.ended, w, account_next_ended s w, ?_, hw⟩
    rw [List.append_nil, List.append_assoc, List.cons_append, ← List.replicate_succ']
    exact .ended he (n + 1) s

theorem Consumed.lives (hl : h.Lawful) (hr : h.Returns) {items : List Item}
    (hs : Consumed h (start e shape c) items ds s) : Lives e c shape items ds s := by
  -- What was done between two items does not matter: the stream was in hand each time.
  induction hs with
  | opened =>
    have hnil : c.Maps shape [] := .nil
    exact .reading hnil
  | next _ hw hn ih =>
    obtain ⟨_, _, _, _, hn', hlives, -⟩ : ∃ item ds' s' w', account h _ _ _ = _ ∧ _ :=
      ih.next hl hr hw
    rw [hn] at hn'
    cases hn'
    exact hlives

theorem Lives.drop (hl : h.Lawful) (hr : h.Returns) {items : List Item}
    (hs : Lives e c shape items ds s) (hw : s.Entitled w.memory) :
    ∃ ds' w', account h cb (Blocking.dropStream s) w = ⟨ds', .ok (), w'⟩ ∧
      Lived e c shape items (ds ++ ds') := by
  cases hs with
  | @reading xs hx =>
    have hu : e.owner → (h.act (.close c.connection c.id) w).2.memory.Usable e.connection :=
      fun ho ↦ Entry.usable_act _ (usable_of_entitled hw ho)
    rw [Blocking.account_dropStream hr (openIn_reach e shape c _), account_close_reach hl]
    exact ⟨_, _, rfl, .dropped hx _ (Blocking.Entry.concludes_abandon hl hr hu)⟩
  | @ended xs err ds he n s =>
    refine ⟨[], w, rfl, ?_⟩
    rw [List.append_nil]
    exact .ended he n

theorem Lived.closesFirst {items : List Item} (hs : Lived e c shape items ds) {before : List Deed}
    (hb : ∀ d ∈ before, d.operation.isLease) (sql : String) (params : List Value) :
    ClosesFirst (before ++ ⟨.query c.connection sql params, none⟩ :: ds) := by
  have hreads : ∀ n, ∀ d ∈ c.fetches n, Cursor.Fetch c.connection c.id d.operation :=
    c.fetch_of_mem_fetches
  cases hs with
  | dropped hx f hd => exact .closed hb sql params (hreads _) f hd.terminal
  | @ended xs _ _ he n =>
    cases he with
    | unfetched hx err f hd =>
      have hlast : ∀ d ∈ c.fetches xs.length ++
          [⟨.fetch c.connection c.id (c.fetched + xs.length), some (.error err)⟩],
          Cursor.Fetch c.connection c.id d.operation := by
        intro d hd
        obtain hd | hd := List.mem_append.1 hd
        · exact hreads _ d hd
        · rw [List.mem_singleton.1 hd]
          exact ⟨_, rfl⟩
      simpa using ClosesFirst.closed hb sql params hlast f hd.terminal
    | unmapped hx hrow herr f hd => exact .closed hb sql params (hreads _) f hd.terminal
    | unclosed hx hn err hd => exact .closed hb sql params (hreads _) _ hd.terminal
    | exhausted hx hn hd herr => exact .closed hb sql params (hreads _) none hd.terminal

/-- What is done to open a stream. It joins the scope that is active, or leases a connection if there is
none. -/
inductive Opens (m : Memory) (thread b : Nat) (c : Cursor) : Entry → List Deed → Prop
  | leased (ha : m.active.lookup (thread, b) = none) (sql : String) (params : List Value) :
    Opens m thread b c ⟨b, c.connection, true, false, thread⟩
      [⟨.lease b, none⟩, ⟨.query c.connection sql params, none⟩]
  | joined (ha : m.active.lookup (thread, b) = some c.connection) (sql : String)
    (params : List Value) : Opens m thread b c ⟨b, c.connection, false, false, thread⟩
      [⟨.query c.connection sql params, none⟩]

theorem Opens.closesFirst {m : Memory} {thread b : Nat} {before : List Deed}
    (ho : Opens m thread b c e before) {items : List Item} (hs : Lived e c shape items ds) :
    ClosesFirst (before ++ ds) := by
  cases ho with
  | leased _ sql params =>
    have hlease : ∀ d ∈ [(⟨.lease b, none⟩ : Deed)], d.operation.isLease := by
      simp [Operation.isLease]
    exact hs.closesFirst hlease sql params
  | joined _ sql params =>
    have hnone : ∀ d ∈ ([] : List Deed), d.operation.isLease := by simp
    exact hs.closesFirst hnone sql params

end Stream

namespace Blocking

section

variable {e : Entry} {m : Memory} {thread b : Nat} {before : List Deed} {sql : String}
  {params : List Value}

theorem account_opening_cases (hr : h.Returns) (shape : Shape)
    (hb : ∀ d ∈ before, d.operation.isLease)
    (ho : ∀ c : Cursor, c.connection = e.connection →
      Stream.Opens m thread b c e (before ++ [⟨.query e.connection sql params, none⟩]))
    (w : World σ) :
    let t := (account h cb (Entry.guarded e (caught (Session.query e.connection sql params)) >>=
      Stream.onCursor e shape) w).after before
    (∃ ds err w', t = ⟨ds, .error err, w'⟩ ∧ ClosesFirst ds) ∨
      ∃ e c ds w', t = ⟨ds, .ok (Stream.start e shape c), w'⟩ ∧ Stream.Opens m thread b c e ds := by
  dsimp only
  rw [account_opening hr]
  obtain ⟨ds, err, w', hq, hd⟩ | ⟨c, w', hc, -, hq⟩ : _ ∨ _ :=
    account_query_cases hr e.connection sql params w
  · have habandon : (Entry.abandon e).Asks h cb fun o ↦ o.isTerminal := asks_abandon hr e
    rw [hq]
    refine .inl ⟨_, _, _, rfl, .unopened fun d hmem ↦ ?_⟩
    change d ∈ before ++ (ds ++ (account h cb (Entry.abandon e) w').deeds) at hmem
    rw [List.mem_append, List.mem_append] at hmem
    obtain hmem | hmem | hmem := hmem
    · exact .inl (hb d hmem)
    · obtain ⟨f, rfl⟩ := hd d hmem
      exact .inr (.inr ⟨_, _, _, f, rfl⟩)
    · exact .inr (.inl (habandon w' d hmem))
  · rw [hq]
    exact .inr ⟨e, c, _, w', rfl, ho c hc⟩

end

theorem account_stream_cases (hr : h.Returns) (thread : Nat) (f : Bound) (shape : Shape)
    (args : Arguments) (w : World σ) :
    let t := account h cb (stream thread f shape args) w
    (∃ ds err w', t = ⟨ds, .error err, w'⟩ ∧ ClosesFirst ds) ∨
      ∃ e c ds w', t = ⟨ds, .ok (Stream.start e shape c), w'⟩ ∧
        Stream.Opens w.memory thread f.binder c e ds := by
  obtain ⟨r, hrender⟩ : ∃ r, account h cb (f.render args) w = ⟨[], r, w⟩ :=
    ⟨_, f.account_render args w⟩
  dsimp only
  rw [stream_eq, account_bind, hrender]
  cases r with
  | error err => exact .inl ⟨_, _, _, rfl, .unopened (by simp)⟩
  | ok r =>
    obtain ⟨leased, w', hreq⟩ : ∃ (leased : Outcome Nat) (w' : World σ),
      account h cb (request f.binder) w = ⟨[⟨.lease f.binder, leased.fault?⟩], leased, w'⟩ :=
        ⟨_, _, rfl⟩
    rw [Account.andThen_ok, Account.after_nil, account_bind, account_enter, hreq]
    cases w.memory.pools.lookup f.binder with
    | none => exact .inl ⟨_, _, _, rfl, .unopened (by simp)⟩
    | some p =>
      cases ha : w.memory.active.lookup (thread, f.binder) with
      | some c =>
        dsimp only [Account.andThen_ok]
        refine account_opening_cases hr shape (by simp) (fun c' hc ↦ ?_) w
        obtain rfl : c'.connection = c := hc
        exact .joined ha r.sql r.params
      | none =>
        cases leased with
        | error err => exact .inl ⟨_, _, _, rfl, .unopened (by simp [Operation.isLease])⟩
        | ok c =>
          dsimp only [Account.andThen_ok, Account.after_mk, List.append_nil]
          refine account_opening_cases hr shape (by simp [Operation.isLease]) (fun c' hc ↦ ?_) _
          obtain rfl : c'.connection = c := hc
          exact .leased ha r.sql r.params

end Blocking

theorem Stream.inHand_of_stream (hl : h.Lawful) {a K : List Nat} (hm : InOrder h cb a K w.memory)
    {thread : Nat} {f : Bound} {shape : Shape} {args : Arguments} {ds : List Deed} {s : Stream}
    {w' : World σ}
    (hs : account h cb (Blocking.stream thread f shape args) w = ⟨ds, .ok s, w'⟩) :
    InHand a K s w'.memory := by
  have hopened : Opened h a thread f.binder w (account h cb _ w).outcome (account h cb _ w).world :=
    opened_stream hl (hm.callback.sound hl) hm.balanced thread f shape args
  rw [hs] at hopened
  obtain ⟨hk, he, -⟩ := hopened.passes
  exact ⟨hk.balanced, he, fun c hc ↦ hk.frame.shared (hm.shared c hc)⟩

/-- What becomes of a bound stream. There may be none. If there is one, then whoever has it in his hands
can take an item from it, or drop it; and when it is dropped, it has lived as it should. -/
def Blocking.Streams (h : Host σ) (cb : Callback σ) (a K : List Nat) (thread : Nat) (f : Bound)
    (shape : Shape) (args : Arguments) (w : World σ) : Prop :=
  let t := account h cb (stream thread f shape args) w
  (∃ ds err w', t = ⟨ds, .error err, w'⟩ ∧ ClosesFirst ds) ∨
    ∃ e c ds w₀, t = ⟨ds, .ok (Stream.start e shape c), w₀⟩ ∧
      Stream.Opens w.memory thread f.binder c e ds ∧
      Stream.InHand a K (Stream.start e shape c) w₀.memory ∧
      ∀ {items : List Item} {ds' : List Deed} {s : Stream},
        Stream.Consumed h (Stream.start e shape c) items ds' s →
        ∀ {cb : Callback σ} {a K : List Nat} {w : World σ}, s.InHand a K w.memory →
          (∃ item ds'' s' w', account h cb (ExceptT.lift (next s)) w =
            ⟨ds'', .ok (.ok item, s'), w'⟩ ∧ s'.InHand a K w'.memory) ∧
          ∃ ds'' w', account h cb (dropStream s) w = ⟨ds'', .ok (), w'⟩ ∧
            Stream.Lived e c shape items (ds' ++ ds'') ∧ ClosesFirst (ds ++ (ds' ++ ds''))

/-- A bound call that obtains a cursor closes it once, and its scope ends only after that. A stream gives
the rows in their order up to its end or its first error, and nothing after it; its own scope commits
only when all rows have been read and the cursor is closed. The code of its consumer does not take it
out of his hands. -/
theorem blocking_cursors_closed_first (hl : h.Lawful) (hr : h.Returns) :
    (∀ (cb : Callback σ) (thread : Nat) (f : Bound) (ret : Return) (args : Arguments) (w : World σ),
      ClosesFirst (account h cb (Blocking.query thread f ret args) w).deeds) ∧
    (∀ {cb : Callback σ} {a K : List Nat} {w : World σ}, Reached h cb a K w →
      ∀ (thread : Nat) (f : Bound) (shape : Shape) (args : Arguments),
        Blocking.Streams h cb a K thread f shape args w) ∧
    ∀ {cb : Callback σ} {a K : List Nat} {w : World σ} {s : Stream}, cb.Reenters h →
      s.InHand a K w.memory → ∀ {α : Type} {p : Action α}, Code K p →
        s.InHand a K (p.runInSequence h cb w).2.memory := by
  refine ⟨fun cb ↦ Blocking.closesFirst_query hr, fun hreach thread f shape args ↦ ?_, ?_⟩
  · have hm := hreach.inOrder hl
    obtain hnone | ⟨e, c, ds, w₀, hs, ho⟩ : _ ∨ ∃ e c ds w₀, account h _ _ _ = _ ∧ _ :=
      Blocking.account_stream_cases hr thread f shape args _
    · exact .inl hnone
    · refine .inr ⟨e, c, ds, w₀, hs, ho, Stream.inHand_of_stream hl hm hs, fun hcons _ _ _ _ hw ↦ ?_⟩
      have hlives := hcons.lives hl hr
      obtain ⟨item, ds'', s', w', hn, -, hw'⟩ := hlives.next hl hr hw
      obtain ⟨ds₃, w₃, hd, hlived⟩ := hlives.drop hl hr hw.entitled
      exact ⟨⟨item, ds'', s', w', hn, hw'⟩, ds₃, w₃, hd, hlived, ho.closesFirst hlived⟩
  · exact fun hcb hs _ _ hp ↦ hs.keeps (hp.sound hl (hcb.sound hl) _ _ hs.balanced hs.shared)

def Script.granting (r : ResultSet) : Host Unit :=
  ⟨fun _ o id _ ↦ ((Script.comply o id { replies := [.rows r none] }).1, ())⟩

theorem Script.lawful_granting (r : ResultSet) : (Script.granting r).Lawful where
  step _ o _ _ _ hs := by cases o <;> cases hs
  callback _ o _ _ _ := by cases o <;> rfl
  fault _ o _ _ hf := by cases o <;> cases hf
  rollback _ _ _ _ := rfl

theorem Script.returns_granting (r : ResultSet) : (Script.granting r).Returns :=
  fun _ o _ _ ↦ by cases o <;> rfl

theorem blocking_cursors_closed_first_dropped :
    let h := Script.granting ⟨[], [[], []], true⟩
    ∃ cb e c ds w₀ items ds' s ds'',
      account h cb (Blocking.stream 0 Bound.deletion .map .none) ⟨Program.ready, ()⟩ =
        ⟨ds, .ok (Stream.start e .map c), w₀⟩ ∧
      Stream.Consumed h (Stream.start e .map c) items ds' s ∧ items.length = 1 ∧
      Stream.Lived e c .map items (ds' ++ ds'') ∧ ClosesFirst (ds ++ (ds' ++ ds'')) ∧
      (ds ++ (ds' ++ ds'')).length = 6 := by
  intro h
  have hreach : Reached h (fun _ w ↦ (.step (.ok .unit) [] [] none, w)) [] [] ⟨Program.ready, ()⟩ :=
    .pooled .never _ ()
  have hlen : (account h (fun _ w ↦ (.step (.ok .unit) [] [] none, w))
      (Blocking.stream 0 Bound.deletion .map .none >>= fun s ↦
        ExceptT.lift (Blocking.next s) >>= fun r ↦ Blocking.dropStream r.2)
      ⟨Program.ready, ()⟩).deeds.length = 6 := by decide +kernel
  have hok : Outcome.isOk (account h (fun _ w ↦ (.step (.ok .unit) [] [] none, w))
      (Blocking.stream 0 Bound.deletion .map .none) ⟨Program.ready, ()⟩).outcome := by decide +kernel
  obtain ⟨-, hstreams, -⟩ := blocking_cursors_closed_first (h := h) (Script.lawful_granting _)
    (Script.returns_granting _)
  obtain ⟨ds, err, w', ht, -⟩ | ⟨e, c, ds, w₀, hs, ho, hw, hlives⟩ :=
    hstreams hreach 0 Bound.deletion .map .none
  · rw [ht] at hok
    cases hok
  · obtain ⟨⟨item, ds', s, w₁, hn, hw'⟩, -⟩ := hlives .opened hw
    have hcons := Stream.Consumed.opened.next hw hn
    obtain ⟨-, ds'', w₂, hd, hlived, hfirst⟩ := hlives hcons hw'
    refine ⟨_, e, c, ds, w₀, _, _, s, ds'', hs, hcons, rfl, hlived, hfirst, ?_⟩
    rw [account_bind, hs, Account.andThen_ok, account_bind, hn, Account.andThen_ok, hd] at hlen
    simpa using hlen

end BoundSql
