import BoundSql.Proofs.Scope.StreamLife
import BoundSql.Proofs.Scope.Twin

namespace BoundSql

open Call

variable {σ α β : Type} {h : Host σ} {cb : Callback σ} {w : World σ}

namespace Account

/-- Whatever was read or closed, that succeeded. -/
def ReadsSucceed (t : Account σ α) : Prop :=
  ∀ d ∈ t.deeds, d.operation.isRead → d.fault = none

/-- What was done besides reading. -/
def effects (t : Account σ α) : List Deed := t.deeds.filter fun d ↦ !d.operation.isRead

theorem effects_after (ds : List Deed) (t : Account σ α) :
    (t.after ds).effects = (ds.filter fun d ↦ !d.operation.isRead) ++ t.effects :=
  List.filter_append ..

/-- Terminal actions go the same way in both. -/
def SameEnds (t : Account σ α) (t' : Account σ β) : Prop :=
  ∀ d ∈ t.deeds, ∀ d' ∈ t'.deeds, d.operation.isTerminal → d'.operation = d.operation →
    d'.fault = d.fault

/-- They come to the same, as a list and as what has mapped to one, and besides reading they do the
same. -/
structure Agrees (t : Account σ (List Mapped)) (t' : Account σ Mapped) : Prop where
  outcome : t'.outcome = t.outcome.map .list
  effects : t'.effects = t.effects

theorem Agrees.after {t : Account σ (List Mapped)} {t' : Account σ Mapped} (ht : t.Agrees t')
    {ds ds' : List Deed}
    (hd : (ds'.filter fun d ↦ !d.operation.isRead) = ds.filter fun d ↦ !d.operation.isRead) :
    (t.after ds).Agrees (t'.after ds') :=
  ⟨ht.outcome, by rw [effects_after, effects_after, hd, ht.effects]⟩

theorem SameEnds.of_after {t : Account σ α} {t' : Account σ β} {ds ds' : List Deed}
    (ht : (t.after ds).SameEnds (t'.after ds')) : t.SameEnds t' :=
  fun d hd d' hd' ↦ ht d (List.mem_append_right _ hd) d' (List.mem_append_right _ hd')

namespace ReadsSucceed

theorem of_after {t : Account σ α} {ds : List Deed} (ht : (t.after ds).ReadsSucceed) :
    t.ReadsSucceed := fun d hd ↦ ht d (List.mem_append_right _ hd)

theorem of_andThen {t : Account σ α} {k : α → World σ → Account σ β}
    (ht : (t.andThen k).ReadsSucceed) : t.ReadsSucceed := by
  obtain ⟨ds, f | a, w⟩ := t
  · exact ht
  · exact fun d hd ↦ ht d (List.mem_append_left _ hd)

end ReadsSucceed

end Account

theorem Operation.not_isTerminal_of_isRead {o : Operation} (ho : o.isRead) : o.isTerminal = false := by
  cases o <;> first | rfl | cases ho

theorem Reads.deeds {p : Action α} (hp : Reads p) (w : World σ) :
    ∀ d ∈ p.deeds h cb w, d.operation.isRead := by
  induction hp generalizing w with
  | done x => exact fun _ hd ↦ by cases hd
  | bind _ _ ihp ihf =>
    intro d hd
    rw [Action.deeds_bind] at hd
    obtain hd | hd := List.mem_append.1 hd
    · exact ihp w d hd
    · exact ihf _ _ d hd
  | operate ho =>
    intro d hd
    rw [List.mem_singleton.1 hd]
    exact ho

theorem Reads.walk (shape : Shape) (columns : List Column) (n : Nat) (ys : List Mapped) (c : Cursor) :
    Reads (c.walk shape columns Blocking.push n ys).run := by
  induction n generalizing ys c with
  | zero => exact .ret _
  | succ n ih =>
    refine (Reads.fetchOne c).call_bind fun r ↦ ?_
    obtain ⟨_ | row, c⟩ := r
    · exact .ret _
    · exact (Reads.ret _).call_bind fun x ↦ (Reads.ret _).call_bind fun ys ↦ ih ys c

theorem Call.account_read_succeeds {o : Operation} (ho : o.isRead)
    (hs : (account h cb (operate o) w).ReadsSucceed) :
    ∃ x w', account h cb (operate o) w = ⟨[⟨o, none⟩], .ok x, w'⟩ := by
  have hfault : (h.perform cb o w).1.fault? = none := hs _ (List.mem_singleton.2 rfl) ho
  rw [account_operate]
  generalize h.perform cb o w = t at hfault ⊢
  obtain ⟨f | x, w'⟩ := t
  · cases hfault
  · exact ⟨x, w', rfl⟩

namespace Cursor

theorem account_fetchOne_succeeds (c : Cursor)
    (hs : (account h cb (fetchOne.run c) w).ReadsSucceed) :
    ∃ w', account h cb (fetchOne.run c) w =
      ⟨[⟨.fetch c.connection c.id c.fetched, none⟩], .ok (c.rows.head?, c.advance), w'⟩ := by
  have hc : account h cb (fetchOne.run c) w = _ := Blocking.account_fetchOne c w
  rw [hc] at hs ⊢
  obtain ⟨x, w', ho⟩ : ∃ x w', account h cb _ w = _ := account_read_succeeds rfl hs
  rw [ho]
  exact ⟨w', rfl⟩

theorem outcome_walk (shape : Shape) (columns : List Column) {n : Nat} {c : Cursor}
    (hn : c.rows.length < n) (ys : List Mapped)
    (hs : (account h cb (c.walk shape columns Blocking.push n ys) w).ReadsSucceed) :
    (account h cb (c.walk shape columns Blocking.push n ys) w).outcome =
      Outcome.ofResult ((c.rows.mapM (shape.ofRow columns)).map (ys ++ ·)) := by
  induction n generalizing c ys w with
  | zero => omega
  | succ n ih =>
    unfold walk at hs ⊢
    rw [account_bind] at hs ⊢
    obtain ⟨w', hf⟩ : ∃ w', account h cb (fetchOne.run c) w = _ :=
      c.account_fetchOne_succeeds hs.of_andThen
    rw [hf, Account.andThen_ok] at hs ⊢
    rw [Account.after_outcome]
    replace hs := hs.of_after
    cases hrows : c.rows with
    | nil =>
      rw [List.mapM_nil]
      exact congrArg Except.ok (List.append_nil ys).symm
    | cons row rows =>
      have hn' := length_advance_lt hrows hn
      rw [hrows] at hs
      dsimp only [List.head?_cons] at hs ⊢
      rw [account_bind, account_ofResult] at hs ⊢
      rw [List.mapM_cons]
      cases hx : shape.ofRow columns row with
      | error err => rfl
      | ok x =>
        rw [hx] at hs
        have hih := ih hn' (ys ++ [x]) hs
        change (account h cb (c.advance.walk shape columns Blocking.push n (ys ++ [x])) w').outcome = _
        rw [hih, rows_advance hrows]
        cases rows.mapM (shape.ofRow columns) with
        | error err => rfl
        | ok xs => exact congrArg Except.ok (List.append_assoc ys [x] xs)

theorem outcome_collect {n : Nat} {c : Cursor} (hn : c.rows.length < n)
    (hs : (account h cb ((collect fetchOne n).run c) w).ReadsSucceed) :
    (account h cb ((collect fetchOne n).run c) w).outcome.map Prod.fst = .ok c.rows := by
  have hrun : ∀ n (c : Cursor), (collect fetchOne (n + 1)).run c = fetchOne.run c >>= fun r ↦
      r.1.elim (pure ([], r.2)) fun row ↦
        (collect fetchOne n).run r.2 >>= fun s ↦ pure (row :: s.1, s.2) := by
    intro n c
    refine congrArg (fetchOne.run c >>= ·) (funext fun r ↦ ?_)
    obtain ⟨_ | row, c⟩ := r <;> rfl
  induction n generalizing c w with
  | zero => omega
  | succ n ih =>
    rw [hrun, account_bind] at hs ⊢
    obtain ⟨w', hf⟩ : ∃ w', account h cb (fetchOne.run c) w = _ :=
      c.account_fetchOne_succeeds hs.of_andThen
    rw [hf, Account.andThen_ok] at hs ⊢
    rw [Account.after_outcome]
    replace hs := hs.of_after
    cases hrows : c.rows with
    | nil => rfl
    | cons row rows =>
      have hn' := length_advance_lt hrows hn
      rw [hrows] at hs
      dsimp only [List.head?_cons, Option.elim_some] at hs ⊢
      rw [account_bind] at hs ⊢
      have hih := ih hn' hs.of_andThen
      rw [rows_advance hrows] at hih
      generalize account h cb ((collect fetchOne n).run c.advance) w' = t at hih
      obtain ⟨ds, f | r, w''⟩ := t
      · cases hih
      · obtain rfl : r.1 = rows := Except.ok.inj hih
        rfl

theorem outcome_pull_many (c : Cursor) (hs : (account h cb (c.pull .many) w).ReadsSucceed) :
    (account h cb (c.pull .many) w).outcome = .ok c.rows := by
  have hpull : c.pull .many = (collect fetchOne (c.rows.length + 1)).run c >>= fun r ↦ pure r.1 := rfl
  rw [hpull, account_bind] at hs ⊢
  have hall := outcome_collect (Nat.lt_succ_self _) hs.of_andThen
  generalize account h cb ((collect fetchOne (c.rows.length + 1)).run c) w = t at hall
  obtain ⟨ds, f | r, w'⟩ := t
  · cases hall
  · exact hall

end Cursor

namespace Blocking

variable {e : Entry} {c : Cursor}

theorem account_enclosing_result (hr : h.Returns) (e : Entry) {p : Call α} {ds : List Deed}
    {r : Except Error α} {w' : World σ} (hp : account h cb p w = ⟨ds, Outcome.ofResult r, w'⟩) :
    account h cb (Entry.enclosing e p) w = (account h cb (Entry.exit e r) w').after ds := by
  rw [Entry.account_enclosing hr, hp]
  cases r with
  | error err =>
    rw [Entry.account_exit_error hr]
    rfl
  | ok a => rfl

theorem account_reading_succeeds (hl : h.Lawful) (hr : h.Returns) {p : Call α} {r : Except Error α}
    (hp : Reads p.run) (hs : (account h cb (reading c p) w).ReadsSucceed)
    (hout : (account h cb p w).ReadsSucceed → (account h cb p w).outcome = Outcome.ofResult r) :
    ∃ reads w', account h cb (reading c p) w = ⟨reads, Outcome.ofResult r, w'⟩ ∧
      (∀ d ∈ reads, d.operation.isRead) ∧ w.memory.Read w'.memory := by
  have hread : w.memory.Read (account h cb p w).world.memory := hp.read hl w
  have hdeeds : ∀ d ∈ (account h cb p w).deeds, d.operation.isRead := hp.deeds w
  rw [account_reading hr] at hs ⊢
  generalize account h cb p w = t at hread hdeeds hs hout ⊢
  obtain ⟨ds, o, w₁⟩ := t
  have hclose : (account h cb c.close w₁).ReadsSucceed := by cases o <;> exact hs.of_after
  have ho : o = Outcome.ofResult r :=
    hout fun d hd ↦ by cases o <;> exact hs d (List.mem_append_left _ hd)
  have hread' : w₁.memory.Read (account h cb c.close w₁).world.memory := (Reads.close c).read hl w₁
  obtain ⟨x, w₂, hc⟩ : ∃ x w₂, account h cb c.close w₁ = _ := account_read_succeeds rfl hclose
  rw [hc] at hread'
  refine ⟨ds ++ [⟨.close c.connection c.id, none⟩], w₂, ?_, fun d hd ↦ ?_, hread.trans hread'⟩
  · rw [← ho]
    cases o <;> dsimp only <;> rw [hc] <;> rfl
  · obtain hd | hd := List.mem_append.1 hd
    · exact hdeeds d hd
    · rw [List.mem_singleton.1 hd]
      rfl

theorem account_deliver {c : Nat} (hu : w.memory.Usable c) (hoff : w.memory.flag c = false)
    (ret : Return) (columns : List Column) (rows : List Row) :
    account h cb (deliver ret columns c rows) w =
      ⟨[], Outcome.ofResult (ret.ofRows columns rows), w⟩ := by
  have hflag : account h cb (Session.autocommit c) w = ⟨[], .ok false, w⟩ := by
    have hlookup : (w.memory.held.lookup c).getD false = false := hoff
    unfold Session.autocommit
    rw [Session.account_checked_of_usable hu, account_bind, account_read, Account.andThen_ok,
      account_pure, hlookup]
    rfl
  unfold deliver
  rw [account_bind, account_ofResult]
  cases ret.ofRows columns rows with
  | error err => rfl
  | ok value =>
    change (account h cb (Session.autocommit c >>= fun on ↦ _) w).after [] = _
    rw [account_bind, hflag]
    rfl

theorem readsSucceed_of_enclosing (hr : h.Returns) {p : Call α}
    (hs : (account h cb (Entry.enclosing e p) w).ReadsSucceed) : (account h cb p w).ReadsSucceed := by
  rw [Entry.account_enclosing hr] at hs
  generalize account h cb p w = t at hs ⊢
  obtain ⟨ds, f | a, w'⟩ := t <;> exact fun d hd ↦ hs d (List.mem_append_left _ hd)

section

variable {shape : Shape} {r : Template.Rendered} {qs : List Deed} {w₁ : World σ}

theorem account_streamBody_succeeds (hl : h.Lawful) (hr : h.Returns)
    (hq : account h cb (Session.query e.connection r.sql r.params) w = ⟨qs, .ok c, w₁⟩)
    (hs : (account h cb (Entry.enclosing e (streamBody shape [] push r e.connection)) w).ReadsSucceed) :
    ∃ reads w₂, account h cb (Entry.enclosing e (streamBody shape [] push r e.connection)) w =
        (account h cb (Entry.exit e (c.rows.mapM (shape.ofRow c.columns))) w₂).after (qs ++ reads) ∧
      (∀ d ∈ reads, d.operation.isRead) ∧ w₁.memory.Read w₂.memory := by
  have hbody : account h cb (streamBody shape [] push r e.connection) w = (account h cb
      (reading c (c.walk shape c.columns push (c.rows.length + 1) [])) w₁).after qs := by
    unfold streamBody
    rw [account_bind, hq, Account.andThen_ok]
  have hs' := readsSucceed_of_enclosing hr hs
  rw [hbody] at hs'
  obtain ⟨reads, w₂, ht, hreads, hw⟩ : ∃ reads w₂, account h cb _ w₁ =
      ⟨reads, Outcome.ofResult (c.rows.mapM (shape.ofRow c.columns)), w₂⟩ ∧ _ :=
    account_reading_succeeds hl hr (.walk shape c.columns _ [] c) hs'.of_after fun hs ↦ by
      rw [c.outcome_walk shape c.columns (Nat.lt_succ_self _) [] hs]
      cases c.rows.mapM (shape.ofRow c.columns) <;> rfl
  rw [ht] at hbody
  exact ⟨reads, w₂, account_enclosing_result hr e hbody, hreads, hw⟩

theorem account_queryBody_succeeds (hl : h.Lawful) (hr : h.Returns)
    (hq : account h cb (Session.query e.connection r.sql r.params) w = ⟨qs, .ok c, w₁⟩)
    (hu : w₁.memory.Usable e.connection) (hoff : w₁.memory.flag e.connection = false)
    (hs : (account h cb (Entry.enclosing e (queryBody (.many shape) r e.connection)) w).ReadsSucceed) :
    ∃ reads w₂, account h cb (Entry.enclosing e (queryBody (.many shape) r e.connection)) w =
        (account h cb (Entry.exit e ((c.rows.mapM (shape.ofRow c.columns)).map .list)) w₂).after
          (qs ++ reads) ∧
      (∀ d ∈ reads, d.operation.isRead) ∧ w₁.memory.Read w₂.memory := by
  have hbody : account h cb (queryBody (.many shape) r e.connection) w = (account h cb
      (reading c (c.pull .many) >>= deliver (.many shape) c.columns e.connection) w₁).after qs := by
    rw [account_queryBody, account_bind, hq, Account.andThen_ok]
    rfl
  have hs' := readsSucceed_of_enclosing hr hs
  rw [hbody, account_bind] at hs'
  rw [account_bind] at hbody
  obtain ⟨reads, w₂, ht, hreads, hw⟩ : ∃ reads w₂, account h cb (reading c (c.pull .many)) w₁ =
      ⟨reads, Outcome.ofResult (.ok c.rows), w₂⟩ ∧ _ :=
    account_reading_succeeds hl hr (.pullRows c _) hs'.of_after.of_andThen c.outcome_pull_many
  have hu' : w₂.memory.Usable e.connection := (hw.quiet []).usable hu
  have hoff' : w₂.memory.flag e.connection = false := by
    rw [Memory.flag, hw.held]
    exact hoff
  have hret : (Return.many shape).ofRows c.columns c.rows =
      (c.rows.mapM (shape.ofRow c.columns)).map .list := by
    change (c.rows.mapM (shape.ofRow c.columns) >>= fun xs ↦ pure (Mapped.list xs)) = _
    cases c.rows.mapM (shape.ofRow c.columns) <;> rfl
  have hres : account h cb (queryBody (.many shape) r e.connection) w =
      ⟨qs ++ reads, Outcome.ofResult ((c.rows.mapM (shape.ofRow c.columns)).map .list), w₂⟩ := by
    rw [hbody, ht, ← hret]
    change ((account h cb (deliver (.many shape) c.columns e.connection c.rows) w₂).after reads).after qs = _
    rw [account_deliver hu' hoff', Account.after_after, Account.after_mk, List.append_nil]
  exact ⟨reads, w₂, account_enclosing_result hr e hres, hreads, hw⟩

end

end Blocking

theorem Entry.Concludes.eq {e e' : Entry} {ok : Bool} {ds ds' : List Deed}
    (hd : e.Concludes ok ds) (hd' : e'.Concludes ok ds') (ho : e'.owner = e.owner)
    (hb : e'.binder = e.binder) (hc : e'.connection = e.connection)
    (hsame : ∀ d ∈ ds, ∀ d' ∈ ds', d'.operation = d.operation → d'.fault = d.fault) : ds' = ds := by
  cases hd with
  | joined hj =>
    cases hd' with
    | joined => rfl
    | committed ho' | uncommitted ho' | rolledBack ho' => simp [ho, hj] at ho'
  | committed hown f =>
    cases hd' with
    | joined hj => simp [ho, hown] at hj
    | committed _ f' => simpa [hb, hc] using hsame
    | uncommitted _ f' => simp [hb, hc] at hsame
  | uncommitted hown f f' f'' =>
    cases hd' with
    | joined hj => simp [ho, hown] at hj
    | committed => simp [hb, hc] at hsame
    | uncommitted => simpa [hb, hc] using hsame
  | rolledBack hown f f' =>
    cases hd' with
    | joined hj => simp [ho, hown] at hj
    | rolledBack => simpa [hb, hc] using hsame

namespace Blocking.Entry

open BoundSql (Entry)

variable {e e' : Entry} {w' : World σ}

theorem outcome_exit_ok (hl : h.Lawful) (hr : h.Returns)
    (hu : e.owner → w.memory.Usable e.connection) (a : α) :
    (account h cb (exit e (.ok a)) w).outcome =
      match (account h cb (exit e (.ok a)) w).deeds.findSome? Deed.fault with
      | none => .ok a
      | some f => .error f := by
  obtain ⟨-, hfirst⟩ : e.Concludes true (account h cb (exit e (.ok a)) w).deeds ∧ _ :=
    concludes_exit hl hr hu a
  have hmap : account h cb (exit e (.ok a)) w = _ := account_exit_map hr e a w
  rw [← hfirst, hmap]
  dsimp only [Account.as_outcome]
  cases (account h cb (exit e (.ok ())) w).outcome <;> rfl

theorem exits_alike (hl : h.Lawful) (hr : h.Returns) (ho : e'.owner = e.owner)
    (hb : e'.binder = e.binder) (hc : e'.connection = e.connection)
    (hu : e.owner → w.memory.Usable e.connection) (hu' : e.owner → w'.memory.Usable e.connection)
    (r : Except Error α) (f : α → β)
    (hsame : ∀ d ∈ (account h cb (exit e r) w).deeds,
      ∀ d' ∈ (account h cb (exit e' (r.map f)) w').deeds,
        d'.operation = d.operation → d'.fault = d.fault) :
    (account h cb (exit e' (r.map f)) w').deeds = (account h cb (exit e r) w).deeds ∧
      (account h cb (exit e' (r.map f)) w').outcome = (account h cb (exit e r) w).outcome.map f := by
  rw [← ho, ← hc] at hu'
  cases r with
  | error err =>
    dsimp only [Except.map] at hsame ⊢
    rw [account_exit_error hr, account_exit_error hr] at hsame ⊢
    exact ⟨(concludes_abandon hl hr hu).eq (concludes_abandon hl hr hu') ho hb hc hsame, rfl⟩
  | ok a =>
    dsimp only [Except.map] at hsame ⊢
    obtain ⟨hd, -⟩ : e.Concludes true (account h cb (exit e (.ok a)) w).deeds ∧ _ :=
      concludes_exit hl hr hu a
    obtain ⟨hd', -⟩ : e'.Concludes true (account h cb (exit e' (.ok (f a))) w').deeds ∧ _ :=
      concludes_exit hl hr hu' (f a)
    have hdeeds := hd.eq hd' ho hb hc hsame
    refine ⟨hdeeds, ?_⟩
    rw [outcome_exit_ok hl hr hu', outcome_exit_ok hl hr hu, hdeeds]
    cases (account h cb (exit e (.ok a)) w).deeds.findSome? Deed.fault <;> rfl

end Blocking.Entry

namespace Blocking

section

variable {e e' : Entry} {w' w₁ w₁' : World σ} {shape : Shape} {r : Template.Rendered}
  {qs : List Deed} {o : Outcome Cursor}

/-- Behind the same query, a scope that walks over its rows and one that fetches them all agree. -/
theorem bodies_agree (hl : h.Lawful) (hr : h.Returns) (ho : e'.owner = e.owner)
    (hb : e'.binder = e.binder) (hc : e'.connection = e.connection)
    (hq : account h cb (Session.query e.connection r.sql r.params) w = ⟨qs, o, w₁⟩)
    (hq' : account h cb (Session.query e'.connection r.sql r.params) w' = ⟨qs, o, w₁'⟩)
    (hu : e.owner → w₁.memory.Usable e.connection) (hu' : e.owner → w₁'.memory.Usable e.connection)
    (hk : Outcome.isOk o → w₁'.memory.Usable e.connection ∧ w₁'.memory.flag e.connection = false)
    (hs : (account h cb (Entry.enclosing e (streamBody shape [] push r e.connection)) w).ReadsSucceed)
    (hs' : (account h cb (Entry.enclosing e'
      (queryBody (.many shape) r e'.connection)) w').ReadsSucceed)
    (hsame : (account h cb (Entry.enclosing e (streamBody shape [] push r e.connection)) w).SameEnds
      (account h cb (Entry.enclosing e' (queryBody (.many shape) r e'.connection)) w')) :
    (account h cb (Entry.enclosing e (streamBody shape [] push r e.connection)) w).Agrees
      (account h cb (Entry.enclosing e' (queryBody (.many shape) r e'.connection)) w') := by
  cases o with
  -- Without a cursor all that is left is to abandon the scope.
  | error f =>
    have ht : account h cb (Entry.enclosing e (streamBody shape [] push r e.connection)) w =
        ((account h cb (Entry.abandon e) w₁).as (.error f)).after qs := by
      rw [Entry.account_enclosing hr, streamBody, account_bind, hq]
      rfl
    have ht' : account h cb (Entry.enclosing e' (queryBody (.many shape) r e'.connection)) w' =
        ((account h cb (Entry.abandon e') w₁').as (.error f)).after qs := by
      rw [Entry.account_enclosing hr, account_queryBody, account_bind, hq']
      rfl
    rw [ht, ht'] at hsame ⊢
    have hterm : ∀ d ∈ (account h cb (Entry.abandon e) w₁).deeds, d.operation.isTerminal :=
      asks_abandon hr e w₁
    have hu₁' : e'.owner → w₁'.memory.Usable e'.connection := by
      rw [ho, hc]
      exact hu'
    have hdeeds : (account h cb (Entry.abandon e') w₁').deeds =
        (account h cb (Entry.abandon e) w₁).deeds :=
      (Entry.concludes_abandon hl hr hu).eq (Entry.concludes_abandon hl hr hu₁') ho hb hc
        fun d hd d' hd' ↦ hsame.of_after d hd d' hd' (hterm d hd)
    refine Account.Agrees.after ⟨rfl, ?_⟩ rfl
    rw [Account.effects, Account.as_deeds, hdeeds]
    rfl
  -- The stream may have read less than the query has; both leave the scope with the same result.
  | ok c =>
    obtain ⟨hu₁, hoff⟩ := hk rfl
    rw [← hc] at hu₁ hoff
    obtain ⟨reads, w₂, ht, hreads, hw⟩ := account_streamBody_succeeds hl hr hq hs
    obtain ⟨reads', w₂', ht', hreads', hw'⟩ := account_queryBody_succeeds hl hr hq' hu₁ hoff hs'
    rw [ht, ht'] at hsame ⊢
    have hterm : ∀ d ∈ (account h cb (Entry.exit e (c.rows.mapM (shape.ofRow c.columns))) w₂).deeds,
        d.operation.isTerminal := asks_exit hr e _ w₂
    have hu₂ : e.owner → w₂.memory.Usable e.connection := fun ho ↦ (hw.quiet []).usable (hu ho)
    have hu₂' : e.owner → w₂'.memory.Usable e.connection := fun ho ↦ (hw'.quiet []).usable (hu' ho)
    obtain ⟨hdeeds, hout⟩ := Entry.exits_alike hl hr ho hb hc hu₂ hu₂'
      (c.rows.mapM (shape.ofRow c.columns)) Mapped.list
      fun d hd d' hd' ↦ hsame.of_after d hd d' hd' (hterm d hd)
    refine Account.Agrees.after ⟨hout, ?_⟩ ?_
    · rw [Account.effects, hdeeds, Account.effects]
    · have hnone : ∀ {ds : List Deed}, (∀ d ∈ ds, d.operation.isRead) →
          (ds.filter fun d ↦ !d.operation.isRead) = [] := fun hds ↦
        List.filter_eq_nil_iff.2 fun d hd ↦ by simp [hds d hd]
      rw [List.filter_append, List.filter_append, hnone hreads, hnone hreads']

end

end Blocking

/-- Pools that do not see which connections are active. -/
def Host.Unaware (h : Host σ) : Prop :=
  ∀ (m : Memory) (A : Actives) (o : Operation) (n : Nat) (s : σ),
    h.answer { m with active := A } o n s = h.answer m o n s

/-- Autocommit is off on the connection that a bound call of the thread would get. -/
def Memory.Manual (m : Memory) (thread b : Nat) : Prop :=
  match m.active.lookup (thread, b) with
  | some c => m.flag c = false
  | none => ∀ p, m.pools.lookup b = some p → p.autocommit = false

namespace Session

variable {c : Nat} {a : List Nat} {sql : String} {params : List Value}

theorem account_checked_unaware (hv : h.Unaware) (A : Actives) (c : Nat) (o : Operation)
    (w : World σ) :
    let t := account h cb (check c >>= fun _ ↦ operate o) w
    ∃ w', account h cb (check c >>= fun _ ↦ operate o)
      { w with memory := { w.memory with active := A } } = ⟨t.deeds, t.outcome, w'⟩ := by
  have hnumber : o.number { w.memory with active := A } = o.number w.memory := by cases o <;> rfl
  have hperform : (h.perform cb o { w with memory := { w.memory with active := A } }).1 =
      (h.perform cb o w).1 := by
    rw [h.outcome_perform, h.outcome_perform]
    unfold Host.act Host.reaction
    dsimp only
    rw [hv, hnumber]
  dsimp only
  rw [account_bind, account_bind, account_check, account_check]
  split
  · exact ⟨_, rfl⟩
  · split
    · exact ⟨_, rfl⟩
    · rw [Account.andThen_ok, Account.andThen_ok, account_operate, account_operate, hperform]
      exact ⟨_, rfl⟩

theorem account_query_unaware (hv : h.Unaware) (A : Actives) (c : Nat) (sql : String)
    (params : List Value) (w : World σ) :
    let t := account h cb (query c sql params) w
    ∃ w', account h cb (query c sql params) { w with memory := { w.memory with active := A } } =
      ⟨t.deeds, t.outcome, w'⟩ := account_checked_unaware hv A c (.query c sql params) w

theorem usable_query (hl : h.Lawful) (hcb : cb.Sound) (hm : w.memory.Balanced a)
    (hc : c ≤ w.memory.leases) (hn : c ∉ w.memory.owned) (hu : w.memory.Usable c) :
    (account h cb (query c sql params) w).world.memory.Usable c ∧
      (account h cb (query c sql params) w).world.memory.flag c = w.memory.flag c := by
  have hk : Memory.Spares a c w.memory (account h cb (query c sql params) w).world.memory :=
    spares_query hl hcb hm hc hn sql params
  refine ⟨⟨?_, ?_⟩, by rw [Memory.flag, hk.flag]; rfl⟩
  · rw [Memory.Holds, hk.flag]
    exact hu.1
  · rw [hk.keeps.busy]
    exact hu.2

theorem usable_of_query (hq : Outcome.isOk (account h cb (query c sql params) w).outcome) :
    w.memory.Usable c := by
  by_contra hu
  obtain ⟨err, he⟩ : ∃ err, exec h cb (query c sql params) w = (.error (.error err), w) :=
    exec_check_bind_of_not _ hu
  have ho : (account h cb (query c sql params) w).outcome = .error (.error err) := congrArg Prod.fst he
  rw [ho] at hq
  cases hq

end Session

namespace Blocking

variable {a K : List Nat} {thread b : Nat} {shape : Shape} {r : Template.Rendered}

theorem agree_joined (hl : h.Lawful) (hr : h.Returns) (hm : InOrder h cb a K w.memory) {c : Nat}
    {e : Entry} (he : e = ⟨b, c, false, false, thread⟩)
    (ha : w.memory.active.lookup (thread, b) = some c) (hoff : w.memory.flag c = false)
    (hs : (account h cb (Entry.enclosing e (streamBody shape [] push r e.connection)) w).ReadsSucceed)
    (hs' : (account h cb (Entry.enclosing e
      (queryBody (.many shape) r e.connection)) w).ReadsSucceed)
    (hsame : (account h cb (Entry.enclosing e (streamBody shape [] push r e.connection)) w).SameEnds
      (account h cb (Entry.enclosing e (queryBody (.many shape) r e.connection)) w)) :
    (account h cb (Entry.enclosing e (streamBody shape [] push r e.connection)) w).Agrees
      (account h cb (Entry.enclosing e (queryBody (.many shape) r e.connection)) w) := by
  have hc := hm.balanced.active _ (Memory.mem_of_lookup ha)
  have hown : e.owner = false := by rw [he]
  have hconn : e.connection = c := by rw [he]
  rcases hq : account h cb (Session.query e.connection r.sql r.params) w with ⟨qs, o, w₁⟩
  refine bodies_agree hl hr rfl rfl rfl hq hq (fun ho ↦ ?_) (fun ho ↦ ?_) (fun hok ↦ ?_) hs hs' hsame
  · simp [hown] at ho
  · simp [hown] at ho
  · rw [hconn] at hq ⊢
    have hu : w.memory.Usable c := Session.usable_of_query (by rw [hq]; exact hok)
    have hafter : (account h cb (Session.query c r.sql r.params) w).world.memory.Usable c ∧ _ :=
      Session.usable_query hl (hm.callback.sound hl) hm.balanced hc.1
        (fun hn ↦ hc.2 (List.mem_append_right _ hn)) hu
    rw [hq] at hafter
    exact ⟨hafter.1, hafter.2.trans hoff⟩

theorem agree_leased (hl : h.Lawful) (hr : h.Returns) (hv : h.Unaware) (hcb : cb.Sound)
    (e e' : Entry) {m : Memory} {A : Actives} (hreg : e.registered = false) (hreg' : e'.registered)
    (ho : e'.owner = e.owner) (hb : e'.binder = e.binder) (hc : e'.connection = e.connection)
    (hopen : Memory.Opens a e m w.memory)
    (hopen' : Memory.Opens a e' m { w.memory with active := A })
    (hoff : w.memory.flag e.connection = false)
    (hs : (account h cb (Entry.enclosing e (streamBody shape [] push r e.connection)) w).ReadsSucceed)
    (hs' : (account h cb (Entry.enclosing e' (queryBody (.many shape) r e'.connection))
      { w with memory := { w.memory with active := A } }).ReadsSucceed)
    (hsame : (account h cb (Entry.enclosing e (streamBody shape [] push r e.connection)) w).SameEnds
      (account h cb (Entry.enclosing e' (queryBody (.many shape) r e'.connection))
        { w with memory := { w.memory with active := A } })) :
    (account h cb (Entry.enclosing e (streamBody shape [] push r e.connection)) w).Agrees
      (account h cb (Entry.enclosing e' (queryBody (.many shape) r e'.connection))
        { w with memory := { w.memory with active := A } }) := by
  have hbal := (hopen.passes hreg).balanced
  have hbal' := hopen'.balanced
  rw [if_pos hreg'] at hbal'
  have hafter : (account h cb (Session.query e.connection r.sql r.params) w).world.memory.Usable
      e.connection ∧ _ :=
    Session.usable_query hl hcb hbal (hbal.holds_le _ hopen.usable.1)
      (fun hn ↦ hopen.apart (List.mem_append_right _ hn)) hopen.usable
  have hafter' : (account h cb (Session.query e'.connection r.sql r.params)
      { w with memory := { w.memory with active := A } }).world.memory.Usable e'.connection ∧ _ :=
    Session.usable_query hl hcb hbal' (hbal'.holds_le _ hopen'.usable.1)
      (fun hn ↦ hopen'.apart (List.mem_append_right _ hn)) hopen'.usable
  obtain ⟨w₁', hq'⟩ : ∃ w₁', account h cb (Session.query e.connection r.sql r.params)
      { w with memory := { w.memory with active := A } } = _ :=
    Session.account_query_unaware hv A e.connection r.sql r.params w
  rw [hc, hq'] at hafter'
  rcases hq : account h cb (Session.query e.connection r.sql r.params) w with ⟨qs, o, w₁⟩
  rw [hq] at hafter hq'
  exact bodies_agree hl hr ho hb hc hq (by rw [hc]; exact hq') (fun _ ↦ hafter.1) (fun _ ↦ hafter'.1)
    (fun _ ↦ ⟨hafter'.1, hafter'.2.trans hoff⟩) hs hs' hsame

theorem account_enter_alike (thread b : Nat) (w : World σ) :
    (∃ ds f w', ∀ register, account h cb (enter thread b register) w = ⟨ds, .error f, w'⟩) ∨
    (∃ c, w.memory.active.lookup (thread, b) = some c ∧ ∀ register,
      account h cb (enter thread b register) w = ⟨[], .ok ⟨b, c, false, false, thread⟩, w⟩) ∨
    ∃ p c w' ds, w.memory.pools.lookup b = some p ∧ w.memory.active.lookup (thread, b) = none ∧
      w'.memory.flag c = p.autocommit ∧
      account h cb (enter thread b false) w = ⟨ds, .ok ⟨b, c, true, false, thread⟩, w'⟩ ∧
      ∃ A : Actives, account h cb (enter thread b true) w = ⟨ds, .ok ⟨b, c, true, true, thread⟩,
        { w' with memory := { w'.memory with active := A } }⟩ := by
  simp only [account_enter]
  cases w.memory.pools.lookup b with
  | none => exact .inl ⟨_, _, _, fun _ ↦ rfl⟩
  | some p =>
    cases w.memory.active.lookup (thread, b) with
    | some c => exact .inr (.inl ⟨c, rfl, fun _ ↦ rfl⟩)
    | none =>
      obtain ⟨ds, f | c, w'⟩ := account h cb (request b) w
      · exact .inl ⟨ds, f, w', fun _ ↦ rfl⟩
      · refine .inr (.inr ⟨p, c, { w' with memory := w'.memory.hold c p.autocommit }, ds, rfl, rfl, ?_,
          congrArg (Account.mk · _ _) (List.append_nil ds), _,
          congrArg (Account.mk · _ _) (List.append_nil ds)⟩)
        rw [Memory.flag, Memory.hold, Memory.lookup_setKey_self]
        rfl

theorem scopes_agree (hl : h.Lawful) (hr : h.Returns) (hv : h.Unaware)
    (hm : InOrder h cb a K w.memory) (hoff : w.memory.Manual thread b)
    (hs : (account h cb (scope thread b false (streamBody shape [] push r)) w).ReadsSucceed)
    (hs' : (account h cb (scope thread b true (queryBody (.many shape) r)) w).ReadsSucceed)
    (hsame : (account h cb (scope thread b false (streamBody shape [] push r)) w).SameEnds
      (account h cb (scope thread b true (queryBody (.many shape) r)) w)) :
    (account h cb (scope thread b false (streamBody shape [] push r)) w).Agrees
      (account h cb (scope thread b true (queryBody (.many shape) r)) w) := by
  have hscope : ∀ {α : Type} (register : Bool) (body : Nat → Call α),
      account h cb (scope thread b register body) w =
        (account h cb (enter thread b register) w).andThen fun e w ↦
          account h cb (Entry.enclosing e (body e.connection)) w := fun _ _ ↦ account_bind _ _ w
  have henter : ∀ register, Enters a thread b register w
      (account h cb (enter thread b register) w).outcome
      (account h cb (enter thread b register) w).world := enters hl hm.balanced thread b
  have hstream := henter false
  have hquery := henter true
  unfold Memory.Manual at hoff
  rw [hscope] at hs hs' hsame ⊢
  rw [hscope] at hsame ⊢
  obtain ⟨ds, f, w', he⟩ | ⟨c, ha, he⟩ | ⟨p, c, w', ds, hp, ha, hflag, he, A, he'⟩ :
      (∃ ds f w', ∀ register, account h cb (enter thread b register) w = _) ∨ _ ∨ _ :=
    account_enter_alike thread b w
  · rw [he, he, Account.andThen_error, Account.andThen_error]
    exact ⟨rfl, rfl⟩
  -- Both have joined the scope that is active.
  · rw [he, Account.andThen_ok, Account.after_nil] at hs hs' hsame ⊢
    rw [he, Account.andThen_ok, Account.after_nil] at hsame ⊢
    rw [ha] at hoff
    exact agree_joined hl hr hm rfl ha hoff hs hs' hsame
  -- Both have leased a connection, and only the query has made it the active one.
  · rw [he, Account.andThen_ok] at hs hsame ⊢
    rw [he', Account.andThen_ok] at hs' hsame ⊢
    rw [ha] at hoff
    rw [he] at hstream
    rw [he'] at hquery
    cases hstream with
    | leased _ _ ho =>
    cases hquery with
    | leased _ _ ho' =>
    exact .after (agree_leased hl hr hv (hm.callback.sound hl) ⟨b, c, true, false, thread⟩
      ⟨b, c, true, true, thread⟩ rfl rfl rfl rfl rfl ho ho' (hflag.trans (hoff p hp))
      hs.of_after hs'.of_after hsame.of_after) rfl

theorem asks_reading (hr : h.Returns) (c : Cursor) {p : Call α} (hp : Reads p.run) :
    (reading c p).Asks h cb fun o ↦ o.isRead := by
  intro w d hd
  have hdeeds : ∀ d ∈ (account h cb p w).deeds, d.operation.isRead := hp.deeds w
  have hclose : c.close.Asks h cb fun o ↦ o.isRead := .operate rfl
  rw [account_reading hr] at hd
  generalize account h cb p w = t at hdeeds hd
  obtain ⟨ds, f | a, w'⟩ := t <;> obtain hd | hd := List.mem_append.1 hd
  · exact hdeeds d hd
  · exact hclose w' d hd
  · exact hdeeds d hd
  · exact hclose w' d hd

theorem account_enclosing_joined (hr : h.Returns) {e : Entry} (ho : e.owner = false) (p : Call α)
    (w : World σ) : account h cb (Entry.enclosing e p) w = account h cb p w := by
  rw [Entry.account_enclosing hr]
  rcases account h cb p w with ⟨ds, f | a, w'⟩
  · dsimp only
    rw [Entry.account_abandon_joined ho]
    simp
  · dsimp only
    rw [Entry.account_exit_joined ho]
    simp [Outcome.ofResult]

theorem endless_joined (hr : h.Returns) {c : Nat} (ha : w.memory.active.lookup (thread, b) = some c) :
    ∀ d ∈ (account h cb (scope thread b false (streamBody shape [] push r)) w).deeds,
      d.operation.isTerminal = false := by
  have hreads : ∀ {α : Type} {p : Call α}, p.Asks h cb (fun o ↦ o.isRead) →
      p.Asks h cb fun o ↦ o.isTerminal = false :=
    fun hp w d hd ↦ Operation.not_isTerminal_of_isRead (hp w d hd)
  have hbody : (streamBody shape [] push r c).Asks h cb fun o ↦ o.isTerminal = false := by
    have hq : (operate (.query c r.sql r.params) : Call Cursor).Asks h cb
      fun o ↦ o.isTerminal = false := .operate rfl
    have hquery : (Session.query c r.sql r.params).Asks h cb fun o ↦ o.isTerminal = false :=
      hq.checked c
    exact hquery.bind fun cursor ↦ hreads (asks_reading hr cursor (.walk shape cursor.columns _ [] cursor))
  intro d hd
  unfold scope at hd
  rw [account_bind] at hd
  obtain ⟨ds, f, w', he⟩ | ⟨c', ha', he⟩ | ⟨p, c', w', ds, hp, ha', -⟩ :
      (∃ ds f w', ∀ register, account h cb (enter thread b register) w = _) ∨ _ ∨ _ :=
    account_enter_alike thread b w
  · have hlease : ∀ d ∈ (account h cb (enter thread b false) w).deeds, d.operation.isLease :=
      asks_enter thread b false w
    rw [he] at hd hlease
    have hl := hlease d hd
    cases ho : d.operation <;> rw [ho] at hl <;> first | rfl | cases hl
  · obtain rfl : c = c' := Option.some.inj (ha.symm.trans ha')
    rw [he, Account.andThen_ok, Account.after_nil, account_enclosing_joined hr rfl] at hd
    exact hbody w d hd
  · rw [ha] at ha'
    cases ha'

end Blocking

/-- Where no reading fails, collecting a stream comes to what querying for all rows comes to, and does
the same besides reading, if autocommit is off and scopes end in the same way both times. In the scope
that is active neither of them ends it. -/
theorem streaming_agrees_with_fetching (hl : h.Lawful) (hr : h.Returns) (hv : h.Unaware)
    {a K : List Nat} (hw : Reached h cb a K w) {thread : Nat} {f : Bound}
    (hoff : w.memory.Manual thread f.binder) (shape : Shape) (args : Arguments) :
    let t := account h cb (Blocking.collect thread f shape args) w
    let t' := account h cb (Blocking.query thread f (.many shape) args) w
    t.ReadsSucceed → t'.ReadsSucceed → t.SameEnds t' →
      t'.outcome = t.outcome.map .list ∧ t'.effects = t.effects ∧
      ((w.memory.active.lookup (thread, f.binder)).isSome →
        ∀ d ∈ t.deeds ++ t'.deeds, d.operation.isTerminal = false) := by
  intro t t' hs hs' hsame
  have ht : t = account h cb (f.render args >>= fun r ↦
      Blocking.scope thread f.binder false (Blocking.streamBody shape [] Blocking.push r)) w :=
    Blocking.account_forEach hr thread f shape args [] Blocking.push w
  have ht' : t' = account h cb (f.render args >>= fun r ↦
      Blocking.scope thread f.binder true (Blocking.queryBody (.many shape) r)) w := rfl
  obtain ⟨r, hrender⟩ : ∃ r, account h cb (f.render args) w = ⟨[], r, w⟩ :=
    ⟨_, f.account_render args w⟩
  rw [account_bind, hrender] at ht ht'
  clear_value t t'
  cases r with
  | error err =>
    rw [ht, ht']
    exact ⟨rfl, rfl, fun _ d hd ↦ by cases hd⟩
  | ok r =>
    rw [Account.andThen_ok, Account.after_nil] at ht ht'
    subst ht ht'
    obtain ⟨hout, heffects⟩ := Blocking.scopes_agree hl hr hv (hw.inOrder hl) hoff hs hs' hsame
    refine ⟨hout, heffects, fun hactive d hd ↦ ?_⟩
    obtain ⟨c, ha⟩ := Option.isSome_iff_exists.1 hactive
    have hstream : ∀ d ∈ (account h cb (Blocking.scope thread f.binder false
        (Blocking.streamBody shape [] Blocking.push r)) w).deeds, d.operation.isTerminal = false :=
      Blocking.endless_joined hr ha
    -- What the query does besides reading the stream does too, and that has no terminal action.
    obtain hd | hd := List.mem_append.1 hd
    · exact hstream d hd
    · cases hread : d.operation.isRead with
      | true => exact Operation.not_isTerminal_of_isRead hread
      | false =>
        have heff : d ∈ (account h cb (Blocking.scope thread f.binder true
            (Blocking.queryBody (.many shape) r)) w).effects :=
          List.mem_filter.2 ⟨hd, by rw [hread]; rfl⟩
        rw [heffects] at heff
        exact hstream d (List.mem_filter.1 heff).1

theorem Script.unaware_granting (r : ResultSet) : (Script.granting r).Unaware := fun _ _ _ _ _ ↦ rfl

/-- Two rows of which none maps: the stream reads one of them, the query both. -/
theorem streaming_agrees_with_fetching_unmapped :
    let h := Script.granting ⟨[], [[], []], true⟩
    let m := { Program.ready with pools := [(0, ⟨false, .questionMark, 1⟩)] }
    let shape := Shape.scalar ⟨.bool, false⟩
    ∃ cb,
      let t := account h cb (Blocking.collect 0 Bound.deletion shape .none) ⟨m, ()⟩
      let t' := account h cb (Blocking.query 0 Bound.deletion (.many shape) .none) ⟨m, ()⟩
      t'.outcome = t.outcome.map .list ∧ t'.effects = t.effects ∧ t.outcome.isOk = false ∧
        t.deeds.length = 6 ∧ t'.deeds.length = 8 := by
  intro h m shape
  have hreach : Reached h (fun _ w ↦ (.step (.ok .unit) [] [] none, w)) [] [] ⟨m, ()⟩ :=
    .pooled .never _ ()
  refine ⟨fun _ w ↦ (.step (.ok .unit) [] [] none, w), ?_⟩
  have hoff : m.Manual 0 Bound.deletion.binder := fun p hp ↦ by
    obtain rfl : (⟨false, .questionMark, 1⟩ : PoolSpec) = p := Option.some.inj hp
    rfl
  intro t t'
  have hnone : ((t.deeds ++ t'.deeds).all fun d ↦ d.fault.isNone) = true := by decide +kernel
  have hfree : ∀ d ∈ t.deeds ++ t'.deeds, d.fault = none := fun d hd ↦
    Option.isNone_iff_eq_none.1 (List.all_eq_true.1 hnone d hd)
  have hfree' : ∀ d ∈ t'.deeds, d.fault = none := fun d hd ↦ hfree d (List.mem_append_right _ hd)
  obtain ⟨hout, heffects, -⟩ := streaming_agrees_with_fetching (h := h) (Script.lawful_granting _)
    (Script.returns_granting _) (Script.unaware_granting _) hreach hoff shape .none
    (fun d hd _ ↦ hfree d (List.mem_append_left _ hd)) (fun d hd _ ↦ hfree' d hd)
    (fun d hd d' hd' _ _ ↦ (hfree' d' hd').trans (hfree d (List.mem_append_left _ hd)).symm)
  exact ⟨hout, heffects, by decide +kernel, by decide +kernel, by decide +kernel⟩

end BoundSql
