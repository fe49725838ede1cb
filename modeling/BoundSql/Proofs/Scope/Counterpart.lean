import BoundSql.Proofs.Scope.Entering
import BoundSql.Proofs.Scope.Entry
import BoundSql.Proofs.Scope.Twin

namespace BoundSql

open Memory

variable {σ α β : Type} {h : Host σ} {cb : Callback σ} {L : Nat → Nat → Prop} {A B : Actives}
  {W : World σ → Prop} {w : World σ} {b c : Nat} {m m' : Memory}

def InScopes (A : Actives) (w : World σ) : Prop := w.memory.active = A

def Call.Twins (h : Host σ) (L : Nat → Nat → Prop) (W : World σ → Prop)
    (Q : Outcome α → World σ → Prop) (p q : Call α) : Prop :=
  ∀ w, W w → Twin h L (fun r r' w' ↦ r' = r ∧ Q r w') w p.run q.run

def Kept (A : Actives) (r : Outcome α) (w : World σ) : Prop := Outcome.isPanic r = false ∧ InScopes A w

def Gives (P : α → Prop) (A : Actives) (r : Outcome α) (w : World σ) : Prop :=
  Kept A r w ∧ ∀ a, r = .ok a → P a

def Caught (P : α → Prop) (A : Actives) (v : Outcome (Except Error α)) (w : World σ) : Prop :=
  (∃ r, v = .ok r ∧ ∀ a, r = .ok a → P a) ∧ InScopes A w

def Call.After (h : Host σ) (cb : Callback σ) (W : World σ → Prop) (p : Call α) (a : α)
    (w' : World σ) : Prop := ∃ w, W w ∧ exec h cb p w = (.ok a, w')

theorem Call.After.mono {W V : World σ → Prop} {p : Call α} {a : α} (ha : Call.After h cb W p a w)
    (hW : ∀ w, W w → V w) : Call.After h cb V p a w := by
  obtain ⟨w₀, hw₀, he⟩ := ha
  exact ⟨w₀, hW w₀ hw₀, he⟩

/-- In sequence it does not panic. -/
def Call.Returns (h : Host σ) (cb : Callback σ) (p : Call α) (w : World σ) : Prop :=
  Outcome.isPanic (exec h cb p w).1 = false

namespace Call.Returns

variable {p : Call α} {k : α → Call β} {e : Entry} {w' : World σ}

theorem first (hr : (p >>= k).Returns h cb w) : p.Returns h cb w := by
  unfold Call.Returns at hr ⊢
  rw [exec_bind] at hr
  rcases hp : exec h cb p w with ⟨(err | m) | a, w'⟩
  · rfl
  · rwa [hp] at hr
  · rfl

theorem next {a : α} (hr : (p >>= k).Returns h cb w) (hp : exec h cb p w = (.ok a, w')) :
    (k a).Returns h cb w' := by
  unfold Call.Returns at hr
  rwa [exec_bind, hp] at hr

theorem of_caught (hr : (Blocking.caught p).Returns h cb w) : p.Returns h cb w := by
  unfold Call.Returns at hr ⊢
  rw [exec_caught] at hr
  rcases hp : exec h cb p w with ⟨(err | m) | a, w'⟩
  · rfl
  · rwa [hp] at hr
  · rfl

theorem of_guarded (hr : (Blocking.Entry.guarded e p).Returns h cb w) : p.Returns h cb w := by
  unfold Call.Returns at hr ⊢
  rw [Blocking.Entry.exec_guarded] at hr
  rcases hp : exec h cb p w with ⟨(err | m) | a, w'⟩
  · rfl
  · rwa [hp] at hr
  · rfl

theorem connection {body : Nat → Call α} (hr : (Blocking.connection 0 b body).Returns h cb w)
    (he : exec h cb (Blocking.enter 0 b true) w = (.ok e, w')) : (body e.connection).Returns h cb w' :=
  (hr.next he).first.of_guarded.of_caught

theorem transaction {body : Nat → Call α} {on : Bool} {w₁ w₂ w₃ : World σ}
    (hr : (Blocking.transaction 0 b body).Returns h cb w)
    (he : exec h cb (Blocking.enter 0 b true) w = (.ok e, w₁))
    (hon : exec h cb (Session.autocommit e.connection) w₁ = (.ok on, w₂))
    (hoff : exec h cb (Session.setAutocommit e.connection false) w₂ = (.ok (), w₃)) :
    (body e.connection).Returns h cb w₃ := by
  unfold Blocking.transaction at hr
  exact (((hr.connection he).next hon).next hoff).first.of_caught

end Call.Returns

theorem Kept.fail (e : Error) (hw : InScopes A w) : Kept A (.error (.error e) : Outcome α) w := ⟨rfl, hw⟩

theorem Kept.gives {r : Outcome α} (hr : Kept A r w) : Gives (fun _ ↦ True) A r w :=
  ⟨hr, fun _ _ ↦ trivial⟩

theorem Gives.fail {P : α → Prop} (e : Error) (hw : InScopes A w) :
    Gives P A (.error (.error e) : Outcome α) w := ⟨⟨rfl, hw⟩, nofun⟩

theorem Caught.not_panic {P : α → Prop} {v : Outcome (Except Error α)} (hv : Caught P A v w) :
    Outcome.isPanic v = false := by
  obtain ⟨⟨r, rfl, -⟩, -⟩ := hv
  rfl

theorem Host.active_act (h : Host σ) (o : Operation) (w : World σ) :
    (h.act o w).2.memory.active = w.memory.active := by
  rw [Host.act_memory]
  exact register_active ..

namespace Twin

variable {γ : Type} {P : Outcome β → γ → World σ → Prop} {q : Action γ}

theorem looking {k : Memory → Call β} (hk : Twin h L P w (k w.memory).run q) :
    Twin h L P w (Call.read >>= k).run q := .active (fun _ hm ↦ hm) hk

theorem changing {f : Actives → Actives} {k : Unit → Call β}
    (hk : Twin h L P { w with memory := { w.memory with active := f w.memory.active } } (k ()).run q) :
    Twin h L P w (Call.modify (fun m ↦ { m with active := f m.active }) >>= k).run q :=
  .active (fun _ hm ↦ hm.active _) hk

theorem protecting {γ : Type} {P : γ → Outcome β → World σ → Prop} {p : Action γ} {q : Call β}
    (hq : Twin h L P w p q.run) (hP : ∀ a r w', P a r w' → Outcome.isPanic r = false) (j : Job) :
    Twin h L P w p (Async.protecting j q).run := by
  rw [← Action.bind_done p]
  refine (hq.orphaning j).bind fun a r w' hr ↦ ?_
  rw [if_neg (by simp [hP _ _ _ hr])]
  exact .done hr

end Twin

namespace Call.Twins

variable {P : α → Prop} {Q : Outcome α → World σ → Prop} {S : Outcome β → World σ → Prop} {p q : Call α}
  {k k' : α → Call β}

theorem ret {r : Outcome α} (hr : ∀ w, W w → Q r w) :
    Twins h L W Q (ExceptT.mk (.done r)) (ExceptT.mk (.done r)) := fun w hw ↦ .done ⟨rfl, hr w hw⟩

theorem fail (e : Error) : Twins h L (InScopes A) (Kept A) (Call.fail e : Call α) (Call.fail e) :=
  .ret fun _ ↦ .fail e

theorem pure (a : α) : Twins h L (InScopes A) (Kept A) (Pure.pure a : Call α) (Pure.pure a) :=
  .ret fun _ hw ↦ ⟨rfl, hw⟩

theorem ofResult (r : Except Error α) :
    Twins h L (InScopes A) (Kept A) (Call.ofResult r) (Call.ofResult r) := by
  cases r with
  | ok a => exact .pure a
  | error e => exact .fail e

theorem mono {S : Outcome α → World σ → Prop} (hp : Twins h L W Q p q) (hQ : ∀ r w, Q r w → S r w) :
    Twins h L W S p q :=
  fun w hw ↦ (hp w hw).mono fun _ _ _ hr ↦ hr.imp_right (hQ _ _)

theorem pre {V : World σ → Prop} (hp : Twins h L W Q p q) (hV : ∀ w, V w → W w) :
    Twins h L V Q p q := fun w hw ↦ hp w (hV w hw)

theorem bind (hp : Twins h L W Q p q) (he : ∀ f w, Q (.error f) w → S (.error f) w)
    (hk : ∀ a, Twins h L (Q (.ok a)) S (k a) (k' a)) : Twins h L W S (p >>= k) (q >>= k') := by
  intro w hw
  refine BoundSql.Twin.bind (hp w hw) fun r r' w' hr ↦ ?_
  obtain ⟨rfl, hr⟩ := hr
  cases r' with
  | ok a => exact hk a w' hr
  | error f => exact .done ⟨rfl, he f w' hr⟩

theorem before {γ : Type} {P : Outcome β → Outcome γ → World σ → Prop} {k : α → Call β}
    {k' : α → Call γ} (hp : Twins h L W (Kept A) p q)
    (he : ∀ e w', InScopes A w' → P (.error (.error e)) (.error (.error e)) w')
    (hk : ∀ a w', InScopes A w' → Twin h L P w' (k a).run (k' a).run) (hw : W w) :
    Twin h L P w (p >>= k).run (q >>= k').run := by
  refine BoundSql.Twin.bind (hp w hw) fun r r' w' hr ↦ ?_
  obtain ⟨rfl, hpanic, hw'⟩ := hr
  rcases r' with (e | m) | a
  · exact .done (he e w' hw')
  · cases hpanic
  · exact hk a w' hw'

theorem kept_bind (hp : Twins h L W (Kept A) p q) (he : ∀ e w, InScopes A w → S (.error (.error e)) w)
    (hk : ∀ a, Twins h L (InScopes A) S (k a) (k' a)) : Twins h L W S (p >>= k) (q >>= k') :=
  fun _ hw ↦ hp.before (fun e w hw ↦ ⟨rfl, he e w hw⟩) hk hw

theorem caught_bind {p q : Call (Except Error α)} {k k' : Except Error α → Call β}
    (hp : Twins h L W (Caught P A) p q)
    (hk : ∀ r, (∀ a, r = .ok a → P a) → Twins h L (InScopes A) S (k r) (k' r)) :
    Twins h L W S (p >>= k) (q >>= k') := by
  refine hp.bind (fun f w hf ↦ ?_) fun r ↦ ?_
  · obtain ⟨⟨r, hr, -⟩, -⟩ := hf
    cases hr
  · rintro w ⟨⟨r, hr, hP⟩, hw⟩
    cases hr
    exact hk r hP w hw

theorem traced (cb : Callback σ) (hp : Twins h L W Q p q) :
    Twins h L W (fun r w' ↦ Q r w' ∧ ∃ w, W w ∧ exec h cb p w = (r, w')) p q :=
  fun w hw ↦ ((hp w hw).traced cb).mono fun _ _ _ hr ↦ ⟨hr.1.1, hr.1.2, w, hw, hr.2⟩

theorem gives (hp : Twins h L W (Kept A) p q) : Twins h L W (Gives (fun _ ↦ True) A) p q :=
  hp.mono fun _ _ ↦ Kept.gives

theorem gives_then (cb : Callback σ) (hp : Twins h L W (Gives P A) p q)
    (he : ∀ e w, InScopes A w → S (.error (.error e)) w)
    (hk : ∀ a, P a → Twins h L (fun w ↦ InScopes A w ∧ Call.After h cb W p a w) S (k a) (k' a)) :
    Twins h L W S (p >>= k) (q >>= k') := by
  refine (hp.traced cb).bind (fun f w hf ↦ ?_) fun a w hw ↦ ?_
  · obtain ⟨⟨⟨hpanic, hw⟩, -⟩, -⟩ := hf
    cases f with
    | error e => exact he e w hw
    | panic m => cases hpanic
  · obtain ⟨⟨⟨-, hw⟩, hP⟩, hafter⟩ := hw
    exact hk a (hP a rfl) w ⟨hw, hafter⟩

theorem outcome_bind {k k' : Outcome α → Call β} (hp : Twins h L W (Kept A) p q)
    (hk : ∀ r, Outcome.isPanic r = false → Twins h L (InScopes A) S (k r) (k' r)) :
    Twins h L W S (p.outcome >>= k) (q.outcome >>= k') := by
  intro w hw
  change Twin h L _ w (p.outcome >>= k).run (q.outcome >>= k').run
  rw [Call.run_outcome_bind, Call.run_outcome_bind]
  refine BoundSql.Twin.bind (hp w hw) fun r r' w' hr ↦ ?_
  obtain ⟨rfl, hpanic, hw'⟩ := hr
  exact hk r' hpanic w' hw'

theorem caught (hp : Twins h L W (Gives P A) p q) :
    Twins h L W (Caught P A) (Blocking.caught p) (Async.caught q) := by
  intro w hw
  change Twin h L _ w (Blocking.caught p).run (Blocking.caught q).run
  rw [Call.run_caught, Call.run_caught]
  refine BoundSql.Twin.bind (hp w hw) fun r r' w' hr ↦ ?_
  obtain ⟨rfl, ⟨hpanic, hw'⟩, hP⟩ := hr
  rcases r' with (e | m) | a
  · exact .done ⟨rfl, ⟨_, rfl, nofun⟩, hw'⟩
  · cases hpanic
  · exact .done ⟨rfl, ⟨_, rfl, fun b hb ↦ hP b (congrArg _ (Except.ok.inj hb))⟩, hw'⟩

theorem read_bind {k k' : Memory → Call β}
    (hk : ∀ m m', m.Alike m' → Twins h L (InScopes A) S (k m) (k' m')) :
    Twins h L (InScopes A) S (Call.read >>= k) (Call.read >>= k') :=
  fun w hw ↦ .memory (fun _ hm ↦ ⟨hm, rfl⟩) fun m' hm ↦ hk w.memory m' hm w hw

theorem modify_bind {f : Memory → Memory} {k k' : Unit → Call β}
    (hf : ∀ m m', m.Alike m' → (f m).Alike (f m') ∧ (f m).active = m.active ∧ (f m').started = m'.started)
    (hk : Twins h L (InScopes A) S (k ()) (k' ())) :
    Twins h L (InScopes A) S (Call.modify f >>= k) (Call.modify f >>= k') := by
  intro w hw
  refine .memory (fun m' hm ↦ ?_) fun m' hm ↦ hk _ ((hf w.memory m' hm).2.1.trans hw)
  obtain ⟨hm', -, hstarted⟩ := hf w.memory m' hm
  exact ⟨hm', hstarted⟩

theorem operate {o : Operation} (ho : o.site?.isSome) :
    Twins h L (InScopes A) (Kept A) (Call.operate o) (Call.operate o) :=
  fun w hw ↦ .operation ho fun hr ↦ .done ⟨rfl, hr.act, (h.active_act o w).trans hw⟩

theorem protecting (hp : Twins h L W Q p q) (hQ : ∀ r w, Q r w → Outcome.isPanic r = false) (j : Job) :
    Twins h L W Q p (Async.protecting j q) :=
  fun w hw ↦ (hp w hw).protecting (fun _ _ _ hr ↦ hr.1 ▸ hQ _ _ hr.2) j

theorem ite {c : Prop} [Decidable c] {p' q' : Call α} (hp : Twins h L W Q p q)
    (hp' : Twins h L W Q p' q') : Twins h L W Q (if c then p else p') (if c then q else q') := by
  split
  · exact hp
  · exact hp'

theorem ite_right {c : Prop} [Decidable c] {q' : Call α} (hc : c) (hp : Twins h L W Q p q) :
    Twins h L W Q p (if c then q else q') := by
  rw [if_pos hc]
  exact hp

theorem locking (hp : Twins h L W Q p q) : Twins h L W Q p (Async.locking c q) :=
  fun w hw ↦ .access (hp w hw)

end Call.Twins

open Call (Twins)

namespace Session

theorem twins_check : Twins h L (InScopes A) (Kept A) (check c) (check c) := by
  refine .read_bind fun m m' hm ↦ ?_
  rw [hm.idle, hm.idle', hm.held, if_neg List.not_mem_nil]
  split
  · exact .fail _
  · exact .pure _

theorem twins_checked {o : Operation} (ho : o.site?.isSome) : Twins h L (InScopes A) (Kept A)
    (check c >>= fun _ ↦ Call.operate o) (check c >>= fun _ ↦ Call.operate o) :=
  twins_check.kept_bind (fun e _ ↦ .fail e) fun _ ↦ .operate ho

theorem twins_execute (sql : String) (params : List Value) :
    Twins h L (InScopes A) (Kept A) (execute c sql params) (execute c sql params) :=
  twins_checked (o := .execute c sql params) rfl

theorem twins_query (sql : String) (params : List Value) :
    Twins h L (InScopes A) (Kept A) (query c sql params) (query c sql params) :=
  twins_checked (o := .query c sql params) rfl

theorem twins_commit : Twins h L (InScopes A) (Kept A) (commit c) (commit c) :=
  twins_checked (o := .commit c) rfl

theorem twins_rollback : Twins h L (InScopes A) (Kept A) (rollback c) (rollback c) :=
  twins_checked (o := .rollback c) rfl

theorem twins_autocommit : Twins h L (InScopes A) (Kept A) (autocommit c) (autocommit c) := by
  refine twins_check.kept_bind (fun e _ ↦ .fail e) fun _ ↦ .read_bind fun m m' hm ↦ ?_
  rw [hm.held]
  exact .pure _

theorem alike_setAutocommit (hm : m.Alike m') (c : Nat) (on : Bool) :
    (m.setAutocommit c on).Alike (m'.setAutocommit c on) := by
  have hhistory : ∀ m : Memory, (m.setAutocommit c on).history = m.history ++ [.autocommit c on] :=
    fun m ↦ by simp [Memory.history, Memory.setAutocommit, Event.isClosing]
  refine ⟨hm.leases, hm.cursors, ?_, hm.pools, ?_, hm.idle, hm.idle', hm.tasks⟩
  · simp only [Memory.setAutocommit, hm.held]
  · rw [hhistory, hhistory, hm.history]

theorem twins_setAutocommit (on : Bool) :
    Twins h L (InScopes A) (Kept A) (setAutocommit c on) (setAutocommit c on) := by
  refine twins_check.kept_bind (fun e _ ↦ .fail e) fun _ w hw ↦ ?_
  exact .memory (fun m' hm ↦ ⟨alike_setAutocommit hm c on, rfl⟩) fun _ _ ↦ .done ⟨rfl, rfl, hw⟩

theorem twins_rollbackQuietly : Twins h L (InScopes A) (fun r w ↦ r = .ok () ∧ InScopes A w)
    (rollbackQuietly c) (Async.locking c (rollbackQuietly c)) := by
  refine .locking (twins_rollback.outcome_bind fun r hr ↦ ?_)
  rcases r with (e | m) | a
  · exact .ret fun _ hw ↦ ⟨rfl, hw⟩
  · cases hr
  · exact .ret fun _ hw ↦ ⟨rfl, hw⟩

end Session

namespace Binder

theorem twins_pool (b : Nat) : Twins h L (InScopes A) (Kept A) (pool b) (pool b) := by
  refine .read_bind fun m m' hm ↦ ?_
  rw [hm.pools]
  cases m.pools.lookup b with
  | some p => exact .pure p
  | none => exact .fail _

theorem twins_lease (b : Nat) : Twins h L (InScopes A) (Kept A) (lease b) (lease b) := by
  refine (twins_pool b).kept_bind (fun e _ ↦ .fail e) fun spec ↦ ?_
  have hlease : Twins h L (InScopes A) (Kept A) (Call.operate (.lease b)) (Call.operate (.lease b)) :=
    .operate rfl
  refine hlease.kept_bind (fun e _ ↦ .fail e) fun (c : Nat) ↦ .modify_bind (fun m m' hm ↦ ?_) (.pure c)
  refine ⟨⟨hm.leases, hm.cursors, ?_, hm.pools, hm.history, hm.idle, hm.idle', hm.tasks⟩, rfl, rfl⟩
  exact congrArg (Memory.setKey c spec.autocommit) hm.held

end Binder

namespace Bound

theorem twins_render (cb : Callback σ) (f : Bound) (args : Arguments) :
    Twins h L (fun w ↦ InScopes A w ∧ (f.render args).Returns h cb w) (Kept A) (f.render args)
      (f.render args) := by
  rintro w ⟨hw, hr⟩
  have hsame : ∀ m', w.memory.Alike m' → f.rendering m' args = f.rendering w.memory args :=
    fun m' hm ↦ by rw [rendering, rendering, hm.pools]
  unfold Call.Returns at hr
  rw [exec_render] at hr
  rw [run_render]
  refine .memory (fun m' hm ↦ ⟨hm, rfl⟩) fun m' hm ↦ .done ⟨hsame m' hm, hr, hw⟩

end Bound

/-- The scopes of a task are those of the first thread. -/
def Async.Scopes.Of (A : Actives) (scopes : Async.Scopes) : Prop :=
  ∀ b, scopes.lookup b = A.lookup (0, b)

namespace Async.Scopes.Of

variable {scopes : Async.Scopes}

theorem enter (hs : scopes.Of A) (b c : Nat) : Of (setKey (0, b) c A) ((b, c) :: scopes) := by
  intro b'
  by_cases hb : b' = b
  · rw [hb, List.lookup_cons_self, lookup_setKey_self]
  · have hne : (b' == b) = false := beq_eq_false_iff_ne.2 hb
    rw [List.lookup_cons, hne, lookup_setKey_ne fun he ↦ hb (congrArg Prod.snd he)]
    exact hs b'

end Async.Scopes.Of

/-- How a scope is entered: not at all, as one that is active, or with a connection leased for it. -/
inductive Entered (A : Actives) (b : Nat) (register : Bool) :
    Outcome Entry → Outcome Entry → Actives → Prop
  | failed (e : Error) : Entered A b register (.error (.error e)) (.error (.error e)) A
  | joined {c : Nat} (hc : A.lookup (0, b) = some c) :
    Entered A b register (.ok ⟨b, c, false, false, 0⟩) (.ok ⟨b, c, false, false, 0⟩) A
  | leased (c : Nat) (hn : A.lookup (0, b) = none) :
    Entered A b register (.ok ⟨b, c, true, register, 0⟩) (.ok ⟨b, c, true, false, 0⟩)
      (if register then setKey (0, b) c A else A)

theorem Entered.here {r r' : Outcome Entry} {register : Bool} (hr : Entered A b register r r' B)
    (hw : InScopes B w) : Entered A b register r r' w.memory.active := by
  rw [InScopes] at hw
  rwa [hw]

theorem Entered.of_unregistered {r r' : Outcome Entry} (hr : Entered A b false r r' B) :
    (∃ e, r = .error (.error e) ∧ r' = .error (.error e) ∧ B = A) ∨
      ∃ e, r = .ok e ∧ r' = .ok e ∧ e.registered = false ∧ B = A := by
  cases hr with
  | failed e => exact .inl ⟨e, rfl, rfl, rfl⟩
  | joined hc => exact .inr ⟨_, rfl, rfl, rfl, rfl⟩
  | leased c hn => exact .inr ⟨_, rfl, rfl, rfl, rfl⟩

theorem twin_enter {scopes : Async.Scopes} (hs : scopes.Of A) (b : Nat) (register : Bool)
    (hw : InScopes A w) : Twin h L (fun r r' w' ↦ Entered A b register r r' w'.memory.active) w
      (Blocking.enter 0 b register).run (Async.enter scopes b).run := by
  refine (Binder.twins_pool b).before (fun e _ hw ↦ (Entered.failed e).here hw) (fun _ w hw ↦ ?_) hw
  refine .looking ?_
  have hlookup : w.memory.active.lookup (0, b) = A.lookup (0, b) := congrArg _ hw
  rw [hlookup, hs b]
  cases hc : A.lookup (0, b) with
  | some c => exact .done ((Entered.joined hc).here hw)
  | none =>
    refine (Binder.twins_lease b).before (fun e _ hw ↦ (Entered.failed e).here hw) (fun c w hw ↦ ?_) hw
    cases register with
    | false => exact .done ((Entered.leased c hc).here hw)
    | true =>
      have hset : InScopes (setKey (0, b) c A) { w with memory := w.memory.activate 0 b c } :=
        congrArg (setKey (0, b) c) hw
      exact .changing (f := setKey (0, b) c) (.done ((Entered.leased c hc).here hset))

namespace Entry

variable {P : α → Prop} {Q : Outcome α → World σ → Prop} {e e' : Entry}

def leaving (e : Entry) (A : Actives) : Actives :=
  if e.registered then eraseKey (e.thread, e.binder) A else A

theorem twins_guarded (e e' : Entry) {p q : Call α} (hQ : ∀ r w, Q r w → Outcome.isPanic r = false)
    (hp : Twins h L W Q p q) :
    Twins h L W Q (Blocking.Entry.guarded e p) (Async.Entry.guarded e' q) := by
  have hguarded : Twins h L W Q (Blocking.Entry.guarded e p) q := by
    intro w hw
    unfold Blocking.Entry.guarded
    rw [Call.run_outcome_bind, ← Action.bind_done q.run]
    refine Twin.bind (hp w hw) fun r r' w' hr ↦ ?_
    obtain ⟨rfl, hr⟩ := hr
    rcases r' with (err | m) | a
    · exact .done ⟨rfl, hr⟩
    · cases hQ _ _ hr
    · exact .done ⟨rfl, hr⟩
  unfold Async.Entry.guarded
  split
  · exact hguarded.protecting hQ _
  · exact hguarded

theorem twins_settle (hc : e'.connection = e.connection) (r : Except Error α) :
    Twins h L (InScopes A) (Caught (fun a ↦ r = .ok a) A) (Blocking.Entry.settle e r)
      (Async.Entry.settle e' r) := by
  have hundo : ∀ err, Twins h L (InScopes A) (Caught (fun a ↦ r = .ok a) A)
      (do Session.rollbackQuietly e.connection; return .error err)
      (do Async.locking e.connection (Session.rollbackQuietly e.connection); return .error err) := by
    intro err
    refine Session.twins_rollbackQuietly.bind (fun f w hf ↦ by cases hf.1) fun _ ↦ ?_
    exact .ret fun w hw ↦ ⟨⟨_, rfl, nofun⟩, hw.2⟩
  unfold Blocking.Entry.settle Async.Entry.settle
  rw [hc]
  cases r with
  | ok a =>
    refine Session.twins_commit.locking.outcome_bind fun r hr ↦ ?_
    rcases r with (err | m) | u
    · exact hundo err
    · cases hr
    · exact .ret fun w hw ↦ ⟨⟨_, rfl, fun _ ↦ id⟩, hw⟩
  | error err => exact hundo err

theorem alike_letGo (hm : m.Alike m') (c : Nat) : (m.letGo c).Alike (m'.letGo c) :=
  ⟨hm.leases, hm.cursors, congrArg (eraseKey c) hm.held, hm.pools, hm.history, hm.idle, hm.idle',
    hm.tasks⟩

theorem twins_release (hb : e'.binder = e.binder) (hc : e'.connection = e.connection) :
    Twins h L (InScopes A) (Kept (e.leaving A)) (Blocking.Entry.release e)
      (Async.release e'.binder e'.connection) := by
  have hrest : ∀ {A}, Twins h L (InScopes A) (Kept A) (do
      let m ← Call.read
      if e.connection ∈ m.busy then Call.fail Session.inUse
      else if (m.held.lookup e.connection).isNone then pure ()
      else
        Call.modify (Memory.letGo e.connection)
        Call.operate (.release e.binder e.connection) : Call Unit)
      (Async.release e.binder e.connection) := by
    intro A
    refine .locking (.read_bind fun m m' hm ↦ ?_)
    rw [hm.idle, if_neg List.not_mem_nil, hm.held]
    refine .ite (.pure ()) ?_
    refine .modify_bind (fun _ _ hm ↦ ⟨alike_letGo hm _, rfl, rfl⟩) (.ite_right hm.tasks fun w hw ↦ ?_)
    refine .release fun hcalm ↦ ?_
    have hr := hcalm.act
    have hw' : InScopes A (h.act (.release e.binder e.connection) w).2 := (h.active_act _ w).trans hw
    generalize (h.act (.release e.binder e.connection) w).1 = r at hr
    rcases r with (err | m) | u
    · exact .done ⟨rfl, rfl, hw'⟩
    · cases hr
    · exact .done ⟨rfl, rfl, hw'⟩
  rw [hb, hc]
  unfold Blocking.Entry.release leaving
  split
  · exact fun w hw ↦ .changing (f := eraseKey (e.thread, e.binder)) (hrest _ (congrArg _ hw))
  · exact hrest

theorem twins_exit (e e' : Entry) (ho : e'.owner = e.owner) (hb : e'.binder = e.binder)
    (hc : e'.connection = e.connection) (r : Except Error α) :
    Twins h L (InScopes A) (Gives (fun a ↦ r = .ok a) (if e.owner then e.leaving A else A))
      (Blocking.Entry.exit e r) (Async.Entry.exit e' r) := by
  unfold Blocking.Entry.exit Async.Entry.exit
  rw [ho]
  cases hown : e.owner with
  | false =>
    cases r with
    | ok a => exact .ret fun w hw ↦ ⟨⟨rfl, hw⟩, fun a' ha ↦ congrArg _ (Except.ok.inj ha)⟩
    | error err => exact .ret fun w hw ↦ .fail err hw
  | true =>
    refine twins_guarded e e' (fun _ _ h ↦ h.1.1) ((twins_settle hc r).caught_bind fun settled hs ↦ ?_)
    refine (twins_release hb hc).outcome_bind fun released hr ↦ ?_
    rcases released with (err | m) | u
    · cases settled <;> exact .ret fun w hw ↦ .fail _ hw
    · cases hr
    · cases settled with
      | error err => exact .ret fun w hw ↦ .fail err hw
      | ok a => exact .ret fun w hw ↦ ⟨⟨rfl, hw⟩, fun a' ha ↦ hs a' (congrArg _ (Except.ok.inj ha))⟩

end Entry

theorem twins_connection (cb : Callback σ) {scopes : Async.Scopes} (hs : scopes.Of A)
    (b : Nat) {P : α → Prop} {body : Nat → Call α} {body' : Async.Scopes → Nat → Call α}
    (hW : ∀ w, W w → InScopes A w) (hbody : ∀ e B (scopes : Async.Scopes), scopes.Of B →
      Twins h L (fun w ↦ InScopes B w ∧ Call.After h cb W (Blocking.enter 0 b true) e w) (Gives P B)
        (body e.connection) (body' scopes e.connection)) :
    Twins h L W (Gives P A) (Blocking.connection 0 b body) (Async.connection scopes b body') := by
  intro w hw
  refine Twin.bind ((twin_enter hs b true (hW w hw)).traced cb) fun r r' w' hr ↦ ?_
  obtain ⟨hr, henter⟩ := hr
  -- The body runs, and the scope is left with what the body has come to.
  have hscope : ∀ {e e' : Entry} {scopes : Async.Scopes}, r = .ok e → scopes.Of w'.memory.active →
      e'.owner = e.owner → e'.binder = e.binder → e'.connection = e.connection →
      (if e.owner then e.leaving w'.memory.active else w'.memory.active) = A →
      Twin h L (fun r r' w' ↦ r' = r ∧ Gives P A r w') w'
        (Blocking.Entry.guarded e (Blocking.caught (body e.connection)) >>= Blocking.Entry.exit e).run
        (Async.Entry.guarded e' (Async.caught (body' scopes e'.connection)) >>= Async.Entry.exit e').run := by
    intro e e' scopes hr hs ho hb hc hA
    subst hr
    have hpart := Entry.twins_guarded e e' (fun _ _ hv ↦ hv.not_panic) (hbody e _ scopes hs).caught
    rw [hc]
    refine hpart.caught_bind (fun r hP ↦ ?_) w' ⟨rfl, w, hw, henter⟩
    have hexit := Entry.twins_exit (h := h) (L := L) (A := w'.memory.active) e e' ho hb hc r
    rw [hA] at hexit
    exact hexit.mono fun r' w hr ↦ ⟨hr.1, fun a ha ↦ hP a (hr.2 a ha)⟩
  generalize hB : w'.memory.active = B at hr hscope
  cases hr with
  | failed err => exact .done ⟨rfl, .fail err hB⟩
  | joined hc => exact hscope rfl hs rfl rfl rfl rfl
  | leased c hn =>
    refine hscope rfl (hs.enter b c) rfl rfl rfl ?_
    change eraseKey (0, b) (setKey (0, b) c A) = A
    rw [eraseKey_setKey, eraseKey_of_lookup hn]

theorem twins_transaction (cb : Callback σ) {scopes : Async.Scopes} (hs : scopes.Of A)
    (b : Nat) {P : α → Prop} {body : Nat → Call α} {body' : Async.Scopes → Nat → Call α}
    (hW : ∀ w, W w → InScopes A w) (hbody : ∀ e on B (scopes : Async.Scopes), scopes.Of B →
      Twins h L (fun w ↦ InScopes B w ∧ Call.After h cb (Call.After h cb
        (Call.After h cb W (Blocking.enter 0 b true) e) (Session.autocommit e.connection) on)
        (Session.setAutocommit e.connection false) () w) (Gives P B) (body e.connection)
        (body' scopes e.connection)) :
    Twins h L W (Gives P A) (Blocking.transaction 0 b body) (Async.transaction scopes b body') := by
  refine twins_connection cb hs b hW fun e B scopes hs ↦ ?_
  have hflag := Session.twins_autocommit (h := h) (L := L) (A := B) (c := e.connection)
  have hoff := Session.twins_setAutocommit (h := h) (L := L) (A := B) (c := e.connection) false
  refine (hflag.locking.gives.pre fun w hw ↦ hw.1).gives_then cb (fun e _ ↦ .fail e) fun on _ ↦ ?_
  refine (hoff.locking.gives.pre fun w hw ↦ hw.1).gives_then cb (fun e _ ↦ .fail e) fun _ _ ↦ ?_
  refine ((hbody e on B scopes hs).pre fun w hw ↦ ?_).caught.caught_bind fun r hr ↦ ?_
  · exact ⟨hw.1, hw.2.mono fun w hw ↦ hw.2.mono fun w hw ↦ hw.2⟩
  have hback := Session.twins_setAutocommit (h := h) (L := L) (A := B) (c := e.connection) on
  refine hback.locking.gives.caught.caught_bind fun restored _ ↦ ?_
  cases r with
  | error err => exact .ret fun _ ↦ .fail err
  | ok a =>
    cases restored with
    | error err => exact .ret fun _ ↦ .fail err
    | ok u => exact .ret fun w hw ↦ ⟨⟨rfl, hw⟩, fun b hb ↦ hr b (congrArg _ (Except.ok.inj hb))⟩

namespace Bound

theorem twins_committing {p : Call α} (hp : Twins h L (InScopes A) (Kept A) p p) :
    Twins h L (InScopes A) (Kept A)
    (do
      if ← Session.autocommit c then Session.commit c
      p)
    (do
      if ← Async.locking c (Session.autocommit c) then Async.locking c (Session.commit c)
      p) := by
  refine .kept_bind (.locking Session.twins_autocommit) (fun e _ ↦ .fail e) fun on ↦ ?_
  exact .ite (.kept_bind (.locking Session.twins_commit) (fun e _ ↦ .fail e) fun _ ↦ hp) hp

theorem twins_execute (cb : Callback σ) {scopes : Async.Scopes} (hs : scopes.Of A) (f : Bound)
    (count : Count) (args : Arguments) :
    Twins h L (fun w ↦ InScopes A w ∧ (f.render args).Returns h cb w) (Gives (fun _ ↦ True) A)
      (Blocking.execute 0 f count args) (Async.execute scopes f count args) := by
  refine (twins_render cb f args).kept_bind (fun e _ ↦ .fail e) fun r ↦ ?_
  refine twins_connection cb hs _ (fun _ ↦ id) fun e B _ _ ↦ ?_
  have hexecute := Session.twins_execute (h := h) (L := L) (A := B) (c := e.connection) r.sql r.params
  refine (Call.Twins.gives ?_).pre fun w hw ↦ hw.1
  exact .kept_bind hexecute.locking (fun e _ ↦ .fail e) fun n ↦ twins_committing (.ofResult _)

end Bound

end BoundSql
