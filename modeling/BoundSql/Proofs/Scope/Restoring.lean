import BoundSql.Proofs.Scope.Atomicity

namespace BoundSql

open Memory Call

variable {σ α : Type} {h : Host σ} {cb : Callback σ} {w : World σ} {a K : List Nat} {x : Context}
  {b c : Nat} {m : Memory}

namespace Memory

theorem Usable.off (hu : m.Usable c) :
    (m.setAutocommit c false).held.lookup c = some false := by
  obtain ⟨flag, hf⟩ := Option.isSome_iff_exists.1 hu.1
  rw [lookup_setAutocommit, hf]
  simp

theorem Holds.flag_setAutocommit (hc : m.Holds c) (on : Bool) :
    (m.setAutocommit c on).flag c = on := by
  obtain ⟨flag, hf⟩ := Option.isSome_iff_exists.1 hc
  rw [Memory.flag, lookup_setAutocommit, hf]
  simp

theorem lookup_setAutocommit_ne {d : Nat} (hd : d ≠ c) (on : Bool) :
    (m.setAutocommit c on).held.lookup d = m.held.lookup d := by
  rw [lookup_setAutocommit]
  simp [hd]

end Memory

namespace Blocking

/-- Where the body of a transaction starts that has the connection in `w`. -/
def begun (c : Nat) (w : World σ) : World σ :=
  { w with memory := w.memory.setAutocommit c false }

/-- A transaction on the connection has come from `w` to `r`. -/
structure Restores (h : Host σ) (cb : Callback σ) (body : Nat → Call α) (c : Nat) (w : World σ)
    (r : Outcome α × World σ) : Prop where
  off : (begun c w).memory.held.lookup c = some false
  result : r.1 = (exec h cb (body c) (begun c w)).1
  usable : r.2.memory.Usable c
  restored : Outcome.isPanic r.1 = false → r.2.memory.flag c = w.memory.flag c
  panicked : Outcome.isPanic r.1 → r.2 = (exec h cb (body c) (begun c w)).2
  others : ∀ d, d ≠ c →
    r.2.memory.held.lookup d = (exec h cb (body c) (begun c w)).2.memory.held.lookup d

/-- A transaction that finds no scope gets no connection; or it gets one, with autocommit as its pool
has it, and has restored that when it leaves the scope. -/
def RestoresFirst (h : Host σ) (cb : Callback σ) (x : Context) (b : Nat)
    (body : Context → Nat → Call α) (w : World σ) (r : Outcome α × World σ) : Prop :=
  let c := w.memory.leases + 1
  let e : Entry := ⟨b, c, true, true, x.thread⟩
  Unleased w r ∨ ∃ p w₁, w.memory.pools.lookup b = some p ∧
    exec h cb (enter x.thread b true) w = (.ok e, w₁) ∧ w₁.memory.flag c = p.autocommit ∧
    let q := exec h cb (x.transactionBody body c) w₁
    Restores h cb (body x) c w₁ q ∧ r.2 = e.closed h (Outcome.isOk q.1) q.2 ∧ ¬r.2.memory.Holds c

theorem restores_transactionBody (hl : h.Lawful) (hcb : cb.Sound) (hx : x.mode = .blocking)
    {body : Context → Nat → Call α} (hbody : Code (c :: K) (body x c).run)
    (hm : w.memory.Balanced a) (hK : ∀ d ∈ c :: K, w.memory.Shared a d) (hu : w.memory.Usable c) :
    Restores h cb (body x) c w (exec h cb (x.transactionBody body c) w) := by
  have hq : Quiet a w.memory (begun c w).memory := quiet_setAutocommit hu.2 false
  have hk : Keeps a (begun c w).memory (exec h cb (body x c) (begun c w)).2.memory :=
    hbody.sound hl hcb a (begun c w) (hq.balanced hm) fun d hd ↦ hq.shared (hK d hd)
  -- The body cannot have let the connection go, nor can it have left it busy.
  have hu' : (exec h cb (body x c) (begun c w)).2.memory.Usable c := by
    have hb := hq.usable hu
    refine ⟨(hk.frame.kept c hb.1 (hq.shared (hK c List.mem_cons_self)).2).1, ?_⟩
    rw [hk.busy]
    exact hb.2
  generalize hr : exec h cb (body x c) (begun c w) = r at hu'
  rw [exec_transactionBody_eq hx hu hr hu']
  cases hp : Outcome.isPanic r.1 with
  | true =>
    exact
      { off := hu.off
        result := by rw [hr]
        usable := hu'
        restored := fun hn ↦ nomatch hp.symm.trans hn
        panicked := fun _ ↦ by rw [hr]; rfl
        others := fun d _ ↦ by rw [hr]; rfl }
  | false =>
    exact
      { off := hu.off
        result := by rw [hr]
        usable := (quiet_setAutocommit (a := a) hu'.2 _).usable hu'
        restored := fun _ ↦ hu'.1.flag_setAutocommit _
        panicked := fun hn ↦ nomatch hp.symm.trans hn
        others := fun d hd ↦ by rw [hr]; exact lookup_setAutocommit_ne hd _ }

theorem transaction_eq (hx : x.mode = .blocking) (body : Context → Nat → Call α) :
    x.transaction b body = connection x.thread b (x.transactionBody body) := by
  rw [Context.transaction_eq, Context.connection, hx]

end Blocking

namespace InOrder

variable {body : Context → Nat → Call α}

theorem transaction_joined (hl : h.Lawful) (hm : InOrder h cb a K w.memory)
    (hx : x.mode = .blocking) (hbody : Code (c :: K) (body x c).run)
    (ha : w.memory.active.lookup (x.thread, b) = some c) (hp : (w.memory.pools.lookup b).isSome)
    (hu : w.memory.Usable c) :
    Blocking.Restores h cb (body x) c w (exec h cb (x.transaction b body) w) := by
  rw [Blocking.transaction_eq hx, joined _ ha hp]
  have hc : w.memory.Shared a c := hm.balanced.active _ (mem_of_lookup ha)
  exact Blocking.restores_transactionBody hl (hm.callback.sound hl) hx hbody hm.balanced
    (List.forall_mem_cons.2 ⟨hc, hm.shared⟩) hu

theorem transaction_refused (hx : x.mode = .blocking)
    (ha : w.memory.active.lookup (x.thread, b) = some c)
    (hn : ¬((w.memory.pools.lookup b).isSome ∧ w.memory.Usable c)) :
    ∃ err, exec h cb (x.transaction b body) w = (.error (.error err), w) := by
  rw [Blocking.transaction_eq hx]
  by_cases hp : (w.memory.pools.lookup b).isSome
  · have hlock : x.locking c (Session.autocommit c) = Session.autocommit c := by
      rw [Context.locking, hx]
    have hu : ¬w.memory.Usable c := fun hu ↦ hn ⟨hp, hu⟩
    obtain ⟨err, he⟩ : ∃ err, exec h cb (Session.autocommit c) w = (.error (.error err), w) :=
      Session.exec_check_bind_of_not _ hu
    refine ⟨err, ?_⟩
    rw [joined _ ha hp, Context.transactionBody, hlock, exec_bind, he]
  · rw [Bool.not_eq_true, Option.isSome_eq_false_iff, Option.isNone_iff_eq_none] at hp
    rw [Blocking.connection, exec_bind, Blocking.exec_enter_of_unset hp]
    exact ⟨_, rfl⟩

theorem transaction_outermost (hl : h.Lawful) (hm : InOrder h cb a K w.memory)
    (hx : x.mode = .blocking) (hbody : ∀ c, Code (c :: K) (body x c).run)
    (ha : w.memory.active.lookup (x.thread, b) = none) :
    Blocking.RestoresFirst h cb x b body w (exec h cb (x.transaction b body) w) := by
  have henter : Enters a x.thread b true w (exec h cb (Blocking.enter x.thread b true) w).1
      (exec h cb (Blocking.enter x.thread b true) w).2 := enters hl hm.balanced x.thread b true
  rw [Blocking.RestoresFirst, Blocking.transaction_eq hx, Blocking.connection, exec_bind]
  generalize hr : exec h cb (Blocking.enter x.thread b true) w = r at henter ⊢
  obtain ⟨r, w₁⟩ := r
  cases henter with
  | failed hq he => exact .inl ⟨rfl, hq.leasesOf⟩
  | joined ha' =>
    rw [ha] at ha'
    cases ha'
  | @leased e _ he _ ho =>
    rw [ho.connection] at he
    subst he
    obtain ⟨p, hp, hflag⟩ := Blocking.flag_enter hl ha hr
    have hin := Blocking.restores_transactionBody hl (hm.callback.sound hl) hx
      (hbody (w.memory.leases + 1)) ho.balanced (ho.shared rfl hm.shared) ho.usable
    refine .inr ⟨p, w₁, hp, rfl, hflag, hin, ?_⟩
    have hleft := Blocking.Entry.exec_scope_snd (e := ⟨b, w.memory.leases + 1, true, true, x.thread⟩)
      hl rfl (x.transactionBody body (w.memory.leases + 1)) rfl hin.usable
    refine ⟨hleft, fun hh ↦ ?_⟩
    change (exec h cb (Blocking.Entry.guarded _ _ >>= _) w₁).2.memory.Holds _ at hh
    rw [hleft] at hh
    exact ((Entry.leaves_closed hl _ _ _).holds_iff.1 hh).1 rfl

end InOrder

/-- A transaction switches autocommit off for its body, and afterwards restores it if the body did not
panic. So it is in a scope that goes on, and in one of its own before that is left; if the
connection is in use, or there is no pool, nothing happens at all. -/
theorem transactions_restore_autocommit (hl : h.Lawful) (hr : Reached h cb a K w)
    (hx : x.mode = .blocking) {body : Context → Nat → Call α}
    (hbody : ∀ c, Code (c :: K) (body x c).run) :
    let r := exec h cb (x.transaction b body) w
    (∀ c, w.memory.active.lookup (x.thread, b) = some c →
      ((w.memory.pools.lookup b).isSome ∧ w.memory.Usable c →
        Blocking.Restores h cb (body x) c w r) ∧
      (¬((w.memory.pools.lookup b).isSome ∧ w.memory.Usable c) →
        ∃ err, r = (.error (.error err), w))) ∧
    (w.memory.active.lookup (x.thread, b) = none → Blocking.RestoresFirst h cb x b body w r) := by
  have hm := hr.inOrder hl
  refine ⟨fun c ha ↦ ⟨fun ⟨hp, hu⟩ ↦ ?_, fun hn ↦ ?_⟩, fun ha ↦ ?_⟩
  · exact hm.transaction_joined hl hx (hbody c) ha hp hu
  · exact InOrder.transaction_refused hx ha hn
  · exact hm.transaction_outermost hl hx hbody ha

/-- A body that switches autocommit on again itself, in a scope of a pool that has it on. -/
theorem transactions_restore_autocommit_early :
    let h := Script.affecting 1
    let x := Context.start .blocking
    let body : Context → Nat → Call Mapped := fun x c ↦ do
      Session.setAutocommit c true
      x.execute Bound.deletion .nothing .none
    ∃ cb w, Reached h cb [] [1] w ∧ w.memory.flag 1 = true ∧
      Blocking.Restores h cb (body x) 1 w (exec h cb (x.transaction 0 body) w) := by
  intro h x body
  have hr : Reached h (fun _ w ↦ (.step (.ok .unit) [] [] none, w)) [] [] ⟨Program.ready, ()⟩ :=
    .pooled .never _ ()
  have henter : exec h (fun _ w ↦ (.step (.ok .unit) [] [] none, w)) (Blocking.enter 0 0 true)
      ⟨Program.ready, ()⟩ = (.ok ⟨0, 1, true, true, 0⟩, _) := rfl
  have hin := hr.inScope henter
  have hbody : ∀ c, Code (c :: [1]) (body x c).run := fun c ↦
    (Code.setAutocommit List.mem_cons_self true).call_bind fun _ ↦
      Code.bound_execute 0 Bound.deletion .nothing .none
  obtain ⟨hjoined, -⟩ := transactions_restore_autocommit (b := 0) (x := x)
    (Script.lawful_affecting 1) hin rfl hbody
  exact ⟨_, _, hin, rfl, (hjoined 1 rfl).1 ⟨rfl, rfl, List.not_mem_nil⟩⟩

/-- A body that panics, in a scope that catches the panic and goes on. -/
theorem panics_leave_autocommit_off :
    (exec (Script.affecting 1) (fun _ w ↦ (.step (.ok .unit) [] [] none, w))
      (Blocking.connection 0 0 fun c ↦ do
        let before ← Session.autocommit c
        let _ ← (Blocking.transaction 0 0 fun _ ↦ (throw (.panic "boom") : Call Unit)).outcome
        let after ← Session.autocommit c
        return (before, after)) ⟨Program.ready, ()⟩).1 = .ok (true, false) := rfl

end BoundSql
