import BoundSql.Proofs.Scope.Ledger

namespace BoundSql

open Call

variable {σ α : Type} {h : Host σ} {cb : Callback σ} {w : World σ}

theorem Memory.isNone_lookup_iff {m : Memory} {c : Nat} :
    (m.held.lookup c).isNone = true ↔ ¬m.Holds c := by
  rw [Memory.Holds, Option.isNone_iff_eq_none, Option.not_isSome_iff_eq_none]

namespace Session

variable {c : Nat}

theorem exec_check (hu : w.memory.Usable c) : exec h cb (check c) w = (.ok (), w) := by
  unfold check
  rw [exec_bind, exec_read]
  dsimp only
  rw [exec_ite, if_neg hu.2, exec_ite, if_neg fun hn ↦ Memory.isNone_lookup_iff.1 hn hu.1, exec_pure]

theorem exec_check_of_not (hu : ¬w.memory.Usable c) :
    ∃ e, exec h cb (check c) w = (.error (.error e), w) := by
  unfold check
  rw [exec_bind, exec_read]
  simp only [exec_ite, exec_fail]
  by_cases hb : c ∈ w.memory.busy
  · exact ⟨inUse, by rw [if_pos hb]⟩
  · have hn : ¬w.memory.Holds c := fun hh ↦ hu ⟨hh, hb⟩
    exact ⟨released, by rw [if_neg hb, if_pos (Memory.isNone_lookup_iff.2 hn)]⟩

theorem exec_check_bind (p : Call α) (hu : w.memory.Usable c) :
    exec h cb (check c >>= fun _ ↦ p) w = exec h cb p w := by
  rw [exec_bind, exec_check hu]

theorem exec_check_bind_of_not (p : Call α) (hu : ¬w.memory.Usable c) :
    ∃ e, exec h cb (check c >>= fun _ ↦ p) w = (.error (.error e), w) := by
  obtain ⟨e, he⟩ : ∃ e, exec h cb (check c) w = (.error (.error e), w) := exec_check_of_not hu
  exact ⟨e, by rw [exec_bind, he]⟩

theorem exec_commit (hl : h.Lawful) (hu : w.memory.Usable c) :
    exec h cb (commit c) w = h.act (.commit c) w :=
  (exec_check_bind (operate (.commit c)) hu).trans (hl.perform_eq rfl)

theorem exec_rollback (hl : h.Lawful) (hu : w.memory.Usable c) :
    exec h cb (rollback c) w = h.act (.rollback c) w :=
  (exec_check_bind (operate (.rollback c)) hu).trans (hl.perform_eq rfl)

theorem exec_autocommit (hu : w.memory.Usable c) :
    exec h cb (autocommit c) w = (.ok ((w.memory.held.lookup c).getD false), w) := by
  rw [autocommit, exec_check_bind _ hu, exec_bind, exec_read]
  rfl

theorem rollback_not_panic (hl : h.Lawful) (w : World σ) :
    Outcome.isPanic (h.act (.rollback c) w).1 = false := by
  have hp := hl.rollback w.memory c 0 w.host
  unfold Host.act Host.reaction
  change Outcome.isPanic (h.answer w.memory (.rollback c) 0 w.host).1.outcome = false at hp
  change Outcome.isPanic ((h.answer w.memory (.rollback c) 0 w.host).1.outcome.map _) = false
  rcases hr : (h.answer w.memory (.rollback c) 0 w.host).1.outcome with (_ | _) | _
  · rfl
  · rw [hr] at hp
    exact hp
  · rfl

theorem exec_rollbackQuietly (hl : h.Lawful) (hu : w.memory.Usable c) :
    exec h cb (rollbackQuietly c) w = (.ok (), (h.act (.rollback c) w).2) := by
  have hp := rollback_not_panic (c := c) hl w
  rw [rollbackQuietly, exec_bind, exec_outcome, exec_rollback hl hu]
  rcases hr : (h.act (.rollback c) w).1 with (_ | m) | _
  · rfl
  · rw [hr] at hp
    cases hp
  · rfl

theorem exec_rollbackQuietly_of_not (hu : ¬w.memory.Usable c) :
    exec h cb (rollbackQuietly c) w = (.ok (), w) := by
  obtain ⟨e, he⟩ : ∃ e, exec h cb (rollback c) w = (.error (.error e), w) :=
    exec_check_bind_of_not _ hu
  rw [rollbackQuietly, exec_bind, exec_outcome, he]
  rfl

end Session

namespace Entry

def leave (e : Entry) (m : Memory) : Memory :=
  (if e.registered then m.deactivate e.thread e.binder else m).letGo e.connection

/-- Has a leased connection in hand, with the autocommit flag of its pool. -/
def take (e : Entry) (autocommit : Bool) (m : Memory) : Memory :=
  let m := m.hold e.connection autocommit
  if e.registered then m.activate e.thread e.binder e.connection else m

def handBack (h : Host σ) (e : Entry) (w : World σ) : Outcome Unit × World σ :=
  h.act (.release e.binder e.connection) { w with memory := e.leave w.memory }

def settled (h : Host σ) (e : Entry) (ok : Bool) (w : World σ) : World σ :=
  if ok then
    let r := h.act (.commit e.connection) w
    if Outcome.isOk r.1 then r.2 else (h.act (.rollback e.connection) r.2).2
  else (h.act (.rollback e.connection) w).2

def closed (h : Host σ) (e : Entry) (ok : Bool) (w : World σ) : World σ :=
  (e.handBack h (e.settled h ok w)).2

def verdict (r : Except Error α) (released : Outcome Unit) : Outcome α :=
  match r, released with
  | _, .error (.panic m) => .error (.panic m)
  | .error err, _ => .error (.error err)
  | .ok _, .error f => .error f
  | .ok a, .ok _ => .ok a

structure Gone (e : Entry) (m : Memory) : Prop where
  holds : ¬m.Holds e.connection
  busy : e.connection ∉ m.busy
  active : e.registered → m.active.lookup (e.thread, e.binder) = none

variable {e : Entry}

theorem usable_act (o : Operation) {c : Nat} (hu : w.memory.Usable c) :
    (h.act o w).2.memory.Usable c := by
  simpa [Memory.Usable, Memory.Holds] using hu

theorem usable_settled (ok : Bool) {c : Nat} (hu : w.memory.Usable c) :
    (e.settled h ok w).memory.Usable c := by
  unfold settled
  split
  · dsimp only
    split
    · exact usable_act _ hu
    · exact usable_act _ (usable_act _ hu)
  · exact usable_act _ hu

theorem leave_held (m : Memory) : (e.leave m).held = Memory.eraseKey e.connection m.held := by
  unfold leave
  split <;> rfl

theorem leave_leases (m : Memory) : (e.leave m).leases = m.leases := by
  unfold leave
  split <;> rfl

theorem leave_desk (m : Memory) : (e.leave m).desk = m.desk := by
  unfold leave
  split <;> rfl

theorem leave_trace (m : Memory) : (e.leave m).trace = m.trace := by
  unfold leave
  split <;> rfl

theorem leave_busy (m : Memory) : (e.leave m).busy = m.busy := by
  unfold leave
  split <;> rfl

theorem leave_active (m : Memory) : (e.leave m).active =
    if e.registered then Memory.eraseKey (e.thread, e.binder) m.active else m.active := by
  unfold leave
  split <;> rfl

theorem gone_handBack (hb : e.connection ∉ w.memory.busy) : e.Gone (e.handBack h w).2.memory where
  holds := by simp [handBack, Memory.Holds, leave_held]
  busy := by simpa [handBack, leave_busy] using hb
  active hr := by simp [handBack, leave_active, hr]

end Entry

namespace Blocking.Entry

open BoundSql (Entry)

variable {e : Entry}

theorem exec_release (hl : h.Lawful) (hu : w.memory.Usable e.connection) :
    exec h cb (release e) w = e.handBack h w := by
  have hn : (w.memory.held.lookup e.connection).isNone = false :=
    Bool.eq_false_iff.2 fun hn ↦ Memory.isNone_lookup_iff.1 hn hu.1
  have hp : exec h cb (operate (.release e.binder e.connection))
      { w with memory := e.leave w.memory } = e.handBack h w := hl.perform_eq rfl
  unfold release
  by_cases hr : e.registered
  · simp only [hr, if_true, exec_bind, exec_modify, exec_read, Memory.deactivate, hu.2, if_false,
      hn, Bool.false_eq_true]
    rw [Entry.leave, if_pos hr] at hp
    exact hp
  · simp only [hr, Bool.false_eq_true, if_false, exec_bind, exec_read, hu.2, hn]
    rw [Entry.leave, if_neg hr] at hp
    exact hp

theorem exec_release_of_gone (hg : e.Gone w.memory) : exec h cb (release e) w = (.ok (), w) := by
  have hn := Memory.isNone_lookup_iff.2 hg.holds
  unfold release
  by_cases hr : e.registered
  · have hd : w.memory.deactivate e.thread e.binder = w.memory := by
      rw [Memory.deactivate, Memory.eraseKey_of_lookup (hg.active hr)]
    simp only [hr, if_true, exec_bind, exec_modify, exec_read, hd]
    rw [exec_ite, if_neg hg.busy]
    exact congrArg (exec h cb · w) (if_pos hn)
  · simp only [hr, Bool.false_eq_true, if_false, exec_bind, exec_read]
    rw [exec_ite, if_neg hg.busy]
    exact congrArg (exec h cb · w) (if_pos hn)

theorem exec_abandon (hl : h.Lawful) (ho : e.owner) (hu : w.memory.Usable e.connection) :
    (exec h cb (abandon e) w).2 = e.closed h false w := by
  have hr : exec h cb (release e) (h.act (.rollback e.connection) w).2 = _ :=
    exec_release hl (Entry.usable_act _ hu)
  rw [abandon, exec_ite, if_pos ho, exec_bind, Session.exec_rollbackQuietly hl hu]
  dsimp only
  rw [exec_bind, exec_outcome, hr]
  dsimp only
  split <;> rfl

theorem exec_abandon_of_gone (hg : e.Gone w.memory) : (exec h cb (abandon e) w).2 = w := by
  rw [abandon, exec_ite]
  split
  · rw [exec_bind, Session.exec_rollbackQuietly_of_not fun hu ↦ hg.holds hu.1]
    dsimp only
    rw [exec_bind, exec_outcome, exec_release_of_gone hg]
    rfl
  · rfl

theorem exec_guarded (p : Call α) : exec h cb (guarded e p) w =
    match exec h cb p w with
    | (.error (.panic m), w) => (.error (.panic m), (exec h cb (abandon e) w).2)
    | r => r := by
  unfold guarded
  rw [exec_bind, exec_outcome]
  rcases exec h cb p w with ⟨(_ | m) | _, w⟩
  · rfl
  · dsimp only
    rw [exec_bind, exec_outcome]
    rfl
  · rfl

theorem exec_settle_error (hl : h.Lawful) (hu : w.memory.Usable e.connection) (err : Error) :
    exec h cb (settle e (.error err : Except Error α)) w =
      (.ok (.error err), e.settled h false w) := by
  unfold settle
  rw [exec_bind, Session.exec_rollbackQuietly hl hu]
  rfl

theorem exec_settle_ok (hl : h.Lawful) (cb : Callback σ) (hu : w.memory.Usable e.connection)
    (a : α) :
    (∃ m, (h.act (.commit e.connection) w).1 = .error (.panic m) ∧
      exec h cb (settle e (.ok a)) w =
        (.error (.panic m), (h.act (.commit e.connection) w).2)) ∨
      ∃ r, exec h cb (settle e (.ok a)) w = (.ok r, e.settled h true w) ∧
        (Outcome.isOk (h.act (.commit e.connection) w).1 → r = .ok a) := by
  unfold settle
  dsimp only
  rw [exec_bind, exec_outcome, Session.exec_commit hl hu]
  rcases hc : (h.act (.commit e.connection) w).1 with (err | m) | _
  · refine .inr ⟨.error err, ?_, by simp [Outcome.isOk]⟩
    dsimp only
    rw [exec_bind, Session.exec_rollbackQuietly hl (Entry.usable_act _ hu)]
    simp [Entry.settled, hc, Outcome.isOk]
  · exact .inl ⟨m, rfl, rfl⟩
  · refine .inr ⟨.ok a, ?_, fun _ ↦ rfl⟩
    simp [Entry.settled, hc, Outcome.isOk]

theorem isOk_verdict_error (err : Error) (released : Outcome Unit) :
    Outcome.isOk (Entry.verdict (.error err : Except Error α) released) = false := by
  rcases released with (_ | _) | _ <;> rfl

theorem exec_exit_of_settle (hl : h.Lawful) (ho : e.owner) {r r' : Except Error α} {w' : World σ}
    (hs : exec h cb (settle e r) w = (.ok r', w')) (hu : w'.memory.Usable e.connection) :
    exec h cb (exit e r) w = (Entry.verdict r' (e.handBack h w').1, (e.handBack h w').2) := by
  have ha : (exec h cb (abandon e) (e.handBack h w').2).2 = (e.handBack h w').2 :=
    exec_abandon_of_gone (Entry.gone_handBack hu.2)
  unfold exit
  rw [exec_ite, if_neg (by simp [ho]), exec_guarded, exec_bind, hs]
  dsimp only
  rw [exec_bind, exec_outcome, exec_release hl hu]
  dsimp only
  generalize e.handBack h w' = released at ha
  obtain ⟨(_ | m) | _, w''⟩ := released
  · cases r' <;> rfl
  · cases r' <;> exact Prod.ext rfl ha
  · cases r' <;> rfl

theorem isOk_exit_error (hl : h.Lawful) (ho : e.owner) (hu : w.memory.Usable e.connection)
    (err : Error) : Outcome.isOk (exec h cb (exit e (.error err : Except Error α)) w).1 = false := by
  rw [exec_exit_of_settle hl ho (exec_settle_error hl hu err) (Entry.usable_settled _ hu)]
  exact isOk_verdict_error err _

theorem exec_exit_snd (hl : h.Lawful) (ho : e.owner) (hu : w.memory.Usable e.connection)
    (r : Except Error α) : (exec h cb (exit e r) w).2 = e.closed h r.isOk w := by
  cases r with
  | error err =>
    rw [exec_exit_of_settle hl ho (exec_settle_error hl hu err) (Entry.usable_settled _ hu)]
    rfl
  | ok a =>
    obtain ⟨m, hm, hs⟩ | ⟨r, hs, -⟩ := exec_settle_ok hl cb hu a
    · -- The panic of the commit reaches the guard, which rolls back and releases.
      have ha : (exec h cb (abandon e) (h.act (.commit e.connection) w).2).2 = _ :=
        exec_abandon hl ho (Entry.usable_act _ hu)
      unfold exit
      rw [exec_ite, if_neg (by simp [ho]), exec_guarded, exec_bind, hs]
      dsimp only
      rw [ha]
      simp [Entry.closed, Entry.settled, Except.isOk, Except.toBool, hm, Outcome.isOk]
    · rw [exec_exit_of_settle hl ho hs (Entry.usable_settled _ hu)]
      rfl

theorem exec_scope {β : Type} (p : Call α) (k : Except Error α → Call β) (w : World σ) :
    exec h cb (guarded e (caught p) >>= k) w =
      match exec h cb p w with
      | (.ok a, w) => exec h cb (k (.ok a)) w
      | (.error (.error err), w) => exec h cb (k (.error err)) w
      | (.error (.panic m), w) => (.error (.panic m), (exec h cb (abandon e) w).2) := by
  rw [exec_bind, exec_guarded, exec_caught]
  rcases exec h cb p w with ⟨(_ | _) | _, w⟩ <;> rfl

theorem exec_scope_snd (hl : h.Lawful) (ho : e.owner) (p : Call α) {r : Outcome α} {w' : World σ}
    (hp : exec h cb p w = (r, w')) (hu : w'.memory.Usable e.connection) :
    (exec h cb (guarded e (caught p) >>= exit e) w).2 = e.closed h (Outcome.isOk r) w' := by
  rw [exec_scope, hp]
  rcases r with (err | m) | a
  · exact exec_exit_snd hl ho hu _
  · exact exec_abandon hl ho hu
  · exact exec_exit_snd hl ho hu _

theorem exec_exit_joined (ho : e.owner = false) (r : Except Error α) (w : World σ) :
    exec h cb (exit e r) w = (Outcome.ofResult r, w) := by
  rw [exit, exec_ite, if_pos (by simp [ho]), exec_ofResult]

theorem exec_abandon_joined (ho : e.owner = false) (w : World σ) :
    exec h cb (abandon e) w = (.ok (), w) := by
  rw [abandon, exec_ite, if_neg (by simp [ho]), exec_pure]

theorem exec_scope_joined (ho : e.owner = false) (p : Call α) (w : World σ) :
    exec h cb (guarded e (caught p) >>= exit e) w = exec h cb p w := by
  rw [exec_scope]
  rcases exec h cb p w with ⟨(err | m) | a, w⟩
  · exact exec_exit_joined ho _ w
  · dsimp only
    rw [exec_abandon_joined ho]
  · exact exec_exit_joined ho _ w

end Blocking.Entry

namespace Blocking

open BoundSql (Entry)

variable {thread b : Nat} {register : Bool}

theorem exec_pool (b : Nat) (w : World σ) : exec h cb (Binder.pool b) w =
    (((w.memory.pools.lookup b).elim (.error (.error .noPoolSet)) .ok), w) := by
  rw [Binder.pool, exec_bind, exec_read]
  dsimp only
  cases w.memory.pools.lookup b <;> rfl

theorem exec_lease (hl : h.Lawful) {p : PoolSpec} (hp : w.memory.pools.lookup b = some p) :
    exec h cb (Binder.lease b) w = match h.act (.lease b) w with
      | (.ok c, w) => (.ok c, { w with memory := w.memory.hold c p.autocommit })
      | (.error f, w) => (.error f, w) := by
  have ho : exec h cb (operate (.lease b)) w = h.act (.lease b) w := hl.perform_eq rfl
  refine (exec_bind (Binder.pool b) _).trans ?_
  rw [exec_pool, hp]
  refine (exec_bind (operate (.lease b)) _).trans ?_
  rw [ho]
  rcases h.act (.lease b) w with ⟨_ | _, w'⟩ <;> rfl

theorem exec_enter_of_none (ha : w.memory.active.lookup (thread, b) = none) {p : PoolSpec}
    (hp : w.memory.pools.lookup b = some p) : exec h cb (enter thread b register) w =
      match exec h cb (Binder.lease b) w with
      | (.ok c, w) => (.ok ⟨b, c, true, register, thread⟩,
        if register then { w with memory := w.memory.activate thread b c } else w)
      | (.error f, w) => (.error f, w) := by
  unfold enter
  rw [exec_bind, exec_pool, hp]
  dsimp only [Option.elim]
  rw [exec_bind, exec_read]
  simp only [ha]
  rw [exec_bind]
  rcases exec h cb (Binder.lease b) w with ⟨_ | c, w⟩
  · rfl
  · cases register <;> rfl

theorem exec_enter_of_some {c : Nat} (ha : w.memory.active.lookup (thread, b) = some c)
    (hp : (w.memory.pools.lookup b).isSome) :
    exec h cb (enter thread b register) w = (.ok ⟨b, c, false, false, thread⟩, w) := by
  obtain ⟨p, hp⟩ := Option.isSome_iff_exists.1 hp
  unfold enter
  rw [exec_bind, exec_pool, hp]
  dsimp only [Option.elim]
  rw [exec_bind, exec_read]
  simp only [ha]
  rfl

theorem exec_enter_of_unset (hp : w.memory.pools.lookup b = none) :
    exec h cb (enter thread b register) w = (.error (.error .noPoolSet), w) := by
  rw [enter, exec_bind, exec_pool, hp]
  rfl

end Blocking

end BoundSql
