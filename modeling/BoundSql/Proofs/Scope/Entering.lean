import BoundSql.Proofs.Scope.Serving
import BoundSql.Proofs.Scope.Stages

namespace BoundSql

open Memory

variable {α β : Type} {x : Context} {S T : Async.Scopes} {b c : Nat} {m : Memory} {l : List Event}
  {asks : List Event → Operation → Prop} {e : Entry}

theorem Action.bind_done (p : Action α) : p >>= Action.done = p := by
  change p.bind Action.done = p
  induction p with
  | done a => rfl
  | memory f _ ih => exact congrArg (Action.memory f) (funext ih)
  | operation o js _ ih => exact congrArg (Action.operation o js) (funext ih)
  | wait t js _ ih => exact congrArg (Action.wait t js) (funext ih)

theorem Call.run_outcome_bind (p : Call α) (k : Outcome α → Call β) :
    (p.outcome >>= k).run = p.run >>= fun r ↦ (k r).run :=
  Action.bind_assoc p.run _ _

theorem Action.Obeys.call_read {C : Conduct} {Q : Outcome α → List Event → Memory → Prop}
    {k : Memory → Call α} (hk : (k m).run.Obeys C Q none l m) :
    (Call.read >>= k).run.Obeys C Q none l m :=
  .inl ⟨C.calm_refl m, hk⟩

theorem Blocking.caught_bind (p : Call α) (k : Except Error α → Call β) (k' : α → Call β)
    (hok : ∀ a, k (.ok a) = k' a) (he : ∀ err, k (.error err) = Call.fail err) :
    Blocking.caught p >>= k = p >>= k' := by
  refine (congrArg (Action.bind · (ExceptT.bindCont k)) (Call.run_caught p)).trans
    ((Action.bind_assoc p.run _ _).trans (congrArg p.run.bind (funext fun r ↦ ?_)))
  rcases r with (err | m) | a
  · exact he err
  · rfl
  · exact hok a

namespace Context

/-- Enters a scope of the binder, which nested calls join if it is registered. -/
def enter (x : Context) (binder : Nat) (register : Bool) : Call Entry :=
  match x.mode with
  | .blocking => Blocking.enter x.thread binder register
  | .async => Async.enter x.scopes binder

def guarded (x : Context) (e : Entry) (p : Call α) : Call α :=
  match x.mode with
  | .blocking => Blocking.Entry.guarded e p
  | .async => Async.Entry.guarded e p

def exit (x : Context) (e : Entry) (r : Except Error α) : Call α :=
  match x.mode with
  | .blocking => Blocking.Entry.exit e r
  | .async => Async.Entry.exit e r

def inside (x : Context) (b c : Nat) : Context :=
  match x.mode with
  | .blocking => x
  | .async => { x with scopes := (b, c) :: x.scopes }

def entry (x : Context) (b c : Nat) (owner registered : Bool) : Entry :=
  match x.mode with
  | .blocking => ⟨b, c, owner, registered, x.thread⟩
  | .async => ⟨b, c, owner, false, 0⟩

@[simp]
theorem entry_owner (x : Context) (b c : Nat) (owner registered : Bool) :
    (x.entry b c owner registered).owner = owner := by
  unfold entry
  cases x.mode <;> rfl

@[simp]
theorem entry_connection (x : Context) (b c : Nat) (owner registered : Bool) :
    (x.entry b c owner registered).connection = c := by
  unfold entry
  cases x.mode <;> rfl

theorem connection_eq (x : Context) (b : Nat) (body : Context → Nat → Call α) :
    x.connection b body = x.enter b true >>= fun e ↦
      x.guarded e (Blocking.caught
        (body (if e.owner then x.inside b e.connection else x) e.connection)) >>= x.exit e := by
  obtain ⟨_ | _, thread, scopes⟩ := x
  · refine congrArg (Blocking.enter thread b true >>= ·) (funext fun e ↦ ?_)
    simp only [inside, ite_self]
    rfl
  · refine congrArg (Async.enter scopes b >>= ·) (funext fun e ↦ ?_)
    simp only [inside]
    cases e.owner <;> rfl

theorem guarded_joined (x : Context) (he : e.owner = false) (p : Call α) : x.guarded e p = p := by
  obtain ⟨binder, connection, owner, registered, thread⟩ := e
  cases he
  obtain ⟨_ | _, t, scopes⟩ := x
  · refine (Action.bind_assoc _ _ _).trans ?_
    refine (congrArg (p.run.bind ·) (funext fun r ↦ ?_)).trans (Action.bind_done p.run)
    rcases r with (_ | _) | _ <;> rfl
  · rfl

theorem exit_joined (x : Context) (he : e.owner = false) (r : Except Error α) :
    x.exit e r = Call.ofResult r := by
  obtain ⟨binder, connection, owner, registered, thread⟩ := e
  cases he
  obtain ⟨_ | _, t, scopes⟩ := x <;> cases r <;> rfl

theorem scope_joined (x : Context) (he : e.owner = false) (p : Call α) :
    x.guarded e (Blocking.caught p) >>= x.exit e = p := by
  have hexit : x.exit e = (Call.ofResult : Except Error α → Call α) :=
    funext fun r ↦ x.exit_joined he r
  rw [x.guarded_joined he, hexit]
  refine (Blocking.caught_bind p Call.ofResult pure (fun _ ↦ rfl) fun _ ↦ rfl).trans ?_
  refine (congrArg p.run.bind (funext fun r ↦ ?_)).trans (Action.bind_done p.run)
  cases r <;> rfl

end Context

def Entry.left (e : Entry) (S : Async.Scopes) : Async.Scopes :=
  if e.registered then eraseKey e.binder S else S

@[simp]
theorem Entry.left_left (e : Entry) (S : Async.Scopes) : e.left (e.left S) = e.left S := by
  unfold Entry.left
  split
  · exact eraseKey_of_lookup lookup_eraseKey_self
  · rfl

def HasLeased (c : Nat) (l : List Event) : Prop := ∃ e ∈ l, e.leases c

theorem HasLeased.later {l' : List Event} (hl : HasLeased c l) (h : l <+: l') : HasLeased c l' := by
  obtain ⟨e, he, hc⟩ := hl
  exact ⟨e, h.subset he, hc⟩

/-- How entering ends: the entry has joined the open scope of the binder, or there was none and it has
leased a connection. -/
inductive Context.Enters (x : Context) (S : Async.Scopes) (b : Nat) (register : Bool) :
    Outcome Entry → List Event → Memory → Prop
  | failed {f : Fault} {l : List Event} {m : Memory} (hm : x.Live S m) :
    Enters x S b register (.error f) l m
  | joined {c : Nat} {l : List Event} {m : Memory} (hc : S.lookup b = some c) (hm : x.Live S m) :
    Enters x S b register (.ok (x.entry b c false false)) l m
  | leased {c : Nat} {l : List Event} {m : Memory} (hc : S.lookup b = none) (hl : HasLeased c l)
    (hm : if register then (x.inside b c).Live ((b, c) :: S) m else x.Live S m) :
    Enters x S b register (.ok (x.entry b c true register)) l m

namespace Conduct.within

section Blocking

variable {Q : Outcome α → List Event → Memory → Prop}

theorem release (hx : x.mode = .blocking) (he : e.thread = x.thread) (hs : Serves asks e.connection)
    (hm : x.Live T m) : (Blocking.Entry.release e).run.Obeys (within x.thread? asks)
      (fun _ _ m ↦ x.Live (e.left T) m) none l m := by
  have hrest : ∀ S, (during x S asks).Runs (x.Live S) (fun _ ↦ True) (do
      let m ← Call.read
      if e.connection ∈ m.busy then Call.fail Session.inUse
      else if (m.held.lookup e.connection).isNone then pure ()
      else
        Call.modify (Memory.letGo e.connection)
        Call.operate (.release e.binder e.connection)) := by
    refine fun S ↦ Runs.read.bind fun m _ ↦ ?_
    split
    · exact .fail _
    · cases m.held.lookup e.connection with
      | none => exact .pure trivial
      | some _ =>
        have hgo : (during x S asks).Runs (x.Live S) (fun _ ↦ True)
            (Call.modify (Memory.letGo e.connection)) :=
          .modify fun m hm ↦ during.keeps rfl rfl rfl hm
        refine hgo.bind fun _ _ ↦ ?_
        exact .operate during.resumes (fun l _ _ ↦ hs l _ rfl) fun _ _ _ _ _ ↦ trivial
  obtain ⟨mode, thread, scopes⟩ := x
  cases hx
  obtain ⟨binder, connection, owner, registered, t⟩ := e
  cases he
  cases registered with
  | false => exact ((hrest T l m hm).during hm).mono fun _ _ _ h ↦ h.1
  | true =>
    have hm' : Context.Live ⟨.blocking, thread, scopes⟩ (eraseKey binder T)
        (m.deactivate thread binder) := by
      rw [← show m.activeOn thread = T from hm]
      exact activeOn_deactivate thread binder m
    refine .inl ⟨⟨rfl, rfl, fun u hu ↦ activeOn_deactivate_of_ne ?_ binder m⟩, ?_⟩
    · exact fun h ↦ hu (congrArg some h.symm)
    · exact ((hrest _ l _ hm').during hm').mono fun _ _ _ h ↦ h.1

theorem abandon (hx : x.mode = .blocking) (he : e.thread = x.thread) (ho : e.owner = true)
    (hs : Serves asks e.connection) (hm : x.Live T m) :
    (Blocking.Entry.abandon e).run.Obeys (within x.thread? asks)
      (fun _ _ m ↦ x.Live (e.left T) m) none l m := by
  unfold Blocking.Entry.abandon
  rw [if_pos ho]
  refine .call_bind (((during.rollbackQuietly_ok hs hx l m hm).during hm).mono fun r l m hr ↦ ?_)
  rw [hr.2]
  dsimp only
  rw [Call.run_outcome_bind]
  refine .bind ((release hx he hs hr.1).mono fun r l m hm ↦ ?_)
  rcases r with (_ | _) | _ <;> exact hm

theorem guarded (hx : x.mode = .blocking) (he : e.thread = x.thread) (ho : e.owner = true)
    (hs : Serves asks e.connection) {p : Call α}
    (hp : p.run.Obeys (within x.thread? asks) (fun r l m ↦ match r with
      | .error (.panic _) => ∃ T', e.left T' = e.left T ∧ x.Live T' m
      | r => Q r l m) none l m)
    (hQ : ∀ s l m, x.Live (e.left T) m → Q (.error (.panic s)) l m) :
    (Blocking.Entry.guarded e p).run.Obeys (within x.thread? asks) Q none l m := by
  unfold Blocking.Entry.guarded
  rw [Call.run_outcome_bind]
  refine .bind (hp.mono fun r l m hr ↦ ?_)
  rcases r with (err | s) | a
  · exact hr
  · obtain ⟨T', hT, hm⟩ := hr
    dsimp only
    rw [Call.run_outcome_bind]
    refine .bind ((abandon hx he ho hs hm).mono fun _ l m hm ↦ hQ s l m ?_)
    rwa [← hT]
  · exact hr

theorem settle (hx : x.mode = .blocking) (hs : Serves asks e.connection) (r : Except Error α) :
    (during x S asks).Keeps (x.Live S) (fun t ↦ (∀ err, t ≠ .error (.error err)) ∧
      ∀ s, t = .ok s → ∀ a, s = .ok a → r = .ok a) (Blocking.Entry.settle e r).run := by
  have hroll : ∀ err : Error, (during x S asks).Keeps (x.Live S) (fun t ↦
      (∀ err, t ≠ .error (.error err)) ∧ ∀ s : Except Error α, t = .ok s → ∀ a, s = .ok a → r = .ok a)
      (Session.rollbackQuietly e.connection >>= fun _ ↦ pure (.error err)).run := by
    refine fun err ↦ Keeps.bind (during.rollbackQuietly_ok hs hx) fun t ht ↦ ?_
    subst ht
    exact .done ⟨nofun, fun s hs a ha ↦ by cases hs; cases ha⟩
  cases r with
  | error err => exact hroll err
  | ok a =>
    have hc : (during x S asks).Runs (x.Live S) (fun _ ↦ True) (Session.commit e.connection) :=
      during.session (o := .commit e.connection) hs rfl rfl
    change (during x S asks).Keeps (x.Live S) _ ((Session.commit e.connection).outcome >>= fun _ ↦ _).run
    rw [Call.run_outcome_bind]
    refine Keeps.bind hc fun t _ ↦ ?_
    rcases t with (err | s) | u
    · exact hroll err
    · exact .done ⟨nofun, nofun⟩
    · exact .done ⟨nofun, fun s hs a ha ↦ by cases hs; exact ha⟩

theorem exit_blocking (hx : x.mode = .blocking) (he : e.thread = x.thread) (ho : e.owner = true)
    (hs : Serves asks e.connection) (r : Except Error α) (hm : x.Live T m) :
    (Blocking.Entry.exit e r).run.Obeys (within x.thread? asks)
      (fun r' _ m ↦ x.Live (e.left T) m ∧ ∀ a, r' = .ok a → r = .ok a) none l m := by
  unfold Blocking.Entry.exit
  rw [ho]
  refine guarded (T := T) hx he ho hs ?_ fun s _ m hm ↦ ⟨hm, nofun⟩
  refine .call_bind (((settle hx hs r l m hm).during hm).mono fun t l m ht ↦ ?_)
  obtain ⟨hm, hne, hok⟩ := ht
  rcases t with (err | s) | s
  · exact absurd rfl (hne err)
  · exact ⟨T, rfl, hm⟩
  · dsimp only
    rw [Call.run_outcome_bind]
    refine .bind ((release hx he hs hm).mono fun t l m hm ↦ ?_)
    have hT : ∃ T', e.left T' = e.left T ∧ x.Live T' m := ⟨_, e.left_left T, hm⟩
    rcases s with err | a <;> rcases t with (err' | s) | u
    · exact ⟨hm, nofun⟩
    · exact hT
    · exact ⟨hm, nofun⟩
    · exact ⟨hm, nofun⟩
    · exact hT
    · exact ⟨hm, fun a' ha ↦ by rw [hok _ rfl a rfl]; cases ha; rfl⟩

end Blocking

theorem lease (hlease : ∀ l b, asks l (.lease b)) (b : Nat) (hm : x.Live S m) :
    (Binder.lease b).run.Obeys (within x.thread? asks)
      (fun r l m ↦ x.Live S m ∧ ∀ c, r = .ok c → HasLeased c l) none l m := by
  have hpool : (during x S asks).Runs (x.Live S) (fun _ ↦ True) (Binder.pool b) := .pool b
  refine .call_bind (((hpool l m hm).during hm).mono fun r l m hr ↦ ?_)
  obtain ⟨hm, -⟩ := hr
  rcases r with f | p
  · exact ⟨hm, nofun⟩
  · refine ⟨by simp, fun m₁ hm₁ ↦ ⟨hlease l b, fun s r m' hr _ hm' ↦ ?_⟩⟩
    have hm'' : x.Live S m' :=
      ((hm.later hm₁).of_active (register_active ..) : x.Live S _).later hm'
    obtain ⟨⟨raw, rfl⟩, hs⟩ := hr
    rcases raw with f | raw
    · exact ⟨hm'', nofun⟩
    · have hdone : s = .done := hs.1 rfl
      refine .inl ⟨⟨rfl, rfl, fun _ _ ↦ rfl⟩, hm''.of_active rfl, fun c hc ↦ ?_⟩
      cases hc
      refine ⟨_, List.mem_append_right _ (List.mem_singleton_self _), ?_⟩
      rw [Operation.event, hdone]
      exact beq_self_eq_true _

theorem enter (hlease : S.lookup b = none → ∀ l b, asks l (.lease b)) (register : Bool)
    (hm : x.Live S m) :
    (x.enter b register).run.Obeys (within x.thread? asks) (x.Enters S b register) none l m := by
  have hpool : (during x S asks).Runs (x.Live S) (fun _ ↦ True) (Binder.pool b) := .pool b
  obtain ⟨mode, thread, scopes⟩ := x
  cases mode with
  | blocking =>
    refine .call_bind (((hpool l m hm).during hm).mono fun r l m hr ↦ ?_)
    obtain ⟨hm, -⟩ := hr
    rcases r with f | p
    · exact .failed hm
    · refine .call_read ?_
      have hlook : m.active.lookup (thread, b) = S.lookup b := by
        rw [← lookup_activeOn, show m.activeOn thread = S from hm]
      cases hb : S.lookup b with
      | some c =>
        rw [hb] at hlook
        dsimp only
        rw [hlook]
        exact .joined hb hm
      | none =>
        rw [hb] at hlook
        dsimp only
        rw [hlook]
        refine .call_bind ((lease (hlease hb) b hm).mono fun r l m hr ↦ ?_)
        obtain ⟨hm, hl⟩ := hr
        rcases r with f | c
        · exact .failed hm
        · cases register with
          | false => exact .leased hb (hl c rfl) hm
          | true =>
            refine .inl ⟨⟨rfl, rfl, fun u hu ↦ activeOn_activate_of_ne ?_ b c m⟩,
              .leased hb (hl c rfl) ?_⟩
            · exact fun h ↦ hu (congrArg some h.symm)
            · have hn : (m.activeOn thread).lookup b = none := by
                rw [show m.activeOn thread = S from hm, hb]
              exact (activeOn_activate hn c).trans (congrArg ((b, c) :: ·) hm)
  | async =>
    cases hm
    refine .call_bind (((hpool l m rfl).during rfl).mono fun r l m hr ↦ ?_)
    rcases r with f | p
    · exact .failed rfl
    · dsimp only
      cases hb : scopes.lookup b with
      | some c => exact .joined hb rfl
      | none =>
        refine .call_bind ((lease (x := ⟨.async, thread, scopes⟩) (S := scopes) (hlease hb) b rfl).mono
          fun r l m hr ↦ ?_)
        rcases r with f | c
        · exact .failed rfl
        · refine .leased hb (hr.2 c rfl) ?_
          cases register <;> rfl

theorem starting {j : Job} (hm : x.Live S m) :
    (within x.thread? asks).calm m (m.start j) ∧ x.Live S (m.start j) := by
  have hstart : (during x S asks).calm m (m.start j) ∧ x.Live S (m.start j) := during.started j m hm
  exact ⟨hstart.1.1, hstart.2⟩

def LiveGuarded (x : Context) (b c : Nat) (S : Async.Scopes) (m : Memory) :
    Outcome (Except Error α) → Prop
  | .ok _ => x.Live ((b, c) :: S) m
  | .error (.error _) => False
  | .error (.panic _) => x.Live S m

theorem scope (hb : S.lookup b = none) (hs : Serves asks c) {p : Call α}
    (hp : p.run.Obeys (within x.thread? asks)
      (fun _ _ m ↦ (x.inside b c).Live ((b, c) :: S) m) none l m) :
    (x.guarded (x.entry b c true true) (Blocking.caught p) >>= x.exit (x.entry b c true true)).run.Obeys
      (within x.thread? asks) (fun _ _ m ↦ x.Live S m) none l m := by
  obtain ⟨mode, thread, scopes⟩ := x
  cases mode with
  | blocking =>
    let x : Context := ⟨.blocking, thread, scopes⟩
    let e := x.entry b c true true
    have hleft : e.left ((b, c) :: S) = S := by
      refine Eq.trans ?_ (eraseKey_of_lookup hb)
      simp [e, x, Context.entry, Entry.left, eraseKey]
    have hguarded : (Blocking.Entry.guarded e (Blocking.caught p)).run.Obeys (within x.thread? asks)
        (fun r _ m ↦ LiveGuarded x b c S m r) none l m := by
      refine guarded (T := (b, c) :: S) rfl rfl rfl hs ?_ fun s l m hm ↦ by rwa [hleft] at hm
      rw [Call.run_caught]
      refine .bind (hp.mono fun r l m hm ↦ ?_)
      rcases r with (err | s) | a
      · exact hm
      · exact ⟨_, rfl, hm⟩
      · exact hm
    refine .call_bind (hguarded.mono fun r l m hr ↦ ?_)
    rcases r with (err | s) | r
    · exact hr.elim
    · exact hr
    · have hlive : x.Live ((b, c) :: S) m := hr
      refine (exit_blocking (e := e) rfl rfl rfl hs r hlive).mono fun r' _ m hm ↦ ?_
      have hm' := hm.1
      rwa [hleft] at hm'
  | async =>
    let x : Context := ⟨.async, thread, scopes⟩
    have hS : ∀ {m' : Memory}, (x.inside b c).Live ((b, c) :: S) m' → x.Live S m' := fun h ↦
      (List.cons.inj h).2
    have hguarded : (Async.protecting (.abandon b c) (Blocking.caught p)).run.Obeys
        (within x.thread? asks) (fun _ _ m ↦ x.Live S m) none l m := by
      have hcaught : (Blocking.caught p).run.Obeys (within x.thread? asks)
          (fun _ _ m ↦ x.Live S m) none l m := by
        rw [Call.run_caught]
        exact .bind (hp.mono fun _ _ _ hm ↦ hS hm)
      refine .bind ((hcaught.orphaning trivial).mono fun r l m hm ↦ ?_)
      by_cases hr : Outcome.isPanic r
      · rw [if_pos hr]
        exact .inl (starting hm)
      · rw [if_neg hr]
        exact hm
    refine .call_bind (hguarded.mono fun r l m hm ↦ ?_)
    cases r with
    | error f => exact hm
    | ok r =>
      have hexit : (during x S asks).Runs (x.Live S) (fun _ ↦ True)
          (Async.Entry.exit ⟨b, c, true, false, 0⟩ r) :=
        (during.ends (fun l o ho _ ↦ hs l o ho) b).exit (e := ⟨b, c, true, false, 0⟩) (fun _ _ ↦ trivial) fun _ _ _ _ _ ↦
          hs _ _ rfl
      exact ((hexit l m hm).during hm).mono fun _ _ _ h ↦ h.1

end Conduct.within

/-- Leasing may be asked for, and all operations on what has been leased. -/
structure Conduct.Owning (asks : List Event → Operation → Prop) : Prop where
  lease : ∀ l b, asks l (.lease b)
  own : ∀ c l o, HasLeased c l → o.connection? = some c → asks l o

theorem Conduct.Owning.serving {t : Option Nat} (ho : Owning asks) (hl : HasLeased c l) {p : Action α}
    {Q : α → List Event → Memory → Prop} {j : Option Job}
    (hp : p.Obeys (.within t fun l o ↦ o.connection? = some c ∨ asks l o) Q j l m) :
    p.Obeys (.within t asks) Q j l m :=
  hp.asking fun l' o h ho' ↦ ho'.elim (ho.own c l' o (hl.later h)) id

namespace Conduct.within

theorem connection (ho : S.lookup b = none → Owning asks) {body : Context → Nat → Call α}
    (hjoined : ∀ c, S.lookup b = some c →
      (within x.thread? asks).Keeps (x.Live S) (fun _ ↦ True) (body x c).run)
    (hleased : ∀ c l m, S.lookup b = none → HasLeased c l → (x.inside b c).Live ((b, c) :: S) m →
      (body (x.inside b c) c).run.Obeys (within x.thread? asks)
        (fun _ _ m ↦ (x.inside b c).Live ((b, c) :: S) m) none l m) :
    (within x.thread? asks).Keeps (x.Live S) (fun _ ↦ True) (x.connection b body).run := by
  intro l m hm
  rw [Context.connection_eq]
  refine .call_bind ((enter (fun hb ↦ (ho hb).lease) true hm).mono fun r l m hr ↦ ?_)
  cases hr with
  | failed hm => exact ⟨hm, trivial⟩
  | @joined c _ _ hc hm =>
    dsimp only
    rw [x.scope_joined (x.entry_owner b c false false), x.entry_owner, x.entry_connection]
    exact hjoined c hc l m hm
  | @leased c _ _ hc hl hm =>
    dsimp only
    rw [x.entry_owner, x.entry_connection]
    refine (ho hc).serving hl ?_
    refine (scope hc (fun _ _ h ↦ .inl h) ((hleased c l m hc hl hm).asking fun _ _ _ h ↦ .inr h)).mono
      fun _ _ _ h ↦ ⟨h, trivial⟩

end Conduct.within

end BoundSql
