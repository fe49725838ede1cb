import BoundSql.Proofs.Scope.Fetching
import BoundSql.Proofs.Scope.Handover

namespace BoundSql

open Memory

variable {σ α β : Type} {h : Host σ} {x : Context} {n k K : Nat} {m m' : Memory} {s s' : Runtime σ}
  {l es : List Event} {e due : Option Nat}

/-- How an action stands to a cursor: it may obtain it yet, it has it in hand, or it has nothing to do
with it any more. -/
inductive Tenure
  | before
  | held
  | after
  deriving DecidableEq

def Job.closes (n : Nat) : Job → Bool
  | .close _ k => k == n
  | .abandonStream _ _ cursor => cursor == some n
  | _ => false

def Job.tidies : Job → Bool
  | .steps _ _ => false
  | _ => true

theorem Job.tidies_of_closes {j : Job} (hj : j.closes n) : j.tidies := by
  cases j with
  | steps _ _ => cases hj
  | _ => rfl

def Event.closes (n : Nat) : Event → Bool
  | .operation (.close _ k) _ _ => k == n
  | _ => false

def Event.opens : Event → Bool
  | .operation (.query _ _ _) _ .done => true
  | _ => false

def Memory.closesOf (m : Memory) (n : Nat) : Nat := m.trace.countP (Event.closes n)

theorem Memory.closesOf_of_operations (ho : m'.operations = m.operations) :
    m'.closesOf n = m.closesOf n := by
  have hp : ∀ e, Event.closes n e → e.isOperation := fun e he ↦ by
    cases e <;> first | rfl | cases he
  rw [closesOf, closesOf, List.countP_eq_length_filter, List.countP_eq_length_filter,
    ← filter_operations hp, ← filter_operations hp, ho]

theorem Memory.closesOf_register (o : Operation) (st : Status) (m : Memory) :
    (m.register o (o.number m) st).closesOf n =
      m.closesOf n + (Event.closes n (o.event m st)).toNat := by
  rw [closesOf, closesOf, List.countP_eq_length_filter, List.countP_eq_length_filter,
    filter_register, List.length_append, Nat.add_comm, List.filter_singleton]
  · change _ + (bif Event.closes n (o.event m st) then [o.event m st] else []).length = _
    cases Event.closes n (o.event m st) <;> rfl
  · intro o d st ho
    cases o <;> first | rfl | cases ho

namespace Tenure

inductive To : Tenure → Tenure → Prop
  | refl (t : Tenure) : To t t
  | giveUp : To before after

def weight : Tenure → Nat
  | held => 1
  | before | after => 0

def Leaves (n : Nat) (t : Tenure) (js : List Job) : Prop :=
  (∀ j ∈ js, j.tidies) ∧ js.countP (Job.closes n) = t.weight

/-- How it may change the memory in one step. Until it is through with the cursor it starts nothing. -/
structure Changes (n : Nat) (t : Tenure) (m m' : Memory) : Prop where
  tasks : m'.tasks = m.tasks
  cursors : m'.cursors = m.cursors
  operations : m'.operations = m.operations
  started : ∃ js, m'.started = m.started ++ js ∧ (t ≠ after → js = []) ∧
    ∀ j ∈ js, j.tidies ∧ j.closes n = false

def next (n : Nat) (t : Tenure) : (o : Operation) → Outcome o.Answer → Tenure
  | .query _ _ _, r => if Outcome.isOk r then held else after
  | .close _ k, _ => if k = n then after else t
  | _, _ => t

theorem Changes.refl (n : Nat) (t : Tenure) (m : Memory) : t.Changes n m m :=
  ⟨rfl, rfl, rfl, [], by simp, fun _ ↦ rfl, by simp⟩

theorem Leaves.append {t : Tenure} {js : List Job} {j : Job} (hjs : t.Leaves n js) (hj : j.tidies)
    (hn : j.closes n = false) : t.Leaves n (js ++ [j]) := by
  obtain ⟨htidy, hcount⟩ := hjs
  refine ⟨fun i hi ↦ ?_, ?_⟩
  · obtain hi | hi := List.mem_append.1 hi
    · exact htidy i hi
    · rwa [List.mem_singleton.1 hi]
  · rw [List.countP_append, hcount, List.countP_singleton, hn]
    rfl

theorem Leaves.nil {t : Tenure} (ht : t ≠ held) : t.Leaves n [] := by
  refine ⟨by simp, ?_⟩
  cases t with
  | held => exact absurd rfl ht
  | before | after => rfl

end Tenure

namespace Operation

/-- What an action may ask for, and what it leaves if it is dropped there. Whoever has asked for the
cursor's close has let go of it. -/
def Suits (n : Nat) (t : Tenure) (js : List Job) : Operation → Prop
  | query _ _ _ => t = .before ∧ t.Leaves n js
  | close _ k => (k = n → t = .held) ∧ (if k = n then Tenure.after else t).Leaves n js
  | release _ _ => t = .after ∧ t.Leaves n js
  | _ => t.Leaves n js

def Gives (n : Nat) : (o : Operation) → Outcome o.Answer → Prop
  | .query _ _ _, r => ∀ cursor : Cursor, r = .ok cursor → cursor.id = n
  | _, _ => True

end Operation

/-- The action obtains the cursor at most, and closes it or leaves it to a task; it comes to `Q`. -/
def Action.Minds (n : Nat) (Q : Tenure → α → Prop) : Action α → Tenure → Prop
  | .done a, t => Q t a
  | .memory f k, t => ∃ t', t.To t' ∧ ∀ m : Memory, m.tasks = true →
      t'.Changes n m (f m) ∧ (k m).Minds n Q t' ∨
        t' = .held ∧ (∃ j : Job, j.closes n ∧ f m = m.start j) ∧ (k m).Minds n Q .after
  | .operation o js k, t => ∃ t', t.To t' ∧ o.Suits n t' js ∧
      ∀ r, Outcome.isPanic r = false → o.Gives n r → (k r).Minds n Q (t'.next n o r)
  | .wait w js k, t => ∃ t', t.To t' ∧ t'.Leaves n js ∧
      (∀ j, w = .task j → t' = .after ∧ j.tidies ∧ j.closes n = false) ∧
      ∀ r, w.Answers r → (k r).Minds n Q t'

/-- A suspended action that does so when it goes on. If it has just obtained the cursor, which `F`
says, it leaves nobody to close it. -/
def Suspended.Minds (n : Nat) (Q : Tenure → α → Prop) (F : Prop) : Suspended α → Tenure → Prop
  | .done a, t => Q t a
  | .ready js p, t => (t.Leaves n js ∨ F ∧ t = .held ∧ Tenure.after.Leaves n js) ∧ p.Minds n Q t
  | .asked o js k, t => (Action.operation o js k).Minds n Q t
  | .waiting _ js k, t => t.Leaves n js ∧ ∀ r, (k r).Minds n Q t

namespace Action.Minds

variable {Q R : Tenure → α → Prop} {p : Action α} {t : Tenure}

theorem bind {R : Tenure → β → Prop} {f : α → Action β}
    (hp : p.Minds n (fun t a ↦ (f a).Minds n R t) t) : (p >>= f).Minds n R t := by
  change (p.bind f).Minds n R t
  induction p generalizing t with
  | done a => exact hp
  | memory g k ih =>
    obtain ⟨t', ht, hk⟩ := hp
    refine ⟨t', ht, fun m hm ↦ (hk m hm).imp (And.imp_right (ih m)) ?_⟩
    exact And.imp_right (And.imp_right (ih m))
  | operation o js k ih =>
    obtain ⟨t', ht, ho, hk⟩ := hp
    exact ⟨t', ht, ho, fun r hr hg ↦ ih r (hk r hr hg)⟩
  | wait w js k ih =>
    obtain ⟨t', ht, hjs, hj, hk⟩ := hp
    exact ⟨t', ht, hjs, hj, fun r hr ↦ ih r (hk r hr)⟩

theorem post (hp : p.Minds n Q t) (hQ : ∀ t a, Q t a → R t a) : p.Minds n R t := by
  induction p generalizing t with
  | done a => exact hQ t a hp
  | memory g k ih =>
    obtain ⟨t', ht, hk⟩ := hp
    refine ⟨t', ht, fun m hm ↦ (hk m hm).imp (And.imp_right (ih m)) ?_⟩
    exact And.imp_right (And.imp_right (ih m))
  | operation o js k ih =>
    obtain ⟨t', ht, ho, hk⟩ := hp
    exact ⟨t', ht, ho, fun r hr hg ↦ ih r (hk r hr hg)⟩
  | wait w js k ih =>
    obtain ⟨t', ht, hjs, hj, hk⟩ := hp
    exact ⟨t', ht, hjs, hj, fun r hr ↦ ih r (hk r hr)⟩

theorem orphaning {j : Job} (hp : p.Minds n Q t) (hj : j.tidies) (hn : j.closes n = false) :
    (p.orphaning j).Minds n Q t := by
  induction p generalizing t with
  | done a => exact hp
  | memory g k ih =>
    obtain ⟨t', ht, hk⟩ := hp
    refine ⟨t', ht, fun m hm ↦ (hk m hm).imp (And.imp_right (ih m)) ?_⟩
    exact And.imp_right (And.imp_right (ih m))
  | operation o js k ih =>
    obtain ⟨t', ht, ho, hk⟩ := hp
    refine ⟨t', ht, ?_, fun r hr hg ↦ ih r (hk r hr hg)⟩
    cases o with
    | query _ _ _ | close _ _ | release _ _ => exact ⟨ho.1, Tenure.Leaves.append ho.2 hj hn⟩
    | _ => exact Tenure.Leaves.append ho hj hn
  | wait w js k ih =>
    obtain ⟨t', ht, hjs, hw, hk⟩ := hp
    exact ⟨t', ht, hjs.append hj hn, hw, fun r hr ↦ ih r (hk r hr)⟩

theorem orphaning_of_only {A : Operation → Prop} {P : α → Prop} {j : Job} (hj : j.closes n)
    (hp : p.Only A P) (hA : ∀ o, A o → ∃ d i k, o = .fetch d i k) :
    (p.orphaning j).Minds n (fun t a ↦ t = .held ∧ P a) .held := by
  induction p with
  | done a => exact ⟨rfl, hp⟩
  | memory g k ih => exact hp.elim
  | operation o js k ih =>
    obtain ⟨rfl, ho, hk⟩ := hp
    obtain ⟨d, i, f, rfl⟩ := hA o ho
    refine ⟨.held, .refl _, ⟨?_, ?_⟩, fun r _ _ ↦ ih r (hk r)⟩
    · simpa using Job.tidies_of_closes hj
    · rw [List.nil_append, List.countP_singleton, hj]
      rfl
  | wait w js k ih => exact hp.elim

end Action.Minds

abbrev Action.Forgets (n : Nat) (p : Action α) : Prop := p.Minds n (fun t _ ↦ t = .after) .after

namespace Action.Minds

variable {Q : Tenure → α → Prop} {p : Action α}

theorem giveUp (hp : p.Minds n Q .after) (hQ : ∀ a, Q .after a → Q .before a) :
    p.Minds n Q .before := by
  have hto : ∀ {t'}, Tenure.To .after t' → Tenure.To .before t' := fun ht ↦ by
    cases ht
    exact .giveUp
  cases p with
  | done a => exact hQ a hp
  | memory f k =>
    obtain ⟨t', ht, hk⟩ := hp
    exact ⟨t', hto ht, hk⟩
  | operation o js k =>
    obtain ⟨t', ht, hk⟩ := hp
    exact ⟨t', hto ht, hk⟩
  | wait w js k =>
    obtain ⟨t', ht, hk⟩ := hp
    exact ⟨t', hto ht, hk⟩

section Calls

variable {Q : Tenure → Outcome α → Prop} {t : Tenure}

theorem read {k : Memory → Call α} (hk : ∀ m, (k m).run.Minds n Q t) :
    (Call.read >>= k).run.Minds n Q t :=
  ⟨t, .refl t, fun m _ ↦ .inl ⟨.refl n t m, hk m⟩⟩

theorem locking {c : Nat} {p : Call α} (ht : t ≠ .held) (hp : p.run.Minds n Q t) :
    (Async.locking c p).run.Minds n Q t := by
  refine ⟨t, .refl t, .nil ht, nofun, fun r hr ↦ ?_⟩
  cases hr
  exact hp

theorem check {c : Nat} {k : Unit → Call α} (hk : (k ()).run.Minds n Q t)
    (he : ∀ e, Q t (.error (.error e))) : (Session.check c >>= k).run.Minds n Q t := by
  rw [Session.run_check_bind]
  refine ⟨t, .refl t, fun m _ ↦ .inl ⟨.refl n t m, ?_⟩⟩
  dsimp only
  split
  · exact he _
  · split
    · exact he _
    · exact hk

end Calls

end Action.Minds

namespace Action.Forgets

theorem bind {p : Action α} {f : α → Action β} (hp : p.Forgets n) (hf : ∀ a, (f a).Forgets n) :
    (p >>= f).Forgets n := by
  refine Minds.bind (hp.post fun t a ht ↦ ?_)
  subst ht
  exact hf a

theorem start {j : Job} (hj : j.tidies) (hn : j.closes n = false) : (Action.start j).Forgets n := by
  refine ⟨.after, .refl _, fun m hm ↦ .inl ⟨⟨?_, ?_, ?_, [j], ?_, by simp, by simp [hj, hn]⟩, rfl⟩⟩ <;>
    simp [Memory.start, hm, Memory.operations]

variable {p : Call α}

theorem ret (r : Outcome α) : (ExceptT.mk (.done r) : Call α).run.Forgets n := rfl

theorem call_bind {k : α → Call β} (hp : p.run.Forgets n) (hk : ∀ a, (k a).run.Forgets n) :
    (p >>= k).run.Forgets n := by
  refine bind hp fun r ↦ ?_
  cases r with
  | ok a => exact hk a
  | error f => exact ret _

theorem outcome (hp : p.run.Forgets n) : p.outcome.run.Forgets n := bind hp fun _ ↦ ret _

theorem caught (hp : p.run.Forgets n) : (Blocking.caught p).run.Forgets n := by
  rw [Call.run_caught]
  exact bind hp fun _ ↦ ret _

theorem protecting {j : Job} (hj : j.tidies) (hn : j.closes n = false) (hp : p.run.Forgets n) :
    (Async.protecting j p).run.Forgets n := by
  refine bind (Minds.orphaning hp hj hn) fun r ↦ ?_
  by_cases hpanic : Outcome.isPanic r
  · rw [if_pos hpanic]
    exact bind (start hj hn) fun _ ↦ ret r
  · rw [if_neg hpanic]
    exact ret r

theorem locking (c : Nat) (hp : p.run.Forgets n) : (Async.locking c p).run.Forgets n :=
  Minds.locking nofun hp

theorem operate {o : Operation} (ho : o.Suits n .after []) (hn : ∀ r, Tenure.next n .after o r = .after) :
    (Call.operate o).run.Forgets n :=
  ⟨.after, .refl _, ho, fun r _ _ ↦ hn r⟩

theorem statement {o : Operation} (c : Nat) (ho : o.isLocked) (hq : ∀ d sql ps, o ≠ .query d sql ps) :
    (Session.check c >>= fun _ ↦ Call.operate o).run.Forgets n := by
  refine Minds.check (operate ?_ fun r ↦ ?_) fun _ ↦ rfl
  · cases o with
    | query d sql ps => exact absurd rfl (hq d sql ps)
    | execute _ _ _ | commit _ | rollback _ => exact Tenure.Leaves.nil nofun
    | _ => cases ho
  · cases o with
    | query d sql ps => exact absurd rfl (hq d sql ps)
    | execute _ _ _ | commit _ | rollback _ => rfl
    | _ => cases ho

theorem rollbackQuietly (c : Nat) : (Session.rollbackQuietly c).run.Forgets n := by
  refine call_bind (outcome (statement (o := .rollback c) c rfl nofun)) fun r ↦ ?_
  rcases r with (_ | _) | _ <;> exact ret _

theorem release (b c : Nat) : (Async.release b c).run.Forgets n := by
  have hletGo : ∀ m : Memory, Tenure.after.Changes n m (m.letGo c) := fun m ↦
    ⟨rfl, rfl, rfl, [], by simp [Memory.letGo], fun _ ↦ rfl, by simp⟩
  rw [Async.release_eq]
  refine locking c ⟨.after, .refl _, fun m hm ↦ .inl ⟨.refl n .after m, ?_⟩⟩
  dsimp only
  split
  · exact ret _
  · refine ⟨.after, .refl _, fun m' _ ↦ .inl ⟨hletGo m', ?_⟩⟩
    refine ⟨.after, .refl _, .nil Tenure.noConfusion, fun j hj ↦ ?_, fun r _ ↦ ret _⟩
    cases hj
    exact ⟨rfl, rfl, rfl⟩

theorem settle (e : Entry) (r : Except Error α) : (Async.Entry.settle e r).run.Forgets n := by
  have hroll : (Async.locking e.connection (Session.rollbackQuietly e.connection)).run.Forgets n :=
    locking _ (rollbackQuietly _)
  cases r with
  | error err => exact call_bind hroll fun _ ↦ ret _
  | ok a =>
    have hcommit : (Async.locking e.connection (Session.commit e.connection)).run.Forgets n :=
      locking _ (statement (o := .commit e.connection) _ rfl nofun)
    refine call_bind (outcome hcommit) fun r ↦ ?_
    rcases r with (err | m) | _
    · exact call_bind hroll fun _ ↦ ret _
    · exact ret _
    · exact ret _

theorem exit (e : Entry) (r : Except Error α) : (Async.Entry.exit e r).run.Forgets n := by
  unfold Async.Entry.exit
  split
  · exact ret _
  · unfold Async.Entry.guarded
    rename_i ho
    rw [Bool.not_eq_true, Bool.not_eq_false'] at ho
    rw [if_pos ho]
    refine protecting (j := Async.Entry.cleanup e) rfl rfl (call_bind (settle e r) fun s ↦
      call_bind (outcome (release e.binder e.connection)) fun t ↦ ?_)
    rcases s with err | a <;> rcases t with (err' | m) | _ <;> exact ret _

theorem autocommit (c : Nat) : (Session.autocommit c).run.Forgets n :=
  Minds.check (Minds.read fun _ ↦ ret _) fun _ ↦ rfl

theorem endAbandoned (b c : Nat) : (Async.endAbandoned b c).run.Forgets n := by
  refine call_bind (locking c (Minds.read fun m ↦ ret _)) fun m ↦ ?_
  split
  · exact ret _
  · exact call_bind (locking c (rollbackQuietly c)) fun _ ↦
      call_bind (caught (release b c)) fun _ ↦ ret _

theorem endStream (b c : Nat) : (do
    let _ ← Async.caught (Async.Entry.exit (α := Unit) ⟨b, c, true, false, 0⟩
      (.error (.query "stream dropped before exhaustion")))
    pure () : Call Unit).run.Forgets n :=
  call_bind (caught (exit _ _)) fun _ ↦ ret _

end Action.Forgets

namespace Action.Minds

variable {Q : Tenure → Outcome α → Prop} {p : Call α} {t : Tenure}

theorem call_bind {R : Tenure → Outcome β → Prop} {k : α → Call β}
    (hp : p.run.Minds n (fun t r ↦ match r with
      | .ok a => (k a).run.Minds n R t
      | .error f => R t (.error f)) t) : (p >>= k).run.Minds n R t := by
  refine bind (hp.post fun t r hr ↦ ?_)
  cases r with
  | ok a => exact hr
  | error f => exact hr

theorem caught {Q : Tenure → Outcome (Except Error α) → Prop}
    (hp : p.run.Minds n (fun t r ↦ Q t (Outcome.caught r)) t) :
    (Blocking.caught p).run.Minds n Q t := by
  rw [Call.run_caught]
  exact bind hp

theorem protecting {j : Job} (hj : j.tidies) (hn : j.closes n = false) (hp : p.run.Minds n Q t)
    (hQ : ∀ t r, Q t r → Outcome.isPanic r → t = .after) : (Async.protecting j p).run.Minds n Q t := by
  refine bind ((hp.orphaning hj hn).post fun t r hr ↦ ?_)
  by_cases hpanic : Outcome.isPanic r
  · obtain rfl := hQ t r hr hpanic
    rw [if_pos hpanic]
    exact bind ((Forgets.start hj hn).post fun t _ ht ↦ ht ▸ hr)
  · rw [if_neg hpanic]
    exact hr

theorem close (c k : Nat) : (Call.operate (.close c k)).run.Minds n
    (fun t r ↦ t = .after ∧ Outcome.isPanic r = false) (if k = n then .held else .after) := by
  refine ⟨_, .refl _, ⟨fun hk ↦ if_pos hk, ?_⟩, fun r hr _ ↦ ⟨?_, hr⟩⟩
  · by_cases hk : k = n <;> simp [hk, Tenure.Leaves.nil]
  · by_cases hk : k = n <;> simp [Tenure.next, hk]

end Action.Minds

theorem Job.minds {j : Job} (hj : j.tidies) (x : Context) :
    (j.run x).run.Minds n (fun t _ ↦ t = .after) (if j.closes n then .held else .after) := by
  have heq : ∀ k : Nat, (if (k == n) = true then Tenure.held else .after) =
      if k = n then .held else .after := fun k ↦ by simp
  cases j with
  | close c k =>
    rw [closes, heq]
    exact (Action.Minds.close c k).post fun t _ ht ↦ ht.1
  | abandon b c => exact Action.Forgets.endAbandoned b c
  | abandonStream b c cursor =>
    cases cursor with
    | none => exact Action.Forgets.endStream b c
    | some k =>
      have hstart : (if Job.closes n (.abandonStream b c (some k)) then Tenure.held else .after) =
          if k = n then .held else .after := by simp [closes]
      have hclose : (Async.protecting (.abandon b c)
          (Blocking.caught (Call.operate (.close c k)))).run.Minds n (fun t _ ↦ t = .after)
            (if k = n then .held else .after) :=
        .protecting rfl rfl (.caught ((Action.Minds.close c k).post fun t _ ht ↦ ht.1))
          fun t _ ht _ ↦ ht
      rw [hstart]
      refine .call_bind (hclose.post fun t r ht ↦ ?_)
      subst ht
      cases r with
      | ok _ => exact Action.Forgets.endStream b c
      | error f => rfl
  | release b c => exact Action.Forgets.operate ⟨rfl, .nil nofun⟩ fun _ ↦ rfl
  | steps _ _ => cases hj

end BoundSql
