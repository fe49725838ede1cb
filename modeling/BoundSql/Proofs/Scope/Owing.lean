import BoundSql.Proofs.Scope.Stages
import BoundSql.Program.Execution

namespace BoundSql

open Memory

variable {α β : Type} {b c : Nat} {D D' : List Job → Prop}

def Job.Ends (c : Nat) : Job → Prop
  | .abandon _ d | .abandonStream _ d _ => d = c
  | _ => False

def Heir (c : Nat) (js : List Job) : Prop := ∃ j ∈ js, j.Ends c

def Memory.Attended (c : Nat) (m : Memory) : Prop := ¬m.Holds c ∨ Heir c m.started

/-- As long as the connection is not attended to, the action leaves what `D` wants if it is dropped,
and comes to no end but `Q`. -/
def Action.Owes (c : Nat) (D : List Job → Prop) (Q : α → Prop) : Action α → Prop
  | .done a => Q a
  | .memory f k =>
    ∀ m : Memory, m.tasks = true → m.Holds c → (f m).Attended c ∨ (k m).Owes c D Q
  | .operation _ js k => D js ∧ ∀ r, Outcome.isPanic r = false → (k r).Owes c D Q
  | .wait w js k => D js ∧ ∀ r, w.Answers r → (k r).Owes c D Q

namespace Action.Owes

variable {Q R : α → Prop} {p : Action α}

theorem bind {R : β → Prop} {f : α → Action β} (hp : p.Owes c D fun a ↦ (f a).Owes c D R) :
    (p >>= f).Owes c D R := by
  change (p.bind f).Owes c D R
  induction p with
  | done a => exact hp
  | memory g k ih => exact fun m ht hm ↦ (hp m ht hm).imp_right (ih m)
  | operation o js k ih => exact ⟨hp.1, fun r hr ↦ ih r (hp.2 r hr)⟩
  | wait w js k ih => exact ⟨hp.1, fun r hr ↦ ih r (hp.2 r hr)⟩

theorem mono (hp : p.Owes c D Q) (hD : ∀ js, D js → D' js) (hQ : ∀ a, Q a → R a) :
    p.Owes c D' R := by
  induction p with
  | done a => exact hQ a hp
  | memory g k ih => exact fun m ht hm ↦ (hp m ht hm).imp_right (ih m)
  | operation o js k ih => exact ⟨hD js hp.1, fun r hr ↦ ih r (hp.2 r hr)⟩
  | wait w js k ih => exact ⟨hD js hp.1, fun r hr ↦ ih r (hp.2 r hr)⟩

theorem post (hp : p.Owes c D Q) (hQ : ∀ a, Q a → R a) : p.Owes c D R :=
  hp.mono (fun _ ↦ id) hQ

theorem any (p : Action α) : p.Owes c (fun _ ↦ True) fun _ ↦ True := by
  induction p with
  | done a => trivial
  | memory g k ih => exact fun m _ _ ↦ .inr (ih m)
  | operation o js k ih => exact ⟨trivial, fun r _ ↦ ih r⟩
  | wait w js k ih => exact ⟨trivial, fun r _ ↦ ih r⟩

theorem orphaning {j : Job} (hj : j.Ends c) (hp : p.Owes c D Q) :
    (p.orphaning j).Owes c (Heir c) Q := by
  have heir : ∀ js, Heir c (js ++ [j]) := fun js ↦ ⟨j, by simp, hj⟩
  induction p with
  | done a => exact hp
  | memory g k ih => exact fun m ht hm ↦ (hp m ht hm).imp_right (ih m)
  | operation o js k ih => exact ⟨heir js, fun r hr ↦ ih r (hp.2 r hr)⟩
  | wait w js k ih => exact ⟨heir js, fun r hr ↦ ih r (hp.2 r hr)⟩

theorem start {j : Job} (hj : j.Ends c) (Q : Unit → Prop) : (Action.start j).Owes c D Q :=
  fun m ht _ ↦ .inl (.inr ⟨j, by simp [Memory.start, ht], hj⟩)

end Action.Owes

theorem Outcome.isPanic_caught (r : Outcome α) :
    Outcome.isPanic (Outcome.caught r) = Outcome.isPanic r := by
  rcases r with (_ | _) | _ <;> rfl

theorem Outcome.eq_ok_of_caught {r : Outcome α} (hr : Outcome.isPanic r = false) :
    ∃ v, Outcome.caught r = .ok v := by
  rcases r with (e | _) | a
  · exact ⟨.error e, rfl⟩
  · cases hr
  · exact ⟨.ok a, rfl⟩

theorem Memory.not_holds_letGo (c : Nat) (m : Memory) : ¬(m.letGo c).Holds c := by
  rw [Holds, Memory.letGo, lookup_eraseKey_self]
  exact Bool.false_ne_true

namespace Action.Owes

abbrev Never (_ : List Job) : Prop := True

variable {Q : Outcome α → Prop} {p : Call α} {e : Entry}

theorem never {D : List Job → Prop} (hp : p.run.Owes c D Q) : p.run.Owes c Never Q :=
  hp.mono (fun _ _ ↦ trivial) fun _ ↦ id

theorem call_bind {k : α → Call β} {R : Outcome β → Prop}
    (hp : p.run.Owes c D fun r ↦ match r with
      | .ok a => (k a).run.Owes c D R
      | .error f => R (.error f)) : (p >>= k).run.Owes c D R := by
  refine .bind (hp.post fun r hr ↦ ?_)
  cases r with
  | ok a => exact hr
  | error f => exact hr

theorem outcome (hp : p.run.Owes c D Q) :
    p.outcome.run.Owes c D fun r ↦ ∃ r', Q r' ∧ r = .ok r' :=
  .bind (hp.post fun r hr ↦ ⟨r, hr, rfl⟩)

theorem caught (hp : p.run.Owes c D Q) :
    (Blocking.caught p).run.Owes c D fun r ↦ ∃ r', Q r' ∧ r = Outcome.caught r' := by
  rw [Call.run_caught]
  exact .bind (hp.post fun r hr ↦ ⟨r, hr, rfl⟩)

theorem protecting {j : Job} (hj : j.Ends c) (hp : p.run.Owes c D Q) :
    (Async.protecting j p).run.Owes c (Heir c) fun r ↦ Q r ∧ Outcome.isPanic r = false := by
  refine .bind ((hp.orphaning hj).post fun r hr ↦ ?_)
  by_cases hpanic : Outcome.isPanic r
  · rw [if_pos hpanic]
    exact .bind (.start hj _)
  · rw [if_neg hpanic]
    exact ⟨hr, Bool.eq_false_iff.2 hpanic⟩

theorem locking (d : Nat) (hp : p.run.Owes c Never Q) :
    (Async.locking d p).run.Owes c Never Q := by
  refine ⟨trivial, fun r hr ↦ ?_⟩
  cases hr
  exact hp

theorem operate (o : Operation) :
    (Call.operate o).run.Owes c Never fun r ↦ Outcome.isPanic r = false :=
  ⟨trivial, fun _ hr ↦ hr⟩

theorem session (d : Nat) (o : Operation) :
    (Session.check d >>= fun _ ↦ Call.operate o).run.Owes c Never fun r ↦
      Outcome.isPanic r = false := by
  rw [Session.run_check_bind]
  refine fun m _ _ ↦ .inr ?_
  dsimp only
  split
  · rfl
  · split
    · rfl
    · exact .operate o

theorem rollbackQuietly (d : Nat) :
    (Session.rollbackQuietly d).run.Owes c Never fun r ↦ r = .ok () := by
  refine call_bind ((session d (.rollback d)).outcome.post ?_)
  rintro _ ⟨r, hr, rfl⟩
  rcases r with (_ | _) | _
  · rfl
  · cases hr
  · rfl

theorem release (b c : Nat) : (Async.release b c).run.Owes c Never fun _ ↦ False := by
  rw [Async.release_eq]
  refine locking c fun m _ hm ↦ .inr ?_
  dsimp only
  split
  · exact isNone_lookup_iff.1 ‹_› hm
  · exact fun m' _ _ ↦ .inl (.inl (not_holds_letGo c m'))

theorem settle (e : Entry) (r : Except Error α) :
    (Async.Entry.settle e r).run.Owes c Never fun s ↦ Outcome.isOk s := by
  have hroll : (Async.locking e.connection (Session.rollbackQuietly e.connection)).run.Owes c Never
      fun r ↦ r = .ok () := locking _ (rollbackQuietly _)
  cases r with
  | error err =>
    refine call_bind (hroll.post ?_)
    rintro _ rfl
    rfl
  | ok a =>
    have hc : (Async.locking e.connection (Session.commit e.connection)).run.Owes c Never
        fun r ↦ Outcome.isPanic r = false := locking _ (session _ (.commit e.connection))
    refine call_bind (hc.outcome.post ?_)
    rintro _ ⟨s, hs, rfl⟩
    rcases s with (err | m) | _
    · refine call_bind (hroll.post ?_)
      rintro _ rfl
      rfl
    · cases hs
    · rfl

theorem exit (ho : e.owner) (hc : e.connection = c) (r : Except Error α) :
    (Async.Entry.exit e r).run.Owes c (Heir c) fun _ ↦ False := by
  subst hc
  have hleave : (Async.Entry.leave e r).run.Owes e.connection Never fun _ ↦ False := by
    refine call_bind ((settle e r).post fun s hs ↦ ?_)
    cases s with
    | ok s =>
      refine call_bind ((release e.binder e.connection).outcome.post ?_)
      rintro _ ⟨_, hf, -⟩
      exact hf.elim
    | error f => cases hs
  rw [Async.Entry.exit_eq ho]
  exact (protecting (j := Async.Entry.cleanup e) rfl hleave).post fun _ hr ↦ hr.1

theorem scope (ho : e.owner) (hc : e.connection = c) (body : Call α) :
    (Async.Entry.guarded e (Blocking.caught body) >>= Async.Entry.exit e).run.Owes c (Heir c)
      fun _ ↦ False := by
  rw [Async.Entry.guarded, if_pos ho]
  refine call_bind ((protecting (j := Async.Entry.cleanup e) hc (any body.run).caught).post ?_)
  rintro _ ⟨⟨r, -, rfl⟩, hn⟩
  rw [Outcome.isPanic_caught] at hn
  obtain ⟨v, hv⟩ := Outcome.eq_ok_of_caught hn
  rw [hv]
  exact exit ho hc v

theorem caught_never (hp : p.run.Owes c Never fun _ ↦ False) :
    (do let _ ← Async.caught p; pure () : Call Unit).run.Owes c Never fun _ ↦ False := by
  refine call_bind (hp.caught.post ?_)
  rintro _ ⟨_, hf, -⟩
  exact hf.elim

theorem endAbandoned (b c : Nat) : (Async.endAbandoned b c).run.Owes c Never fun _ ↦ False := by
  have hread : (Async.locking c Call.read).run.Owes c Never fun r ↦
      ∃ m : Memory, m.Holds c ∧ r = .ok m :=
    locking c fun m _ hm ↦ .inr ⟨m, hm, rfl⟩
  refine call_bind (hread.post ?_)
  rintro _ ⟨m, hm, rfl⟩
  dsimp only
  rw [if_neg fun hn ↦ isNone_lookup_iff.1 hn hm]
  refine call_bind ((locking c (rollbackQuietly c)).post ?_)
  rintro _ rfl
  exact caught_never (release b c)

theorem endAbandonedStream (b c : Nat) (cursor : Option Nat) :
    (Async.endAbandonedStream b c cursor).run.Owes c Never fun _ ↦ False := by
  have hend : (do
      let _ ← Async.caught (Async.Entry.exit (α := Unit) ⟨b, c, true, false, 0⟩
        (.error (.query "stream dropped before exhaustion")))
      pure () : Call Unit).run.Owes c Never fun _ ↦ False :=
    caught_never (exit (e := ⟨b, c, true, false, 0⟩) rfl rfl _).never
  unfold Async.endAbandonedStream
  cases cursor with
  | none => exact hend
  | some n =>
    refine call_bind ((protecting (j := .abandon b c) rfl (operate (.close c n)).caught).mono
      (fun _ _ ↦ trivial) ?_)
    rintro _ ⟨⟨r, hr, rfl⟩, -⟩
    obtain ⟨v, hv⟩ := Outcome.eq_ok_of_caught hr
    rw [hv]
    exact hend

end Action.Owes

theorem Job.Ends.owes {j : Job} (hj : j.Ends c) (x : Context) :
    (j.run x).run.Owes c Action.Owes.Never fun _ ↦ False := by
  cases j with
  | abandon b d =>
    obtain rfl : d = c := hj
    exact .endAbandoned b d
  | abandonStream b d cursor =>
    obtain rfl : d = c := hj
    exact .endAbandonedStream b d cursor
  | close _ _ | release _ _ | steps _ _ => exact hj.elim

end BoundSql
