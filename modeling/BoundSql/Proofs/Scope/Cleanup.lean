import BoundSql.Proofs.Scope.Using

namespace BoundSql

open Memory

variable {α : Type} {C : Conduct} {I : Memory → Prop} {P : α → Prop} {b c : Nat}

namespace Async

def released : Outcome Unit → Outcome Unit
  | .error (.panic message) => .error (.error (.connection s!"release task failed: {message}"))
  | r => r

def handBack (b c : Nat) : Action (Outcome Unit) :=
  .memory id fun m ↦
    if (m.held.lookup c).isNone then .done (.ok ())
    else .memory (Memory.letGo c) fun _ ↦
      if m.tasks then .wait (.task (.release b c)) [] fun r ↦ .done (released r)
      else .operation (.release b c) [] .done

theorem release_eq (b c : Nat) : Async.release b c = locking c (ExceptT.mk (handBack b c)) := by
  refine congrArg (locking c) (congrArg (Action.memory id) (funext fun m ↦ ?_))
  change (if (m.held.lookup c).isNone = true then pure () else _ : Call Unit).run = _
  split
  · rfl
  · refine congrArg (Action.memory (Memory.letGo c)) (funext fun _ ↦ ?_)
    change (if m.tasks = true then _ else _ : Call Unit).run = _
    by_cases ht : m.tasks = true
    · rw [if_pos ht]
      refine (congrArg ExceptT.run (if_pos ht)).trans
        (congrArg (Action.wait _ []) (funext fun r ↦ ?_))
      rcases r with (_ | _) | _ <;> rfl
    · rw [if_neg ht]
      exact congrArg ExceptT.run (if_neg ht)

end Async

/-- What the conduct must allow the owner of a connection, who rolls back and hands the connection to
a task that releases it. -/
structure Conduct.Ends (C : Conduct) (I : Memory → Prop) (b c : Nat) : Prop where
  resumes : ∀ m m', C.rely m m' → I m'
  close : ∀ l m n, I m → C.asks l m (.close c n)
  rollback : ∀ l m, I m → m.Usable c → C.asks l m (.rollback c)
  handOver : ∀ m, I m → m.Holds c → m.tasks = true →
    C.hands m (m.letGo c) (.release b c) ∨
      C.calm m (m.letGo c) ∧ I (m.letGo c) ∧ C.spawns (.release b c)
  release : ∀ m, I m → m.Holds c → m.tasks = false →
    C.calm m (m.letGo c) ∧ I (m.letGo c) ∧ ∀ l m', I m' → C.asks l m' (.release b c)
  leaves : C.leaves (.abandon b c)
  start : ∀ m, I m → C.calm m (m.start (.abandon b c)) ∧ I (m.start (.abandon b c))

namespace Conduct.Ends

theorem rollbackQuietly (hC : C.Ends I b c) :
    C.Runs I (fun _ ↦ True) (Session.rollbackQuietly c) := by
  refine (Runs.checked (o := .rollback c) hC.resumes rfl hC.rollback).outcome.bind fun r _ ↦ ?_
  rcases r with (_ | _) | _
  · exact .pure trivial
  · exact .throw _
  · exact .pure trivial

theorem run_release (hC : C.Ends I b c) : C.Runs I (fun _ ↦ True) (Async.release b c) := by
  rw [Async.release_eq]
  refine .locking hC.resumes fun l m hm ↦ .inl ⟨C.calm_refl m, ?_⟩
  dsimp only [id]
  split
  · exact ⟨hm, fun _ _ ↦ trivial⟩
  · rename_i hn
    rw [isNone_lookup_iff, not_not] at hn
    by_cases ht : m.tasks = true
    · rw [if_pos ht]
      obtain hh | ⟨hc, hI, hs⟩ := hC.handOver m hm hn ht
      · exact .inr ⟨_, hh, by simp, rfl, fun r m' hm' ↦ ⟨hC.resumes _ _ hm', fun _ _ ↦ trivial⟩⟩
      · refine .inl ⟨hc, by simp, fun j hj ↦ ?_, fun r m' _ hm' ↦ ⟨hC.resumes _ _ hm', fun _ _ ↦ trivial⟩⟩
        rw [← Wait.task.inj hj]
        exact hs
    · rw [if_neg ht]
      obtain ⟨hc, hI, ha⟩ := hC.release m hm hn (Bool.eq_false_iff.2 ht)
      exact .inl ⟨hc, Runs.operate (P := fun _ ↦ True) hC.resumes (fun l m hm ↦ ha l m hm)
        (fun _ _ _ _ _ ↦ trivial) l _ hI⟩

section Entry

variable {e : Entry} {r : Except Error α}

theorem settle (hC : C.Ends I e.binder e.connection) (hr : ∀ a, r = .ok a → P a)
    (hcommit : r.isOk → ∀ l m, I m → m.Usable e.connection → C.asks l m (.commit e.connection)) :
    C.Runs I (fun s : Except Error α ↦ ∀ a, s = .ok a → P a) (Async.Entry.settle e r) := by
  have hroll : C.Runs I (fun _ ↦ True)
      (Async.locking e.connection (Session.rollbackQuietly e.connection)) :=
    .locking hC.resumes hC.rollbackQuietly
  cases r with
  | error err => exact hroll.bind fun _ _ ↦ .pure fun a h ↦ by cases h
  | ok a =>
    have hc : C.Runs I (fun _ ↦ True)
        (Async.locking e.connection (Session.commit e.connection)) :=
      .locking hC.resumes (.checked (o := .commit e.connection) hC.resumes rfl (hcommit rfl))
    refine hc.outcome.bind fun s _ ↦ ?_
    rcases s with (err | m) | _
    · exact hroll.bind fun _ _ ↦ .pure fun a h ↦ by cases h
    · exact .throw _
    · exact .pure hr

theorem guarded {p : Call α} (hC : C.Ends I e.binder e.connection) (hp : C.Runs I P p) :
    C.Runs I P (Async.Entry.guarded e p) := by
  unfold Async.Entry.guarded
  split
  · exact .protecting hC.leaves hC.start hp
  · exact hp

theorem exit (hC : C.Ends I e.binder e.connection) (hr : ∀ a, r = .ok a → P a)
    (hcommit : r.isOk → ∀ l m, I m → m.Usable e.connection → C.asks l m (.commit e.connection)) :
    C.Runs I P (Async.Entry.exit e r) := by
  unfold Async.Entry.exit
  split
  · exact .ofResult hr
  · refine hC.guarded ((hC.settle hr hcommit).bind fun s hs ↦ hC.run_release.outcome.bind fun t _ ↦ ?_)
    rcases s with err | a <;> rcases t with (err' | m) | _
    · exact .fail err
    · exact .throw _
    · exact .fail err
    · exact .throw _
    · exact .throw _
    · exact .pure (hs a rfl)

end Entry

theorem endAbandoned (hC : C.Ends I b c) : C.Runs I (fun _ ↦ True) (Async.endAbandoned b c) := by
  refine (Runs.locking hC.resumes Runs.read).bind fun m _ ↦ ?_
  split
  · exact .pure trivial
  · refine (Runs.locking hC.resumes hC.rollbackQuietly).bind fun _ _ ↦ ?_
    exact (Runs.caught hC.run_release).bind fun _ _ ↦ .pure trivial

theorem endAbandonedStream (hC : C.Ends I b c) (cursor : Option Nat) :
    C.Runs I (fun _ ↦ True) (Async.endAbandonedStream b c cursor) := by
  have hend : C.Runs I (fun _ ↦ True) (do
      let _ ← Async.caught (Async.Entry.exit (α := Unit) ⟨b, c, true, false, 0⟩
        (.error (.query "stream dropped before exhaustion")))) :=
    (Runs.caught (Conduct.Ends.exit (e := ⟨b, c, true, false, 0⟩) (P := fun _ ↦ True) hC
      (fun _ _ ↦ trivial) fun h ↦ by cases h)).bind fun _ _ ↦ .pure trivial
  unfold Async.endAbandonedStream
  cases cursor with
  | none => exact hend
  | some n =>
    have hc : C.Runs I (fun _ ↦ True) (Call.operate (.close c n)) :=
      .operate hC.resumes (fun l m hm ↦ hC.close l m n hm) fun _ _ _ _ _ ↦ trivial
    exact (Conduct.Ends.guarded (e := ⟨b, c, true, false, 0⟩) hC (Runs.caught hc)).bind
      fun _ _ ↦ hend

end Conduct.Ends

end BoundSql
