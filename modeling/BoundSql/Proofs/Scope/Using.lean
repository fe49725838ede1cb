import BoundSql.Proofs.Effect.Conduct
import BoundSql.Proofs.Scope.Entry
import BoundSql.Proofs.Scope.Reading

namespace BoundSql

open Memory

variable {α β : Type} {C : Conduct} {I : Memory → Prop} {P : α → Prop} {c : Nat} {j : Job}

theorem Session.run_check_bind (c : Nat) (k : Unit → Call α) : (Session.check c >>= k).run =
    .memory id fun m ↦
      if c ∈ m.busy then .done (.error (.error Session.inUse))
      else if (m.held.lookup c).isNone then .done (.error (.error Session.released))
      else (k ()).run := by
  refine congrArg (Action.memory id) (funext fun m ↦ ?_)
  change Action.bind (ExceptT.run (if c ∈ m.busy then _ else _)) _ = _
  split
  · rfl
  · split <;> rfl

theorem Action.Obeys.check {Q : Outcome α → List Event → Memory → Prop} {l : List Event}
    {m : Memory} {k : Unit → Call α} (hk : m.Usable c → (k ()).run.Obeys C Q none l m)
    (he : ∀ e, Q (.error (.error e)) l m) : (Session.check c >>= k).run.Obeys C Q none l m := by
  rw [Session.run_check_bind]
  refine .inl ⟨C.calm_refl m, ?_⟩
  dsimp only [id]
  split
  · exact he _
  · split
    · exact he _
    · rename_i hb hn
      rw [isNone_lookup_iff, not_not] at hn
      exact hk ⟨hn, hb⟩

theorem Reads.keeps (hs : C.Steady I) {p : Action α} (hp : Reads p) :
    C.Keeps I (fun _ ↦ True) p := by
  induction hp with
  | done x => exact .done trivial
  | bind _ _ ihp ihf => exact ihp.bind fun a _ ↦ ihf a
  | operate ho =>
    have hr : C.Runs I (fun _ ↦ True) (Call.operate _) :=
      .operate hs.resumes (fun l m hm ↦ hs.reads l m _ hm ho) fun _ _ _ _ _ ↦ trivial
    exact Conduct.Keeps.mono hr fun _ _ ↦ trivial

namespace Conduct.Runs

variable {p : Call α}

theorem ofResult {r : Except Error α} (hr : ∀ a, r = .ok a → P a) :
    C.Runs I P (Call.ofResult r) := by
  refine ret fun a ha ↦ hr a ?_
  cases r with
  | ok b => rw [Except.ok.inj ha]
  | error e => cases ha

theorem reads (hs : C.Steady I) (hp : Reads p.run) : C.Runs I (fun _ ↦ True) p :=
  Keeps.mono (hp.keeps hs) fun _ _ _ _ ↦ trivial

theorem checked {o : Operation} (hI : ∀ m m', C.rely m m' → I m') (ho : o.isLocked)
    (ha : ∀ l m, I m → m.Usable c → C.asks l m o) :
    C.Runs I (fun _ ↦ True) (Session.check c >>= fun _ ↦ Call.operate o) := by
  refine fun l m hm ↦ .check (fun hu ↦ ⟨by simp, fun m₁ hm₁ ↦ ?_⟩) fun e ↦ ⟨hm, fun _ _ ↦ trivial⟩
  rw [Conduct.Meets, if_pos ho] at hm₁
  rw [hm₁]
  exact ⟨ha l m hm hu, fun s r m' _ _ hm' ↦ ⟨hI _ _ hm', fun _ _ ↦ trivial⟩⟩

theorem locking (hI : ∀ m m', C.rely m m' → I m') (hp : C.Runs I P p) :
    C.Runs I P (Async.locking c p) :=
  (wait hI fun j h ↦ by cases h).bind fun _ _ ↦ hp

theorem protecting (hj : C.leaves j) (hs : ∀ m, I m → C.calm m (m.start j) ∧ I (m.start j))
    (hp : C.Runs I P p) : C.Runs I P (Async.protecting j p) := by
  refine (Keeps.orphaning hp hj).bind fun r hr ↦ ?_
  by_cases hpanic : Outcome.isPanic r
  · rw [if_pos hpanic]
    exact (Keeps.start hs).bind fun _ _ ↦ .done hr
  · rw [if_neg hpanic]
    exact .done hr

theorem cleaningUp (hj : C.leaves j) (hs : ∀ m, I m → C.calm m (m.start j) ∧ I (m.start j))
    (hp : C.Runs I P p) : C.Runs I P (Async.cleaningUp j p) := by
  refine (Keeps.orphaning hp hj).bind fun r hr ↦ ?_
  by_cases hok : Outcome.isOk r
  · rw [if_neg (by simp [hok])]
    exact .done hr
  · rw [if_pos (by simp [hok])]
    exact (Keeps.start hs).bind fun _ _ ↦ .done hr

theorem pool (b : Nat) : C.Runs I (fun _ ↦ True) (Binder.pool b) := by
  refine read.bind fun m _ ↦ ?_
  cases m.pools.lookup b with
  | none => exact fail _
  | some p => exact pure trivial

theorem render (b : Bound) (args : Arguments) : C.Runs I (fun _ ↦ True) (b.render args) := by
  refine bind (P := fun _ ↦ True) (read.bind fun m _ ↦ ?_) fun _ _ ↦ ret fun _ _ ↦ trivial
  cases m.pools.lookup b.binder with
  | none => exact fail _
  | some p => exact pure trivial

end Conduct.Runs

end BoundSql
