import BoundSql.Proofs.Scope.Code

namespace BoundSql

open Memory

variable {α : Type} {K : List Nat} {x : Context}

namespace Code

theorem change {f : Desk → Desk}
    (hf : ∀ d, (f d).streams = d.streams ∧ (f d).sessions = d.sessions) :
    Code K (Desk.change f).run :=
  .modify fun m ↦ ⟨rfl, rfl, rfl, rfl, (hf m.desk).1, (hf m.desk).2, rfl⟩

theorem find (table : Desk → List (String × α)) (name : String) :
    Code K (Desk.find table name).run := by
  refine read.call_bind fun m ↦ ?_
  cases (table m.desk).lookup name <;> exact .ret _

theorem pool (b : Nat) : Code K (Binder.pool b).run := by
  refine read.call_bind fun m ↦ ?_
  cases m.pools.lookup b <;> exact .ret _

theorem act {c : Nat} (hc : c ∈ K) (u : Act) : Code K (u.run c).run := by
  cases u with
  | execute sql params => exact (Code.execute hc _ _).call_bind fun _ ↦ .ret _
  | query sql params =>
    refine (Code.query hc _ _).call_bind fun cursor ↦ ?_
    refine ((Reads.fetchAll cursor).code.call_bind fun _ ↦ .ret _).call_bind fun rows ↦ ?_
    exact (Reads.close cursor).code.call_bind fun _ ↦ .ret _
  | commit => exact (Code.commit hc).call_bind fun _ ↦ .ret _
  | rollback => exact (Code.rollback hc).call_bind fun _ ↦ .ret _
  | autocommit => exact (Code.autocommit hc).call_bind fun _ ↦ .ret _
  | setAutocommit on => exact (Code.setAutocommit hc on).call_bind fun _ ↦ .ret _

theorem drain : Code K Action.drain :=
  .note (f := Memory.drain) (fun _ ↦ ⟨rfl, rfl, rfl, rfl, rfl, rfl, rfl⟩) _

theorem addRecord (body : Nat) (r : Record) : Code K (Desk.addRecord body r).run := by
  refine change ?_
  exact fun _ ↦ ⟨rfl, rfl⟩

theorem enterBody {c : Nat} (hc : c ∈ K) (body : Nat) (name : Option String) :
    Code K (Step.enterBody body name c).run := by
  have hrest : Code K (do
      let events ← ExceptT.lift Action.drain
      Desk.addRecord body (.enter events) : Call Unit).run :=
    (lift drain).call_bind fun _ ↦ addRecord body _
  cases name with
  | none => exact hrest
  | some name => exact (Code.keep hc name).call_bind fun _ ↦ hrest

theorem finish (f : Finish) : Code K f.run.run := by
  cases f <;> exact .ret _

theorem callBound (hx : x.mode = .blocking) (b : Bound) (args : Arguments)
    (name : Option String) : Code K (Step.callBound x b args name).run := by
  cases hb : b.form with
  | stream shape => exact .stream hx hb args name
  | execute count =>
    rw [Step.callBound, hb]
    dsimp only
    rw [Context.execute, hx]
    exact (bound_execute _ _ _ _).call_bind fun _ ↦ .ret _
  | query ret =>
    rw [Step.callBound, hb]
    dsimp only
    rw [Context.query, hx]
    exact (bound_query _ _ _ _).call_bind fun _ ↦ .ret _

theorem openBody : Code K Desk.openBody := by
  refine look.bind fun _ ↦ Code.bind (update fun _ ↦ ?_) fun _ ↦ .done _
  exact ⟨rfl, rfl, rfl, rfl, rfl, rfl, rfl⟩

theorem closeBody (body : Nat) : Code K (Desk.closeBody body) := by
  refine look.bind fun _ ↦ Code.bind (update fun _ ↦ ?_) fun _ ↦ .done _
  exact ⟨rfl, rfl, rfl, rfl, rfl, rfl, rfl⟩

theorem leased_of_isBound {s : Step} (hs : s.isBound) : s.leased? = none := by
  induction s using Step.leased?.induct with
  | case1 s ih =>
    rw [Step.isBound] at hs
    rw [Step.leased?]
    exact ih hs
  | case2 c act => simp [Step.isBound] at hs
  | case3 s h₁ h₂ =>
    cases s <;> first | rfl | exact absurd rfl (h₁ _) | exact absurd rfl (h₂ _ _)

theorem recorded {s : Step} (hs : s.isBound) {run : Nat → Call Answer}
    (hrun : ∀ body, Code K (run body).run) : Code K (Step.recorded s run) := by
  unfold Step.recorded
  rw [leased_of_isBound hs]
  refine openBody.bind fun body ↦ (hrun body).bind fun r ↦ ?_
  have hrest : ∀ t, Code K (do
      let events ← Action.drain
      let records ← Desk.closeBody body
      pure (Record.step r events records t, if s.isAttempt then r.map fun _ ↦ () else .ok ())) :=
    fun t ↦ drain.bind fun _ ↦ (closeBody body).bind fun _ ↦ .done _
  by_cases hp : Outcome.isPanic r
  · rw [if_pos hp]
    exact Code.idle.bind fun _ ↦ hrest none
  · rw [if_neg hp]
    exact hrest none

mutual

theorem step (hx : x.mode = .blocking) (body : Nat) (s : Step) (hs : s.isBound) (K : List Nat) :
    Code K (s.run x body).run := by
  cases s with
  | attempt s =>
    rw [Step.run]
    exact step hx body s hs K
  | binder name pool =>
    rw [Step.run]
    refine read.call_bind fun m ↦ ?_
    refine Code.call_bind (modify fun _ ↦ ?_) fun _ ↦ ?_
    · exact ⟨rfl, rfl, rfl, rfl, rfl, rfl, rfl⟩
    refine Code.call_bind (change fun _ ↦ ?_) fun _ ↦ .ret _
    exact ⟨rfl, rfl⟩
  | setPool name pool =>
    rw [Step.run]
    refine (find _ name).call_bind fun id ↦ read.call_bind fun m ↦ ?_
    have hrest : Code K (do
        Call.modify fun m ↦ { m with pools := (id, pool) :: m.pools }
        return .unit : Call Answer).run := by
      refine Code.call_bind (modify fun _ ↦ ?_) fun _ ↦ .ret _
      exact ⟨rfl, rfl, rfl, rfl, rfl, rfl, rfl⟩
    dsimp only
    split
    · exact (Code.ret _).call_bind fun _ ↦ hrest
    · exact hrest
  | marker name =>
    rw [Step.run]
    exact (find _ name).call_bind fun id ↦ (marker id).call_bind fun _ ↦ .ret _
  | bind name owner form arguments sql =>
    rw [Step.run]
    refine (find _ owner).call_bind fun id ↦ (Code.ret _).call_bind fun b ↦ ?_
    refine Code.call_bind (change fun _ ↦ ?_) fun _ ↦ .ret _
    exact ⟨rfl, rfl⟩
  | call function arguments name =>
    rw [Step.run]
    exact (find _ function).call_bind fun b ↦ callBound hx b arguments name
  | next stream count =>
    rw [Step.run]
    exact .pull hx stream count
  | columns stream =>
    rw [Step.run]
    exact read.call_bind fun _ ↦ .ret _
  | drop stream =>
    rw [Step.run]
    exact .drop hx stream
  | connection owner name steps finish =>
    rw [Step.run]
    refine (find _ owner).call_bind fun id ↦ ?_
    rw [Context.connection, hx]
    refine .connection _ _ fun c ↦ (enterBody List.mem_cons_self body name).call_bind fun _ ↦ ?_
    exact (Code.steps hx body steps hs _).call_bind fun _ ↦ Code.finish finish
  | transaction owner name steps finish =>
    rw [Step.run]
    refine (find _ owner).call_bind fun id ↦ ?_
    rw [Context.transaction, hx]
    refine transaction _ _ fun c ↦ (enterBody List.mem_cons_self body name).call_bind fun _ ↦ ?_
    exact (Code.steps hx body steps hs _).call_bind fun _ ↦ Code.finish finish
  | session name u =>
    rw [Step.run]
    refine .useKept name fun c ↦ ?_
    rw [Context.locking, hx]
    exact act List.mem_cons_self u
  | same a b =>
    rw [Step.run]
    exact (find _ a).call_bind fun _ ↦ (find _ b).call_bind fun _ ↦ .ret _
  | double owner n =>
    rw [Step.run]
    refine (find _ owner).call_bind fun id ↦ ?_
    rw [Context.transaction, hx]
    exact (transaction _ _ fun _ ↦ .ret _).call_bind fun _ ↦ .ret _
  | reply r =>
    rw [Step.run]
    exact (Code.loose rfl).call_bind fun _ ↦ .ret _
  | misbehave site how times =>
    rw [Step.run]
    exact (Code.loose rfl).call_bind fun _ ↦ .ret _
  | settle =>
    rw [Step.run]
    exact Code.idle.call_bind fun _ ↦ .ret _
  | idle owner =>
    rw [Step.run]
    refine (find _ owner).call_bind fun id ↦ (pool id).call_bind fun _ ↦ ?_
    exact (Code.loose rfl).call_bind fun _ ↦ .ret _
  | _ => cases hs

theorem steps (hx : x.mode = .blocking) (body : Nat) (l : List Step) (hl : Step.allBound l)
    (K : List Nat) : Code K (Step.runAll x body l).run := by
  cases l with
  | nil =>
    rw [Step.runAll]
    exact .ret _
  | cons s rest =>
    rw [Step.allBound, Bool.and_eq_true] at hl
    rw [Step.runAll]
    refine (lift (recorded hl.1 fun body ↦ Code.step hx body s hl.1 K)).call_bind fun r ↦ ?_
    refine (addRecord body r.1).call_bind fun _ ↦ (Code.ret r.2).call_bind fun _ ↦ ?_
    exact Code.steps hx body rest hl.2 K

end

theorem program {l : List Step} (hl : Step.allBound l) : Code K (Program.run .blocking l) := by
  refine openBody.bind fun body ↦ ?_
  refine (Code.steps (x := .start .blocking) rfl body l hl K).bind fun r ↦ ?_
  refine (Code.sweep (x := .start .blocking) rfl _).bind fun last ↦ ?_
  exact (closeBody body).bind fun records ↦ .done _

end Code

theorem Program.reenters {σ : Type} (h : Host σ) (n : Nat) :
    Callback.Reenters h (h.reenter (fun s ↦ do
      let x := { Context.start .blocking with thread := (← Action.read).desk.thread }
      return (← Step.recorded s fun body ↦ s.run x body).1) n) := by
  refine Host.reenters (fun s hs ↦ ?_) n
  refine Code.look.bind fun m ↦ Code.bind (Code.recorded hs fun body ↦ ?_) fun r ↦ .done _
  exact Code.step rfl body s hs []

end BoundSql
