import BoundSql.Proofs.Scope.Consumption

namespace BoundSql

variable {σ : Type} {h : Host σ} {x x₀ : Context} {b c : Nat} {s₀ : Runtime σ}

/-- A call that leases a connection releases it once, whether it is dropped at one of its awaits or
not, and whatever turns the tasks have that it leaves behind; and its scope commits only if its body
has returned a value, or its stream was exhausted. -/
theorem cancelled_calls_release_once (hh : h.Plain) (hr : h.Returns) (hx : x.mode = .async)
    (hb : x.scopes.lookup b = none) (hs : s₀.Fresh c) :
    (∀ {α : Type} {p : Call α} {code body : Context → Nat → Call α}, Scoping x b p code body →
      ∀ {es : List Event} {q : Option (Suspended (Outcome α))} {s : Runtime σ},
        MayDrop h (Job.run x₀) (some (.start p.run)) s₀ es q s →
          ReleasesOnce h x₀ b c es q s ∧ ∃ code body, Scoping x b p code body ∧
            ScopeRun h x₀ x b c (code (x.within b c) c) (body (x.within b c) c) s₀ es) ∧
    ∀ {β : Type} {f : Bound} (shape : Shape) (args : Arguments)
      {consume : Stream → Action (Outcome β)}, f.binder = b → (∀ s, Consumes x s (consume s)) →
      ∀ {es : List Event} {q : Option (Suspended (Outcome β))} {s : Runtime σ},
        MayDrop h (Job.run x₀)
            (some (.start (x.stream f shape args >>= fun s ↦ ExceptT.mk (consume s)).run)) s₀ es q s →
          ReleasesOnce h x₀ b c es q s ∧ StreamRun h x₀ x c f shape args consume s₀ es := by
  constructor
  · intro α p code body hp es q s hreach
    have hrun : ∀ {es : List Event} {q : Suspended (Outcome α)} {s : Runtime σ},
        Reaches h (Job.run x₀) (.start p.run) s₀ es q s → _ :=
      fun hreach ↦ hp.run hh hr hx hb hs hreach
    refine ⟨Accounted.releasesOnce hh hr (fun hreach ↦ (hrun hreach).1) hreach, ?_⟩
    obtain ⟨_, -, hreach⟩ | ⟨_, _, -, hreach, -⟩ := hreach.cases
    · exact (hrun hreach).2
    · exact (hrun hreach).2
  · rintro β f shape args consume rfl hconsume es q s hreach
    refine ⟨Accounted.releasesOnce hh hr
      (fun hreach ↦ Stream.accounted hh hr hx hb hs hconsume hreach) hreach, ?_⟩
    obtain ⟨_, -, hreach⟩ | ⟨_, _, -, hreach, -⟩ := hreach.cases
    · exact Stream.run hh hx hb hs hconsume hreach
    · exact Stream.run hh hx hb hs hconsume hreach

theorem Script.returns_affecting (n : Nat) : (Script.affecting n).Returns :=
  fun _ o _ _ ↦ by cases o <;> rfl

theorem Program.fresh_alive : Program.alive.Fresh 1 :=
  ⟨⟨rfl, rfl⟩, rfl, rfl, by simp [Program.alive, Program.ready, Program.memory]⟩

theorem Runtime.quiet_of_isDone {jobs : Job → Call Unit} {s : Runtime σ}
    (hs : s.memory.started = []) (hd : s.tasks.all Suspended.isDone) : s.Quiet h jobs := by
  refine ⟨hs, fun i ↦ Option.eq_none_iff_forall_ne_some.2 fun s' ht ↦ ?_⟩
  obtain ⟨q, t, hq, hturn, -⟩ := Runtime.turn_eq_some ht
  have hdone := List.all_eq_true.1 hd q (List.mem_of_getElem? hq)
  cases q with
  | done a => cases hturn
  | ready _ _ | asked _ _ _ | waiting _ _ _ => cases hdone

namespace Program

def cancelling {α : Type} (turns : Nat) (tasks : List Nat) (p : Action α) :
    Option (List Event × Runtime Unit) := do
  let jobs := Job.run (.start .async)
  let (es, q, s) ← (Suspended.start p).follow (Script.affecting 1) jobs
    (List.replicate turns none) alive
  let (_, _, s) ← (Suspended.done ()).follow (Script.affecting 1) jobs (tasks.map some)
    (s.orphaned q.orphans)
  return (es, s)

theorem mayDrop_of_cancelling {α : Type} {turns : Nat} {tasks : List Nat} {p : Action α}
    {es : List Event} {s : Runtime Unit} (hp : cancelling turns tasks p = some (es, s)) :
    MayDrop (Script.affecting 1) (Job.run (.start .async)) (some (.start p)) alive es none s := by
  simp only [cancelling, Option.bind_eq_bind, Option.bind_eq_some_iff] at hp
  obtain ⟨⟨es, q, s₁⟩, hfirst, ⟨es', q', s₂⟩, hlast, he⟩ := hp
  cases he
  exact (MayDrop.of_reaches (Reaches.of_follow hfirst)).drop.later
    (Reaches.of_follow hlast).of_finished.2.2

def glance (s : Stream) : Action (Outcome Unit) :=
  (Context.start .async).next s >>= fun r ↦
    ((Context.start .async).dropStream r.2).run >>= fun _ ↦ .done (.ok ())

end Program

/-- A statement that is dropped once it has run, and a stream that is dropped while it is closed. -/
theorem cancelled_calls_release_once_deletion :
    let x := Context.start .async
    let h := Script.affecting 1
    (∃ es s, MayDrop h (Job.run x) (some (.start (x.execute Bound.deletion .nothing .none).run))
        Program.alive es none s ∧ es.length = 2 ∧ s.Quiet h (Job.run x) ∧
        s.memory.releasesOf 1 = 1 ∧ ReleasesOnce (α := Outcome Mapped) h x 0 1 es none s) ∧
    ∃ es s, MayDrop h (Job.run x) (some (.start (x.stream Bound.deletion .map .none >>= fun s ↦
        ExceptT.mk (Program.glance s)).run)) Program.alive es none s ∧ es.length = 4 ∧
        s.Quiet h (Job.run x) ∧ s.memory.releasesOf 1 = 1 ∧
        StreamRun h x x 1 Bound.deletion .map .none Program.glance Program.alive es := by
  intro x h
  have hall := @cancelled_calls_release_once _ h x x 0 1 _ (Script.plain_affecting 1)
    (Script.returns_affecting 1) rfl rfl Program.fresh_alive
  constructor
  · have hrun : (Program.cancelling 4 [0, 0, 0, 0, 0, 1, 1, 1, 0]
        ((Context.start .async).execute Bound.deletion .nothing .none).run).any (fun r ↦
          r.1.length == 2 && r.2.memory.started.isEmpty && r.2.tasks.all Suspended.isDone &&
          r.2.memory.releasesOf 1 == 1) = true := by decide +kernel
    simp only [Option.any_eq_true, Bool.and_eq_true, beq_iff_eq, List.isEmpty_iff] at hrun
    obtain ⟨⟨es, s⟩, hs, ⟨⟨hlen, hstarted⟩, hdone⟩, hrel⟩ := hrun
    have hreach := Program.mayDrop_of_cancelling hs
    have hp : Scoping x 0 _ _ _ := .execute (f := Bound.deletion) rfl .nothing .none ⟨"", []⟩
    exact ⟨es, s, hreach, hlen, Runtime.quiet_of_isDone hstarted hdone, hrel, (hall.1 hp hreach).1⟩
  · have hrun : (Program.cancelling 8 [0, 0, 0, 0, 0, 1, 1, 1, 0]
        ((Context.start .async).stream Bound.deletion .map .none >>= fun s ↦
          ExceptT.mk (Program.glance s)).run).any (fun r ↦
          r.1.length == 4 && r.2.memory.started.isEmpty && r.2.tasks.all Suspended.isDone &&
          r.2.memory.releasesOf 1 == 1) = true := by decide +kernel
    simp only [Option.any_eq_true, Bool.and_eq_true, beq_iff_eq, List.isEmpty_iff] at hrun
    obtain ⟨⟨es, s⟩, hs, ⟨⟨hlen, hstarted⟩, hdone⟩, hrel⟩ := hrun
    have hreach := Program.mayDrop_of_cancelling hs
    have hglance : ∀ s, Consumes x s (Program.glance s) :=
      fun s ↦ .next fun _ s' ↦ .drop s' _
    exact ⟨es, s, hreach, hlen, Runtime.quiet_of_isDone hstarted hdone, hrel,
      (hall.2 .map .none (f := Bound.deletion) rfl hglance hreach).2⟩

end BoundSql
