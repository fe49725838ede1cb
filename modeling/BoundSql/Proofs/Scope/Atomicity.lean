import BoundSql.Proofs.Scope.Concurrent
import BoundSql.Proofs.Scope.Stages

namespace BoundSql

open Memory Call

variable {σ α : Type} {h : Host σ} {cb : Callback σ} {w : World σ} {a K : List Nat} {x : Context}
  {b c : Nat} {m m' : Memory}

def Event.WorksOn (c : Nat) : Event → Prop
  | .operation o _ _ => o.isRead ∨ o.isStatement ∧ o.connection? = some c
  | _ => False

namespace Blocking

/-- The scope of the thread has the connection, autocommit is off, and nothing has been committed or
rolled back. -/
structure Sheltered (a : List Nat) (thread b c : Nat) (m : Memory) : Prop where
  balanced : m.Balanced a
  shared : m.Shared a c
  idle : c ∉ m.busy
  off : m.held.lookup c = some false
  untouched : m.endsOf c = []
  active : m.active.lookup (thread, b) = some c

namespace Sheltered

variable {thread : Nat}

theorem usable (hm : Sheltered a thread b c m) : m.Usable c :=
  ⟨by rw [Holds, hm.off]; rfl, hm.idle⟩

theorem opened {e : Entry} (ho : Opens a e m m') (hreg : e.registered = true)
    (hm : InOrder h cb a K m) :
    Sheltered a e.thread e.binder e.connection (m'.setAutocommit e.connection false) where
  balanced := by
    have hb := ho.balanced
    rw [if_pos hreg] at hb
    exact (quiet_setAutocommit ho.usable.2 false).balanced hb
  shared := (quiet_setAutocommit ho.usable.2 false).shared
    (ho.shared hreg hm.shared _ List.mem_cons_self)
  idle := ho.usable.2
  off := by
    obtain ⟨flag, hf⟩ := Option.isSome_iff_exists.1 ho.usable.1
    rw [lookup_setAutocommit, hf]
    simp
  untouched := (ho.fresh hm.balanced).2
  active := by
    have ha := ho.active
    rw [if_pos hreg] at ha
    change m'.active.lookup _ = _
    rw [ha]
    exact lookup_setKey_self

theorem spared (hm : Sheltered a thread b c m) (hs : Spares a c m m') :
    Sheltered a thread b c m' where
  balanced := hs.keeps.balanced
  shared := hs.keeps.frame.shared hm.shared
  idle := by rw [hs.keeps.busy]; exact hm.idle
  off := hs.flag.trans hm.off
  untouched := hs.ends.trans hm.untouched
  active := by rw [hs.keeps.active]; exact hm.active

theorem same (hm : Sheltered a thread b c m) (hs : SameBooks m m') : Sheltered a thread b c m' :=
  hm.spared ⟨(hs.quiet a).keeps hm.balanced, by rw [hs.held], by rw [endsOf, endsOf, hs.trace]⟩

theorem setOff (hm : Sheltered a thread b c m) :
    Sheltered a thread b c (m.setAutocommit c false) := by
  refine hm.spared ⟨(quiet_setAutocommit hm.idle false).keeps hm.balanced, ?_, rfl⟩
  rw [lookup_setAutocommit, hm.off]
  simp

theorem shelter (hx : x.mode = .blocking) : Shelter x b c (Sheltered a x.thread b c) where
  joins m hm := by
    rw [Context.Joins, hx]
    exact hm.active
  off m hm := by rw [hm.off]; rfl
  setOff _ hm := hm.setOff
  noted _ _ hn hm := hm.same hn.toSameBooks
  start m d n hm := by
    refine hm.same ?_
    unfold Memory.start
    split <;> exact ⟨rfl, rfl, rfl, rfl, rfl, rfl, rfl⟩

theorem perform (hl : h.Lawful) (hcb : cb.Sound) (hm : Sheltered a thread b c w.memory)
    {o : Operation} (ho : o.isRead ∨ o.isStatement ∧ o.connection? = some c) :
    Sheltered a thread b c (h.perform cb o w).2.memory := by
  obtain ho | ⟨ho, hc⟩ := ho
  · rw [hl.perform_eq (by cases o <;> first | rfl | cases ho)]
    exact hm.spared ((h.read_act ho w).spares hm.balanced c)
  · exact hm.spared (spares_perform hl hcb ho hc hm.balanced hm.shared.1
      fun hn ↦ hm.shared.2 (List.mem_append_right _ hn))

/-- What such code does is one with the scope, and its statements run on the scope's connection. -/
theorem run (hl : h.Lawful) (hcb : cb.Sound) (hx : x.mode = .blocking) {p : Action α}
    (hp : Joined x b c p) (hm : Sheltered a x.thread b c w.memory) :
    Sheltered a x.thread b c (p.runInSequence h cb w).2.memory ∧
      ∀ e ∈ p.logged h cb w, e.WorksOn c := by
  have hcalm : ∀ m m', Sheltered a x.thread b c m →
      (Conduct.inside (Sheltered a x.thread b c) c).calm m m' → Sheltered a x.thread b c m' :=
    fun _ _ hm hc ↦ hc hm
  have hkept : ∀ (l : List Event) (o : Operation) (w : World σ), Sheltered a x.thread b c w.memory →
      (Conduct.inside (Sheltered a x.thread b c) c).asks l w.memory o →
      True ∧ Sheltered a x.thread b c (h.perform cb o w).2.memory :=
    fun _ _ _ hw ho ↦ ⟨trivial, hw.perform hl hcb ho⟩
  obtain ⟨hrun, hlog⟩ := (hp.keeps (shelter hx) [] w.memory hm).sequence hl
    (fun _ _ hm' ↦ hm') hcalm (fun _ _ _ hh ↦ hh) hkept hm
  refine ⟨hrun.1, fun e he ↦ ?_⟩
  obtain ⟨_, m, o, s, ho, rfl⟩ := hlog e he
  exact ho

theorem restored {q r : World σ} (hq : Sheltered a thread b c q.memory)
    (hr : r = q ∨ ∃ on, r = { q with memory := q.memory.setAutocommit c on }) :
    r.memory.Usable c ∧ r.memory.endsOf c = [] := by
  obtain rfl | ⟨on, rfl⟩ := hr
  · exact ⟨hq.usable, hq.untouched⟩
  · exact ⟨(quiet_setAutocommit (a := a) hq.idle on).usable hq.usable, hq.untouched⟩

end Sheltered

theorem exec_setAutocommit (hu : w.memory.Usable c) (on : Bool) :
    exec h cb (Session.setAutocommit c on) w =
      (.ok (), { w with memory := w.memory.setAutocommit c on }) := by
  rw [Session.setAutocommit, Session.exec_check_bind _ hu, exec_modify]

/-- A transaction comes to what its body comes to, and then sets autocommit as it found it, but not
if the body panicked. -/
theorem exec_transactionBody_eq (hx : x.mode = .blocking) {body : Context → Nat → Call α}
    (hu : w.memory.Usable c) {q : Outcome α × World σ}
    (hbody : exec h cb (body x c) { w with memory := w.memory.setAutocommit c false } = q)
    (hq : q.2.memory.Usable c) :
    exec h cb (x.transactionBody body c) w = (q.1, if Outcome.isPanic q.1 then q.2 else
      { q.2 with memory := q.2.memory.setAutocommit c ((w.memory.held.lookup c).getD false) }) := by
  have hlock : ∀ {γ : Type} (p : Call γ), x.locking c p = p := by
    intro γ p
    rw [Context.locking, hx]
  unfold Context.transactionBody
  rw [hlock, exec_bind, Session.exec_autocommit hu]
  dsimp only
  rw [hlock, exec_bind, exec_setAutocommit hu]
  dsimp only
  rw [exec_bind, exec_caught, hbody]
  obtain ⟨(err | s) | v, w'⟩ := q
  · dsimp only
    rw [exec_bind, exec_caught, hlock, exec_setAutocommit hq]
    rfl
  · rfl
  · dsimp only
    rw [exec_bind, exec_caught, hlock, exec_setAutocommit hq]
    rfl

end Blocking

section Async

variable {s s₀ : Runtime σ} {es l : List Event} {x₀ : Context}

theorem Reaches.owned {asks : List Event → Memory → Operation → Prop} {L : List Event → Prop}
    {Q : α → List Event → Memory → Prop} {p : Action α} {q : Suspended α} (hh : h.Plain)
    (hroll : h.RollsBack) (hL : ∀ l m o, L l → asks l m o → ∀ s, L (l ++ [o.event m s]))
    (hQ : ∀ a l m m', Q a l m → m.Undisturbed c m' → Q a l m')
    (hr : Reaches h (Job.run x₀) (.start p) s₀ es q s)
    (hp : ∀ m, s₀.memory.Undisturbed c m → p.Obeys (.owning b c asks) Q none [] m)
    (hJ : s₀.Owned c L []) : q.Obeys (.owning b c asks) Q es s.memory ∧ s.Owned c L es := by
  refine hr.upholds (l := []) hh (Conduct.owning_upholds hh hroll x₀ hL) hQ ?_ ⟨by simp, hp⟩ hJ
  intro l s s' hJ hs
  obtain ⟨hm, hsp⟩ := hJ.spares.step hh hs
  exact ⟨hm, hsp, hm.terminals.trans hJ.terminals, hJ.log⟩

namespace Async

end Async

def Suspended.isPanic : Suspended (Outcome α) → Bool
  | .done r => Outcome.isPanic r
  | _ => false

namespace Async

end Async

/-- The context of code that a scope with the connection runs. -/
def Context.within (x : Context) (b c : Nat) : Context := { x with scopes := (b, c) :: x.scopes }

theorem Context.connection_of_async (hx : x.mode = .async) (b : Nat)
    (body : Context → Nat → Call α) : x.connection b body = Async.enter x.scopes b >>= fun e ↦
      Async.Entry.guarded e (Async.caught (body { x with
        scopes := if e.owner then (b, e.connection) :: x.scopes else x.scopes } e.connection)) >>=
      Async.Entry.exit e := by
  rw [Context.connection, hx]
  rfl

namespace Async

end Async

end Async

def Program.alive : Runtime Unit := ⟨⟨{ Program.ready with tasks := true }, ()⟩, []⟩

end BoundSql
