import BoundSql.Proofs.Scope.Twin

namespace BoundSql

variable {σ α β : Type} {h : Host σ} {cb : Callback σ} {L : Nat → Nat → Prop} {R : σ → σ → Prop}
  {x₀ : Context} {jobs : Job → Call Unit} {w : World σ} {s s' : Runtime σ}

def Suspended.Finishes (h : Host σ) (jobs : Job → Call Unit) (q : Suspended α) (s : Runtime σ) : Prop :=
  ∃ es a s', Reaches h jobs q s es (.done a) s'

def Turn.Finishes (h : Host σ) (jobs : Job → Call Unit) (t : Turn σ α) : Prop :=
  t.next.Finishes h jobs t.runtime

namespace Suspended.Finishes

variable {q : Suspended α} {i : Nat} {js : List Job} {p : Suspended (Outcome Unit)}

theorem of_turn {t : Turn σ α} (ht : q.turn h jobs s = some t) (hf : t.Finishes h jobs) :
    q.Finishes h jobs s := by
  obtain ⟨es, a, s', hr⟩ := hf
  exact ⟨_, a, s', (Reaches.refl.turn ht).trans hr⟩

theorem of_task {t : Turn σ (Outcome Unit)} (hi : s.tasks[i]? = some p)
    (ht : p.turn h jobs s = some t)
    (hf : q.Finishes h jobs { t.runtime with tasks := t.runtime.tasks.set i t.next }) :
    q.Finishes h jobs s := by
  obtain ⟨es, a, s', hr⟩ := hf
  have hturn : s.turn h jobs i = some { t.runtime with tasks := t.runtime.tasks.set i t.next } := by
    rw [Runtime.turn, hi]
    simp only [Option.bind_eq_bind, Option.bind_some, ht]
    rfl
  exact ⟨_, a, s', (Reaches.refl.background (.task hturn)).trans hr⟩

theorem of_asked {o : Operation} {k : Outcome o.Answer → Action α}
    (hk : ((k (s.perform h o).1).proceed h jobs (s.perform h o).2).Finishes h jobs) :
    (asked o js k).Finishes h jobs s := by
  cases hl : o.isLease with
  | true =>
    have hturn : (asked o js k).turn h jobs s =
        some (((k (s.perform h o).1).proceed h jobs (s.perform h o).2).after [s.event h o]) := if_pos hl
    exact .of_turn hturn hk
  | false =>
    have hturn : (asked o js k).turn h jobs s =
        some ⟨[s.event h o], ready js (k (s.perform h o).1), (s.perform h o).2⟩ :=
      if_neg (Bool.eq_false_iff.1 hl)
    have hready : (ready js (k (s.perform h o).1)).Finishes h jobs (s.perform h o).2 := .of_turn rfl hk
    exact .of_turn hturn hready

theorem of_over {r : Outcome Unit} {k : Outcome Unit → Action α} (hi : s.tasks[i]? = some p)
    (hp : p.Over r) (hk : ∀ s', s'.world = s.world → ((k r).proceed h jobs s').Finishes h jobs) :
    (waiting i js k).Finishes h jobs s := by
  have hdone : ∀ s' : Runtime σ, s'.tasks[i]? = some (.done r) → s'.world = s.world →
      (waiting i js k).Finishes h jobs s' := by
    intro s' hi' hw
    have hturn : (waiting i js k).turn h jobs s' = some ((k r).proceed h jobs s') := by
      unfold Suspended.turn
      dsimp only
      rw [hi']
    exact .of_turn hturn (hk s' hw)
  obtain rfl | rfl := hp
  · have hlt : i < s.tasks.length := (List.getElem?_eq_some_iff.1 hi).1
    exact .of_task hi rfl (hdone _ (List.getElem?_set_self hlt) rfl)
  · exact hdone s hi rfl

theorem of_pending {b c : Nat} {k : Outcome Unit → Action α} (hi : s.tasks[i]? = some p)
    (hp : p.Pending (.release b c) .done)
    (hk : ∀ s', s'.world = (s.perform h (.release b c)).2.world →
      ((k (s.perform h (.release b c)).1).proceed h jobs s').Finishes h jobs) :
    (waiting i js k).Finishes h jobs s := by
  have hasked : ∀ s' : Runtime σ, s'.tasks[i]? = some (.asked (.release b c) [] .done) →
      s'.world = s.world → (waiting i js k).Finishes h jobs s' := by
    rintro ⟨world, tasks⟩ hi' rfl
    have hlt : i < tasks.length := (List.getElem?_eq_some_iff.1 hi').1
    exact .of_task hi' rfl (.of_over (List.getElem?_set_self hlt) (.inl rfl) hk)
  have hlt : i < s.tasks.length := (List.getElem?_eq_some_iff.1 hi).1
  cases hp with
  | start => exact .of_task hi rfl (hasked _ (List.getElem?_set_self hlt) rfl)
  | asked => exact hasked s hi rfl

end Suspended.Finishes

theorem Alongside.of_world (ha : Alongside L R w s) (hs : s'.world = s.world) : Alongside L R w s' := by
  obtain ⟨world, tasks⟩ := s'
  obtain rfl : world = s.world := hs
  exact ⟨ha.memory, ha.host, ha.started⟩

section

variable {Q : α → β → World σ → Prop}

theorem Twin.finishes (hi : h.Indifferent L R) {p : Action α}
    {q : Action β} (hq : Twin h L Q w p q) (ha : Alongside L R w s) :
    (q.proceed h (Job.run x₀) s).Finishes h (Job.run x₀) := by
  -- By induction on the twins: what the other one does in sequence says what is left to be done here.
  induction hq generalizing s with
  | done hq => exact ⟨_, _, _, .refl⟩
  | memory hf hk ih =>
    obtain ⟨hm, hstarted⟩ := hf _ ha.memory
    exact ih _ ha.memory (ha.withMemory hm hstarted)
  | @operation w o js js' k k' ho hk ih =>
    obtain ⟨hanswer, ha'⟩ := ha.perform hi ho
    have hrest := ih (ha.calm hi o) ha'
    rw [← hanswer] at hrest
    rw [Action.proceed]
    split
    · exact .of_turn rfl hrest
    · exact .of_asked hrest
  | active hf hk ih => exact ih (ha.withMemory (hf _ ha.memory) rfl)
  | access hk ih => exact .of_turn rfl (ih ha)
  | @release w b c js js' k k' hk ih =>
    obtain ⟨hanswer, ha'⟩ := ha.perform hi (o := .release b c) rfl
    refine Suspended.Finishes.of_pending List.getElem?_concat_length .start fun s' hs' ↦ ?_
    have hrest := ih (ha.calm hi _) (ha'.of_world hs')
    rw [← hanswer] at hrest
    exact hrest
  | close hn hk ih => exact ih (ha.calm hi _) (ha.close_left hi hn)
  | leave hn hk ih => exact ih _ ha.memory (ha.leave hn)

theorem Abreast.finishes (hi : h.Indifferent L R) {q : Suspended β}
    (hq : Abreast h L R Q q s) : q.Finishes h (Job.run x₀) s := by
  cases hq with
  | ready ha _ hq => exact .of_turn rfl (hq.finishes hi ha)
  | asked ha _ ho hk =>
    obtain ⟨hanswer, ha'⟩ := ha.perform hi ho
    rw [← hanswer] at hk
    exact .of_asked (hk.finishes hi ha')
  | @waiting w s b c i p js t k ha _ hti hp hk =>
    obtain ⟨hanswer, ha'⟩ := ha.perform hi (o := .release b c) rfl
    rw [← hanswer] at hk
    exact .of_pending hti hp fun s' hs' ↦ hk.finishes hi (ha'.of_world hs')
  | answered ha _ hti hover hk =>
    exact .of_over hti hover fun s' hs' ↦ hk.finishes hi (ha.of_world hs')
  | done => exact ⟨_, _, _, .refl⟩

/-- Wherever an action has got to it can be brought to its end, and there it comes to `b`. -/
def Action.ComesTo (h : Host σ) (jobs : Job → Call Unit) (q : Action β) (s : Runtime σ) (b : β) : Prop :=
  ∀ (es : List Event) (q' : Suspended β) (s' : Runtime σ), Reaches h jobs (.start q) s es q' s' →
    q'.Finishes h jobs s' ∧ ∀ b', q' = .done b' → b' = b

theorem Twin.comesTo (hi : h.Indifferent L R) {p : Action α} {q : Action β}
    (hq : Twin h L Q w p q) (ha : Alongside L R w s) (ht : s.tasks = []) {b : β}
    (hb : ∀ b', Q (p.runInSequence h cb w).1 b' (p.runInSequence h cb w).2 → b' = b) :
    q.ComesTo h (Job.run x₀) s b := by
  intro es q' s' hreach
  refine ⟨((hq.abreast ha ht).reaches hi hreach).finishes hi, fun b' hdone ↦ ?_⟩
  subst hdone
  exact hb b' (hq.reaches cb hi ha ht hreach).1

end

end BoundSql
