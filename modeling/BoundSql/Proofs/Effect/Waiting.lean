import BoundSql.Proofs.Effect.Interleaving

namespace BoundSql

variable {σ α : Type} {h : Host σ} {jobs : Job → Call Unit} {s s' : Runtime σ}

namespace Suspended

def awaits : Suspended α → Option Nat
  | waiting i _ _ => some i
  | _ => none

theorem isDone_of_turn {q : Suspended α} (hq : q.turn h jobs s = none)
    (hdone : ∀ i, q.awaits = some i → ∃ p, s.tasks[i]? = some p ∧ p.isDone) : q.isDone := by
  cases q with
  | done a => rfl
  | ready js p => cases hq
  | asked o js k =>
    unfold Suspended.turn at hq
    dsimp only at hq
    split at hq <;> cases hq
  | waiting i js k =>
    obtain ⟨p, hp, hd⟩ := hdone i rfl
    unfold Suspended.turn at hq
    dsimp only at hq
    cases p with
    | done r =>
      rw [hp] at hq
      cases hq
    | ready _ _ | asked _ _ _ | waiting _ _ _ => cases hd

end Suspended

/-- In its turn the action has started tasks at most, and it waits for none of the older ones. -/
structure Turn.Linked (s : Runtime σ) (t : Turn σ α) : Prop where
  tasks : ∃ ps : List (Action (Outcome Unit)), t.runtime.tasks = s.tasks ++ ps.map .start
  awaits : ∀ i, t.next.awaits = some i → s.tasks.length ≤ i ∧ i < t.runtime.tasks.length

namespace Turn.Linked

theorem after {t : Turn σ α} (ht : t.Linked s) (es : List Event) : (t.after es).Linked s :=
  ⟨ht.tasks, ht.awaits⟩

theorem of_tasks (s' : Runtime σ) {t : Turn σ α} (hs : s'.tasks = s.tasks) (ht : t.Linked s') : t.Linked s :=
  ⟨hs ▸ ht.tasks, hs ▸ ht.awaits⟩

theorem of_same {t : Turn σ α} (hs : t.runtime.tasks = s.tasks) (ht : t.next.awaits = none) :
    t.Linked s :=
  ⟨⟨[], by simp [hs]⟩, fun i hi ↦ by rw [ht] at hi; cases hi⟩

theorem length_le {t : Turn σ α} (ht : t.Linked s) : s.tasks.length ≤ t.runtime.tasks.length := by
  obtain ⟨ps, hps⟩ := ht.tasks
  rw [hps, List.length_append]
  exact Nat.le_add_right _ _

end Turn.Linked

theorem Action.proceed_linked (p : Action α) (s : Runtime σ) : (p.proceed h jobs s).Linked s := by
  induction p generalizing s with
  | done a => exact .of_same rfl rfl
  | memory f k ih => exact .of_tasks (s.withMemory (f s.memory)) rfl (ih s.memory _)
  | operation o js k ih =>
    unfold Action.proceed
    split <;> exact .of_same rfl rfl
  | wait w js k ih =>
    cases w with
    | task j =>
      refine ⟨⟨[(jobs j).run], rfl⟩, fun i hi ↦ ?_⟩
      obtain rfl := Option.some.inj hi
      exact ⟨Nat.le_refl _, by simp [Action.proceed, Runtime.spawn]⟩
    | idle | access c => exact .of_same rfl rfl

theorem Suspended.turn_linked {q : Suspended α} {t : Turn σ α} (ht : q.turn h jobs s = some t) :
    t.Linked s := by
  cases q with
  | done a => cases ht
  | ready js p =>
    cases ht
    exact p.proceed_linked s
  | asked o js k =>
    unfold Suspended.turn at ht
    dsimp only at ht
    split at ht
    · cases ht
      exact .of_tasks (s.perform h o).2 rfl (((k _).proceed_linked _).after _)
    · cases ht
      exact .of_same rfl rfl
  | waiting i js k =>
    unfold Suspended.turn at ht
    dsimp only at ht
    split at ht
    · cases ht
      exact (k _).proceed_linked s
    · cases ht

def Runtime.Linked (s : Runtime σ) : Prop :=
  ∀ i q k, s.tasks[i]? = some q → q.awaits = some k → i < k ∧ k < s.tasks.length

def Suspended.Linked (q : Suspended α) (s : Runtime σ) : Prop :=
  ∀ k, q.awaits = some k → k < s.tasks.length

namespace Runtime.Linked

theorem append (hs : s.Linked) {ps : List (Action (Outcome Unit))}
    (ht : s'.tasks = s.tasks ++ ps.map .start) : s'.Linked := by
  intro i q k hq hk
  rw [ht, List.getElem?_append] at hq
  rw [ht, List.length_append]
  split at hq
  · obtain ⟨hi, hl⟩ := hs i q k hq hk
    exact ⟨hi, Nat.lt_add_right _ hl⟩
  · obtain ⟨p, -, rfl⟩ := List.mem_map.1 (List.mem_of_getElem? hq)
    cases hk

theorem turn (hs : s.Linked) {t : Turn σ α} (ht : t.Linked s) : t.runtime.Linked := by
  obtain ⟨ps, hps⟩ := ht.tasks
  exact hs.append hps

theorem step (hs : s.Linked) (hstep : s.Step h jobs s') :
    s'.Linked ∧ s.tasks.length ≤ s'.tasks.length := by
  cases hstep with
  | gather =>
    have ht : (s.gather jobs).tasks =
        s.tasks ++ (s.memory.started.map fun j ↦ (jobs j).run).map .start := by
      rw [List.map_map]
      rfl
    exact ⟨hs.append ht, by rw [ht, List.length_append]; exact Nat.le_add_right _ _⟩
  | @task _ i ht =>
    obtain ⟨q, t, hq, hturn, rfl⟩ := Runtime.turn_eq_some ht
    have hl := Suspended.turn_linked hturn
    have hi : i < s.tasks.length := (List.getElem?_eq_some_iff.1 hq).1
    refine ⟨fun j p k hp hk ↦ ?_, by rw [List.length_set]; exact hl.length_le⟩
    rw [List.length_set]
    rw [List.getElem?_set] at hp
    split at hp
    · subst j
      rw [if_pos (Nat.lt_of_lt_of_le hi hl.length_le)] at hp
      cases hp
      obtain ⟨hle, hlt⟩ := hl.awaits k hk
      exact ⟨Nat.lt_of_lt_of_le hi hle, hlt⟩
    · exact hs.turn hl j p k hp hk

theorem reaches (hs : s.Linked) {q₀ q : Suspended α} (hq : q₀.Linked s) {es : List Event}
    (hr : Reaches h jobs q₀ s es q s') : s'.Linked ∧ q.Linked s' := by
  induction hr with
  | refl => exact ⟨hs, hq⟩
  | turn _ ht ih =>
    have hl := Suspended.turn_linked ht
    exact ⟨ih.1.turn hl, fun k hk ↦ (hl.awaits k hk).2⟩
  | background _ hstep ih =>
    obtain ⟨hs', hle⟩ := ih.1.step hstep
    exact ⟨hs', fun k hk ↦ Nat.lt_of_lt_of_le (ih.2 k hk) hle⟩

theorem steps (hs : s.Linked) (hr : Relation.ReflTransGen (Runtime.Step h jobs) s s') :
    s'.Linked := by
  induction hr with
  | refl => exact hs
  | tail _ hstep ih => exact (ih.step hstep).1

theorem isDone (hs : s.Linked) (hq : s.Quiet h jobs) {i : Nat} {q : Suspended (Outcome Unit)}
    (hi : s.tasks[i]? = some q) : q.isDone := by
  have hlt : i < s.tasks.length := (List.getElem?_eq_some_iff.1 hi).1
  induction hn : s.tasks.length - i using Nat.strongRecOn generalizing i q with
  | _ n ih =>
    have hnone : q.turn h jobs s = none := by
      have ht := hq.2 i
      unfold Runtime.turn at ht
      simp only [hi, Option.bind_eq_bind, Option.bind_some] at ht
      cases hturn : q.turn h jobs s with
      | none => rfl
      | some t =>
        rw [hturn] at ht
        cases ht
    refine Suspended.isDone_of_turn hnone fun k hk ↦ ?_
    obtain ⟨hik, hkl⟩ := hs i q k hi hk
    have hk' := List.getElem?_eq_getElem hkl
    exact ⟨_, hk', ih (s.tasks.length - k) (by omega) hk' hkl rfl⟩

theorem isDone_of_turn (hs : s.Linked) (hq : s.Quiet h jobs) {q : Suspended α} (hl : q.Linked s)
    (ht : q.turn h jobs s = none) : q.isDone :=
  Suspended.isDone_of_turn ht fun k hk ↦
    have hk' := List.getElem?_eq_getElem (hl k hk)
    ⟨_, hk', hs.isDone hq hk'⟩

end Runtime.Linked

end BoundSql
