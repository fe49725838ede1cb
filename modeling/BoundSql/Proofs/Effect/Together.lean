import BoundSql.Proofs.Effect.Waiting
import Mathlib.Logic.Function.Basic

namespace BoundSql

variable {σ α : Type} {h : Host σ} {jobs : Job → Call Unit} {s s₀ s' : Runtime σ}
  {es l : List Event} {L : Nat → List Event}

/-- An action that has its turns while others change the memory as `R` allows. -/
inductive Among (h : Host σ) (jobs : Job → Call Unit) (R : Memory → Memory → Prop)
    (q₀ : Suspended α) (s₀ : Runtime σ) : List Event → Suspended α → Runtime σ → Prop
  | refl : Among h jobs R q₀ s₀ [] q₀ s₀
  | turn {es : List Event} {q : Suspended α} {s : Runtime σ} {t : Turn σ α}
    (hr : Among h jobs R q₀ s₀ es q s) (ht : q.turn h jobs s = some t) :
    Among h jobs R q₀ s₀ (es ++ t.events) t.next t.runtime
  | others {es : List Event} {q : Suspended α} {s s' : Runtime σ}
    (hr : Among h jobs R q₀ s₀ es q s) (hs : R s.memory s'.memory) : Among h jobs R q₀ s₀ es q s'

/-- Wherever it gets, the action keeps to its conduct, and what its turns and the others uphold holds. -/
theorem Among.upholds {C : Conduct} {Q : α → List Event → Memory → Prop}
    {J : List Event → Runtime σ → Prop} {q₀ q : Suspended α} (hh : h.Plain) (hu : C.Upholds h jobs J)
    (hQ : ∀ a l m m', Q a l m → C.rely m m' → Q a l m')
    (hJ : ∀ l s s', J l s → C.rely s.memory s'.memory → J l s')
    (hr : Among h jobs C.rely q₀ s₀ es q s) (hq : q₀.Obeys C Q l s₀.memory) (h₀ : J l s₀) :
    q.Obeys C Q (l ++ es) s.memory ∧ J (l ++ es) s := by
  induction hr with
  | refl => simpa using ⟨hq, h₀⟩
  | turn _ ht ih =>
    rw [← List.append_assoc]
    have hk := ih.1.turn hh hu ih.2 ht
    exact ⟨hk.next, hk.kept⟩
  | others _ hs ih => exact ⟨ih.1.later hQ hs, hJ _ _ _ ih.2 hs⟩

/-- All tasks have their turns, in any order; `L` keeps the events of each one's operations. -/
inductive Runtime.Runs (h : Host σ) (jobs : Job → Call Unit) (s₀ : Runtime σ) :
    (Nat → List Event) → Runtime σ → Prop
  | refl : Runs h jobs s₀ (fun _ ↦ []) s₀
  | gather {L : Nat → List Event} {s : Runtime σ} (hr : Runs h jobs s₀ L s) :
    Runs h jobs s₀ L (s.gather jobs)
  | task {L : Nat → List Event} {s : Runtime σ} {i : Nat} {q : Suspended (Outcome Unit)}
    {t : Turn σ (Outcome Unit)} (hr : Runs h jobs s₀ L s) (hq : s.tasks[i]? = some q)
    (ht : q.turn h jobs s = some t) :
    Runs h jobs s₀ (Function.update L i (L i ++ t.events))
      { t.runtime with tasks := t.runtime.tasks.set i t.next }

namespace Among

variable {R : Memory → Memory → Prop} {q₀ q q' : Suspended α}

theorem trans (hr : Among h jobs R q₀ s₀ es q s) (hr' : Among h jobs R q s l q' s') :
    Among h jobs R q₀ s₀ (es ++ l) q' s' := by
  induction hr' with
  | refl => simpa using hr
  | turn _ ht ih =>
    rw [← List.append_assoc]
    exact ih.turn ht
  | others _ hs ih => exact ih.others hs

theorem mono {R' : Memory → Memory → Prop} (hR : ∀ m m', R m m' → R' m m')
    (hr : Among h jobs R q₀ s₀ es q s) : Among h jobs R' q₀ s₀ es q s := by
  induction hr with
  | refl => exact .refl
  | turn _ ht ih => exact ih.turn ht
  | others _ hs ih => exact ih.others (hR _ _ hs)

theorem first_turn (hr : Among h jobs R q₀ s₀ es q s) :
    es = [] ∧ q = q₀ ∧ Relation.ReflTransGen R s₀.memory s.memory ∨
      ∃ s₁ t es', Relation.ReflTransGen R s₀.memory s₁.memory ∧ q₀.turn h jobs s₁ = some t ∧
        es = t.events ++ es' ∧ Among h jobs R t.next t.runtime es' q s := by
  induction hr with
  | refl => exact .inl ⟨rfl, rfl, .refl⟩
  | turn _ ht ih =>
    obtain ⟨rfl, rfl, hs⟩ | ⟨s₁, t₁, es', hs, ht₁, rfl, hr⟩ := ih
    · exact .inr ⟨_, _, [], hs, ht, by simp, .refl⟩
    · exact .inr ⟨s₁, t₁, _, hs, ht₁, List.append_assoc .., hr.turn ht⟩
  | others _ hs ih =>
    obtain ⟨rfl, rfl, hs₁⟩ | ⟨s₁, t₁, es', hs₁, ht₁, rfl, hr⟩ := ih
    · exact .inl ⟨rfl, rfl, hs₁.tail hs⟩
    · exact .inr ⟨s₁, t₁, es', hs₁, ht₁, rfl, hr.others hs⟩

theorem of_done {a : α} (hr : Among h jobs R (.done a) s₀ es q s) : es = [] ∧ q = .done a := by
  obtain ⟨rfl, rfl, -⟩ | ⟨s₁, t, es', -, ht, -⟩ := hr.first_turn
  · exact ⟨rfl, rfl⟩
  · cases ht

theorem of_follow (hR : ∀ m, R m { m with started := [] }) {n : Nat}
    (hf : q.follow h jobs (List.replicate n none) s = some (es, q', s')) :
    Among h jobs R q s es q' s' := by
  induction n generalizing q s es with
  | zero =>
    cases hf
    exact .refl
  | succ n ih =>
    simp only [List.replicate_succ, Suspended.follow, Option.bind_eq_bind,
      Option.bind_eq_some_iff] at hf
    obtain ⟨t, ht, ⟨es₂, r⟩, hr, he⟩ := hf
    cases he
    have hgather : Among h jobs R q s [] q (s.gather jobs) := Among.refl.others (hR s.memory)
    exact (hgather.turn ht).trans (ih hr)

end Among

/-- Gives the tasks turns in that order; tasks that were started are taken in before each turn. Nothing
if one of them has to wait. -/
def Runtime.play (h : Host σ) (jobs : Job → Call Unit) :
    List Nat → (Nat → List Event) → Runtime σ → Option ((Nat → List Event) × Runtime σ)
  | [], L, s => some (L, s)
  | i :: rest, L, s => do
    let q ← (s.gather jobs).tasks[i]?
    let t ← q.turn h jobs (s.gather jobs)
    play h jobs rest (Function.update L i (L i ++ t.events))
      { t.runtime with tasks := t.runtime.tasks.set i t.next }

theorem Runtime.Runs.of_play {order : List Nat} {L' : Nat → List Event} (hr : Runs h jobs s₀ L s)
    (hp : play h jobs order L s = some (L', s')) : Runs h jobs s₀ L' s' := by
  induction order generalizing L s with
  | nil =>
    cases hp
    exact hr
  | cons i rest ih =>
    simp only [play, Option.bind_eq_bind, Option.bind_eq_some_iff] at hp
    obtain ⟨q, hq, t, ht, hp⟩ := hp
    exact ih (hr.gather.task hq ht) hp

theorem Action.proceed_spawns (p : Action α) (s : Runtime σ) : ∃ js : List Job,
    (p.proceed h jobs s).runtime.tasks = s.tasks ++ js.map fun j ↦ .start (jobs j).run := by
  induction p generalizing s with
  | done a => exact ⟨[], by simp [Action.proceed]⟩
  | memory f k ih => exact ih s.memory _
  | operation o js k ih =>
    unfold Action.proceed
    split <;> exact ⟨[], by simp⟩
  | wait w js k ih =>
    cases w with
    | task j => exact ⟨[j], rfl⟩
    | idle | access c => exact ⟨[], by simp [Action.proceed]⟩

theorem Suspended.turn_spawns {q : Suspended α} {t : Turn σ α} (ht : q.turn h jobs s = some t) :
    ∃ js : List Job, t.runtime.tasks = s.tasks ++ js.map fun j ↦ .start (jobs j).run := by
  cases q with
  | done a => cases ht
  | ready js p =>
    cases ht
    exact p.proceed_spawns s
  | asked o js k =>
    unfold Suspended.turn at ht
    dsimp only at ht
    split at ht
    · cases ht
      exact (k _).proceed_spawns (s.perform h o).2
    · cases ht
      exact ⟨[], by simp⟩
  | waiting i js k =>
    unfold Suspended.turn at ht
    dsimp only at ht
    split at ht
    · cases ht
      exact (k _).proceed_spawns s
    · cases ht

/-- How a task began: it was there at first, or it was started later, as a job. -/
def Runtime.Origin (jobs : Job → Call Unit) (s₀ : Runtime σ) (i : Nat) (q : Suspended (Outcome Unit))
    (s : Runtime σ) : Prop :=
  s₀.tasks[i]? = some q ∧ s = s₀ ∨ s₀.tasks.length ≤ i ∧ ∃ j, q = .start (jobs j).run

theorem Runtime.Runs.length_le (hr : Runs h jobs s₀ L s) : s₀.tasks.length ≤ s.tasks.length := by
  induction hr with
  | refl => exact Nat.le_refl _
  | gather _ ih => exact Nat.le_trans ih (by simp [Runtime.gather])
  | task _ _ ht ih =>
    obtain ⟨js, hjs⟩ := Suspended.turn_spawns ht
    rw [List.length_set, hjs, List.length_append]
    exact Nat.le_trans ih (Nat.le_add_right _ _)

/-- Conducts that go together, one for each task, and what all of them keep; tasks from the number `n`
on are started by others. -/
structure Conduct.Together (C : Nat → Conduct) (h : Host σ) (jobs : Job → Call Unit) (n : Nat)
    (J : (Nat → List Event) → Memory → Prop) : Prop where
  rely_refl : ∀ i m, (C i).rely m m
  calm : ∀ {i k m m'}, k ≠ i → (C i).calm m m' → (C k).rely m m'
  perform : ∀ k o (s : Runtime σ), (C k).rely s.memory (s.perform h o).2.memory
  gather : ∀ k m, (C k).rely m { m with started := [] }
  hands : ∀ i m m' j, ¬(C i).hands m m' j
  job : ∀ k j m, n ≤ k → (jobs j).run.Obeys (C k) (fun _ _ _ ↦ True) none [] m
  kept_calm : ∀ {i L m m'}, J L m → (C i).calm m m' → J L m'
  kept_act : ∀ {i L o} {s : Runtime σ}, J L s.memory → (C i).asks (L i) s.memory o →
    (C i).answers o (s.perform h o).1 ∧
      J (Function.update L i (L i ++ [s.event h o])) (s.perform h o).2.memory
  kept_gather : ∀ {L m}, J L m → J L { m with started := [] }

structure Runtime.InTurn (C : Nat → Conduct) (n : Nat) (J : (Nat → List Event) → Memory → Prop)
    (L : Nat → List Event) (s : Runtime σ) : Prop where
  count : n ≤ s.tasks.length
  idle : ∀ i, s.tasks.length ≤ i → L i = []
  obeys : ∀ (i : Nat) (q : Suspended (Outcome Unit)), s.tasks[i]? = some q →
    q.Obeys (C i) (fun _ _ _ ↦ True) (L i) s.memory
  kept : J L s.memory

/-- What holds during a turn of the task `i`, which began in `s₀`. -/
structure Runtime.Amid (C : Nat → Conduct) (n : Nat) (J : (Nat → List Event) → Memory → Prop)
    (L : Nat → List Event) (i : Nat) (s₀ : Runtime σ) (l : List Event) (s : Runtime σ) : Prop where
  count : n ≤ s.tasks.length
  there : i < s.tasks.length
  idle : ∀ k, s.tasks.length ≤ k → L k = []
  obeys : ∀ (k : Nat) (q : Suspended (Outcome Unit)), k ≠ i → s.tasks[k]? = some q →
    q.Obeys (C k) (fun _ _ _ ↦ True) (L k) s.memory
  rely : ∀ k, k ≠ i → (C k).rely s₀.memory s.memory
  kept : J (Function.update L i l) s.memory

namespace Conduct.Together

variable {C : Nat → Conduct} {n i : Nat} {J : (Nat → List Event) → Memory → Prop}

theorem amid_upholds (hC : Conduct.Together C h jobs n J) (i : Nat) (L : Nat → List Event)
    (s₀ : Runtime σ) : (C i).Upholds h jobs (s₀.Amid C n J L i) where
  rely _ := hC.rely_refl i _
  calm {l s m} hJ hc := by
    have hm : ∀ k, k ≠ i → (C k).rely s.memory m := fun k hk ↦ hC.calm hk hc
    exact ⟨hJ.count, hJ.there, hJ.idle,
      fun k q hk hq ↦ (hJ.obeys k q hk hq).later (fun _ _ _ _ _ _ ↦ trivial) (hm k hk),
      fun k hk ↦ (C k).rely_trans (hJ.rely k hk) (hm k hk), hC.kept_calm hJ.kept hc⟩
  act {l s o} hJ ha := by
    have hm : ∀ k, (C k).rely s.memory (s.perform h o).2.memory := fun k ↦ hC.perform k o s
    have ha' : (C i).asks (Function.update L i l i) s.memory o := by
      rw [Function.update_self]
      exact ha
    obtain ⟨hans, hk⟩ := hC.kept_act hJ.kept ha'
    rw [Function.update_self, Function.update_idem] at hk
    exact ⟨hans, hJ.count, hJ.there, hJ.idle,
      fun k q hk hq ↦ (hJ.obeys k q hk hq).later (fun _ _ _ _ _ _ ↦ trivial) (hm k),
      fun k hk ↦ (C k).rely_trans (hJ.rely k hk) (hm k), hk⟩
  spawn {l s j} hJ _ := by
    have hlen : (s.spawn jobs j).tasks.length = s.tasks.length + 1 := by simp [Runtime.spawn]
    refine ⟨by have := hJ.count; omega, by have := hJ.there; omega,
      fun k hk ↦ hJ.idle k (by omega), fun k q hk hq ↦ ?_, hJ.rely, hJ.kept⟩
    change (s.tasks ++ [Suspended.start (jobs j).run])[k]? = some q at hq
    rw [List.getElem?_append] at hq
    split at hq
    · exact hJ.obeys k q hk hq
    · rename_i hlt
      rw [hJ.idle k (Nat.le_of_not_lt hlt), List.mem_singleton.1 (List.mem_of_getElem? hq)]
      exact ⟨by simp, fun m _ ↦ hC.job k j m (Nat.le_trans hJ.count (Nat.le_of_not_lt hlt))⟩
  hand _ hh := (hC.hands _ _ _ _ hh).elim

end Conduct.Together

namespace Runtime.InTurn

variable {C : Nat → Conduct} {n : Nat} {J : (Nat → List Event) → Memory → Prop}

theorem amid (hC : Conduct.Together C h jobs n J) (hs : s.InTurn C n J L) {i : Nat}
    {q : Suspended (Outcome Unit)} (hq : s.tasks[i]? = some q) :
    s.Amid C n J L i (L i) s := by
  refine ⟨hs.count, (List.getElem?_eq_some_iff.1 hq).1, hs.idle, fun k p _ hp ↦ hs.obeys k p hp,
    fun k _ ↦ hC.rely_refl k _, ?_⟩
  rw [Function.update_eq_self]
  exact hs.kept

theorem turn (hh : h.Plain) (hC : Conduct.Together C h jobs n J) (hs : s.InTurn C n J L) {i : Nat}
    {q : Suspended (Outcome Unit)} {t : Turn σ (Outcome Unit)} (hq : s.tasks[i]? = some q)
    (ht : q.turn h jobs s = some t) :
    (∀ k, k ≠ i → (C k).rely s.memory t.runtime.memory) ∧
      ({ t.runtime with tasks := t.runtime.tasks.set i t.next } : Runtime σ).InTurn C n J
        (Function.update L i (L i ++ t.events)) := by
  obtain ⟨hn, hk⟩ := (hs.obeys i q hq).turn hh (hC.amid_upholds i L s) (hs.amid hC hq) ht
  refine ⟨hk.rely, ?_, fun k hl ↦ ?_, fun k p hp ↦ ?_, hk.kept⟩
  · rw [List.length_set]
    exact hk.count
  · rw [List.length_set] at hl
    rw [Function.update_of_ne (by have := hk.there; omega)]
    exact hk.idle k hl
  · by_cases hki : k = i
    · subst hki
      rw [List.getElem?_set_self hk.there] at hp
      rw [Function.update_self, ← Option.some.inj hp]
      exact hn
    · rw [List.getElem?_set_ne (Ne.symm hki)] at hp
      rw [Function.update_of_ne hki]
      exact hk.obeys k p hki hp

theorem gather (hC : Conduct.Together C h jobs n J) (hs : s.InTurn C n J L) :
    (s.gather jobs).InTurn C n J L := by
  have hlen : s.tasks.length ≤ (s.gather jobs).tasks.length := by simp [Runtime.gather]
  refine ⟨Nat.le_trans hs.count hlen, fun i hi ↦ hs.idle i (Nat.le_trans hlen hi), fun i q hq ↦ ?_,
    hC.kept_gather hs.kept⟩
  change (s.tasks ++ s.memory.started.map fun j ↦ Suspended.start (jobs j).run)[i]? = some q at hq
  rw [List.getElem?_append] at hq
  split at hq
  · exact (hs.obeys i q hq).later (fun _ _ _ _ _ _ ↦ trivial) (hC.gather i s.memory)
  · rename_i hlt
    obtain ⟨j, -, rfl⟩ := List.mem_map.1 (List.mem_of_getElem? hq)
    rw [hs.idle i (Nat.le_of_not_lt hlt)]
    exact ⟨by simp, fun m _ ↦ hC.job i j m (Nat.le_trans hs.count (Nat.le_of_not_lt hlt))⟩

end Runtime.InTurn

namespace Runtime.Runs

variable {C : Nat → Conduct} {n : Nat} {J : (Nat → List Event) → Memory → Prop}

theorem inTurn (hh : h.Plain) (hC : Conduct.Together C h jobs n J)
    (h₀ : s₀.InTurn C n J fun _ ↦ []) (hr : Runs h jobs s₀ L s) : s.InTurn C n J L := by
  induction hr with
  | refl => exact h₀
  | gather _ ih => exact ih.gather hC
  | task _ hq ht ih => exact (ih.turn hh hC hq ht).2

theorem among (hh : h.Plain) (hC : Conduct.Together C h jobs n J)
    (h₀ : s₀.InTurn C n J fun _ ↦ []) (hr : Runs h jobs s₀ L s) {i : Nat}
    {q : Suspended (Outcome Unit)} (hi : s.tasks[i]? = some q) :
    ∃ q₀ s₁, s₀.Origin jobs i q₀ s₁ ∧ Among h jobs (C i).rely q₀ s₁ (L i) q s := by
  induction hr generalizing q with
  | refl => exact ⟨q, s₀, .inl ⟨hi, rfl⟩, .refl⟩
  | @gather L s hr ih =>
    have hs := hr.inTurn hh hC h₀
    change (s.tasks ++ s.memory.started.map fun j ↦ Suspended.start (jobs j).run)[i]? = some q at hi
    rw [List.getElem?_append] at hi
    split at hi
    · obtain ⟨q₀, s₁, ho, ha⟩ := ih hi
      exact ⟨q₀, s₁, ho, ha.others (hC.gather i s.memory)⟩
    · rename_i hlt
      obtain ⟨j, -, rfl⟩ := List.mem_map.1 (List.mem_of_getElem? hi)
      have hlt := Nat.le_of_not_lt hlt
      rw [hs.idle i hlt]
      exact ⟨_, _, .inr ⟨Nat.le_trans hr.length_le hlt, j, rfl⟩, .refl⟩
  | @task L s k p t hr hp ht ih =>
    have hs := hr.inTurn hh hC h₀
    obtain ⟨hrely, hturn⟩ := hs.turn hh hC hp ht
    obtain ⟨js, hjs⟩ := Suspended.turn_spawns ht
    by_cases hki : k = i
    · subst hki
      obtain ⟨q₀, s₁, ho, ha⟩ := ih hp
      have hlt := (hs.amid hC hp).there
      rw [List.getElem?_set_self (by rw [hjs, List.length_append]; omega)] at hi
      rw [Function.update_self, ← Option.some.inj hi]
      exact ⟨q₀, s₁, ho, (ha.turn ht).others (hC.rely_refl k _)⟩
    · rw [List.getElem?_set_ne hki, hjs, List.getElem?_append] at hi
      rw [Function.update_of_ne (Ne.symm hki)]
      split at hi
      · obtain ⟨q₀, s₁, ho, ha⟩ := ih hi
        exact ⟨q₀, s₁, ho, ha.others (hrely i (Ne.symm hki))⟩
      · rename_i hlt
        obtain ⟨j, -, rfl⟩ := List.mem_map.1 (List.mem_of_getElem? hi)
        have hlt := Nat.le_of_not_lt hlt
        rw [hs.idle i hlt]
        exact ⟨_, _, .inr ⟨Nat.le_trans hr.length_le hlt, j, rfl⟩, .refl⟩

end Runtime.Runs

end BoundSql
