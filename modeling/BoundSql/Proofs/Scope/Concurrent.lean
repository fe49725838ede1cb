import BoundSql.Proofs.Scope.Aside
import BoundSql.Proofs.Scope.Durability
import BoundSql.Proofs.Scope.Joined

namespace BoundSql

open Memory

variable {σ : Type} {h : Host σ} {b c : Nat} {s s₀ : Runtime σ} {x x₀ : Context}

/-- Autocommit is off, and no more has been committed or rolled back than in `m₀`. -/
structure Memory.Off (c : Nat) (m₀ : Memory) (P : Job → Prop) (m : Memory) : Prop where
  off : m.held.lookup c = some false
  busy : m.busy = m₀.busy
  terminals : m.terminalsOf c = m₀.terminalsOf c
  started : ∀ j ∈ m.started, P j

namespace Memory.Off

variable {m m₀ : Memory} {P : Job → Prop}

theorem shelter (hx : x.mode = .async) (hs : x.scopes.lookup b = some c)
    (hP : ∀ d n, P (.close d n)) : Shelter x b c (Off c m₀ P) where
  joins m _ := by
    rw [Context.Joins, hx]
    exact hs
  off m hm := by rw [hm.off]; rfl
  setOff m hm := by
    refine ⟨?_, hm.busy, hm.terminals, hm.started⟩
    rw [lookup_setAutocommit, hm.off]
    simp
  noted m m' hn hm :=
    ⟨by rw [hn.held, hm.off], by rw [hn.busy, hm.busy],
      by rw [terminalsOf, hn.trace]; exact hm.terminals, by rw [hn.started]; exact hm.started⟩
  start m d n hm := by
    unfold Memory.start
    split
    · refine ⟨hm.off, hm.busy, hm.terminals, fun j hj ↦ ?_⟩
      obtain hj | hj := List.mem_append.1 hj
      · exact hm.started j hj
      · rw [List.mem_singleton.1 hj]
        exact hP d n
    · exact hm

theorem perform (hh : h.Plain) (hm : Off c m₀ P s.memory) {o : Operation}
    (ho : o.isRead ∨ o.isStatement ∧ o.connection? = some c) :
    Off c m₀ P (s.perform h o).2.memory := by
  rw [Runtime.memory_perform hh]
  refine ⟨by rw [register_held, hm.off], by rw [register_busy, hm.busy], ?_,
    by rw [register_started]; exact hm.started⟩
  rw [terminalsOf_register, ← hm.terminals]
  obtain ho | ⟨ho, -⟩ := ho <;> cases o <;> first | exact List.append_nil _ | cases ho

theorem backs (hh : h.Plain) (x₀ : Context) (m₀ : Memory) :
    (Conduct.inside (Off c m₀ fun j ↦ ∃ d n, j = .close d n) c).Backs h (Job.run x₀)
      (Off c m₀ fun j ↦ ∃ d n, j = .close d n) where
  rely _ hm := hm
  calm hm hc := hc hm
  act hm ho := ⟨trivial, hm.perform hh ho⟩
  gather hm := ⟨⟨hm.off, hm.busy, hm.terminals, by simp⟩, hm.started⟩
  hand _ hh := hh.elim
  job {m m' j} _ hj hm := by
    obtain ⟨d, n, rfl⟩ | hj := hj
    · have hr : Reads (Job.run x₀ (.close d n)).run := Reads.operate (o := .close d n) rfl
      exact (hr.keeps Shelter.steady [] m' hm).mono fun _ _ _ _ ↦ trivial
    · exact hj.elim

end Memory.Off

/-- While autocommit is off in a scope, bound calls that are awaited together there keep it off, and
none of them commits or rolls back, in whatever order they have their turns. -/
theorem joined_calls_stay_off (hh : h.Plain) (hx : x.mode = .async)
    (hs : x.scopes.lookup b = some c) {calls : List (Action (Outcome Unit))}
    (hcalls : ∀ p ∈ calls, Joined x b c p) (ht : s₀.tasks = calls.map .start)
    (hj : s₀.memory.started = []) (hoff : s₀.memory.held.lookup c = some false)
    (hr : Relation.ReflTransGen (Runtime.Step h (Job.run x₀)) s₀ s) :
    s.memory.held.lookup c = some false ∧ s.memory.terminalsOf c = s₀.memory.terminalsOf c := by
  have hstart : Off c s₀.memory (fun j ↦ ∃ d n, j = .close d n) s₀.memory :=
    ⟨hoff, rfl, rfl, by simp [hj]⟩
  have hobeys : s₀.Backed (.inside (Off c s₀.memory fun j ↦ ∃ d n, j = .close d n) c) := by
    intro q hq
    rw [ht] at hq
    obtain ⟨p, hp, rfl⟩ := List.mem_map.1 hq
    refine ⟨[], by simp, fun m hm ↦ ?_⟩
    have hshelter : Shelter x b c (Off c s₀.memory fun j ↦ ∃ d n, j = .close d n) :=
      Off.shelter hx hs fun d n ↦ ⟨d, n, rfl⟩
    exact ((hcalls p hp).keeps hshelter [] m hm).mono fun _ _ _ _ ↦ trivial
  have hall : Off c s₀.memory (fun j ↦ ∃ d n, j = .close d n) s.memory ∧
      s.Backed (.inside (Off c s₀.memory fun j ↦ ∃ d n, j = .close d n) c) := by
    induction hr with
    | refl => exact ⟨hstart, hobeys⟩
    | tail _ hstep ih => exact (Off.backs hh x₀ _).step hh ih.1 ih.2 hstep
  exact ⟨hall.1.off, hall.1.terminals⟩

theorem Script.plain_affecting (n : Nat) : (Script.affecting n).Plain where
  callback _ o _ _ := by cases o <;> rfl
  fault _ o _ _ hf := by cases o <;> cases hf

namespace Program

def inScope : Context := ⟨.async, 0, [(0, 1)]⟩

def deleting : Call Unit := do let _ ← inScope.execute Bound.deletion .nothing .none

def transacting : Call Unit := inScope.transaction 0 fun _ _ ↦ deleting

def joining (autocommit : Bool) (calls : List (Action (Outcome Unit))) : Runtime Unit :=
  ⟨⟨{ ready with tasks := true, leases := 1, held := [(1, autocommit)] }, ()⟩, calls.map .start⟩

def interleave (order : List Nat) (s : Runtime Unit) : Option (Runtime Unit) :=
  ((Suspended.done ()).follow (Script.affecting 1) (Job.run inScope) (order.map some) s).map
    fun r ↦ r.2.2

theorem steps_of_interleave {order : List Nat} {s s' : Runtime Unit}
    (hs : interleave order s = some s') :
    Relation.ReflTransGen (Runtime.Step (Script.affecting 1) (Job.run inScope)) s s' := by
  obtain ⟨r, hr, rfl⟩ := Option.map_eq_some_iff.1 hs
  exact (Reaches.of_follow hr).of_finished.2.2

theorem joined_transacting : Joined inScope 0 1 transacting.run :=
  .transaction (.bind (.execute (f := Bound.deletion) rfl .nothing .none) fun r ↦ by
    cases r <;> exact .done _)

end Program

theorem joined_calls_stay_off_deletions :
    ∃ s, Program.interleave [0, 0, 1, 1, 1, 0, 1, 1, 0, 0, 0, 1, 1, 0]
        (Program.joining false [Program.transacting.run, Program.transacting.run]) = some s ∧
      s.tasks.all Suspended.isDone ∧
      s.memory.held.lookup 1 = some false ∧ s.memory.terminalsOf 1 = [] := by
  have hrun : (Program.interleave [0, 0, 1, 1, 1, 0, 1, 1, 0, 0, 0, 1, 1, 0]
      (Program.joining false [Program.transacting.run, Program.transacting.run])).any
        (fun s ↦ s.tasks.all Suspended.isDone) = true := by decide +kernel
  obtain ⟨s, hs, hdone⟩ := (Option.any_eq_true _ _).1 hrun
  refine ⟨s, hs, hdone, ?_⟩
  have hcalls : ∀ p ∈ [Program.transacting.run, Program.transacting.run],
      Joined Program.inScope 0 1 p := by simp [Program.joined_transacting]
  exact joined_calls_stay_off (Script.plain_affecting 1) rfl rfl hcalls rfl rfl rfl
    (Program.steps_of_interleave hs)

/-- Two transactions that are joined with autocommit on. The first one to return switches it on under
the other one, whose statement is then committed; and the other one leaves it off. -/
theorem joined_transactions_switch_autocommit :
    ∃ s₁ s₂, Program.interleave [0, 0, 0, 1, 1, 1, 0, 0, 0, 0]
        (Program.joining true [Program.transacting.run, Program.transacting.run]) = some s₁ ∧
      s₁.tasks.map Suspended.isDone = [true, false] ∧
      s₁.memory.held.lookup 1 = some true ∧ s₁.memory.terminalsOf 1 = [] ∧
      Program.interleave [1, 1, 1, 1, 1, 1] s₁ = some s₂ ∧
      s₂.tasks.map Suspended.isDone = [true, true] ∧
      s₂.memory.held.lookup 1 = some false ∧ (s₂.memory.terminalsOf 1).length = 1 := by
  have hrun : (Program.interleave [0, 0, 0, 1, 1, 1, 0, 0, 0, 0]
      (Program.joining true [Program.transacting.run, Program.transacting.run])).any (fun s₁ ↦
        s₁.tasks.map Suspended.isDone == [true, false] &&
        s₁.memory.held.lookup 1 == some true && (s₁.memory.terminalsOf 1).isEmpty &&
        (Program.interleave [1, 1, 1, 1, 1, 1] s₁).any fun s₂ ↦
          s₂.tasks.map Suspended.isDone == [true, true] &&
          s₂.memory.held.lookup 1 == some false && (s₂.memory.terminalsOf 1).length == 1) = true := by
    decide +kernel
  simp only [Option.any_eq_true, Bool.and_eq_true, beq_iff_eq, List.isEmpty_iff] at hrun
  obtain ⟨s₁, hs₁, ⟨⟨hdone₁, hon⟩, hnone⟩, s₂, hs₂, ⟨hdone₂, hoff⟩, hone⟩ := hrun
  exact ⟨s₁, s₂, hs₁, hdone₁, hon, hnone, hs₂, hdone₂, hoff, hone⟩

end BoundSql
