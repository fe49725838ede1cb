import BoundSql.Program.Execution
import BoundSql.Proofs.Effect.Interleaving
import BoundSql.Proofs.Scope.Cleanup

namespace BoundSql

open Memory

variable {σ α : Type} {h : Host σ} {c d : Nat} {m m' m'' : Memory} {s : Runtime σ}

/-- A commit or a rollback on the connection. -/
def Event.isTerminal (c : Nat) : Event → Bool
  | .operation (.commit _) d _ | .operation (.rollback _) d _ => d == c
  | _ => false

namespace Memory

/-- The terminal actions on the connection, oldest first. -/
def terminalsOf (m : Memory) (c : Nat) : List Event :=
  (m.trace.filter (Event.isTerminal c)).reverse

theorem terminalsOf_register (o : Operation) (n : Nat) (s : Status) (m : Memory) (c : Nat) :
    (m.register o n s).terminalsOf c =
      m.terminalsOf c ++ [.operation o (o.connection?.getD n) s].filter (Event.isTerminal c) := by
  rw [terminalsOf, terminalsOf, register_trace, List.filter_append, List.reverse_append]
  cases o with
  | instruct i => simp [Operation.site?, Event.isTerminal]
  | idle p => simp [Operation.site?, Event.isTerminal]
  | inTransaction d => simp [Operation.site?, Event.isTerminal]
  | _ => simp [Operation.site?, List.filter_cons, apply_ite List.reverse]

theorem register_leases {o : Operation} (ho : o.isLease = false) (n : Nat) (s : Status)
    (m : Memory) : (m.register o n s).leases = m.leases := by
  cases o <;> first | rfl | cases ho

@[simp]
theorem register_started (o : Operation) (n : Nat) (s : Status) (m : Memory) :
    (m.register o n s).started = m.started := by
  cases o <;> rfl

/-- Nothing has happened that concerns the connection, and no connection has been leased. -/
structure Undisturbed (c : Nat) (m m' : Memory) : Prop where
  leases : m'.leases = m.leases
  flag : m'.held.lookup c = m.held.lookup c
  busy : m'.busy = m.busy
  terminals : m'.terminalsOf c = m.terminalsOf c

namespace Undisturbed

theorem refl (c : Nat) (m : Memory) : Undisturbed c m m := ⟨rfl, rfl, rfl, rfl⟩

theorem trans (h : Undisturbed c m m') (h' : Undisturbed c m' m'') : Undisturbed c m m'' :=
  ⟨h'.leases.trans h.leases, h'.flag.trans h.flag, h'.busy.trans h.busy,
    h'.terminals.trans h.terminals⟩

end Undisturbed

end Memory

def Job.Spares (c : Nat) : Job → Prop
  | .abandon _ d | .abandonStream _ d _ => d ≠ c
  | .steps _ _ => False
  | .close _ _ | .release _ _ => True

def Conduct.aside (c : Nat) : Conduct where
  rely _ _ := True
  rely_trans _ _ := trivial
  calm m m' := m.Undisturbed c m' ∧ ∀ j ∈ m'.started, j ∈ m.started ∨ j.Spares c
  calm_refl m := ⟨.refl c m, fun _ ↦ .inl⟩
  asks _ _ o := o.isLease = false ∧ o ≠ .commit c ∧ o ≠ .rollback c
  answers _ _ := True
  leaves j := j.Spares c
  spawns j := j.Spares c
  hands _ _ _ := False

namespace Conduct.aside

theorem calm_start {j : Job} (hj : j.Spares c) (m : Memory) :
    (aside c).calm m (m.start j) := by
  unfold Memory.start
  split
  · refine ⟨⟨rfl, rfl, rfl, rfl⟩, fun i hi ↦ ?_⟩
    obtain hi | hi := List.mem_append.1 hi
    · exact .inl hi
    · rw [List.mem_singleton.1 hi]
      exact .inr hj
  · exact (aside c).calm_refl m

theorem calm_letGo (hd : d ≠ c) (m : Memory) : (aside c).calm m (m.letGo d) :=
  ⟨⟨rfl, lookup_eraseKey_ne hd.symm, rfl, rfl⟩, fun _ ↦ .inl⟩

theorem ends (hd : d ≠ c) (b : Nat) : (aside c).Ends (fun _ ↦ True) b d where
  resumes _ _ _ := trivial
  close _ _ _ _ := ⟨rfl, nofun, nofun⟩
  rollback _ _ _ _ := ⟨rfl, nofun, fun he ↦ hd (Operation.rollback.inj he)⟩
  handOver m _ _ _ := .inr ⟨calm_letGo hd m, trivial, trivial⟩
  release m _ _ _ := ⟨calm_letGo hd m, trivial, fun _ _ _ ↦ ⟨rfl, nofun, nofun⟩⟩
  leaves := hd
  start m _ := ⟨calm_start (j := .abandon b d) hd m, trivial⟩

theorem job {j : Job} (hj : j.Spares c) (x : Context) :
    (aside c).Runs (fun _ ↦ True) (fun _ ↦ True) (j.run x) := by
  cases j with
  | close d n =>
    exact Runs.operate (o := .close d n) (P := fun _ ↦ True) (fun _ _ _ ↦ trivial)
      (fun _ _ _ ↦ ⟨rfl, nofun, nofun⟩) fun _ _ _ _ _ ↦ trivial
  | abandon b d => exact (ends hj b).endAbandoned
  | abandonStream b d cursor => exact (ends hj b).endAbandonedStream cursor
  | release b d =>
    exact Runs.operate (o := .release b d) (P := fun _ ↦ True) (fun _ _ _ ↦ trivial)
      (fun _ _ _ ↦ ⟨rfl, nofun, nofun⟩) fun _ _ _ _ _ ↦ trivial
  | steps body todo => cases hj

theorem undisturbed_perform (hh : h.Plain) {o : Operation} {l : List Event}
    (ho : (aside c).asks l s.memory o) : s.memory.Undisturbed c (s.perform h o).2.memory := by
  obtain ⟨hl, hc, hr⟩ := ho
  have hn : [Event.operation o (o.connection?.getD (o.number s.memory))
      (h.reaction o s.world).status].filter (Event.isTerminal c) = [] := by
    cases o with
    | commit d =>
      have hd : d ≠ c := fun he ↦ hc (he ▸ rfl)
      simp [Event.isTerminal, Operation.connection?, hd]
    | rollback d =>
      have hd : d ≠ c := fun he ↦ hr (he ▸ rfl)
      simp [Event.isTerminal, Operation.connection?, hd]
    | _ => rfl
  rw [Runtime.memory_perform hh]
  exact ⟨register_leases hl _ _ _, by rw [register_held], register_busy .., by
    rw [terminalsOf_register, hn, List.append_nil]⟩

theorem backs (hh : h.Plain) (x : Context) (m₀ : Memory) : (aside c).Backs h (Job.run x)
    fun m ↦ m₀.Undisturbed c m ∧ ∀ j ∈ m.started, j.Spares c where
  rely _ _ := trivial
  calm hm hc := by
    refine ⟨hm.1.trans hc.1, fun j hj ↦ ?_⟩
    obtain hj | hj := hc.2 j hj
    · exact hm.2 j hj
    · exact hj
  act hm ho := by
    refine ⟨trivial, hm.1.trans (undisturbed_perform hh ho), fun j hj ↦ hm.2 j ?_⟩
    rw [Runtime.memory_perform hh, register_started] at hj
    exact hj
  gather hm := ⟨⟨hm.1.trans ⟨rfl, rfl, rfl, rfl⟩, by simp⟩, hm.2⟩
  hand _ hh := hh.elim
  job _ hj _ := (job (hj.elim id id) x [] _ trivial).mono fun _ _ _ _ ↦ trivial

end Conduct.aside

/-- Nothing in the background will lease a connection or get at this one. -/
structure Runtime.Spares (c : Nat) (s : Runtime σ) : Prop where
  started : ∀ j ∈ s.memory.started, j.Spares c
  tasks : s.Backed (.aside c)

theorem Runtime.Spares.step (hh : h.Plain) {x : Context} {s' : Runtime σ} (hs : s.Spares c)
    (hstep : s.Step h (Job.run x) s') :
    s.memory.Undisturbed c s'.memory ∧ s'.Spares c := by
  obtain ⟨⟨hm, hj⟩, ht⟩ := (Conduct.aside.backs hh x s.memory).step hh
    ⟨.refl c s.memory, hs.started⟩ hs.tasks hstep
  exact ⟨hm, hj, ht⟩

end BoundSql
