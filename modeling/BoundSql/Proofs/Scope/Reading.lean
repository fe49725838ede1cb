import BoundSql.Proofs.Scope.Part

namespace BoundSql

open Memory

variable {σ α β : Type} {h : Host σ} {cb : Callback σ} {w : World σ} {m : Memory}

def Memory.Read (m m' : Memory) : Prop :=
  ∃ es : List Event, (∀ e ∈ es, e.isRead) ∧ m' = m.logAll es

namespace Memory.Read

variable {m' m'' : Memory}

theorem refl (m : Memory) : m.Read m := ⟨[], by simp, rfl⟩

theorem trans (h : m.Read m') (h' : m'.Read m'') : m.Read m'' := by
  obtain ⟨es, hes, rfl⟩ := h
  obtain ⟨es', hes', rfl⟩ := h'
  refine ⟨es ++ es', fun e he ↦ ?_, (logAll_append es es' m).symm⟩
  obtain he | he := List.mem_append.1 he
  · exact hes e he
  · exact hes' e he

theorem quiet (h : m.Read m') (a : List Nat) : Quiet a m m' := by
  obtain ⟨es, hes, rfl⟩ := h
  have hread : ∀ e ∈ es.reverse, e.isRead := fun e he ↦ hes e (List.mem_reverse.1 he)
  exact
    { leases := Nat.le_refl _
      holds := fun _ ↦ Iff.rfl
      flag := fun _ _ ↦ rfl
      busy := rfl
      active := rfl
      streams := rfl
      sessions := fun _ hp ↦ .inl hp
      trace := by
        refine ⟨es.reverse, rfl, fun e he c ↦ ?_, fun e he c hc ↦ ?_⟩
        · obtain ⟨hl, hr, -⟩ := Event.of_isRead (hread e he) c
          exact ⟨hl, hr⟩
        · rw [(Event.of_isRead (hread e he) c).2.2] at hc
          cases hc }

theorem desk (h : m.Read m') : m'.desk = m.desk := by
  obtain ⟨es, -, rfl⟩ := h
  rfl

theorem entitled (h : m.Read m') {s : Stream} (hs : s.Entitled m) : s.Entitled m' := fun e he ↦
  (hs e he).mono ((h.quiet []).usable (hs e he).usable) (h.quiet []).suffix

theorem held (h : m.Read m') : m'.held = m.held := by
  obtain ⟨es, -, rfl⟩ := h
  rfl

theorem endsOf (h : m.Read m') (c : Nat) : m'.endsOf c = m.endsOf c := by
  obtain ⟨es, hes, rfl⟩ := h
  have hends : es.reverse.filter (Event.ends c) = [] := List.filter_eq_nil_iff.2 fun e he ↦ by
    rw [(Event.of_isRead (hes e (List.mem_reverse.1 he)) c).2.2]
    exact Bool.false_ne_true
  rw [Memory.endsOf, logAll, List.filter_append, hends]
  rfl

end Memory.Read

theorem Host.read_act (h : Host σ) {o : Operation} (ho : o.isRead) (w : World σ) :
    w.memory.Read (h.act o w).2.memory := by
  cases o with
  | fetch _ _ _ | close _ _ => exact ⟨[_], by simp [Event.isRead, Operation.isRead], rfl⟩
  | _ => cases ho

namespace Cursor

def advance (c : Cursor) : Cursor := { c with fetched := c.fetched + 1, rows := c.rows.tail }

theorem run_fetchOne (c : Cursor) : (Cursor.fetchOne.run c).run =
    .operation (.fetch c.connection c.id c.fetched) [] fun r ↦
      .done (r.map fun _ ↦ (c.rows.head?, c.advance)) := by
  obtain ⟨id, conn, cols, n, rows, fetched⟩ := c
  refine congrArg (Action.operation _ _) (funext fun r ↦ ?_)
  cases rows <;> cases r <;> rfl

theorem exec_fetchOne (hl : h.Lawful) (c : Cursor) :
    Call.exec h cb (Cursor.fetchOne.run c) w =
      let r := h.act (.fetch c.connection c.id c.fetched) w
      (r.1.map fun _ ↦ (c.rows.head?, c.advance), r.2) := by
  have hp : h.perform cb (.fetch c.connection c.id c.fetched) w = _ := hl.perform_eq rfl
  rw [Call.exec, run_fetchOne, ← hp]
  rfl

theorem exec_close (hl : h.Lawful) (c : Cursor) :
    Call.exec h cb c.close w = h.act (.close c.connection c.id) w := hl.perform_eq rfl

end Cursor

/-- Code that does nothing but to fetch from cursors and to close them. -/
inductive Reads : {α : Type} → Action α → Prop
  | done {α : Type} (x : α) : Reads (.done x)
  | bind {α β : Type} {p : Action α} {f : α → Action β} (hp : Reads p) (hf : ∀ x, Reads (f x)) :
    Reads (p >>= f)
  | operate {o : Operation} (ho : o.isRead) : Reads (Call.operate o).run

theorem Reads.read (hl : h.Lawful) {p : Action α} (hp : Reads p) (w : World σ) :
    w.memory.Read (p.runInSequence h cb w).2.memory := by
  induction hp generalizing w with
  | done x => exact .refl _
  | bind _ _ ihp ihf =>
    rw [Action.runInSequence_bind]
    exact (ihp w).trans (ihf _ _)
  | @operate o ho =>
    have hp : (Call.operate o).run.runInSequence h cb w = h.perform cb o w := rfl
    rw [hp, hl.perform_eq (by cases o <;> first | rfl | cases ho)]
    exact h.read_act ho w

namespace Reads

variable {p : Call α} {k : α → Call β}

theorem ret (r : Outcome α) : Reads (ExceptT.mk (.done r) : Call α).run := .done r

theorem call_bind (hp : Reads p.run) (hk : ∀ x, Reads (k x).run) : Reads (p >>= k).run := by
  refine hp.bind fun r ↦ ?_
  cases r with
  | ok x => exact hk x
  | error f => exact .done _

theorem outcome (hp : Reads p.run) : Reads p.outcome.run := hp.bind fun _ ↦ .done _

theorem caught (hp : Reads p.run) : Reads (Blocking.caught p).run := by
  refine hp.outcome.call_bind fun r ↦ ?_
  rcases r with (_ | _) | _ <;> exact .ret _

theorem close (c : Cursor) : Reads c.close.run := .operate rfl

theorem fetchOne (c : Cursor) : Reads (Cursor.fetchOne.run c).run := by
  rw [Cursor.run_fetchOne]
  exact (Reads.operate rfl).bind fun _ ↦ .done _

section Reading

variable {p : Cursor.Reading α} {k : α → Cursor.Reading β}

theorem reading_bind (hp : ∀ c, Reads (p.run c).run) (hk : ∀ x c, Reads ((k x).run c).run)
    (c : Cursor) : Reads ((p >>= k).run c).run :=
  (hp c).call_bind fun x ↦ hk x.1 x.2

theorem collect {f : Cursor.Reading (Option Row)} (hf : ∀ c, Reads (f.run c).run) (n : Nat)
    (c : Cursor) : Reads ((Cursor.collect f n).run c).run := by
  induction n generalizing c with
  | zero => exact .ret _
  | succ n ih =>
    refine reading_bind hf (fun row c ↦ ?_) c
    cases row with
    | none => exact .ret _
    | some row => exact reading_bind ih (fun _ _ ↦ .ret _) c

theorem fetchAll (c : Cursor) : Reads (Cursor.fetchAll.run c).run := collect fetchOne _ c

theorem fetchRows (n : Option Nat) (s : Strategy) (c : Cursor) :
    Reads ((Cursor.fetchRows n Cursor.fetchOne Cursor.fetchAll s).run c).run := by
  unfold Cursor.fetchRows
  cases s with
  | none => exact .ret _
  | many => exact fetchAll c
  | one required =>
    dsimp only
    split
    · exact .ret _
    · refine reading_bind fetchOne (fun row c ↦ ?_) c
      cases row with
      | none => exact .ret _
      | some row =>
        refine reading_bind fetchOne (fun row' c ↦ ?_) c
        cases row' with
        | none => exact .ret _
        | some _ => exact reading_bind fetchAll (fun _ _ ↦ .ret _) c

theorem pullRows (c : Cursor) (s : Strategy) : Reads (c.pull s).run :=
  (fetchRows c.rowCount s c).call_bind fun _ ↦ .ret _

theorem closeQuietly (c : Cursor) : Reads (Blocking.closeQuietly c).run :=
  (close c).caught.call_bind fun _ ↦ .ret _

theorem closingOnFailure (c : Cursor) {p : Call α} (hp : Reads p.run) :
    Reads (Blocking.closingOnFailure c p).run := by
  refine hp.outcome.call_bind fun r ↦ ?_
  cases r with
  | ok x => exact .ret _
  | error f => exact (closeQuietly c).call_bind fun _ ↦ .ret _

end Reading

end Reads

end BoundSql
