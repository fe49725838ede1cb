import BoundSql.Proofs.Row.Buffered

namespace BoundSql.Cursor

section

variable {γ : Type} {fetchOne : StateM γ (Option Row)} {c c₁ c₂ : γ} {n n₁ n₂ fuel : Nat}
  {rows rows₁ rows₂ : List Row}

/-- Fetching row after row until there is none: how many fetches that takes, the rows it gives, and where
it leaves the cursor. -/
inductive Collects (fetchOne : StateM γ (Option Row)) : γ → Nat → List Row → γ → Prop
  | exhausted {c c' : γ} (h : fetchOne.run c = (none, c')) : Collects fetchOne c 1 [] c'
  | row {c c₁ c' : γ} {n : Nat} {row : Row} {rows : List Row} (h : fetchOne.run c = (some row, c₁))
    (hrest : Collects fetchOne c₁ n rows c') : Collects fetchOne c (n + 1) (row :: rows) c'

namespace Collects

theorem unique (h₁ : Collects fetchOne c n₁ rows₁ c₁) (h₂ : Collects fetchOne c n₂ rows₂ c₂) :
    n₁ = n₂ ∧ rows₁ = rows₂ ∧ c₁ = c₂ := by
  induction h₁ generalizing n₂ rows₂ with
  | exhausted h =>
    cases h₂ with
    | exhausted h' =>
      cases h.symm.trans h'
      exact ⟨rfl, rfl, rfl⟩
    | row h' => cases h.symm.trans h'
  | row h _ ih =>
    cases h₂ with
    | exhausted h' => cases h.symm.trans h'
    | row h' hrest =>
      cases h.symm.trans h'
      obtain ⟨rfl, rfl, rfl⟩ := ih hrest
      exact ⟨rfl, rfl, rfl⟩

theorem run_collect (h : Collects fetchOne c n rows c₁) (hn : n ≤ fuel) :
    (collect fetchOne fuel).run c = (rows, c₁) := by
  induction h generalizing fuel with
  | exhausted h =>
    obtain ⟨fuel, rfl⟩ := Nat.exists_eq_add_of_le' hn
    rw [collect, StateT.run_bind, h]
    rfl
  | row h _ ih =>
    obtain ⟨fuel, rfl⟩ := Nat.exists_eq_add_of_le' (Nat.le_trans (Nat.le_add_left 1 _) hn)
    have hrest := ih (Nat.le_of_add_le_add_right hn)
    rw [collect, StateT.run_bind, h]
    change ((collect fetchOne fuel >>= _).run _ : Id _) = _
    rw [StateT.run_bind, hrest]
    rfl

end Collects

end

namespace Use

def IsFetch : Use → Prop
  | fetchOne | fetchAll => True
  | close | rowCount | description => False

/-- The reply to a fetch when there are no rows left. -/
def emptyReply : Use → Reply
  | fetchAll => .rows []
  | _ => .row none

end Use

def Reply.handed : Reply → List Row
  | row r => r.toList
  | rows rs => rs
  | closed | count _ | columns _ => []

namespace Buffered

variable {a b : Access} {u : Use} {us : List Use} {c c' : Buffered} {n : Nat} {rs : List Row}

theorem run_fetchOne (c : Buffered) :
    fetchOne.run c = (c.rows.head?, { c with rows := c.rows.tail }) := by
  obtain ⟨columns, _ | ⟨row, rows⟩, total⟩ := c <;> rfl

theorem collects_rows (c : Buffered) :
    Collects fetchOne c (c.rows.length + 1) c.rows { c with rows := [] } := by
  obtain ⟨columns, rows, total⟩ := c
  induction rows with
  | nil => exact .exhausted rfl
  | cons row rows ih => exact .row rfl ih

theorem run_fetchEach (c : Buffered) : fetchEach.run c = (c.rows, { c with rows := [] }) :=
  c.collects_rows.run_collect (Nat.le_refl _)

theorem run_use_fetchOne (a : Access) (c : Buffered) :
    (use a .fetchOne).run c = (.row c.rows.head?, { c with rows := c.rows.tail }) := by
  change (fetchOne >>= fun r ↦ pure (Reply.row r)).run c = _
  rw [StateT.run_bind, run_fetchOne]
  rfl

theorem run_use_fetchAll (a : Access) (c : Buffered) :
    (use a .fetchAll).run c = (.rows c.rows, { c with rows := [] }) := by
  obtain ⟨_ | _, async⟩ := a
  · rfl
  · change (fetchEach >>= fun rs ↦ pure (Reply.rows rs)).run c = _
    rw [StateT.run_bind, run_fetchEach]
    rfl

theorem exists_run_use (hu : u.IsFetch) (c : Buffered) : ∃ r rest, r.handed ++ rest = c.rows ∧
    ∀ a, (use a u).run c = (r, { c with rows := rest }) := by
  cases u with
  | fetchOne =>
    refine ⟨.row c.rows.head?, c.rows.tail, ?_, fun a ↦ run_use_fetchOne a c⟩
    cases c.rows <;> rfl
  | fetchAll => exact ⟨.rows c.rows, [], List.append_nil _, fun a ↦ run_use_fetchAll a c⟩
  | close | rowCount | description => exact hu.elim

theorem run_use_empty (hu : u.IsFetch) (hc : c.rows = []) :
    (use a u).run c = (u.emptyReply, c) := by
  obtain ⟨columns, rows, total⟩ := c
  obtain rfl : rows = [] := hc
  cases u with
  | fetchOne => exact run_use_fetchOne a _
  | fetchAll => exact run_use_fetchAll a _
  | close | rowCount | description => exact hu.elim

theorem after_cons (a : Access) (u : Use) (us : List Use) (c : Buffered) :
    after a (u :: us) c = after a us ((use a u).run c).2 := rfl

theorem replies_eq_of_fetches (hus : ∀ u ∈ us, u.IsFetch) (a b : Access) (c : Buffered) :
    replies a us c = replies b us c := by
  induction us generalizing c with
  | nil => rfl
  | cons u us ih =>
    obtain ⟨hu, hus⟩ := List.forall_mem_cons.1 hus
    obtain ⟨r, rest, -, hrun⟩ := exists_run_use hu c
    rw [replies_cons, replies_cons, hrun, hrun, ih hus]

theorem after_of_fetches (hus : ∀ u ∈ us, u.IsFetch) (a : Access) (c : Buffered) :
    ∃ rest, after a us c = { c with rows := rest } ∧
      (replies a us c).flatMap (fun r ↦ r.1.handed) ++ rest = c.rows := by
  induction us generalizing c with
  | nil => exact ⟨c.rows, rfl, rfl⟩
  | cons u us ih =>
    obtain ⟨hu, hus⟩ := List.forall_mem_cons.1 hus
    obtain ⟨r, rows, hrows, hrun⟩ := exists_run_use hu c
    obtain ⟨rest, hafter, hrest⟩ := ih hus { c with rows }
    refine ⟨rest, ?_, ?_⟩
    · rw [after_cons, hrun, hafter]
    · rw [replies_cons, hrun, List.flatMap_cons, List.append_assoc, hrest, hrows]

theorem replies_empty (hus : ∀ u ∈ us, u.IsFetch) (a : Access) (hc : c.rows = []) :
    replies a us c = us.map fun u ↦ (u.emptyReply, 0) := by
  induction us with
  | nil => rfl
  | cons u us ih =>
    obtain ⟨hu, hus⟩ := List.forall_mem_cons.1 hus
    rw [replies_cons, run_use_empty hu hc, ih hus, hc]
    rfl

theorem collects_iff : Collects fetchOne c n rs c' ↔
    n = c.rows.length + 1 ∧ rs = c.rows ∧ c' = { c with rows := [] } := by
  constructor
  · exact fun h ↦ h.unique c.collects_rows
  · rintro ⟨rfl, rfl, rfl⟩
    exact c.collects_rows

/-- After any fetches, the rows handed out and the rows left are those that there were; the columns and
the number of rows are told as before; and once no rows are left, nothing more is handed out. A cursor
that only forwards its columns and single rows gives the same, and its loop ends. -/
theorem rows_handed_out_once (columns : List Column) (rows : List Row) (us : List Use)
    (hus : ∀ u ∈ us, u.IsFetch) (a b : Access) :
    let c := after a us (ofRows columns rows)
    (replies a us (ofRows columns rows)).flatMap (fun r ↦ r.1.handed) ++ c.rows = rows ∧
    (use a .rowCount).run c = (.count (if a.wrapped then none else some rows.length), c) ∧
    (use a .description).run c = (.columns columns, c) ∧
    (c.rows = [] → ∀ us' : List Use, (∀ u ∈ us', u.IsFetch) →
      replies a us' c = us'.map fun u ↦ (u.emptyReply, 0)) ∧
    replies b us (ofRows columns rows) = replies a us (ofRows columns rows) ∧
    (∀ n rs c', Collects fetchOne c n rs c' ↔
      n = c.rows.length + 1 ∧ (use ⟨true, b.async⟩ .fetchAll).run c = (.rows rs, c')) := by
  intro c
  obtain ⟨rest, hafter, hrest⟩ := after_of_fetches hus a (ofRows columns rows)
  have hc : c = { ofRows columns rows with rows := rest } := hafter
  refine ⟨?_, ?_, ?_, fun hempty us' hus' ↦ replies_empty hus' a hempty,
    replies_eq_of_fetches hus b a _, fun n rs c' ↦ ?_⟩
  · rw [hc]
    exact hrest
  · rw [hc]
    rfl
  · rw [hc]
    rfl
  · rw [collects_iff, run_use_fetchAll, Prod.mk.injEq, Reply.rows.injEq, eq_comm (a := c.rows),
      eq_comm (a := c')]

/-- One of three rows, then the other two, then nothing. -/
theorem rows_handed_out_once_three :
    let rows : List Row := [[.bool true], [.bool false], [.null]]
    let us : List Use := [.fetchOne, .fetchAll, .fetchOne]
    (∀ u ∈ us, u.IsFetch) ∧
      replies ⟨true, false⟩ us (ofRows [⟨"n", none, none⟩] rows) =
        [(.row (some [.bool true]), 2), (.rows [[.bool false], [.null]], 0), (.row none, 0)] := by
  intro rows us
  have hus : ∀ u ∈ us, u.IsFetch := by simp [us, Use.IsFetch]
  obtain ⟨-, -, -, -, hsame, -⟩ := rows_handed_out_once [⟨"n", none, none⟩] rows us hus
    blocking ⟨true, false⟩
  exact ⟨hus, hsame.trans rfl⟩

end Buffered

end BoundSql.Cursor
