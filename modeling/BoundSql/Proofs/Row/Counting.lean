import BoundSql.Fault
import BoundSql.Row.Cursor
import Mathlib.Data.List.Forall2

namespace BoundSql

theorem mapM_cases {α β ε : Type} (f : α → Except ε β) (xs : List α) :
    (∃ ys, xs.mapM f = .ok ys ∧ List.Forall₂ (fun x y ↦ f x = .ok y) xs ys) ∨
      ∃ e before x after, xs.mapM f = .error e ∧ xs = before ++ x :: after ∧
        (∀ y ∈ before, ∃ z, f y = .ok z) ∧ f x = .error e := by
  induction xs with
  | nil => exact .inl ⟨[], rfl, .nil⟩
  | cons x xs ih =>
    rw [List.mapM_cons]
    cases hx : f x with
    | error e => exact .inr ⟨e, [], x, xs, rfl, rfl, nofun, hx⟩
    | ok y =>
      obtain ⟨ys, hys, hall⟩ | ⟨e, before, z, after, he, rfl, hbefore, herror⟩ := ih
      · rw [hys]
        exact .inl ⟨y :: ys, rfl, .cons hx hall⟩
      · rw [he]
        refine .inr ⟨e, x :: before, z, after, rfl, rfl, ?_, herror⟩
        exact List.forall_mem_cons.2 ⟨⟨y, hx⟩, hbefore⟩

def Strategy.pick (rows : List Row) : Strategy → Except Error (List Row)
  | none => .ok []
  | one _ => if rows.length ≤ 1 then .ok rows else .error (.tooManyRows rows.length)
  | many => .ok rows

namespace Cursor

variable {m : Type → Type} [Monad m] [MonadExceptOf Error m] {γ : Type}

/-- A way to run programs that use a cursor: what they come to, and where they leave the cursor and all
that it depends on. The programs may await something on their way or not. -/
structure Evaluation (m : Type → Type) [Monad m] [MonadExceptOf Error m] (γ : Type) where
  eval {α : Type} : m α → γ → Outcome (α × γ)
  eval_pure {α : Type} (a : α) (c : γ) : eval (pure a) c = .ok (a, c)
  eval_bind {α β : Type} (p : m α) (k : α → m β) (c : γ) :
    eval (p >>= k) c = (eval p c).bind fun r ↦ eval (k r.1) r.2
  eval_throw {α : Type} (e : Error) (c : γ) : eval (throw e : m α) c = .error (.error e)

section

variable {ev : Evaluation m γ} {fetchOne : m (Option Row)} {fetchAll : m (List Row)} {c c' : γ}
  {row : Row} {rows : List Row} {n fuel : Nat}

theorem Evaluation.eval_bind_of_ok {α β : Type} {p : m α} {a : α} (hp : ev.eval p c = .ok (a, c'))
    (k : α → m β) : ev.eval (p >>= k) c = ev.eval (k a) c' := by
  rw [ev.eval_bind, hp]
  rfl

/-- Fetching row after row succeeds and gives these. -/
inductive Yields (ev : Evaluation m γ) (fetchOne : m (Option Row)) : γ → List Row → Prop
  | exhausted {c c' : γ} (h : ev.eval fetchOne c = .ok (none, c')) : Yields ev fetchOne c []
  | row {c c' : γ} {row : Row} {rows : List Row} (h : ev.eval fetchOne c = .ok (some row, c'))
    (hrest : Yields ev fetchOne c' rows) : Yields ev fetchOne c (row :: rows)

def FetchesAll (ev : Evaluation m γ) (fetchOne : m (Option Row)) (fetchAll : m (List Row)) (n : Nat) :
    Prop :=
  ∀ c rows, rows.length ≤ n → Yields ev fetchOne c rows → ∃ c', ev.eval fetchAll c = .ok (rows, c')

theorem Yields.unique {rows' : List Row} (hc : Yields ev fetchOne c rows)
    (hc' : Yields ev fetchOne c rows') : rows = rows' := by
  induction hc generalizing rows' with
  | exhausted h =>
    cases hc' with
    | exhausted => rfl
    | row h' => cases h.symm.trans h'
  | row h _ ih =>
    cases hc' with
    | exhausted h' => cases h.symm.trans h'
    | row h' hrest =>
      cases h.symm.trans h'
      rw [ih hrest]

theorem Yields.eval_collect (hc : Yields ev fetchOne c rows) (hn : rows.length < fuel) :
    ∃ c', ev.eval (collect fetchOne fuel) c = .ok (rows, c') := by
  induction hc generalizing fuel with
  | @exhausted c c₁ h =>
    obtain ⟨fuel, rfl⟩ := Nat.exists_eq_add_of_lt hn
    refine ⟨c₁, ?_⟩
    rw [collect, ev.eval_bind_of_ok h]
    exact ev.eval_pure _ _
  | @row c c₁ row rows h _ ih =>
    obtain ⟨fuel, rfl⟩ := Nat.exists_eq_add_of_lt hn
    obtain ⟨c', hrest⟩ := ih (show rows.length < rows.length + 1 + fuel by omega)
    refine ⟨c', ?_⟩
    rw [collect, ev.eval_bind_of_ok h]
    exact (ev.eval_bind_of_ok hrest _).trans (ev.eval_pure _ _)

theorem fetchesAll_collect (hn : n < fuel) : FetchesAll ev fetchOne (collect fetchOne fuel) n :=
  fun _ _ hrows hc ↦ hc.eval_collect (Nat.lt_of_le_of_lt hrows hn)

/-- A cursor of which nothing has been fetched yet. It may tell the number of its rows, and it has a way
of its own to fetch all of them or fetches them one by one. -/
structure Fresh (ev : Evaluation m γ) (rowCount : Option Nat) (fetchOne : m (Option Row))
    (fetchAll : m (List Row)) (c : γ) (rows : List Row) : Prop where
  yields : Yields ev fetchOne c rows
  count : rowCount = none ∨ rowCount = some rows.length
  all : FetchesAll ev fetchOne fetchAll rows.length ∨
    ∃ fuel, rows.length < fuel ∧ fetchAll = collect fetchOne fuel

namespace Fresh

variable {rowCount : Option Nat} (hc : Fresh ev rowCount fetchOne fetchAll c rows)

include hc

theorem fetchesAll : FetchesAll ev fetchOne fetchAll rows.length := by
  obtain hall | ⟨fuel, hfuel, rfl⟩ := hc.all
  · exact hall
  · exact fetchesAll_collect hfuel

theorem eval_many : ∃ c', ev.eval (fetchRows rowCount fetchOne fetchAll .many) c = .ok (rows, c') :=
  hc.fetchesAll c rows (Nat.le_refl _) hc.yields

/-- Where no number is told in advance, the rows beyond the second one are fetched to be counted. -/
theorem eval_one_counting (hn : rowCount.filter (1 < ·) = none) (required : Bool) :
    (ev.eval (fetchRows rowCount fetchOne fetchAll (.one required)) c).map Prod.fst =
      Outcome.ofResult ((Strategy.one required).pick rows) := by
  simp only [fetchRows, hn]
  have hall := hc.fetchesAll
  cases hc.yields with
  | exhausted h =>
    rw [ev.eval_bind_of_ok h]
    exact congrArg _ (ev.eval_pure _ _)
  | @row _ _ _ _ h hrest =>
    rw [ev.eval_bind_of_ok h]
    dsimp only
    cases hrest with
    | exhausted h' =>
      rw [ev.eval_bind_of_ok h']
      exact congrArg _ (ev.eval_pure _ _)
    | @row _ _ _ rest h' hrest =>
      rw [ev.eval_bind_of_ok h']
      dsimp only
      -- Two rows are there already; the others are as many as the cursor has left.
      obtain ⟨c', hrows⟩ := hall _ _ (by simp only [List.length_cons]; omega) hrest
      rw [ev.eval_bind_of_ok hrows, ev.eval_throw]
      rfl

theorem eval_one (required : Bool) :
    (ev.eval (fetchRows rowCount fetchOne fetchAll (.one required)) c).map Prod.fst =
      Outcome.ofResult ((Strategy.one required).pick rows) := by
  obtain rfl | rfl := hc.count
  · exact hc.eval_one_counting rfl required
  · obtain hlt | hle := Nat.lt_or_ge 1 rows.length
    · have hmany : Option.filter (1 < ·) (some rows.length) = some rows.length := by simp [hlt]
      simp only [fetchRows, hmany]
      rw [ev.eval_throw, Strategy.pick, if_neg (Nat.not_le.2 hlt)]
      rfl
    · exact hc.eval_one_counting (by simpa using hle) required

theorem eval_fetchRows (s : Strategy) :
    (ev.eval (fetchRows rowCount fetchOne fetchAll s) c).map Prod.fst =
      Outcome.ofResult (s.pick rows) := by
  cases s with
  | none => exact congrArg _ (ev.eval_pure _ _)
  | one required => exact hc.eval_one required
  | many =>
    obtain ⟨c', hrows⟩ := hc.eval_many
    rw [hrows]
    rfl

theorem eval_of_pick_ok {s : Strategy} {rs : List Row} (hs : s.pick rows = .ok rs) :
    ∃ c', ev.eval (fetchRows rowCount fetchOne fetchAll s) c = .ok (rs, c') := by
  have hfetched := hc.eval_fetchRows s
  rw [hs] at hfetched
  cases h : ev.eval (fetchRows rowCount fetchOne fetchAll s) c with
  | error f =>
    rw [h] at hfetched
    cases hfetched
  | ok r =>
    rw [h] at hfetched
    cases hfetched
    exact ⟨r.2, rfl⟩

theorem eval_of_pick_error {s : Strategy} {e : Error} (hs : s.pick rows = .error e) :
    ev.eval (fetchRows rowCount fetchOne fetchAll s) c = .error (.error e) := by
  have hfetched := hc.eval_fetchRows s
  rw [hs] at hfetched
  cases h : ev.eval (fetchRows rowCount fetchOne fetchAll s) c with
  | error f =>
    rw [h] at hfetched
    cases hfetched
    rfl
  | ok r =>
    rw [h] at hfetched
    cases hfetched

end Fresh

theorem eval_none (ev : Evaluation m γ) (rowCount : Option Nat) (fetchOne : m (Option Row))
    (fetchAll : m (List Row)) (c : γ) :
    ev.eval (fetchRows rowCount fetchOne fetchAll .none) c = .ok ([], c) := ev.eval_pure _ _

end

def Evaluation.direct (γ : Type) : Evaluation (ExceptT Error (StateM γ)) γ where
  eval p c := match p.run.run c with
    | (.ok a, c) => .ok (a, c)
    | (.error e, _) => .error (.error e)
  eval_pure _ _ := rfl
  eval_bind p k c := by
    change (match ExceptT.bindCont k (p.run.run c).1 (p.run.run c).2 with
      | (.ok b, c) => (.ok (b, c) : Outcome _)
      | (.error e, _) => .error (.error e)) = _
    rcases p.run.run c with ⟨e | a, c⟩ <;> rfl
  eval_throw _ _ := rfl

namespace Buffered

theorem yields (c : Buffered) : Yields (.direct Buffered) (ExceptT.lift fetchOne) c c.rows := by
  obtain ⟨columns, rows, total⟩ := c
  induction rows with
  | nil => exact .exhausted rfl
  | cons row rows ih => exact .row rfl ih

theorem fresh (columns : List Column) (rows : List Row) :
    Fresh (.direct Buffered) (ofRows columns rows).rowCount (ExceptT.lift fetchOne)
      (ExceptT.lift fetchAll) (ofRows columns rows) rows where
  yields := (ofRows columns rows).yields
  count := .inr rfl
  all := .inl fun c rows _ hc ↦ by
    obtain rfl := hc.unique c.yields
    exact ⟨_, rfl⟩

end Buffered

end Cursor

namespace Return

variable {columns : List Column} {shape : Shape} {rows : List Row}

def Single : Return → Prop
  | one _ | optional _ => True
  | nothing | many _ => False

/-- What a query makes of the rows that there are: the return, or the error. -/
inductive Makes (columns : List Column) : Return → List Row → Except Error Mapped → Prop
  | nothing (rows : List Row) : Makes columns nothing rows (.ok .unit)
  | missing (shape : Shape) : Makes columns (one shape) [] (.error .noRows)
  | absent (shape : Shape) : Makes columns (optional shape) [] (.ok .none)
  | required (shape : Shape) (row : Row) : Makes columns (one shape) [row] (shape.ofRow columns row)
  | present {shape : Shape} {row : Row} {x : Mapped} (hx : shape.ofRow columns row = .ok x) :
    Makes columns (optional shape) [row] (.ok (.some x))
  | unmapped {shape : Shape} {row : Row} {e : Error} (he : shape.ofRow columns row = .error e) :
    Makes columns (optional shape) [row] (.error e)
  | tooMany {ret : Return} {rows : List Row} (hr : ret.Single) (hn : 2 ≤ rows.length) :
    Makes columns ret rows (.error (.tooManyRows rows.length))
  | list {shape : Shape} {rows : List Row} {xs : List Mapped}
    (hx : List.Forall₂ (fun row x ↦ shape.ofRow columns row = .ok x) rows xs) :
    Makes columns (many shape) rows (.ok (.list xs))
  | stopped {shape : Shape} {row : Row} {before after : List Row} {e : Error}
    (hbefore : ∀ r ∈ before, ∃ x, shape.ofRow columns r = .ok x)
    (he : shape.ofRow columns row = .error e) :
    Makes columns (many shape) (before ++ row :: after) (.error e)

theorem makes_many (columns : List Column) (shape : Shape) (rows : List Row) :
    Makes columns (many shape) rows ((many shape).ofRows columns rows) := by
  obtain ⟨xs, hxs, hx⟩ | ⟨e, before, row, after, he, rfl, hbefore, herror⟩ :=
    mapM_cases (shape.ofRow columns) rows
  · rw [ofRows, hxs]
    exact .list hx
  · rw [ofRows, he]
    exact .stopped hbefore herror

theorem makes_pick (columns : List Column) (ret : Return) (rows : List Row) :
    Makes columns ret rows ((ret.strategy.pick rows).bind (ret.ofRows columns)) := by
  cases ret with
  | nothing => exact .nothing rows
  | many shape => exact makes_many columns shape rows
  | one shape =>
    match rows with
    | [] => exact .missing shape
    | [row] => exact .required shape row
    | _ :: _ :: rest => exact .tooMany trivial (Nat.le_add_left _ _)
  | optional shape =>
    match rows with
    | [] => exact .absent shape
    | [row] =>
      have hpick : (((optional shape).strategy.pick [row]).bind ((optional shape).ofRows columns)) =
          (shape.ofRow columns row).map .some := rfl
      rw [hpick]
      cases hx : shape.ofRow columns row with
      | ok x => exact .present hx
      | error e => exact .unmapped hx
    | _ :: _ :: rest => exact .tooMany trivial (Nat.le_add_left _ _)

end Return

end BoundSql
