import BoundSql.Row.Cursor

namespace BoundSql.Cursor.Buffered

variable {u : Use} {us : List Use} {c : Buffered}

def blocking : Access := ⟨false, false⟩

def async : Access := ⟨false, true⟩

/-- Uses a cursor again and again: each reply, with the number of rows left after it. -/
def replies (a : Access) : List Use → Buffered → List (Reply × Nat)
  | [], _ => []
  | u :: us, c =>
    let (r, c) := (use a u).run c
    (r, c.rows.length) :: replies a us c

theorem replies_cons (a : Access) (u : Use) (us : List Use) (c : Buffered) :
    replies a (u :: us) c = (((use a u).run c).1, ((use a u).run c).2.rows.length) ::
      replies a us ((use a u).run c).2 := rfl

def after (a : Access) (us : List Use) (c : Buffered) : Buffered :=
  us.foldl (fun c u ↦ ((use a u).run c).2) c

theorem use_async (hu : u ≠ .close) : use async u = use blocking u := by
  cases u <;> first | rfl | exact absurd rfl hu

theorem run_close_blocking (c : Buffered) :
    (use blocking .close).run c = (.closed, { c with rows := [] }) := rfl

theorem run_close_async (c : Buffered) : (use async .close).run c = (.closed, c) := rfl

theorem run_use_async (h : u = .close → c.rows = []) :
    (use async u).run c = (use blocking u).run c := by
  by_cases hu : u = .close
  · obtain ⟨columns, rows, total⟩ := c
    obtain rfl : rows = [] := h hu
    rw [hu, run_close_async, run_close_blocking]
  · rw [use_async hu]

theorem replies_close_ne (h : c.rows ≠ []) :
    replies async (.close :: us) c ≠ replies blocking (.close :: us) c := by
  intro heq
  have hhead : c.rows.length = 0 := congrArg Prod.snd (List.cons.inj heq).1
  exact h (List.eq_nil_of_length_eq_zero hhead)

theorem replies_cons_iff (h : u = .close → c.rows = []) :
    replies async (u :: us) c = replies blocking (u :: us) c ↔
      replies async us ((use blocking u).run c).2 = replies blocking us ((use blocking u).run c).2 := by
  rw [replies_cons, replies_cons, run_use_async h, List.cons_inj_right]

/-- Both give the same replies and keep the same number of rows, if and only if no closing finds any
rows left. -/
theorem replies_agree_iff (us : List Use) (c : Buffered) :
    replies async us c = replies blocking us c ↔
      ∀ n, us[n]? = some .close → (after blocking (us.take n) c).rows = [] := by
  induction us generalizing c with
  | nil => simp [replies]
  | cons u us ih =>
    -- No closing in the run finds rows: the first use is none that does, nor any of the later ones.
    have hsplit : (∀ n, (u :: us)[n]? = some .close → (after blocking ((u :: us).take n) c).rows = []) ↔
        (u = .close → c.rows = []) ∧ ∀ n, us[n]? = some .close →
          (after blocking (us.take n) ((use blocking u).run c).2).rows = [] := by
      constructor
      · intro h
        exact ⟨fun hu ↦ h 0 (congrArg some hu), fun n hn ↦ h (n + 1) hn⟩
      · rintro ⟨hfirst, hrest⟩ (_ | n) hn
        · exact hfirst (Option.some.inj hn)
        · exact hrest n hn
    rw [hsplit]
    by_cases hclose : u = .close → c.rows = []
    · rw [replies_cons_iff hclose, ih]
      exact ⟨fun h ↦ ⟨hclose, h⟩, And.right⟩
    · refine iff_of_false ?_ fun h ↦ hclose h.1
      obtain ⟨rfl, hrows⟩ := Classical.not_imp.1 hclose
      exact replies_close_ne hrows

/-- Closing one of them with a row left drops the row, closing the other one does not. -/
theorem closed_cursors_differ :
    let c := ofRows [⟨"n", none, none⟩] [[.null]]
    replies blocking [.close, .fetchOne] c = [(.closed, 0), (.row none, 0)] ∧
      replies async [.close, .fetchOne] c = [(.closed, 1), (.row (some [.null]), 0)] :=
  ⟨rfl, rfl⟩

end BoundSql.Cursor.Buffered
