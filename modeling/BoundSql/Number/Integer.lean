import BoundSql.Number.Power

namespace BoundSql

inductive Width
  | i8 | i16 | i32 | i64 | u8 | u16 | u32 | u64
  deriving Repr, DecidableEq

namespace Width

def name : Width → String
  | i8 => "i8" | i16 => "i16" | i32 => "i32" | i64 => "i64"
  | u8 => "u8" | u16 => "u16" | u32 => "u32" | u64 => "u64"

def lo : Width → Int
  | i8 => -2 ^ 7 | i16 => -2 ^ 15 | i32 => -2 ^ 31 | i64 => -2 ^ 63
  | _ => 0

def hi : Width → Int
  | i8 => 2 ^ 7 - 1 | i16 => 2 ^ 15 - 1 | i32 => 2 ^ 31 - 1 | i64 => 2 ^ 63 - 1
  | u8 => 2 ^ 8 - 1 | u16 => 2 ^ 16 - 1 | u32 => 2 ^ 32 - 1 | u64 => 2 ^ 64 - 1

theorem lo_nonpos (w : Width) : w.lo ≤ 0 := by cases w <;> decide

theorem one_le_hi (w : Width) : 1 ≤ w.hi := by cases w <;> decide

theorem lo_le_one (w : Width) : w.lo ≤ 1 := Int.le_trans w.lo_nonpos (by decide)

theorem hi_nonneg (w : Width) : 0 ≤ w.hi := Int.le_trans (by decide) w.one_le_hi

/-- The numbers in the range. -/
def Contains (w : Width) (n : Int) : Prop := w.lo ≤ n ∧ n ≤ w.hi

end Width

structure Sized (w : Width) where
  val : Int
  lo_le : w.lo ≤ val
  le_hi : val ≤ w.hi
  deriving Repr, DecidableEq

namespace Sized

variable {w : Width}

@[ext] theorem ext {a b : Sized w} (h : a.val = b.val) : a = b := by
  cases a; cases b; simp_all

def zero : Sized w := ⟨0, w.lo_nonpos, w.hi_nonneg⟩

def one : Sized w := ⟨1, w.lo_le_one, w.one_le_hi⟩

def ofInt? (w : Width) (n : Int) : Option (Sized w) :=
  if h : w.lo ≤ n ∧ n ≤ w.hi then some ⟨n, h.1, h.2⟩ else none

theorem ofInt?_of_contains {n : Int} (h : w.Contains n) : ofInt? w n = some ⟨n, h.1, h.2⟩ :=
  dif_pos h

theorem ofInt?_of_not_contains {n : Int} (h : ¬w.Contains n) : ofInt? w n = none := dif_neg h

theorem ofInt?_eq_some_iff {n : Int} {a : Sized w} : ofInt? w n = some a ↔ a.val = n := by
  unfold ofInt?
  split
  · constructor
    · intro h; cases h; rfl
    · intro h; exact congrArg some (ext h.symm)
  · next h =>
    constructor
    · intro hs; simp at hs
    · intro hv; exact absurd ⟨hv ▸ a.lo_le, hv ▸ a.le_hi⟩ h

end Sized

end BoundSql
