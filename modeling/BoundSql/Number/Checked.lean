namespace BoundSql

/-- A result that has to find its place in a word of `size` values. -/
def checked (operation : String) (size n : Nat) : Except String Nat :=
  if n < size then .ok n else .error s!"attempt to {operation} with overflow"

theorem checked_of_lt {operation : String} {size n : Nat} (h : n < size) :
    checked operation size n = .ok n := if_pos h

theorem checked_of_le {operation : String} {size n : Nat} (h : size ≤ n) :
    checked operation size n = .error s!"attempt to {operation} with overflow" :=
  if_neg (by omega)

end BoundSql
