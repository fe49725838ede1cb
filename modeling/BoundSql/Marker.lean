import BoundSql.Number.Checked

namespace BoundSql

/-- What a driver expects in place of a bound parameter. -/
inductive Marker
  | fixed (mark : String)
  | numbered (lead : String) (start : UInt64)
  deriving Repr, DecidableEq

namespace Marker

def questionMark : Marker := fixed "?"

def format : Marker := fixed "%s"

def dollar : Marker := numbered "$" 1

/-- The markers still to be handed out. -/
inductive Generator
  | fixed (mark : String)
  | numbered (lead : String) (next : UInt64)
  deriving Repr, DecidableEq

namespace Generator

/-- The next marker and the generator after it. Counting is checked, and done before the marker is
handed out: the last number of the range never is. -/
def next : Generator → Except String String × Generator
  | fixed mark => (.ok mark, fixed mark)
  | numbered lead n =>
    match checked "add" UInt64.size (n.toNat + 1) with
    | .ok after => (.ok (lead ++ toString n.toNat), numbered lead (.ofNat after))
    | .error message => (.error message, numbered lead n)

section

variable {lead : String} {n : UInt64}

theorem next_numbered_of_lt (h : n.toNat + 1 < UInt64.size) :
    next (numbered lead n) =
      (.ok (lead ++ toString n.toNat), numbered lead (.ofNat (n.toNat + 1))) := by
  rw [next, checked_of_lt h]

theorem next_numbered_of_le (h : UInt64.size ≤ n.toNat + 1) :
    next (numbered lead n) = (.error "attempt to add with overflow", numbered lead n) := by
  rw [next, checked_of_le h]
  rfl

end

def take : Nat → Generator → Except String (List String)
  | 0, _ => .ok []
  | n + 1, g => do return (← g.next.1) :: (← take n g.next.2)

end Generator

def generator : Marker → Generator
  | fixed mark => .fixed mark
  | numbered lead start => .numbered lead start

end Marker

end BoundSql
