import BoundSql.Number.Power
import BoundSql.Number.Text

namespace BoundSql

structure Decimal where
  negative : Bool
  mantissa : Nat
  scale : Nat
  mantissa_lt : mantissa < 2 ^ 96
  scale_le : scale ≤ 28
  deriving Repr, DecidableEq

namespace Decimal

def maxScale : Nat := 28

def signed? (negative : Bool) (mantissa scale : Nat) : Option Decimal :=
  if h : mantissa < 2 ^ 96 ∧ scale ≤ 28 then some ⟨negative, mantissa, scale, h.1, h.2⟩
  else none

def make? (negative : Bool) (mantissa scale : Nat) : Option Decimal :=
  signed? (negative && mantissa != 0) mantissa scale

def coefficient (d : Decimal) : Int := if d.negative then -(d.mantissa : Int) else d.mantissa

def ofInt? (n : Int) : Option Decimal := make? (n < 0) n.natAbs 0

/-- Numeric equality: the number of places does not matter. -/
def equal (a b : Decimal) : Bool :=
  a.coefficient * 10 ^ b.scale == b.coefficient * 10 ^ a.scale

def text (d : Decimal) : List Char :=
  let ds := Text.padded (d.scale + 1) d.mantissa
  let whole := ds.take (ds.length - d.scale)
  let fraction := ds.drop (ds.length - d.scale)
  (if d.negative then ['-'] else []) ++ whole ++ (if d.scale = 0 then [] else '.' :: fraction)

/-- The character after the last digit that fits rounds the mantissa, if it is a digit; a half goes
up. A mantissa that rounding makes too large gives up its last place. The digits and underscores
behind it are not looked at further. -/
def roundAt (mantissa scale : Nat) (c : Char) (rest : List Char) : Option (Nat × Nat) :=
  if !(c :: rest).all fun d ↦ Text.isDigit d || d = '_' then none
  else if c = '_' ∨ Text.digitVal c < 5 then some (mantissa, scale)
  else if mantissa + 1 < 2 ^ 96 then some (mantissa + 1, scale)
  else if scale = 0 then none
  else some ((mantissa + 5) / 10, scale - 1)

def longMantissa : Nat := (2 ^ 64 - 1) / 10 - 255

/-- Reads the digits after the point behind a long mantissa. An underscore behind the last place
opens it for one digit more, if the mantissa has room for it. -/
def readLong (mantissa scale : Nat) (opened : Bool) : List Char → Option (Nat × Nat)
  | [] => some (mantissa, scale)
  | c :: r =>
    if c = '_' then readLong mantissa scale true r
    else if maxScale ≤ scale ∧ !opened then roundAt mantissa scale c r
    else if Text.isDigit c then
      let next := 10 * mantissa + Text.digitVal c
      if next < 2 ^ 96 then readLong next (scale + 1) false r else roundAt mantissa scale c r
    else none

def readFraction (seen : Bool) (mantissa scale : Nat) : List Char → Option (Nat × Nat)
  | [] => if seen then some (mantissa, scale) else none
  | c :: r =>
    if maxScale ≤ scale then roundAt mantissa scale c r
    else if Text.isDigit c then
      let next := 10 * mantissa + Text.digitVal c
      if longMantissa ≤ next ∧ scale + 1 < maxScale then readLong next (scale + 1) false r
      else readFraction true next (scale + 1) r
    else if c = '_' ∧ seen then readFraction seen mantissa scale r
    else none

def readWhole (seen : Bool) (mantissa : Nat) : List Char → Option (Nat × Nat)
  | [] => if seen then some (mantissa, 0) else none
  | c :: r =>
    if Text.isDigit c then
      let next := 10 * mantissa + Text.digitVal c
      if next < 2 ^ 96 then readWhole true next r else none
    else if c = '.' then
      if longMantissa ≤ mantissa then readLong mantissa 0 false r
      else readFraction seen mantissa 0 r
    else if c = '_' ∧ seen then readWhole seen mantissa r
    else none

/-- Reads a number without an exponent. The count of places starts again behind the last one. -/
def readPlain? (s : List Char) : Option Decimal := do
  let (negative, r) := match s with
    | '-' :: r => (true, r)
    | '+' :: r => (false, r)
    | _ => (false, s)
  let (mantissa, scale) ← readWhole false 0 r
  make? negative mantissa (scale % (maxScale + 1))

/-- Moves the point to the left by adding places. Those beyond the last one are rounded away, a half
upwards. -/
def shiftLeft? (d : Decimal) (places : Nat) : Option Decimal :=
  if maxScale < places then none
  else
    let excess := d.scale + places - maxScale
    if excess = 0 then signed? d.negative d.mantissa (d.scale + places)
    else signed? d.negative ((d.mantissa + 10 ^ excess / 2) / 10 ^ excess) maxScale

def shiftRight? (d : Decimal) (places : Nat) : Option Decimal :=
  if places ≤ d.scale then signed? d.negative d.mantissa (d.scale - places)
  else if maxScale < places - d.scale then none
  else signed? d.negative (d.mantissa * 10 ^ (places - d.scale)) 0

def ofText? (s : List Char) : Option Decimal := do
  let isMark (c : Char) : Bool := c == 'e' || c == 'E'
  let d ← readPlain? (s.takeWhile fun c ↦ !isMark c)
  match s.dropWhile fun c ↦ !isMark c with
  | [] => some d
  | _ :: '-' :: r => d.shiftLeft? (← Text.readUnsigned? (2 ^ 32 - 1) r)
  | _ :: r => d.shiftRight? (← Text.readUnsigned? (2 ^ 32 - 1) r)

end Decimal

end BoundSql
