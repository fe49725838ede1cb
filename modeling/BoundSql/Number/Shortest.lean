import BoundSql.Number.Binary
import BoundSql.Number.Text

namespace BoundSql.Shortest

variable {f : FloatFormat}

structure Digits where
  coefficient : Nat
  exponent : Int
  deriving Repr, DecidableEq

inductive Tie
  | up
  | even
  deriving Repr, DecidableEq

/-- A number and the ends of the interval that rounds to it, over one denominator. -/
structure Interval where
  lo : Nat
  mid : Nat
  hi : Nat
  den : Nat
  closed : Bool
  deriving Repr, DecidableEq

/-- What rounds to a finite positive magnitude. Just above a power of two the interval reaches down
only half as far. -/
def interval (x : Binary f) : Interval :=
  let m := x.significand
  let low := if m = 2 ^ f.fraction ∧ 2 ^ (f.fraction + 1) ≤ x.field then 4 * m - 1 else 4 * m - 2
  let r := Binary.ratio 1 (x.scale - 2)
  { lo := low * r.1, mid := 4 * m * r.1, hi := (4 * m + 2) * r.1, den := r.2, closed := m % 2 = 0 }

def topExponent (num den : Nat) : Int :=
  if den ≤ num then (Text.digits (num / den)).length
  else
    let k := (Text.digits (den / num)).length - 1
    if num * 10 ^ k = den then 1 - (k : Int) else -(k : Int)

namespace Interval

def holds (i : Interval) (e : Int) (c : Nat) : Bool :=
  let p := 10 ^ (-e).toNat
  let v := c * 10 ^ e.toNat * i.den
  if i.closed then i.lo * p ≤ v && v ≤ i.hi * p else i.lo * p < v && v < i.hi * p

def onGrid? (i : Interval) (tie : Tie) (e : Int) : Option Nat :=
  let p := 10 ^ (-e).toNat
  let d := 10 ^ e.toNat * i.den
  let c := i.mid * p / d
  let r := i.mid * p % d
  match i.holds e c, i.holds e (c + 1) with
  | false, false => none
  | true, false => some c
  | false, true => some (c + 1)
  | true, true =>
    if 2 * r < d then some c
    else if d < 2 * r then some (c + 1)
    else match tie with
      | .up => some (c + 1)
      | .even => some (c + c % 2)

def search (i : Interval) (tie : Tie) (top : Int) : Nat → Nat → Digits
  | 0, _ => ⟨0, 0⟩
  | fuel + 1, tried =>
    let e := top - (tried + 1 : Nat)
    match i.onGrid? tie e with
    | some c => ⟨c, e⟩
    | none => search i tie top fuel (tried + 1)

end Interval

def maxDigits : Nat := 17

def stripZeros : Nat → Digits → Digits
  | 0, d => d
  | fuel + 1, d =>
    if d.coefficient % 10 = 0 then stripZeros fuel ⟨d.coefficient / 10, d.exponent + 1⟩ else d

def digits (tie : Tie) (x : Binary f) : Digits :=
  let i := interval x
  stripZeros maxDigits (i.search tie (topExponent i.mid i.den) maxDigits 0)

/-- Positional notation: all zeros are written out, and there is a point only before a fraction. -/
def positional (d : Digits) : List Char :=
  if 0 ≤ d.exponent then Text.digits d.coefficient ++ List.replicate d.exponent.toNat '0'
  else
    let places := (-d.exponent).toNat
    let ds := Text.padded (places + 1) d.coefficient
    ds.take (ds.length - places) ++ '.' :: ds.drop (ds.length - places)

end BoundSql.Shortest
