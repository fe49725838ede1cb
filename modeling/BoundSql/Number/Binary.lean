import BoundSql.Number.Power

namespace BoundSql

structure FloatFormat where
  fraction : Nat
  exponent : Nat
  deriving Repr, DecidableEq

namespace FloatFormat

def single : FloatFormat := ⟨23, 8⟩

def double : FloatFormat := ⟨52, 11⟩

def width (f : FloatFormat) : Nat := 1 + f.exponent + f.fraction

def minExponent (f : FloatFormat) : Int := 2 - 2 ^ (f.exponent - 1) - f.fraction

def infinityField (f : FloatFormat) : Nat := (2 ^ f.exponent - 1) * 2 ^ f.fraction

end FloatFormat

structure Binary (f : FloatFormat) where
  bits : BitVec f.width
  deriving DecidableEq

instance (f : FloatFormat) : Repr (Binary f) := ⟨fun x _ ↦ repr x.bits⟩

abbrev Binary32 := Binary .single

abbrev Binary64 := Binary .double

namespace Binary

variable {f g : FloatFormat}

def ofNatBits (f : FloatFormat) (n : Nat) : Binary f := ⟨BitVec.ofNat _ n⟩

def isNegative (x : Binary f) : Bool := x.bits.msb

def field (x : Binary f) : Nat := x.bits.toNat % 2 ^ (f.exponent + f.fraction)

def isNaN (x : Binary f) : Bool := f.infinityField < x.field

def isInfinite (x : Binary f) : Bool := x.field == f.infinityField

def isZero (x : Binary f) : Bool := x.field == 0

def pack (negative : Bool) (field : Nat) : Binary f :=
  ofNatBits f ((if negative then 2 ^ (f.exponent + f.fraction) else 0) + field)

def nan : Binary f := pack false (f.infinityField + 2 ^ (f.fraction - 1))

def infinity (negative : Bool) : Binary f := pack negative f.infinityField

def zero (negative : Bool) : Binary f := pack negative 0

def significand (x : Binary f) : Nat :=
  if x.field < 2 ^ f.fraction then x.field else 2 ^ f.fraction + x.field % 2 ^ f.fraction

def scale (x : Binary f) : Int :=
  if x.field < 2 ^ f.fraction then f.minExponent
  else f.minExponent + (x.field / 2 ^ f.fraction - 1 : Nat)

def ratio (m : Nat) (e : Int) : Nat × Nat := (m * 2 ^ e.toNat, 2 ^ (-e).toNat)

def roundHalfEven (num den : Nat) : Nat :=
  let q := num / den
  let r := num % den
  if 2 * r < den then q else if den < 2 * r then q + 1 else q + q % 2

def ofRatio (negative : Bool) (num den : Nat) : Binary f :=
  if num = 0 then zero negative
  else
    let guess : Int := (num.log2 : Int) - den.log2
    let r := ratio num (-guess)
    let top := if den * r.2 ≤ r.1 then guess else guess - 1
    let e := max f.minExponent (top - f.fraction)
    let r := ratio num (-e)
    let m := roundHalfEven r.1 (den * r.2)
    let field := m + (e - f.minExponent).toNat * 2 ^ f.fraction
    if field < f.infinityField then pack negative field else infinity negative

def ofInt (n : Int) : Binary f := ofRatio (n < 0) n.natAbs 1

def convert (g : FloatFormat) (x : Binary f) : Binary g :=
  if x.isNaN then nan
  else if x.isInfinite then infinity x.isNegative
  else let r := ratio x.significand x.scale; ofRatio x.isNegative r.1 r.2

/-- The sum; the sum of opposite infinities is not a number. -/
def add (x y : Binary f) : Binary f :=
  if x.isNaN || y.isNaN then nan
  else if x.isInfinite then
    if y.isInfinite && x.isNegative != y.isNegative then nan else x
  else if y.isInfinite then y
  else
    let e := min x.scale y.scale
    let part (z : Binary f) : Int :=
      let n : Int := z.significand * 2 ^ (z.scale - e).toNat
      if z.isNegative then -n else n
    let n := part x + part y
    let r := ratio n.natAbs e
    if n = 0 then zero (x.isNegative && y.isNegative) else ofRatio (n < 0) r.1 r.2

def mul (x y : Binary f) : Binary f :=
  let r := ratio (x.significand * y.significand) (x.scale + y.scale)
  ofRatio (x.isNegative != y.isNegative) r.1 r.2

def div (x y : Binary f) : Binary f :=
  let r := ratio x.significand (x.scale - y.scale)
  ofRatio (x.isNegative != y.isNegative) r.1 (r.2 * y.significand)

/-- Numeric equality: a NaN equals nothing, and the two zeros are equal. -/
def equal (x y : Binary f) : Bool :=
  !x.isNaN && !y.isNaN && (x == y || (x.isZero && y.isZero))

def nearestInt (x : Binary f) : Int :=
  let r := ratio x.significand x.scale
  let n : Int := (2 * r.1 + r.2) / (2 * r.2)
  if x.isNegative then -n else n

end Binary

end BoundSql
