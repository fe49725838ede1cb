import BoundSql.Number.Binary
import BoundSql.Number.Text

namespace BoundSql.Binary

variable {f : FloatFormat}

/-- Beyond this power of ten, whatever the digits, a number of a supported format is zero or
infinite. -/
def powerLimit : Int := 400

def ofScientific (negative : Bool) (m : Nat) (e : Int) : Binary f :=
  let size : Int := (Text.digits m).length
  if m = 0 then zero negative
  else if powerLimit < e + size then infinity negative
  else if e + size < -powerLimit then zero negative
  else ofRatio negative (m * 10 ^ e.toNat) (10 ^ (-e).toNat)

def exponent? (s : List Char) : Option Int :=
  match s with
  | '-' :: r => (Text.readNat? r).map fun n ↦ -(n : Int)
  | '+' :: r => (Text.readNat? r).map Int.ofNat
  | r => (Text.readNat? r).map Int.ofNat

def readUnsigned? (s : List Char) : Option (Binary f) := do
  let isMark (c : Char) : Bool := c == 'e' || c == 'E'
  let mantissa := s.takeWhile fun c ↦ !isMark c
  let whole := mantissa.takeWhile (· ≠ '.')
  let fraction := (mantissa.dropWhile (· ≠ '.')).drop 1
  let m ← Text.readNat? (whole ++ fraction)
  let e ← match s.dropWhile fun c ↦ !isMark c with
    | [] => some 0
    | _ :: r => exponent? r
  return ofScientific false m (e - fraction.length)

def neg (x : Binary f) : Binary f := pack (!x.isNegative) x.field

def readSigned? (s : List Char) : Option (Binary f) :=
  match s with
  | '-' :: r => (readUnsigned? r).map neg
  | '+' :: r => readUnsigned? r
  | r => readUnsigned? r

end BoundSql.Binary
