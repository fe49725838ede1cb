import BoundSql.Sqlite.Statement

namespace BoundSql.Sqlite

namespace Wire

def fraction? : Wire → Option (Int × Nat)
  | integer n => some (n.val, 1)
  | real x =>
    let sign (n : Nat) : Int := if x.isNegative then -n else n
    if x.isNaN then none
    else if x.isInfinite then some (sign 1, 0)
    else
      let r := Binary.ratio x.significand x.scale
      some (sign r.1, r.2)
  | _ => none

def compareFractions (a b : Int × Nat) : Ordering :=
  if a.2 = 0 ∧ b.2 = 0 then compare a.1 b.1 else compare (a.1 * b.2) (b.1 * a.2)

def compareBytes : Utf8.Bytes → Utf8.Bytes → Ordering
  | [], [] => .eq
  | [], _ :: _ => .lt
  | _ :: _, [] => .gt
  | a :: r, b :: s => if a < b then .lt else if b < a then .gt else compareBytes r s

def rank : Wire → Nat
  | null => 0
  | integer _ | real _ => 1
  | text _ => 2
  | blob _ => 3

def order (a b : Wire) : Ordering :=
  match a, b with
  | text x, text y | blob x, blob y => compareBytes x y
  | _, _ =>
    match a.fraction?, b.fraction? with
    | some x, some y => compareFractions x y
    | _, _ => compare a.rank b.rank

def isNull : Wire → Bool
  | null => true
  | _ => false

def ofReal (x : Binary64) : Wire := if x.isNaN then null else real x

def bound : Wire → Wire
  | real x => ofReal x
  | w => w

def numberIn (s : List Char) : Wire :=
  let s := s.dropWhile Token.isSpace
  let (negative, r) := match s with
    | '-' :: r => (true, r)
    | '+' :: r => (false, r)
    | _ => (false, s)
  let n := Token.number r
  let signed (k : Int) : Int := if negative then -k else k
  let real : Wire := match (Binary.readUnsigned? n : Option Binary64) with
    | some x => ofReal (if negative then x.neg else x)
    | none => integer .zero
  if n.all Text.isDigit then
    ((Sized.ofInt? .i64 (signed (Text.ofDigits n))).map integer).getD real
  else real

def numeric : Wire → Wire
  | text b | blob b => numberIn (Utf8.decodeLossy b).toList
  | w => w

def toReal : Wire → Binary64
  | integer n => Binary.ofInt n.val
  | real x => x
  | _ => Binary.zero false

def neg (w : Wire) : Wire :=
  match w.numeric with
  | integer n => ((Sized.ofInt? .i64 (-n.val)).map integer).getD (real (Binary.ofInt (-n.val)))
  | real x => real x.neg
  | w => w

/-- The sum of numbers; an integer sum that does not fit is a real one. -/
def add (a b : Wire) : Wire :=
  match a.numeric, b.numeric with
  | null, _ | _, null => null
  | integer m, integer n =>
    match Sized.ofInt? .i64 (m.val + n.val) with
    | some k => integer k
    | none => ofReal ((Binary.ofInt m.val).add (Binary.ofInt n.val))
  | x, y => ofReal (x.toReal.add y.toReal)

def ofBool (b : Bool) : Wire :=
  integer (if b then .one else .zero)

def holds (w : Wire) : Bool :=
  match w.numeric with
  | integer n => n.val != 0
  | real x => !x.isZero
  | _ => false

end Wire

namespace Operator

def accepts : Operator → Ordering → Bool
  | equals, o => o == .eq
  | differs, o => o != .eq
  | less, o => o == .lt
  | lessOrEqual, o => o != .gt
  | greater, o => o == .gt
  | greaterOrEqual, o => o != .lt
  | plus, _ | minus, _ => false

def apply (o : Operator) (a b : Wire) : Wire :=
  match o with
  | plus => a.add b
  | minus => a.add b.neg
  | _ => if a.isNull || b.isNull then .null else .ofBool (o.accepts (a.order b))

end Operator

structure Scope where
  columns : List (String × Wire)
  parameters : List Wire
  count : Nat

def sameName (a b : String) : Bool := Token.lower a.toList == Token.lower b.toList

namespace Expr

def check (columns : List String) : Expr → Except Refusal Unit
  | column name offset =>
    if columns.any (sameName name) then .ok () else .error (.noSuchColumn name offset)
  | negate e => e.check columns
  | binary _ a b => do
    a.check columns
    b.check columns
  | literal _ | parameter _ | count => .ok ()

def hasCount : Expr → Bool
  | count => true
  | negate e => e.hasCount
  | binary _ a b => a.hasCount || b.hasCount
  | literal _ | parameter _ | column _ _ => false

def eval (s : Scope) : Expr → Wire
  | literal w => w
  | parameter i => ((s.parameters[i]?).getD .null).bound
  | column name _ => ((s.columns.find? fun c ↦ sameName name c.1).map Prod.snd).getD .null
  | count => ((Sized.ofInt? .i64 s.count).map Wire.integer).getD .null
  | negate e => (e.eval s).neg
  | binary o a b => o.apply (a.eval s) (b.eval s)

end Expr

end BoundSql.Sqlite
