namespace BoundSql.Text

def digitVal (c : Char) : Nat := c.toNat - '0'.toNat

def isDigit (c : Char) : Bool := '0' ≤ c && c ≤ '9'

def hexVal? (c : Char) : Option Nat :=
  if Text.isDigit c then some (Text.digitVal c)
  else if 'a' ≤ c ∧ c ≤ 'f' then some (c.toNat - 'a'.toNat + 10)
  else if 'A' ≤ c ∧ c ≤ 'F' then some (c.toNat - 'A'.toNat + 10)
  else none

def ofDigits (s : List Char) : Nat := s.foldl (fun n c ↦ 10 * n + digitVal c) 0

def readNat? (s : List Char) : Option Nat :=
  if s ≠ [] ∧ s.all isDigit then some (ofDigits s) else none

def readUnsigned? (bound : Nat) (s : List Char) : Option Nat := do
  let n ← readNat? (match s with | '+' :: r => r | _ => s)
  if n ≤ bound then some n else none

def readSigned? (lo hi : Int) (s : List Char) : Option Int := do
  let n : Int ← match s with
    | '-' :: r => (readNat? r).map fun n ↦ -(n : Int)
    | '+' :: r => (readNat? r).map Int.ofNat
    | _ => (readNat? s).map Int.ofNat
  if lo ≤ n ∧ n ≤ hi then some n else none

def digits (n : Nat) : List Char := Nat.toDigits 10 n

def padded (width n : Nat) : List Char :=
  List.replicate (width - (digits n).length) '0' ++ digits n

end BoundSql.Text
