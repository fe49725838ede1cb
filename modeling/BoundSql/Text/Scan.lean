import BoundSql.Number.Text

namespace BoundSql

abbrev Scan := StateT (List Char) Option

namespace Scan

variable {α : Type}

def refuse : Scan α := fun _ ↦ none

def peek : Scan (Option Char) := do return (← get).head?

def skip (n : Nat) : Scan Unit := modify (·.drop n)

def takeWhile (p : Char → Bool) : Scan (List Char) := do
  let s ← get
  set (s.dropWhile p)
  return s.takeWhile p

def takeSome (p : Char → Bool) : Scan (List Char) := do
  match ← takeWhile p with
  | [] => refuse
  | cs => return cs

def take? (p : Char → Bool) : Scan (Option Char) := do
  match ← get with
  | c :: r =>
    if p c then
      set r
      return some c
    else return none
  | [] => return none

def accept (t : String) : Scan Bool := do
  let s ← get
  if t.toList.isPrefixOf s then
    set (s.drop t.length)
    return true
  else return false

def expect (t : String) : Scan Unit := do
  if !(← accept t) then refuse

def atEnd : Scan Bool := do return (← get).isEmpty

def whole? (p : Scan α) (s : List Char) : Option α :=
  match p.run s with
  | some (a, []) => some a
  | _ => none

def digits (n : Nat) : Scan Nat := do
  let s ← get
  let ds := s.take n
  if ds.length = n ∧ ds.all Text.isDigit then
    set (s.drop n)
    return Text.ofDigits ds
  else refuse

def codePoint (n : Nat) : Scan Char := do
  let s ← get
  match (s.take n).mapM Text.hexVal? with
  | some ds =>
    let code := ds.foldl (fun m d ↦ 16 * m + d) 0
    if ds.length = n ∧ code.isValidChar then
      set (s.drop n)
      return Char.ofNat code
    else refuse
  | none => refuse

end Scan

end BoundSql
