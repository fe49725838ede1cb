import BoundSql.Calendar.Basic
import BoundSql.Number.Text
import BoundSql.Text.Blank

namespace BoundSql.Calendar

open Text (isDigit ofDigits skipBlanks)

/-- A reader takes the front of a text and leaves the rest. -/
abbrev Reader := StateT (List Char) Option

namespace Reader

/-- Between one and `most` digits; their value must fit 63 bits. -/
def number (most : Nat) : Reader Nat := do
  let s ← get
  let ds := (s.take most).takeWhile isDigit
  if ds = [] ∨ 2 ^ 63 ≤ ofDigits ds then failure
  set (s.drop ds.length)
  return ofDigits ds

def blanks : Reader Unit := modify skipBlanks

def mark (c : Char) : Reader Unit := do
  match ← get with
  | d :: r => if d = c then set r else failure
  | [] => failure

def spacedMark (c : Char) : Reader Unit := do blanks; mark c

def year : Reader Int := do
  blanks
  let s ← get
  match s with
  | '-' :: r => set r; return -(← number r.length)
  | '+' :: r => set r; return (← number r.length)
  | _ => return (← number 4)

def field (lo hi : Nat) : Reader Nat := do
  blanks
  let n ← number 2
  if lo ≤ n ∧ n ≤ hi then return n else failure

def fraction : Reader Nat := do
  match ← get with
  | '.' :: r =>
    let ds := (r.take 9).takeWhile isDigit
    if ds = [] then failure
    set (r.dropWhile isDigit)
    return ofDigits ds * 10 ^ (9 - ds.length)
  | _ => return 0

def date : Reader Date := do
  let y ← year
  spacedMark '-'
  let m ← field 1 12
  spacedMark '-'
  let d ← field 1 31
  blanks
  Date.make? y m d

/-- A second and its fraction; second 60 runs on from second 59. -/
def seconds : Reader (Nat × Nat) := do
  spacedMark ':'
  let s ← field 0 60
  let n ← fraction
  blanks
  return if s = 60 then (59, 10 ^ 9 + n) else (s, n)

def hourMinute : Reader (Nat × Nat) := do
  let h ← field 0 23
  spacedMark ':'
  return (h, ← field 0 59)

def timeOfDay : Reader TimeOfDay := do
  let (h, m) ← hourMinute
  let (s, n) ← seconds <|> pure (0, 0)
  blanks
  TimeOfDay.make? h m s n

def dateTime : Reader DateTime := do
  let d ← date
  mark 'T'
  let (h, m) ← hourMinute
  let (s, n) ← seconds
  return ⟨d, ← TimeOfDay.make? h m s n⟩

def all? {α : Type} (r : Reader α) (s : List Char) : Option α :=
  match r.run s with
  | some (a, []) => some a
  | _ => none

end Reader

end Calendar

def Date.ofText? (s : List Char) : Option Date := Calendar.Reader.date.all? s

def TimeOfDay.ofText? (s : List Char) : Option TimeOfDay := Calendar.Reader.timeOfDay.all? s

def DateTime.ofText? (s : List Char) : Option DateTime := Calendar.Reader.dateTime.all? s

end BoundSql
