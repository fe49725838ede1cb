import BoundSql.Calendar.Basic
import BoundSql.Number.Text

namespace BoundSql

open Text (padded digits)

namespace Date

def yearText (year : Int) : List Char :=
  if 0 ≤ year ∧ year ≤ 9999 then padded 4 year.natAbs
  else (if year < 0 then '-' else '+') :: padded 4 year.natAbs

def text (d : Date) : List Char :=
  yearText d.year ++ '-' :: padded 2 d.month ++ '-' :: padded 2 d.day

end Date

namespace TimeOfDay

def fractionText (nano : Nat) : List Char :=
  if nano = 0 then []
  else if nano % 10 ^ 6 = 0 then '.' :: padded 3 (nano / 10 ^ 6)
  else if nano % 10 ^ 3 = 0 then '.' :: padded 6 (nano / 10 ^ 3)
  else '.' :: padded 9 nano

def text (t : TimeOfDay) : List Char :=
  padded 2 t.hour ++ ':' :: padded 2 t.minute ++
    ':' :: padded 2 (t.second + t.nano / 10 ^ 9) ++ fractionText (t.nano % 10 ^ 9)

end TimeOfDay

namespace DateTime

def textWith (separator : Char) (d : DateTime) : List Char :=
  d.date.text ++ separator :: d.time.text

def text (d : DateTime) : List Char := d.textWith ' '

end DateTime

end BoundSql
