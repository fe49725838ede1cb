import BoundSql.Number.Power

namespace BoundSql

namespace Calendar

def minYear : Int := -262143

def maxYear : Int := 262142

def isLeap (year : Int) : Bool := year % 4 == 0 && (year % 100 != 0 || year % 400 == 0)

def daysIn (year : Int) (month : Nat) : Nat :=
  if month = 2 then (if isLeap year then 29 else 28)
  else if month = 4 ∨ month = 6 ∨ month = 9 ∨ month = 11 then 30
  else 31

end Calendar

structure Date where
  year : Int
  month : Nat
  day : Nat
  year_mem : Calendar.minYear ≤ year ∧ year ≤ Calendar.maxYear
  month_mem : 1 ≤ month ∧ month ≤ 12
  day_mem : 1 ≤ day ∧ day ≤ Calendar.daysIn year month
  deriving Repr, DecidableEq

namespace Date

def make? (year : Int) (month day : Nat) : Option Date :=
  if h : (Calendar.minYear ≤ year ∧ year ≤ Calendar.maxYear) ∧ (1 ≤ month ∧ month ≤ 12) ∧
      (1 ≤ day ∧ day ≤ Calendar.daysIn year month) then
    some ⟨year, month, day, h.1, h.2.1, h.2.2⟩
  else none

theorem make?_self (d : Date) : make? d.year d.month d.day = some d := by
  simp [make?, d.year_mem, d.month_mem, d.day_mem]

theorem make?_eq_some_iff {year : Int} {month day : Nat} {d : Date} :
    make? year month day = some d ↔ d.year = year ∧ d.month = month ∧ d.day = day := by
  constructor
  · intro h
    rw [make?] at h
    split at h
    · cases h
      exact ⟨rfl, rfl, rfl⟩
    · cases h
  · rintro ⟨rfl, rfl, rfl⟩
    exact make?_self d

end Date

/-- A time of day. A leap second is the nanoseconds of second 59 running on past 10 ^ 9, and it is admitted
there only: a clock whose nanoseconds are set on their own could let any second run on, but no text and
no wire value gives such a time. -/
structure TimeOfDay where
  hour : Nat
  minute : Nat
  second : Nat
  nano : Nat
  hour_lt : hour < 24
  minute_lt : minute < 60
  second_lt : second < 60
  nano_lt : nano < 2 * 10 ^ 9
  leap : 10 ^ 9 ≤ nano → second = 59
  deriving Repr, DecidableEq

namespace TimeOfDay

def make? (hour minute second nano : Nat) : Option TimeOfDay :=
  if h : hour < 24 ∧ minute < 60 ∧ second < 60 ∧ nano < 2 * 10 ^ 9 ∧
      (10 ^ 9 ≤ nano → second = 59) then
    some ⟨hour, minute, second, nano, h.1, h.2.1, h.2.2.1, h.2.2.2.1, h.2.2.2.2⟩
  else none

theorem make?_self (t : TimeOfDay) : make? t.hour t.minute t.second t.nano = some t := by
  simp only [make?, t.hour_lt, t.minute_lt, t.second_lt, t.nano_lt, true_and]
  exact dif_pos t.leap

theorem make?_eq_some_iff {hour minute second nano : Nat} {t : TimeOfDay} :
    make? hour minute second nano = some t ↔
      t.hour = hour ∧ t.minute = minute ∧ t.second = second ∧ t.nano = nano := by
  constructor
  · intro h
    rw [make?] at h
    split at h
    · cases h
      exact ⟨rfl, rfl, rfl, rfl⟩
    · cases h
  · rintro ⟨rfl, rfl, rfl, rfl⟩
    exact make?_self t

def midnight : TimeOfDay := ⟨0, 0, 0, 0, by decide, by decide, by decide, by decide, by decide⟩

end TimeOfDay

structure DateTime where
  date : Date
  time : TimeOfDay
  deriving Repr, DecidableEq

end BoundSql
