/-! Points in time, as the fields of a UTC clock in the Gregorian calendar. -/

namespace MemberAgent

namespace Calendar

def isLeap (year : Int) : Prop := year % 4 = 0 ∧ (year % 100 ≠ 0 ∨ year % 400 = 0)

instance (year : Int) : Decidable (isLeap year) := inferInstanceAs (Decidable (_ ∧ _))

def daysInMonth (year : Int) : Nat → Nat
  | 2 => if isLeap year then 29 else 28
  | 4 | 6 | 9 | 11 => 30
  | _ => 31

def earliestYear : Int := -262143
def latestYear : Int := 262142

end Calendar

open Calendar in
/-- A second of 60 is a leap second. -/
structure Timestamp where
  year : Int
  month : Nat
  day : Nat
  hour : Nat
  minute : Nat
  second : Nat
  nanosecond : Nat
  isDate : earliestYear ≤ year ∧ year ≤ latestYear ∧ 1 ≤ month ∧ month ≤ 12 ∧
    1 ≤ day ∧ day ≤ daysInMonth year month
  isTime : hour < 24 ∧ minute < 60 ∧ second ≤ 60 ∧ nanosecond < 1000000000
  deriving DecidableEq

namespace Timestamp

open Calendar

def ofFields? (year : Int) (month day hour minute second nanosecond : Nat) : Option Timestamp :=
  if isDate : earliestYear ≤ year ∧ year ≤ latestYear ∧ 1 ≤ month ∧ month ≤ 12 ∧
      1 ≤ day ∧ day ≤ daysInMonth year month then
    if isTime : hour < 24 ∧ minute < 60 ∧ second ≤ 60 ∧ nanosecond < 1000000000 then
      some ⟨year, month, day, hour, minute, second, nanosecond, isDate, isTime⟩
    else none
  else none

theorem ofFields?_self (t : Timestamp) :
    ofFields? t.year t.month t.day t.hour t.minute t.second t.nanosecond = some t := by
  rw [ofFields?, dif_pos t.isDate, dif_pos t.isTime]

/-- The day before or after a date. -/
def previousDay (year : Int) (month day : Nat) : Int × Nat × Nat :=
  if 1 < day then (year, month, day - 1)
  else if 1 < month then (year, month - 1, daysInMonth year (month - 1))
  else (year - 1, 12, 31)

def nextDay (year : Int) (month day : Nat) : Int × Nat × Nat :=
  if day < daysInMonth year month then (year, month, day + 1)
  else if month < 12 then (year, month + 1, 1)
  else (year + 1, 1, 1)

/-- The same instant when the clock that showed `t` was `offset` minutes ahead of UTC, less than a
day. -/
def ofLocal (t : Timestamp) (offset : Int) : Option Timestamp :=
  let minutes : Int := t.hour * 60 + t.minute - offset
  let (year, month, day) :=
    if minutes < 0 then previousDay t.year t.month t.day
    else if minutes < 24 * 60 then (t.year, t.month, t.day)
    else nextDay t.year t.month t.day
  let ofDay := (minutes % (24 * 60)).toNat
  ofFields? year month day (ofDay / 60) (ofDay % 60) t.second t.nanosecond

theorem ofLocal_zero (t : Timestamp) : t.ofLocal 0 = some t := by
  have isTime := t.isTime
  have notNegative : ¬ ((t.hour : Int) * 60 + t.minute - 0 < 0) := by omega
  have sameDay : (t.hour : Int) * 60 + t.minute - 0 < 24 * 60 := by omega
  have ofDay :
      (((t.hour : Int) * 60 + t.minute - 0) % (24 * 60)).toNat = t.hour * 60 + t.minute := by
    omega
  have hour : (t.hour * 60 + t.minute) / 60 = t.hour := by omega
  have minute : (t.hour * 60 + t.minute) % 60 = t.minute := by omega
  simp only [ofLocal, notNegative, sameDay, if_false, if_true, ofDay, hour, minute]
  exact ofFields?_self t

end Timestamp

end MemberAgent
