/-
  StatusStore/Model/Timestamp.lean
  ================================
  **Points in time**, to the nanosecond, on the proleptic Gregorian calendar in
  UTC.  A leap second is kept: it is the second after the one it follows, told
  apart by nanoseconds of a whole second and more.
-/

namespace StatusStore

namespace Calendar

def isLeapYear (year : Int) : Bool := year % 4 = 0 && (year % 100 ≠ 0 || year % 400 = 0)

/-- Days of a month; a month that does not exist has none. -/
def daysInMonth (year : Int) : Nat → Nat
  | 2 => if isLeapYear year then 29 else 28
  | 4 => 30
  | 6 => 30
  | 9 => 30
  | 11 => 30
  | month => if 1 ≤ month && month ≤ 12 then 31 else 0

/-- Days from 1970-01-01 to a date.  Years are counted from March, so that the leap day
is the last one, in eras of 400 years and 146097 days. -/
def daysOfDate (year : Int) (month day : Nat) : Int :=
  let y : Int := if month ≤ 2 then year - 1 else year
  let era := y / 400
  let yearOfEra := y - era * 400
  let monthFromMarch : Int := if month ≤ 2 then (month : Int) + 9 else (month : Int) - 3
  let dayOfYear := (153 * monthFromMarch + 2) / 5 + (day : Int) - 1
  let dayOfEra := yearOfEra * 365 + yearOfEra / 4 - yearOfEra / 100 + dayOfYear
  era * 146097 + dayOfEra - 719468

/-- The date (year, month, day) that lies `days` after 1970-01-01. -/
def dateOfDays (days : Int) : Int × Nat × Nat :=
  let z := days + 719468
  let era := z / 146097
  let dayOfEra := z - era * 146097
  let yearOfEra :=
    (dayOfEra - dayOfEra / 1460 + dayOfEra / 36524 - dayOfEra / 146096) / 365
  let dayOfYear := dayOfEra - (365 * yearOfEra + yearOfEra / 4 - yearOfEra / 100)
  let monthFromMarch := (5 * dayOfYear + 2) / 153
  let day := dayOfYear - (153 * monthFromMarch + 2) / 5 + 1
  let month := if monthFromMarch < 10 then monthFromMarch + 3 else monthFromMarch - 9
  let year := yearOfEra + era * 400
  (if month ≤ 2 then year + 1 else year, month.toNat, day.toNat)

def isYear (year : Int) : Bool := -262143 ≤ year && year ≤ 262142

end Calendar

structure Timestamp where
  /-- Seconds since 1970-01-01T00:00:00Z, leap seconds left out. -/
  seconds : Int
  /-- Nanoseconds of that second; from `10^9` on, of the leap second after it. -/
  nanos : Nat
deriving DecidableEq, Repr

namespace Timestamp

instance : Inhabited Timestamp := ⟨⟨0, 0⟩⟩

def nanosPerSecond : Nat := 1000000000

/-- A reading of a calendar and a clock, `offset` seconds ahead of UTC. -/
structure Reading where
  year : Int
  month : Nat
  day : Nat
  hour : Nat
  minute : Nat
  second : Nat := 0
  nanos : Nat := 0
  offset : Int := 0
deriving DecidableEq, Repr

/-- The point in time of a reading; second 60 is a leap second. -/
def ofReading? (r : Reading) : Option Timestamp :=
  if Calendar.isYear r.year && 1 ≤ r.day && r.day ≤ Calendar.daysInMonth r.year r.month
      && r.hour < 24 && r.minute < 60 && r.second ≤ 60 then
    let second := if r.second = 60 then 59 else r.second
    let seconds := Calendar.daysOfDate r.year r.month r.day * 86400
      + ((r.hour * 60 + r.minute) * 60 + second : Nat) - r.offset
    if Calendar.isYear (Calendar.dateOfDays (seconds / 86400)).1 then
      some ⟨seconds, if r.second = 60 then r.nanos + nanosPerSecond else r.nanos⟩
    else none
  else none

def reading (t : Timestamp) : Reading :=
  let (year, month, day) := Calendar.dateOfDays (t.seconds / 86400)
  let ofDay := (t.seconds % 86400).toNat
  let isLeap := nanosPerSecond ≤ t.nanos
  { year, month, day
    hour := ofDay / 3600
    minute := ofDay / 60 % 60
    second := ofDay % 60 + (if isLeap then 1 else 0)
    nanos := if isLeap then t.nanos - nanosPerSecond else t.nanos }

end Timestamp

end StatusStore
