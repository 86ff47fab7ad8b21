/-
  StatusStore/Model/Timestamp/Text.lean
  =====================================
  **Times as text.**  Times are written in one form: UTC, a `T`, a `Z`, and the
  fewest of 0, 3, 6 and 9 fraction digits that lose nothing.

  They are read in more forms.  Text from outside (`ofText?`) is read leniently:
  one or two digits where two are usual, blanks around separators, any offset of
  less than a day.  Text from a table (`ofStored?`) is read in the strict form
  first and then in the forms in which databases write times.
-/
import StatusStore.Model.Timestamp
import StatusStore.Text.Reader

namespace StatusStore.Timestamp

open Text Text.Reader

/-! ### Writing -/

/-- `n` in decimal, with leading zeros up to `width` digits. -/
def padded (width n : Nat) : String :=
  let digits := Nat.repr n
  "".pushn '0' (width - digits.length) ++ digits

/-- A year with four digits or more; outside 0 to 9999 it has a sign. -/
def yearText (year : Int) : String :=
  if 0 ≤ year && year ≤ 9999 then padded 4 year.toNat
  else (if year < 0 then "-" else "+") ++ padded 4 year.natAbs

def fractionText (nanos : Nat) : String :=
  if nanos = 0 then ""
  else if nanos % 1000000 = 0 then "." ++ padded 3 (nanos / 1000000)
  else if nanos % 1000 = 0 then "." ++ padded 6 (nanos / 1000)
  else "." ++ padded 9 nanos

def toText (t : Timestamp) : String :=
  let r := t.reading
  yearText r.year ++ "-" ++ padded 2 r.month ++ "-" ++ padded 2 r.day
    ++ "T" ++ padded 2 r.hour ++ ":" ++ padded 2 r.minute ++ ":" ++ padded 2 r.second
    ++ fractionText r.nanos ++ "Z"

/-! ### Parts of the forms -/

def spaced {α : Type} (r : Reader α) : Reader α := do blanks; r

def year : Reader Int := do
  if ← literal? '-' then return -(digitsValue (← allDigits) : Int)
  if ← literal? '+' then return (digitsValue (← allDigits) : Int)
  return (← number 1 4 : Nat)

/-- A fraction of a second, if one comes next.  Digits past the ninth are dropped. -/
def fraction : Reader Nat := do
  unless ← literal? '.' do return 0
  let ds ← digits 1 9
  skipWhile isDigit
  return digitsValue ds * Nat.pow 10 (9 - ds.length)

/-- An offset from UTC in seconds: a sign, two digits for hours, a separator, two digits
for minutes. -/
def signedOffset (separator : Reader Unit) : Reader Int := do
  let sign ← one (fun c => c = '+' || c = '-' || c = '\u2212')
  let hours ← number 2 2
  separator
  let minutes ← number 2 2
  guard (minutes < 60)
  let seconds : Int := ((hours * 60 + minutes) * 60 : Nat)
  return if sign = '+' then seconds else -seconds

def zuluOrOffset (separator : Reader Unit) : Reader Int := do
  if ← literal? 'Z' then return 0
  if ← literal? 'z' then return 0
  signedOffset separator

def colonsOrBlanks : Reader Unit := skipWhile fun c => c = ':' || isBlank c

def isOffset (offset : Int) : Bool := offset.natAbs < 86400

/-! ### Text from outside -/

/-- `UTC` in any mixture of cases, if it comes next. -/
def utcWord? : Reader Bool := fun s =>
  if (s.take 3).map Char.toUpper = ['U', 'T', 'C'] then some (true, s.drop 3)
  else some (false, s)

def lenient : Reader Reading := do
  let y ← spaced year
  spaced (literal '-')
  let month ← spaced (number 1 2)
  spaced (literal '-')
  let day ← spaced (number 1 2)
  let _ ← one fun c => c = 't' || c = 'T' || c = ' '
  let hour ← spaced (number 1 2)
  spaced (literal ':')
  let minute ← spaced (number 1 2)
  spaced (literal ':')
  let second ← spaced (number 1 2)
  let nanos ← fraction
  blanks
  let offset ← if ← utcWord? then pure 0 else zuluOrOffset colonsOrBlanks
  blanks
  guard (isOffset offset)
  return { year := y, month, day, hour, minute, second, nanos, offset }

/-- The time that a text from outside names. -/
def ofText? (s : String) : Option Timestamp := do ofReading? (← lenient.readAll? s)

/-! ### Text from a table -/

/-- The strict form: every number at its full width. -/
def strict : Reader Reading := do
  let year ← number 4 4
  literal '-'
  let month ← number 2 2
  literal '-'
  let day ← number 2 2
  let _ ← one fun c => c = 't' || c = 'T' || c = ' '
  let hour ← number 2 2
  literal ':'
  let minute ← number 2 2
  literal ':'
  let second ← number 2 2
  let nanos ← fraction
  let offset ← zuluOrOffset (literal ':')
  guard (isOffset offset)
  return { year, month, day, hour, minute, second, nanos, offset }

inductive Separator
  | blank
  | letter
deriving DecidableEq, Repr

inductive Zone
  | unsaid
  | zulu
  | offset
deriving DecidableEq, Repr

/-- A form in which databases write times: with or without seconds. -/
structure StoredForm where
  separator : Separator
  withSeconds : Bool
  zone : Zone
deriving DecidableEq, Repr

/-- The forms in the order in which they are tried. -/
def storedForms : List StoredForm := [
  ⟨.blank, true, .unsaid⟩, ⟨.blank, false, .unsaid⟩, ⟨.blank, false, .zulu⟩,
  ⟨.blank, false, .offset⟩, ⟨.blank, true, .zulu⟩, ⟨.blank, true, .offset⟩,
  ⟨.letter, false, .unsaid⟩, ⟨.letter, false, .zulu⟩, ⟨.letter, false, .offset⟩,
  ⟨.letter, true, .unsaid⟩, ⟨.letter, true, .zulu⟩, ⟨.letter, true, .offset⟩]

def stored (form : StoredForm) : Reader Reading := do
  let y ← spaced year
  literal '-'
  let month ← spaced (number 1 2)
  literal '-'
  let day ← spaced (number 1 2)
  match form.separator with
  | .blank => blanks
  | .letter => literal 'T'
  let hour ← spaced (number 1 2)
  literal ':'
  let minute ← spaced (number 1 2)
  let mut second := 0
  let mut nanos := 0
  if form.withSeconds then
    literal ':'
    second ← spaced (number 1 2)
    nanos ← fraction
  let offset ← match form.zone with
    | .unsaid => pure 0
    | .zulu => do literal 'Z'; pure 0
    | .offset => spaced (signedOffset colonsOrBlanks)
  return { year := y, month, day, hour, minute, second, nanos, offset }

/-- The point in time of a reading in one of those forms.  An offset that cannot be applied, since
it is a day or more or leads out of the calendar, is as good as none. -/
def ofStoredReading? (r : Reading) : Option Timestamp :=
  let unapplied := ofReading? { r with offset := 0 }
  if isOffset r.offset then (ofReading? r).or unapplied else unapplied

/-- The time that a text from a table names. -/
def ofStored? (s : String) : Option Timestamp :=
  let strictly := do ofReading? (← strict.readAll? s)
  strictly.or (storedForms.findSome? fun form => do ofStoredReading? (← (stored form).readAll? s))

end StatusStore.Timestamp
