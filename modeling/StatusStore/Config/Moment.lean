/-
  StatusStore/Config/Moment.lean
  ==============================
  **Dates and times in a file.**  A configuration has no kind for them, so each
  counts as a text, and there is one text for all ways to write it: a `T` between
  date and time, no zeros at the end of a fraction of nine digits at the most, and
  no minus before a distance of zero from UTC.
-/
import StatusStore.Model.Timestamp
import StatusStore.Text.Reader

namespace StatusStore.Config

open Text Text.Reader

namespace Moment

/-- A number of two digits that is `bound` at the most, and its text. -/
def pair (bound : Nat) : Reader (Nat × String) := do
  let ds ← digits 2 2
  guard (digitsValue ds ≤ bound)
  return (digitsValue ds, String.ofList ds)

def date : Reader String := do
  let year ← digits 4 4
  literal '-'
  let (month, monthText) ← pair 12
  literal '-'
  let (day, dayText) ← pair 31
  guard (1 ≤ day && day ≤ Calendar.daysInMonth (digitsValue year) month)
  return String.ofList year ++ "-" ++ monthText ++ "-" ++ dayText

def fraction : Reader String := do
  if !(← literal? '.') then return ""
  let ds ← allDigits
  let kept := ((ds.take 9).reverse.dropWhile (· = '0')).reverse
  return if kept.isEmpty then "" else "." ++ String.ofList kept

def time : Reader String := do
  let (_, hour) ← pair 23
  literal ':'
  let (_, minute) ← pair 59
  literal ':'
  let (_, second) ← pair 60
  return hour ++ ":" ++ minute ++ ":" ++ second ++ (← fraction)

def distance (sign : String) : Reader String := do
  let (hours, hourText) ← pair 23
  literal ':'
  let (minutes, minuteText) ← pair 59
  let sign := if hours = 0 && minutes = 0 then "+" else sign
  return sign ++ hourText ++ ":" ++ minuteText

def offset : Reader String := do
  match ← one fun c => c = 'Z' || c = 'z' || c = '+' || c = '-' with
  | '+' => distance "+"
  | '-' => distance "-"
  | _ => return "Z"

def timeAfterDate : Reader String := do
  let _ ← one fun c => c = 'T' || c = 't' || c = ' '
  let time ← time
  let offset ← offset <|> pure ""
  return "T" ++ time ++ offset

def moment : Reader String :=
  (do
    let date ← date
    let time ← timeAfterDate <|> pure ""
    return date ++ time) <|> time

end Moment

end StatusStore.Config
