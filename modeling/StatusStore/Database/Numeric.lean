/-
  StatusStore/Database/Numeric.lean
  =================================
  **Text in a column for whole numbers.**  Such a column turns a text that
  writes a number into that number: whole if the text has neither a point nor an
  exponent and 64 bits hold it, else a floating-point number near it, which
  becomes whole again if it has no fraction and is far enough from the ends of
  64 bits.  Any other text it keeps as it is.  A flag is a whole number of which
  the last 32 bits count.

  A decimal is scaled in extended precision and rounded after that, so the
  floating-point number need not be the nearest one.
-/
import StatusStore.Text.Binary
import StatusStore.Text.Decimal

namespace StatusStore.Database

open Text Text.Reader

/-- What a column for whole numbers holds. -/
inductive Cell
  | whole (n : Int)
  /-- A floating-point number that has not become whole. -/
  | real
  | text (s : String)
deriving DecidableEq, Repr

namespace Cell

def kind : Cell → String
  | whole _ => "INTEGER"
  | real => "REAL"
  | text _ => "TEXT"

def isPad (c : Char) : Bool := c = ' ' || ('\t' ≤ c && c ≤ '\r')

/-- What `r` reads, between white space. -/
def padded {α : Type} (r : Reader α) : Reader α := do
  skipWhile isPad
  let a ← r
  skipWhile isPad
  return a

/-- The significant digits that are looked at: digits are taken until their value reaches this. -/
def significandBound : Nat := 1844674407370955160

/-- A decimal without the digits that are not looked at. -/
def significant (d : Decimal) : Decimal :=
  let ds := Nat.toDigits 10 d.mantissa
  let prefixes := (List.range (ds.length + 1)).map fun n => (n, digitsValue (ds.take n))
  match prefixes.find? fun (_, value) => significandBound ≤ value with
  | some (n, value) => { d with mantissa := value, exponent := d.exponent + (ds.length - n : Nat) }
  | none => d

/-- The exponents that are told apart; beyond them a number is too large or is zero. -/
def exponentBound : Int := 20000

/-- A decimal without the zeros at the end of its fraction, of which there are `fuel` at the
most. -/
def trimmed : Nat → Nat → Int → Nat × Int
  | 0, mantissa, exponent => (mantissa, exponent)
  | fuel + 1, mantissa, exponent =>
    if exponent < 0 && mantissa % 10 = 0 then trimmed fuel (mantissa / 10) (exponent + 1)
    else (mantissa, exponent)

def nearby (mantissa : Nat) (exponent : Int) : Binary :=
  let exponent := max (-exponentBound) (min exponentBound exponent)
  let (mantissa, exponent) := trimmed 20 mantissa exponent
  if 0 ≤ exponent then Precision.double.round ⟨mantissa * Nat.pow 10 exponent.toNat, 0⟩
  else Precision.double.round (Precision.extended.scale ⟨mantissa, 0⟩ exponent)

/-- The largest size of a floating-point number that becomes whole. -/
def wholeBound : Nat := 9223372036854774784

def ofDecimal (d : Decimal) : Cell :=
  if d.mantissa = 0 then whole 0
  else
    match ((nearby d.mantissa d.exponent).nat?).filter (· ≤ wholeBound) with
    | some n => whole (if d.isNegative then -n else n)
    | none => real

/-- What the column holds after a text was written to it. -/
def ofText (s : String) : Cell :=
  match ((padded integer).readAll? s).filter isInt64 with
  | some n => whole n
  | none =>
    match (padded decimal).readAll? s with
    | some d => ofDecimal (significant d)
    | none => text s

def flag? : Cell → Option Bool
  | whole n => some (n % Nat.pow 2 32 ≠ 0)
  | _ => none

end Cell

end StatusStore.Database
