/-
  StatusStore/Text/Decimal.lean
  =============================
  **Decimal numbers in text**: an optional sign, digits with at most one point
  among them or at an end, and an optional exponent of ten.
-/
import StatusStore.Text.Reader

namespace StatusStore.Text

open Reader

/-- A decimal number: `mantissa * 10 ^ exponent`, and negative if so marked.  Zero keeps its
mark. -/
structure Decimal where
  isNegative : Bool
  mantissa : Nat
  exponent : Int
deriving DecidableEq, Repr

def sign : Reader Bool := do
  if ← literal? '-' then return true
  if ← literal? '+' then return false
  return false

def exponent : Reader Int := do
  let isMarked ← (do literal 'e'; pure true) <|> (do literal 'E'; pure true) <|> pure false
  if isMarked then
    let isNegative ← sign
    let n := digitsValue (← allDigits)
    return if isNegative then -n else n
  return 0

def unsigned : Reader (Nat × Int) := do
  let whole ← anyDigits
  let fraction ← if ← literal? '.' then anyDigits else pure []
  guard (!(whole ++ fraction).isEmpty)
  let e ← exponent
  return (digitsValue (whole ++ fraction), e - fraction.length)

def decimal : Reader Decimal := do
  let isNegative ← sign
  let (mantissa, exponent) ← unsigned
  return ⟨isNegative, mantissa, exponent⟩

def integer : Reader Int := do
  let isNegative ← sign
  let n := digitsValue (← allDigits)
  return if isNegative then -n else n

def isInt64 (n : Int) : Bool := -Nat.pow 2 63 ≤ n && n < Nat.pow 2 63

end StatusStore.Text
