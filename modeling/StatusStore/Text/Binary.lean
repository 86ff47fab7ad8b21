/-
  StatusStore/Text/Binary.lean
  ============================
  **Binary numbers of limited precision.**  A positive number is a significand
  times a power of two.  A precision says how many bits a significand has and
  how small an exponent may be; what does not fit is rounded to the nearest
  number that does, and a tie to the one with the even significand.

  Scaling by a power of ten is done in steps, each of them rounded.
-/

namespace StatusStore.Text

/-- The number `significand * 2 ^ exponent`. -/
structure Binary where
  significand : Nat
  exponent : Int
deriving DecidableEq, Repr

/-- How many bits a significand has, and the least exponent. -/
structure Precision where
  bits : Nat
  least : Int
deriving DecidableEq, Repr

namespace Binary

def mul (x y : Binary) : Binary := ⟨x.significand * y.significand, x.exponent + y.exponent⟩

def nat? (x : Binary) : Option Nat :=
  if 0 ≤ x.exponent then some (x.significand * Nat.pow 2 x.exponent.toNat)
  else if x.significand % Nat.pow 2 x.exponent.natAbs = 0 then
    some (x.significand / Nat.pow 2 x.exponent.natAbs)
  else none

end Binary

namespace Precision

def double : Precision := ⟨53, -1074⟩

def extended : Precision := ⟨64, -16445⟩

/-- A number without its last `n` bits, rounded; a tie is even. -/
def roundBits (m n : Nat) : Nat :=
  let q := m / Nat.pow 2 n
  match compare (2 * (m % Nat.pow 2 n)) (Nat.pow 2 n) with
  | .lt => q
  | .gt => q + 1
  | .eq => q + q % 2

def round (p : Precision) (x : Binary) : Binary :=
  let size : Nat := if x.significand = 0 then 0 else x.significand.log2 + 1
  let excess := max (size - p.bits : Int) (p.least - x.exponent)
  if excess ≤ 0 then x else ⟨roundBits x.significand excess.toNat, x.exponent + excess⟩

/-- The number of the precision that is nearest to `10 ^ n` or, if so told, to `10 ^ -n`. -/
def powerOfTen (p : Precision) (n : Nat) (isInverse : Bool) : Binary :=
  if isInverse then
    let shift := p.bits + 1 + 4 * n
    let rest := if Nat.pow 2 shift % Nat.pow 10 n = 0 then 0 else 1
    p.round ⟨2 * (Nat.pow 2 shift / Nat.pow 10 n) + rest, -(shift + 1 : Nat)⟩
  else p.round ⟨Nat.pow 10 n, 0⟩

/-- The powers of ten that `10 ^ n` is put together from. -/
def decimalSteps (n : Nat) : List Nat :=
  List.replicate (n / 100) 100 ++ List.replicate (n / 10 % 10) 10 ++ List.replicate (n % 10) 1

/-- The number times `10 ^ exponent`, rounded at every step. -/
def scale (p : Precision) (x : Binary) (exponent : Int) : Binary :=
  (decimalSteps exponent.natAbs).foldl
    (fun x n => p.round (x.mul (p.powerOfTen n (exponent < 0)))) x

end Precision

end StatusStore.Text
