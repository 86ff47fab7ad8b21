/-
  StatusStore/Text/Shortest.lean
  ==============================
  **The shortest decimal text of a floating-point number**: the fewest digits
  that read back as the number, and of those the nearest to it, written without
  an exponent and without a point where none is needed.

  A number `m * 2 ^ q` is what every real of an interval around it rounds to.
  The grids of the multiples of powers of ten are tried from the coarsest on, and
  the first that has a point in the interval has the shortest one.
-/
import StatusStore.Text.Decimal

namespace StatusStore.Text

structure Ratio where
  num : Nat
  den : Nat
deriving Repr

def Ratio.pow (base : Nat) (exponent : Int) : Ratio :=
  if 0 ≤ exponent then ⟨Nat.pow base exponent.toNat, 1⟩ else ⟨1, Nat.pow base exponent.natAbs⟩

/-- Which of two neighbouring points is taken when both are equally near. -/
inductive Tie
  | upper
  | even
deriving DecidableEq, Repr

def Tie.choose (tie : Tie) (below : Nat) : Nat :=
  if tie = .even && below % 2 = 0 then below else below + 1

/-- The reals that round to one floating-point number, in units of a quarter of its last place. -/
structure Interval where
  lower : Nat
  value : Nat
  upper : Nat
  /-- Whether the ends belong to it. -/
  isClosed : Bool
  unit : Ratio
deriving Repr

namespace Interval

/-- The interval of `mantissa * 2 ^ exponent`.  Below a power of two the floating-point numbers lie
closer together, which `isBoundary` tells. -/
def of (mantissa : Nat) (exponent : Int) (isBoundary : Bool) : Interval where
  lower := 4 * mantissa - (if isBoundary then 1 else 2)
  value := 4 * mantissa
  upper := 4 * mantissa + 2
  isClosed := mantissa % 2 = 0
  unit := .pow 2 (exponent - 2)

def ofBits (bits : Nat) : Interval :=
  let fraction := bits % Nat.pow 2 52
  let exponent : Nat := bits / Nat.pow 2 52 % Nat.pow 2 11
  if exponent = 0 then .of fraction (-1074) false
  else .of (Nat.pow 2 52 + fraction) ((exponent : Int) - 1075) (fraction = 0 && 1 < exponent)

/-- The point of the grid of multiples of `10 ^ k` that lies in the interval, nearest to its value,
if there is one. -/
def point? (i : Interval) (tie : Tie) (k : Int) : Option Nat :=
  let grid := Ratio.pow 10 k
  let step := grid.num * i.unit.den
  let scale := i.unit.num * grid.den
  let contains (c : Nat) : Bool :=
    if i.isClosed then i.lower * scale ≤ c * step && c * step ≤ i.upper * scale
    else i.lower * scale < c * step && c * step < i.upper * scale
  let below := i.value * scale / step
  let distance (c : Nat) : Nat := (c * step - i.value * scale) + (i.value * scale - c * step)
  match contains below && 0 < below, contains (below + 1) with
  | true, true =>
    match compare (distance below) (distance (below + 1)) with
    | .lt => some below
    | .gt => some (below + 1)
    | .eq => some (tie.choose below)
  | true, false => some below
  | false, true => some (below + 1)
  | false, false => none

def shortest (i : Interval) (tie : Tie) : Nat × Int :=
  let exponents : List Int := (List.range 640).map fun (n : Nat) => 310 - (n : Int)
  (exponents.findSome? fun k => (i.point? tie k).map (·, k)).getD (0, 0)

end Interval

def positional (digits : Nat) (exponent : Int) : String :=
  let ds := Nat.toDigits 10 digits
  if 0 ≤ exponent then String.ofList (ds ++ List.replicate exponent.toNat '0')
  else
    let places := exponent.natAbs
    let ds := List.replicate (places + 1 - ds.length) '0' ++ ds
    String.ofList (ds.take (ds.length - places) ++ '.' :: ds.drop (ds.length - places))

/-- The text of a floating-point number.  Of two shortest texts that are equally near the greater
one is taken. -/
def floatText (x : Float) : String :=
  let bits := x.toBits.toNat
  let magnitude := bits % Nat.pow 2 63
  let sign := if Nat.pow 2 63 ≤ bits then "-" else ""
  if 2047 * Nat.pow 2 52 < magnitude then "NaN"
  else if 2047 * Nat.pow 2 52 = magnitude then sign ++ "inf"
  else if magnitude = 0 then sign ++ "0"
  else
    let (digits, exponent) := (Interval.ofBits magnitude).shortest .upper
    sign ++ positional digits exponent

def Decimal.toFloat (d : Decimal) : Float :=
  let size : Int := (Nat.toDigits 10 d.mantissa).length + d.exponent
  let x :=
    if d.mantissa = 0 || size < -400 then 0.0
    else if 400 < size then 1.0 / 0.0
    else Float.ofScientific d.mantissa (d.exponent < 0) d.exponent.natAbs
  if d.isNegative then -x else x

def readFloat? (text : String) : Option Float :=
  match decimal.readAll? text with
  | some d => some d.toFloat
  | none =>
    let lowered := text.toLower
    let named (sign name : String) : Bool := lowered = sign ++ name
    if named "" "nan" || named "+" "nan" || named "-" "nan" then some (0.0 / 0.0)
    else if named "-" "inf" || named "-" "infinity" then some (-1.0 / 0.0)
    else if ["inf", "infinity"].any fun name => named "" name || named "+" name then
      some (1.0 / 0.0)
    else none

end StatusStore.Text
