/-
  StatusStore/Text/Json.lean
  ==========================
  **JSON text**: its strings, its numbers, and the faults that a text is refused
  for.  A fault is told with its place: the line, and the bytes of that line up
  to where reading stopped.

  A code point beyond four hexadecimal digits is escaped as a pair of surrogates,
  and a surrogate never stands alone.
-/
import StatusStore.Text.Quoted
import StatusStore.Text.Shortest

namespace StatusStore.Text.Json

/-! ### Faults -/

inductive Fault
  | endInValue
  | endInList
  | endInObject
  | endInString
  | noValue
  | noWord
  | noColon
  | noName
  | noCommaInList
  | noCommaInObject
  | trailingComma
  | trailingText
  | controlCharacter
  | unknownEscape
  /-- The first half of a pair of surrogates is followed by no escape. -/
  | openPair
  /-- Half of a pair of surrogates stands alone. -/
  | loneHalf
  | malformedNumber
  | hugeNumber
  /-- One kind of value was found where another is wanted. -/
  | kind (found wanted : String)
deriving DecidableEq, Repr

def Fault.message : Fault → String
  | endInValue => "EOF while parsing a value"
  | endInList => "EOF while parsing a list"
  | endInObject => "EOF while parsing an object"
  | endInString => "EOF while parsing a string"
  | noValue => "expected value"
  | noWord => "expected ident"
  | noColon => "expected `:`"
  | noName => "key must be a string"
  | noCommaInList => "expected `,` or `]`"
  | noCommaInObject => "expected `,` or `\x7d`"
  | trailingComma => "trailing comma"
  | trailingText => "trailing characters"
  | controlCharacter =>
    "control character (\\u0000-\\u001F) found while parsing a string"
  | unknownEscape => "invalid escape"
  | openPair => "unexpected end of hex escape"
  | loneHalf => "lone leading surrogate in hex escape"
  | malformedNumber => "invalid number"
  | hugeNumber => "number out of range"
  | kind found wanted => "invalid type: " ++ found ++ ", expected " ++ wanted

/-- A fault, and how many bytes of the text were left when it was found. -/
structure Failure where
  fault : Fault
  left : Nat
deriving DecidableEq, Repr

/-- The place in a text after which `left` bytes are left: a line, counted from 1, and the bytes
before the place in that line. -/
def place (text : String) (left : Nat) : Nat × Nat :=
  let before := text.toUTF8.toList.take (text.utf8ByteSize - left)
  (1 + before.count 0x0a, (before.reverse.takeWhile (· ≠ 0x0a)).length)

def Failure.message (text : String) (f : Failure) : String :=
  let (line, column) := place text f.left
  f.fault.message ++ " at line " ++ Nat.repr line ++ " column " ++ Nat.repr column

/-- Takes a value off the front of a text, or refuses the text. -/
abbrev JsonReader (α : Type) := StateT (List Char) (Except Failure) α

def byteSize (s : List Char) : Nat := s.foldl (fun size c => size + c.utf8Size) 0

/-- Refuse the text after what has been taken and `more` bytes of the rest. -/
def refuseAfter {α : Type} (more : Nat) (fault : Fault) : JsonReader α := fun s =>
  .error ⟨fault, byteSize s - more⟩

def refuse {α : Type} (fault : Fault) : JsonReader α := refuseAfter 0 fault

/-- Refuse the text for the byte that comes next. -/
def refuseNext {α : Type} (fault : Fault) : JsonReader α := refuseAfter 1 fault

def next? : JsonReader (Option Char) := fun s => .ok (s.head?, s)

def skip : JsonReader Unit := fun s => .ok ((), s.tail)

def blanks : JsonReader Unit := fun s =>
  .ok ((), s.dropWhile fun c => c = ' ' || c = '\n' || c = '\t' || c = '\r')

/-- Refuse the text if anything but white space is left. -/
def finish : JsonReader Unit := do
  blanks
  if (← next?).isSome then refuseNext .trailingText

def readAll {α : Type} (r : JsonReader α) (text : String) : Except Failure α :=
  (StateT.run (do let a ← r; finish; return a) text.toList).map Prod.fst

/-! ### Strings -/

def hexValue? (c : Char) : Option Nat :=
  if '0' ≤ c && c ≤ '9' then some (c.toNat - '0'.toNat)
  else if 'a' ≤ c && c ≤ 'f' then some (c.toNat - 'a'.toNat + 10)
  else if 'A' ≤ c && c ≤ 'F' then some (c.toNat - 'A'.toNat + 10)
  else none

def hexNumber? (ds : List Char) : Option Nat :=
  ds.foldlM (fun n d => (hexValue? d).map (16 * n + ·)) 0

def isHighSurrogate (n : Nat) : Bool := 0xd800 ≤ n && n ≤ 0xdbff

def isLowSurrogate (n : Nat) : Bool := 0xdc00 ≤ n && n ≤ 0xdfff

def hexEscape : JsonReader Nat := fun s =>
  let ds := s.take 4
  if byteSize ds < 4 then .error ⟨.endInString, 0⟩
  else
    match hexNumber? ds with
    | some n => .ok (n, s.drop 4)
    | none => refuseAfter 4 .unknownEscape s

/-- Take the character `c`, which joins the halves of a pair. -/
def joint (c : Char) : JsonReader Unit := do
  match ← next? with
  | none => refuse .endInString
  | some d => if d = c then skip else refuseNext .openPair

def numberedEscape : JsonReader Char := do
  let high ← hexEscape
  if isLowSurrogate high then refuse .loneHalf
  else if isHighSurrogate high then
    joint '\\'
    joint 'u'
    let low ← hexEscape
    if isLowSurrogate low then
      return Char.ofNat (0x10000 + (high - 0xd800) * 0x400 + (low - 0xdc00))
    else refuse .loneHalf
  else return Char.ofNat high

def escape : JsonReader Char := do
  let c? ← next?
  match c? with
  | none => refuse .endInString
  | some c =>
    match c with
    | '"' | '\\' | '/' => skip; return c
    | 'b' => skip; return '\x08'
    | 'f' => skip; return '\x0c'
    | 'n' => skip; return '\n'
    | 'r' => skip; return '\r'
    | 't' => skip; return '\t'
    | 'u' => skip; numberedEscape
    | _ => refuseNext .unknownEscape

/-- The rest of a string after its opening quote, with the characters so far in reverse.  There
are at most `fuel` characters. -/
def stringRest : Nat → List Char → JsonReader String
  | 0, _ => refuse .endInString
  | fuel + 1, sofar => do
    match ← next? with
    | none => refuse .endInString
    | some '"' =>
      skip
      return String.ofList sofar.reverse
    | some '\\' =>
      skip
      stringRest fuel ((← escape) :: sofar)
    | some c =>
      if c.toNat < 0x20 then refuseNext .controlCharacter
      else
        skip
        stringRest fuel (c :: sofar)

def string : JsonReader String := do
  skip
  stringRest ((← get).length + 1) []

def stringChar (c : Char) : String :=
  if c = '"' || c = '\\' then "\\" ++ c.toString
  else if c.toNat < 0x20 then
    let ds := Nat.toDigits 16 c.toNat
    "\\u" ++ String.ofList (List.replicate (4 - ds.length) '0' ++ ds)
  else c.toString

def stringText (s : String) : String :=
  "\"" ++ String.join (s.toList.map stringChar) ++ "\""

/-! ### Numbers -/

/-- A number: whole if it is written without a point and an exponent and 64 bits hold it. -/
inductive Number
  | whole (n : Int)
  | real (x : Float)

/-- Digits that fit into 64 bits, as a number, with the exponent of ten that the digits after the
point and the digits that did not fit leave it. -/
structure Significand where
  value : Nat := 0
  exponent : Int := 0

namespace Significand

/-- Add a digit of a whole part.  After one that does not fit, none does. -/
def pushWhole (s : Significand) (d : Char) : Significand :=
  let value := 10 * s.value + digitsValue [d]
  if s.exponent = 0 && value < Nat.pow 2 64 then { s with value }
  else { s with exponent := s.exponent + 1 }

/-- Add the digits after the point, up to the first that does not fit. -/
def pushFraction (s : Significand) : List Char → Significand
  | [] => s
  | d :: ds =>
    let value := 10 * s.value + digitsValue [d]
    if value < Nat.pow 2 64 then pushFraction ⟨value, s.exponent - 1⟩ ds else s

end Significand

/-- The number `x * 10 ^ exponent`, if it is not too large: scaled by a power of ten that is a
floating-point number itself, and rounded after that.  Two steps down from any `x` lead to zero. -/
def scaled? : Nat → Float → Int → Option Float
  | 0, x, _ => some x
  | fuel + 1, x, exponent =>
    if exponent.natAbs ≤ 308 then
      let power := Float.ofScientific 1 false exponent.natAbs
      let y := if 0 ≤ exponent then x * power else x / power
      if y.isInf then none else some y
    else if x == 0 then some x
    else if 0 ≤ exponent then none
    else scaled? fuel (x / Float.ofScientific 1 false 308) (exponent + 308)

def digits : JsonReader (List Char) := fun s => .ok (s.takeWhile isDigit, s.dropWhile isDigit)

def wholePart : JsonReader (List Char) := do
  match ← next? with
  | none => refuse .endInValue
  | some '0' =>
    skip
    if ((← next?).map isDigit).getD false then refuseNext .malformedNumber
    return ['0']
  | some d => if isDigit d then digits else refuseNext .malformedNumber

def fractionPart : JsonReader (Option (List Char)) := do
  if (← next?) ≠ some '.' then return none
  skip
  let ds ← digits
  if ds.isEmpty then
    if (← next?).isNone then refuse .endInValue else refuseNext .malformedNumber
  return some ds

def exponentBound : Nat := Nat.pow 2 31 - 1

/-- The exponent, if there is one; one that is too large is `none` with its sign.  Of such an
exponent, the digits after the one that makes it too large are not taken. -/
def exponentPart : JsonReader (Option (Bool × Option Nat)) := do
  let mark ← next?
  if mark ≠ some 'e' && mark ≠ some 'E' then return none
  skip
  let sign ← next?
  if sign = some '+' || sign = some '-' then skip
  match ← next? with
  | none => refuse .endInValue
  | some d => if !isDigit d then refuseNext .malformedNumber
  let s ← get
  let ds := s.takeWhile isDigit
  let isNegative := sign = some '-'
  match (List.range (ds.length + 1)).find? fun n => exponentBound < digitsValue (ds.take n) with
  | some n =>
    set (s.drop n)
    return some (isNegative, none)
  | none =>
    set (s.drop ds.length)
    return some (isNegative, some (digitsValue ds))

def number (isNegative : Bool) : JsonReader Number := do
  let signed (x : Float) : Number := .real (if isNegative then -x else x)
  let real (s : Significand) (exponent : Int) : JsonReader Number :=
    match scaled? 8 (Float.ofNat s.value) (s.exponent + exponent) with
    | some x => return signed x
    | none => refuse .hugeNumber
  let whole := (← wholePart).foldl Significand.pushWhole {}
  let fraction? ← fractionPart
  let s := whole.pushFraction (fraction?.getD [])
  match ← exponentPart with
  | some (true, some e) => real s (-e)
  | some (false, some e) => real s e
  | some (isDown, none) =>
    if s.value ≠ 0 && !isDown then refuse .hugeNumber
    let _ ← digits
    return signed 0
  | none =>
    if fraction?.isSome || whole.exponent ≠ 0 then real s 0
    else if !isNegative then return .whole s.value
    else if s.value = 0 || Nat.pow 2 63 < s.value then real s 0
    else return .whole (-s.value)

/-! ### Kinds of values -/

def word (letters : String) : JsonReader Unit := do
  skip
  for c in letters.toList.tail do
    match ← next? with
    | none => refuse .endInValue
    | some d => if d = c then skip else refuseNext .noWord

/-- The text of a floating-point number, with an exponent where the point lies far off.  Of two
shortest texts that are equally near the one with the even last digit is taken. -/
def realText (x : Float) : String :=
  let sign := if x.toBits.toNat < Nat.pow 2 63 then "" else "-"
  if x == 0 then sign ++ "0.0"
  else
    let (digits, exponent) := (Interval.ofBits (x.toBits.toNat % Nat.pow 2 63)).shortest .even
    let ds := Nat.toDigits 10 digits
    let pointAt : Int := ds.length + exponent
    if -5 < pointAt && pointAt ≤ 16 then
      sign ++ positional digits exponent ++ (if 0 ≤ exponent then ".0" else "")
    else
      let fraction := if ds.length = 1 then "" else "." ++ String.ofList ds.tail
      let mark := if 0 < pointAt then "e+" else "e"
      sign ++ String.ofList (ds.take 1) ++ fraction ++ mark ++ Int.repr (pointAt - 1)

/-- Refuse the value that comes next, since another kind is wanted. -/
def refuseKind {α : Type} (wanted : String) : JsonReader α := do
  let numbered (n : Number) : JsonReader α :=
    match n with
    | .whole n => refuse (.kind ("integer `" ++ Int.repr n ++ "`") wanted)
    | .real x => refuse (.kind ("floating point `" ++ realText x ++ "`") wanted)
  match ← next? with
  | some 'n' =>
    word "null"
    refuse (.kind "null" wanted)
  | some 't' =>
    word "true"
    refuse (.kind "boolean `true`" wanted)
  | some 'f' =>
    word "false"
    refuse (.kind "boolean `false`" wanted)
  | some '-' =>
    skip
    numbered (← number true)
  | some '"' => refuse (.kind ("string " ++ quoted (← string)) wanted)
  | some '[' => refuse (.kind "sequence" wanted)
  | some '\x7b' => refuse (.kind "map" wanted)
  | some c => if isDigit c then numbered (← number false) else refuseNext .noValue
  | none => refuseNext .noValue

end StatusStore.Text.Json
