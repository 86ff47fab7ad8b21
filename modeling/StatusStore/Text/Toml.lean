/-
  StatusStore/Text/Toml.lean
  ==========================
  **The words of TOML text**: blanks and comments, names and paths of names,
  strings in one line and in several, and numbers.
-/
import StatusStore.Text.Json
import StatusStore.Text.Shortest

namespace StatusStore.Text.Toml

open Reader

/-! ### Blanks and comments -/

def isPlain (c : Char) : Bool := c = '\t' || (0x20 ≤ c.toNat && c.toNat ≠ 0x7f)

def spaces : Reader Unit := skipWhile fun c => c = ' ' || c = '\t'

def lineEnd : Reader Unit := fun
  | '\n' :: s => some ((), s)
  | '\r' :: '\n' :: s => some ((), s)
  | _ => none

def comment : Reader Unit := fun
  | '#' :: s => some ((), s.dropWhile isPlain)
  | s => some ((), s)

/-- Skip what may follow in a line, and its end. -/
def restOfLine : Reader Unit := do
  spaces
  comment
  if !(← get).isEmpty then lineEnd

/-- Skip ends of at most `fuel` lines, and what `skip` skips before each of them. -/
def lineEnds (skip : Reader Unit) : Nat → Reader Unit
  | 0 => pure ()
  | fuel + 1 => do
    skip
    match lineEnd (← get) with
    | some (_, s) => do
      set s
      lineEnds skip fuel
    | none => pure ()

def gap : Reader Unit := do
  lineEnds (do spaces; comment) ((← get).length + 1)

/-! ### Strings and names -/

def numbered (count : Nat) : Reader Char := fun s =>
  let ds := s.take count
  match Json.hexNumber? ds with
  | some n =>
    if ds.length = count && n.isValidChar then some (Char.ofNat n, s.drop count) else none
  | none => none

def escape : Reader Char := do
  match ← one fun _ => true with
  | 'b' => return '\x08'
  | 't' => return '\t'
  | 'n' => return '\n'
  | 'f' => return '\x0c'
  | 'r' => return '\r'
  | '"' => return '"'
  | '\\' => return '\\'
  | 'u' => numbered 4
  | 'U' => numbered 8
  | _ => failure

/-- The rest of a string after its opening quote, with the characters so far in reverse.  There
are at most `fuel` characters. -/
def escapedRest : Nat → List Char → Reader String
  | 0, _ => failure
  | fuel + 1, sofar => do
    match ← one isPlain with
    | '"' => return String.ofList sofar.reverse
    | '\\' => escapedRest fuel ((← escape) :: sofar)
    | c => escapedRest fuel (c :: sofar)

def escapedString : Reader String := do
  literal '"'
  escapedRest ((← get).length + 1) []

def plainString : Reader String := do
  literal '\''
  let s ← get
  let cs := s.takeWhile fun c => isPlain c && c ≠ '\''
  set (s.drop cs.length)
  literal '\''
  return String.ofList cs

/-- Skip the rest of a line after a backslash in a string, and all blanks after it. -/
def fold : Reader Unit := do
  spaces
  lineEnd
  lineEnds spaces ((← get).length + 1)

/-- A character of a string of several lines, if it stands for one.  Every end of a line stands for
the same character. -/
def longChar? (hasEscapes : Bool) : Reader (Option Char) := fun s =>
  match lineEnd s with
  | some (_, rest) => some (some '\n', rest)
  | none =>
    (do
      let c ← one isPlain
      if hasEscapes && c = '\\' then (do fold; return none) <|> (do return some (← escape))
      else return some c) s

/-- The rest of a string of several lines, with the characters so far in reverse.  Three quotes end
it; one or two of them stand for themselves, also before those three. -/
def longRest (quote : Char) (hasEscapes : Bool) : Nat → List Char → Reader String
  | 0, _ => failure
  | fuel + 1, sofar => do
    let s ← get
    let quotes := s.takeWhile (· = quote)
    if quotes.length < 3 then
      let c? ← longChar? hasEscapes
      longRest quote hasEscapes fuel (c?.toList ++ sofar)
    else
      guard (quotes.length ≤ 5)
      set (s.drop quotes.length)
      return String.ofList (quotes.drop 3 ++ sofar).reverse

/-- A string of several lines, between three quotes each.  An end of a line at its start does not
count. -/
def longString (quote : Char) (hasEscapes : Bool) : Reader String := do
  literal quote
  literal quote
  literal quote
  lineEnd <|> pure ()
  longRest quote hasEscapes ((← get).length + 1) []

def string : Reader String :=
  longString '"' true <|> escapedString <|> longString '\'' false <|> plainString

def bareName : Reader String := fun s =>
  let cs := s.takeWhile fun c => c.isAlphanum || c = '_' || c = '-'
  if cs.isEmpty then none else some (String.ofList cs, s.drop cs.length)

def name : Reader String := do
  spaces
  let name ← escapedString <|> plainString <|> bareName
  spaces
  return name

def moreNames : Nat → Reader (List String)
  | 0 => failure
  | fuel + 1 => do
    if ← literal? '.' then
      let name ← name
      return name :: (← moreNames fuel)
    return []

/-- How many names, and how many brackets, may stand in one another. -/
def deepest : Nat := 79

def path : Reader (List String) := do
  let first ← name
  return first :: (← moreNames deepest)

/-! ### Numbers -/

/-- Digits that satisfy `p`, between which there may be single underscores. -/
def digitRun (p : Char → Bool) : Reader (List Char) := fun s =>
  let run := s.takeWhile fun c => p c || c = '_'
  let groups := (String.ofList run).splitOn "_"
  if groups.all (!·.isEmpty) then some (run.filter p, s.drop run.length) else none

inductive Number
  | whole (n : Int)
  | real (x : Float)

/-- A number in base 16, 8 or 2, after its zero. -/
def based : Reader Nat := do
  let digits (isDigit : Char → Bool) (base : Nat) : Reader Nat := do
    let ds ← digitRun isDigit
    return ds.foldl (fun n d => base * n + (Json.hexValue? d).getD 0) 0
  match ← one fun _ => true with
  | 'x' => digits (fun c => (Json.hexValue? c).isSome) 16
  | 'o' => digits (fun c => '0' ≤ c && c ≤ '7') 8
  | 'b' => digits (fun c => c = '0' || c = '1') 2
  | _ => failure

def fraction : Reader (Option (List Char)) := do
  if ← literal? '.' then return some (← digitRun isDigit)
  return none

def tenfold : Reader (Option Int) := do
  let isMarked ← (do literal 'e'; pure true) <|> (do literal 'E'; pure true) <|> pure false
  if !isMarked then return none
  let isNegative ← sign
  let n := digitsValue (← digitRun isDigit)
  return some (if isNegative then -n else n)

def decimal (isNegative : Bool) : Reader Number := do
  let whole ← digitRun isDigit
  guard (whole.length = 1 || whole.head? ≠ some '0')
  let fraction? ← fraction
  let exponent? ← tenfold
  if fraction?.isNone && exponent?.isNone then
    let n := digitsValue whole
    return .whole (if isNegative then -n else n)
  let fraction := fraction?.getD []
  let exponent := exponent?.getD 0 - fraction.length
  let x := Decimal.toFloat ⟨isNegative, digitsValue (whole ++ fraction), exponent⟩
  guard (isNegative || !x.isInf)
  return .real x

def word (letters : String) : Reader Unit := letters.toList.forM literal

def number : Reader Number := do
  let inBase : Reader Number := do
    literal '0'
    return .whole (← based)
  let signed : Reader Number := do
    let isNegative ← sign
    let infinite : Reader Number := do
      word "inf"
      return .real (if isNegative then -1.0 / 0.0 else 1.0 / 0.0)
    let notANumber : Reader Number := do
      word "nan"
      return .real (0.0 / 0.0)
    infinite <|> notANumber <|> decimal isNegative
  match ← inBase <|> signed with
  | .whole n => if isInt64 n then return .whole n else failure
  | x => return x

end StatusStore.Text.Toml
