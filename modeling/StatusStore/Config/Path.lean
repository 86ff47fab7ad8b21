/-
  StatusStore/Config/Path.lean
  ============================
  **Paths of settings**: names with points between them, each of which may be
  followed by places in square brackets.  A name leads into a table and a place
  into a list; a negative place is counted from the end of the list.
-/
import StatusStore.Text.Decimal

namespace StatusStore.Config

open Text Text.Reader

inductive Step
  | name (name : String)
  | place (index : Int)
deriving DecidableEq, Repr

inductive StepFault
  /-- The place lies just before the start of the list. -/
  | beforeStart
  /-- The list would be too long. -/
  | tooLong
deriving DecidableEq, Repr

namespace Step

def longestList : Nat := Nat.pow 2 24

/-- The position in a list of `size` items that a place means. -/
def position (index : Int) (size : Nat) : Except StepFault Nat :=
  if 0 ≤ index then if index < longestList then .ok index.toNat else .error .tooLong
  else if index.natAbs ≤ size then .ok (size - index.natAbs)
  else if index.natAbs = size + 1 then .error .beforeStart
  else .error .tooLong

def isNameChar (c : Char) : Bool := c.isAlphanum || c = ' ' || c = '_' || c = '-'

def readName : Reader Step := fun s =>
  let name := s.takeWhile isNameChar
  if name.isEmpty then none else some (.name (String.ofList name), s.drop name.length)

def readPlace : Reader Step := do
  let spaces := skipWhile fun c => c = ' ' || c = '\t'
  literal '['
  spaces
  let isNegative ← literal? '-'
  let n := digitsValue (← allDigits)
  spaces
  literal ']'
  let index : Int := if isNegative then -n else n
  guard (isInt64 index)
  return .place index

/-- The steps after the first one, at most `fuel` of them. -/
def readRest : Nat → Reader (List Step)
  | 0 => fun s => if s.isEmpty then some ([], []) else none
  | fuel + 1 => fun s =>
    if s.isEmpty then some ([], [])
    else
      (do
        let step ← (do literal '.'; readName) <|> readPlace
        return step :: (← readRest fuel)) s

def readPath : Reader (List Step) := do
  let first ← readName
  return first :: (← readRest (← get).length)

end Step

/-- The steps of a path.  A text that writes no path is one name, which no setting has. -/
def pathOf (text : String) : List Step :=
  (Step.readPath.readAll? text).getD [.name text]

end StatusStore.Config
