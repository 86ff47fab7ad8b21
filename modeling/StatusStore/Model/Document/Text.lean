/-
  StatusStore/Model/Document/Text.lean
  ====================================
  **Documents as text**: JSON, read and written.  Of two fields of one name the
  last one counts.
-/
import StatusStore.Model.Document
import StatusStore.Text.Json

namespace StatusStore.Document

open Text Text.Json

/-! ### Reading -/

def ofNumber : Number → Document
  | .whole n => .whole n
  | .real x => .real x

def withField (fields : List (String × Document)) (name : String) (d : Document) :
    List (String × Document) :=
  fields.filter (·.1 ≠ name) ++ [(name, d)]

mutual

/-- A value, of which there are at most `fuel` within each other or side by side. -/
def value : Nat → JsonReader Document
  | 0 => refuse .noValue
  | fuel + 1 => do
    blanks
    match ← next? with
    | some 'n' =>
      word "null"
      return .null
    | some 't' =>
      word "true"
      return .bool true
    | some 'f' =>
      word "false"
      return .bool false
    | some '"' => return .text (← string)
    | some '[' =>
      skip
      return .list (← items fuel [])
    | some '\x7b' =>
      skip
      return .object (← fields fuel [])
    | some '-' =>
      skip
      return ofNumber (← number true)
    | some c => if isDigit c then return ofNumber (← number false) else refuseNext .noValue
    | none => refuse .endInValue

def items : Nat → List Document → JsonReader (List Document)
  | 0, _ => refuse .endInList
  | fuel + 1, sofar => do
    blanks
    match ← next? with
    | none => refuse .endInList
    | some ']' =>
      skip
      return sofar.reverse
    | some c =>
      if !sofar.isEmpty then
        if c ≠ ',' then refuseNext .noCommaInList
        skip
        blanks
        if (← next?) = some ']' then refuseNext .trailingComma
      let d ← value fuel
      items fuel (d :: sofar)

def fields : Nat → List (String × Document) → JsonReader (List (String × Document))
  | 0, _ => refuse .endInObject
  | fuel + 1, sofar => do
    blanks
    match ← next? with
    | none => refuse .endInObject
    | some '\x7d' =>
      skip
      return sofar
    | some c =>
      if !sofar.isEmpty then
        if c ≠ ',' then refuseNext .noCommaInObject
        skip
        blanks
        if (← next?) = some '\x7d' then refuseNext .trailingComma
      if (← next?) ≠ some '"' then refuseNext .noName
      let name ← string
      blanks
      match ← next? with
      | some ':' => skip
      | none => refuse .endInObject
      | some _ => refuseNext .noColon
      let d ← value fuel
      fields fuel (withField sofar name d)

end

def ofText (s : String) : Except Failure Document := readAll (value (2 * s.length + 2)) s

/-! ### Writing -/

mutual

def toText : Document → String
  | .null => "null"
  | .bool b => if b then "true" else "false"
  | .whole n => Int.repr n
  | .real x => realText x
  | .text s => stringText s
  | .list items => "[" ++ ",".intercalate (itemTexts items) ++ "]"
  | .object fields => "\x7b" ++ ",".intercalate (fieldTexts fields) ++ "\x7d"

def itemTexts : List Document → List String
  | [] => []
  | d :: rest => toText d :: itemTexts rest

def fieldTexts : List (String × Document) → List String
  | [] => []
  | (name, d) :: rest => (stringText name ++ ":" ++ toText d) :: fieldTexts rest

end

end StatusStore.Document
