/-
  StatusStore/Text/StringList.lean
  ================================
  **Lists of strings as they are stored**: a list of JSON in which every item is
  a string.
-/
import StatusStore.Text.Json

namespace StatusStore.Text

open Json

def stringItem : JsonReader String := do
  blanks
  match ← next? with
  | none => refuse .endInValue
  | some '"' => string
  | some _ => refuseKind "a string"

/-- The items of a list after its bracket, or after its items so far, in reverse.  There are at
most `fuel` items. -/
def stringItems : Nat → List String → JsonReader (List String)
  | 0, _ => refuse .endInList
  | fuel + 1, sofar => do
    blanks
    match ← next? with
    | none => refuse .endInList
    | some ']' =>
      skip
      return sofar.reverse
    | some c =>
      if !sofar.isEmpty then
        if c ≠ ',' then refuseNext .noCommaInList
        skip
        blanks
        if (← next?) = some ']' then refuseNext .trailingComma
      stringItems fuel ((← stringItem) :: sofar)

def stringList : JsonReader (List String) := do
  blanks
  match ← next? with
  | none => refuse .endInValue
  | some '[' =>
    skip
    stringItems ((← get).length + 1) []
  | some _ => refuseKind "a sequence"

/-- The list that a text stores, or the message that it stores none. -/
def readStringList (text : String) : Except String (List String) :=
  (readAll stringList text).mapError (Failure.message text)

end StatusStore.Text
