/-
  StatusStore/Model/EntityId.lean
  ===============================
  **Entity ids**: text, usually a sortable identifier of 26 characters that
  writes 48 bits of time in milliseconds and 80 random bits in base 32.  Ids of
  that form sort by the time of their making.
-/
import StatusStore.Model.Document

namespace StatusStore

/-- The id of an entity, with no claim about its form. -/
structure EntityId where
  text : String
deriving DecidableEq, Repr

namespace EntityId

/-- The digits of base 32, without the letters I, L, O and U. -/
def alphabet : List Char := "0123456789ABCDEFGHJKMNPQRSTVWXYZ".toList

def base32 : Nat → Nat → List Char
  | 0, _ => []
  | count + 1, n => base32 count (n / 32) ++ [alphabet.getD (n % 32) '0']

def generate (millis random : Nat) : EntityId :=
  ⟨String.ofList (base32 26 (millis % Nat.pow 2 48 * Nat.pow 2 80 + random % Nat.pow 2 80))⟩

def isSortable (id : EntityId) : Bool :=
  let cs := id.text.toList
  cs.length = 26 && cs.all (alphabet.contains ·.toUpper) && cs.head?.any (· ≤ '7')

instance : Documented EntityId where
  ofDocument? d := d.text?.map EntityId.mk
  toDocument id := .text id.text

end EntityId

end StatusStore
