/-
  StatusStore/Model/Lookup.lean
  =============================
  **The five ways to look a status up.**  An id and a uri name one status; a url
  or a poll may lead to several, of which the one stored first is meant; of the
  boosts of a status by an account, the one with the greatest id is meant, which
  is the newest, since ids sort by the time of their making.
-/
import StatusStore.Model.Status

namespace StatusStore

inductive Lookup
  | id (id : String)
  | uri (uri : String)
  | url (url : String)
  /-- The status that a poll belongs to. -/
  | pollId (pollId : String)
  /-- The newest boost of a status by an account. -/
  | boost (boostOfId accountId : String)
deriving DecidableEq, Repr

namespace Lookup

def describes (l : Lookup) (row : StatusRow) : Bool :=
  match l with
  | id x => row.id = x
  | uri x => row.uri = x
  | url x => row.url = some x
  | pollId x => row.pollId = some x
  | boost target account => row.boostOfId = some target && row.accountId = account

def name : Lookup → String
  | id _ => "ID"
  | uri _ => "URI"
  | url _ => "URL"
  | pollId _ => "PollID"
  | boost _ _ => "BoostOfID+AccountID"

def parts : Lookup → List String
  | id x | uri x | url x | pollId x => [x]
  | boost target account => [target, account]

def names : List String := [id "", uri "", url "", pollId "", boost "" ""].map name

end Lookup

end StatusStore
