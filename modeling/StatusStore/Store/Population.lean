/-
  StatusStore/Store/Population.lean
  =================================
  **Population**: fetching the records that a status refers to.

  A status has eleven parts that can be fetched, each on its own: a part that
  fails adds a message and the other parts are fetched all the same.  A part
  that is there already, with the id that the status asks for, is left alone.
  The parent and the boosted status are fetched barebones.
-/
import StatusStore.Store.Basic

namespace StatusStore

inductive Part
  | author
  | parent
  | parentAuthor
  | boost
  | boostAuthor
  | poll
  | attachments
  | tags
  | mentions
  | emojis
  | application
deriving DecidableEq, Repr

namespace Part

def all : List Part := [
  .author, .parent, .parentAuthor, .boost, .boostAuthor, .poll, .attachments, .tags, .mentions,
  .emojis, .application]

def name : Part → String
  | author => "author"
  | parent => "parent"
  | parentAuthor => "parent author"
  | boost => "boost"
  | boostAuthor => "boost author"
  | poll => "poll"
  | attachments => "attachments"
  | tags => "tags"
  | mentions => "mentions"
  | emojis => "emojis"
  | application => "application"

def failure (p : Part) (reason : String) : String :=
  "error populating status " ++ p.name ++ ": " ++ reason

end Part

structure Population where
  store : Store
  status : Status
  failures : PopulateError := {}

namespace Population

/-- The id to fetch: the wanted one, unless the record that is there carries it. -/
def stale? {α : Type} [Identified α] (wanted : Option String) (current : Option α) :
    Option String :=
  wanted.filter fun id => current.map Identified.id ≠ some id

def fail (p : Population) (part : Part) (reason : String) : Population :=
  { p with failures := p.failures.push (part.failure reason) }

def settle {α : Type} (p : Population) (part : Part) (attach : Status → α → Status) :
    Except Error α → Population
  | .ok a => { p with status := attach p.status a }
  | .error e => p.fail part e.message

def one {α : Type} [Identified α] (p : Population) (part : Part) (wanted : Option String)
    (current : Option α) (fetch : Store → String → Except Error α × Store)
    (attach : Status → α → Status) : Population :=
  match stale? wanted current with
  | none => p
  | some id =>
    let (answer, store) := fetch p.store id
    { p with store }.settle part attach answer

def many {α : Type} [Database.Persistent α] (p : Population) (part : Part) (relation : Relation α)
    (attach : Status → Relation α → Status) : Population :=
  if relation.isPopulated then p
  else
    let (answer, database) := p.store.database.fetchAll α relation.toIds
    let p := { p with store := { p.store with database } }
    match answer with
    | .error e => p.fail part e.message
    | .ok items =>
      let (complete, relation) := relation.hydrate items
      let p := { p with status := attach p.status relation }
      match complete with
      | .ok () => p
      | .error missing => p.fail part ("missing " ++ ", ".intercalate missing)

def attachParent (s parent : Status) : Status := { s with inReplyTo := some parent }

def attachBoosted (s boosted : Status) : Status := { s with boostOf := some boosted }

def fill (p : Population) (part : Part) : Population :=
  let s := p.status
  match part with
  | .author =>
    p.one part (some s.accountId) s.account (Store.fetch Account) fun s a =>
      { s with account := some a }
  | .parent => p.one part s.inReplyToId s.inReplyTo (·.load <| .id ·) attachParent
  | .parentAuthor =>
    p.one part s.inReplyToAccountId s.inReplyToAccount (Store.fetch Account)
      fun s a => { s with inReplyToAccount := some a }
  | .boost => p.one part s.boostOfId s.boostOf (·.load <| .id ·) attachBoosted
  | .boostAuthor =>
    p.one part s.boostOfAccountId s.boostOfAccount (Store.fetch Account)
      fun s a => { s with boostOfAccount := some a }
  | .poll => p.one part s.pollId s.poll (Store.fetch Poll) fun s a => { s with poll := some a }
  | .attachments => p.many part s.attachments fun s r => { s with attachments := r }
  | .tags => p.many part s.tags fun s r => { s with tags := r }
  | .mentions => p.many part s.mentions fun s r => { s with mentions := r }
  | .emojis => p.many part s.emojis fun s r => { s with emojis := r }
  | .application =>
    p.one part s.createdWithApplicationId s.createdWithApplication (Store.fetch Application)
      fun s a => { s with createdWithApplication := some a }

/-! ### What a part waits for

A parent or boosted status comes through the cache, where others may be loading it; any other part
is asked of the database. -/

def loaded? (s : Status) : Part → Option String
  | .parent => stale? s.inReplyToId s.inReplyTo
  | .boost => stale? s.boostOfId s.boostOf
  | _ => none

def receive (p : Population) (part : Part) (answer : Except Error Status) : Population :=
  match part with
  | .parent => p.settle part attachParent answer
  | .boost => p.settle part attachBoosted answer
  | _ => p

/-- Whether a list is to be fetched and not empty. -/
def isWanted {α : Type} (r : Relation α) : Bool := !r.isPopulated && !r.isEmpty

def asks (s : Status) : Part → Bool
  | .author => (stale? (some s.accountId) s.account).isSome
  | .parentAuthor => (stale? s.inReplyToAccountId s.inReplyToAccount).isSome
  | .boostAuthor => (stale? s.boostOfAccountId s.boostOfAccount).isSome
  | .poll => (stale? s.pollId s.poll).isSome
  | .attachments => isWanted s.attachments
  | .tags => isWanted s.tags
  | .mentions => isWanted s.mentions
  | .emojis => isWanted s.emojis
  | .application => (stale? s.createdWithApplicationId s.createdWithApplication).isSome
  | .parent | .boost => false

/-- The status if nothing failed, else the error `incomplete`. -/
def result (p : Population) : Except Error Status :=
  match p.failures.toResult with
  | .ok () => .ok p.status
  | .error failures => .error (.incomplete p.status failures)

end Population

namespace Store

def populate (s : Store) (status : Status) : Population :=
  Part.all.foldl Population.fill { store := s, status }

/-- What was loaded, populated if that is asked for.  A status that could not be fetched in full
is the error `incomplete`. -/
def complete (s : Store) (loaded : Except Error Status) (mode : Retrieval) :
    Except Error Status × Store :=
  match loaded, mode with
  | .ok status, .full =>
    let p := s.populate status
    (p.result, p.store)
  | _, _ => (loaded, s)

def get (s : Store) (l : Lookup) (mode : Retrieval) : Except Error Status × Store :=
  let (loaded, s) := s.load l
  s.complete loaded mode

/-- The statuses with some ids.  Those that cannot be found are left out; those that are incomplete
are not. -/
def getMany (s : Store) (mode : Retrieval) : List String → List Status × Store
  | [] => ([], s)
  | id :: ids =>
    let (answer, s) := s.get (.id id) mode
    let (rest, s) := s.getMany mode ids
    match acceptIncomplete answer with
    | .ok status => (status :: rest, s)
    | .error _ => (rest, s)

end Store

end StatusStore
