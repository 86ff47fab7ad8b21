/-
  StatusStore/Store/Traversal.lean
  ================================
  **Walking from status to status**: along the chain of parents, down the tree of
  replies, and to the boosts and the users of an emoji.

  Ids that lead nowhere are skipped in flat lists and end a walk along replies.
  A walk ends because replies form no cycle; `reach` bounds the number of
  statuses that it can meet, so a longer one must be in a cycle.
-/
import StatusStore.Store.Population

namespace StatusStore.Store

/-- The statuses that can be found at most: what is cached under any key, and every row. -/
def reach (s : Store) : Nat :=
  s.caches.statuses.index.places.size + s.database.tables.statuses.length

/-- The parents from `next` on, at most `fuel` of them. -/
def climb (mode : Retrieval) : Nat → Store → Option String → Except Error (List Status) × Store
  | _, s, none => (.ok [], s)
  | 0, s, some _ => (.error (.internal .cyclicReplies), s)
  | fuel + 1, s, some id =>
    match s.get (.id id) mode with
    | (answer, s) =>
      match acceptIncomplete answer with
      | .error e => (.error e, s)
      | .ok parent =>
        let (rest, s) := climb mode fuel s parent.inReplyToId
        (rest.map (parent :: ·), s)

/-- The parents of a status, nearest first.  All of them must be there. -/
def ancestors (s : Store) (status : Status) (mode : Retrieval) :
    Except Error (List Status) × Store :=
  climb mode (s.reach + 1) s status.inReplyToId

/-- The statuses with the ids in `pending` and all replies below them, at most `fuel` statuses.
The replies to a status are put before the rest of what is pending. -/
def descend (mode : Retrieval) : Nat → Store → List String → Except Error (List Status) × Store
  | _, s, [] => (.ok [], s)
  | 0, s, _ :: _ => (.error (.internal .cyclicReplies), s)
  | fuel + 1, s, id :: pending =>
    match s.get (.id id) mode with
    | (answer, s) =>
      match acceptIncomplete answer with
      | .error e => (.error e, s)
      | .ok reply =>
        match s.loadList .replies reply.id with
        | (.error e, s) => (.error e, s)
        | (.ok ids, s) =>
          let (rest, s) := descend mode fuel s (ids ++ pending)
          (rest.map (reply :: ·), s)

/-- All replies below a status, each followed by the replies below it. -/
def descendants (s : Store) (id : String) (mode : Retrieval) :
    Except Error (List Status) × Store :=
  match s.loadList .replies id with
  | (.error e, s) => (.error e, s)
  | (.ok ids, s) => descend mode (Nat.pow 2 s.reach) s ids

def listed (s : Store) (kind : Cache.ListKind) (id : String) (mode : Retrieval) :
    Except Error (List Status) × Store :=
  match s.loadList kind id with
  | (.error e, s) => (.error e, s)
  | (.ok ids, s) =>
    let (statuses, s) := s.getMany mode ids
    (.ok statuses, s)

def countListed (s : Store) (kind : Cache.ListKind) (id : String) : Except Error Nat × Store :=
  let (answer, s) := s.loadList kind id
  (answer.map List.length, s)

def replies (s : Store) (id : String) (mode : Retrieval) : Except Error (List Status) × Store :=
  s.listed .replies id mode

def countReplies (s : Store) (id : String) : Except Error Nat × Store := s.countListed .replies id

def boosts (s : Store) (id : String) (mode : Retrieval) : Except Error (List Status) × Store :=
  s.listed .boosts id mode

def countBoosts (s : Store) (id : String) : Except Error Nat × Store := s.countListed .boosts id

def isBoostedBy (s : Store) (id accountId : String) : Except Error Bool × Store :=
  match s.get (.boost id accountId) .barebones with
  | (.ok _, s) => (.ok true, s)
  | (.error .notFound, s) => (.ok false, s)
  | (.error e, s) => (.error e, s)

def usingEmoji (s : Store) (emojiId : String) (mode : Retrieval) :
    Except Error (List Status) × Store :=
  match s.database.emojiStatusIds emojiId with
  | (.error e, database) => (.error e, { s with database })
  | (.ok ids, database) =>
    let (statuses, s) := getMany { s with database } mode ids
    (.ok statuses, s)

end StatusStore.Store
