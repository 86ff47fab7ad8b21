/-
  StatusStore/Proofs/Store/Runs.lean
  ==================================
  **Runs of a store.**  One caller at a time reads, writes, populates and restarts.
  In a run through events its database may also fail and recover in between:
  connections close, and tables cannot be reached.

  Main statement: `fetches_read`, which says what all reads are made of.
-/
import StatusStore.Proofs.Store.Fetches

namespace StatusStore.Store

open Cache Database

/-! ### Operations -/

inductive Read
  | get (l : Lookup)
  | getMany (ids : List String)
  | replies (id : String)
  | boosts (id : String)
  | countReplies (id : String)
  | countBoosts (id : String)
  | isBoostedBy (id accountId : String)
  | ancestors (status : Status)
  | descendants (id : String)
  | usingEmoji (emojiId : String)

inductive Answer
  | status (answer : Except Error Status)
  | statuses (answer : Except Error (List Status))
  | count (answer : Except Error Nat)
  | truth (answer : Except Error Bool)

def read (s : Store) (r : Read) (mode : Retrieval) : Answer × Store :=
  match r with
  | .get l => (s.get l mode).map .status id
  | .getMany ids => (s.getMany mode ids).map (.statuses <| .ok ·) id
  | .replies target => (s.replies target mode).map .statuses id
  | .boosts target => (s.boosts target mode).map .statuses id
  | .countReplies target => (s.countReplies target).map .count id
  | .countBoosts target => (s.countBoosts target).map .count id
  | .isBoostedBy target accountId => (s.isBoostedBy target accountId).map .truth id
  | .ancestors status => (s.ancestors status mode).map .statuses id
  | .descendants target => (s.descendants target mode).map .statuses id
  | .usingEmoji emojiId => (s.usingEmoji emojiId mode).map .statuses id

inductive Operation
  | put (status : Status) (fresh : Thread)
  | update (status : Status) (columns : List StatusColumn) (now : Timestamp)
  | delete (id : String)
  | read (r : Read) (mode : Retrieval)
  | populate (status : Status)
  | restart

def perform (s : Store) : Operation → Store
  | .put status fresh => (s.put status fresh).2.2
  | .update status columns now => (s.update status columns now).2.2
  | .delete id => (s.delete id).2
  | .read r mode => (s.read r mode).2
  | .populate status => (s.populate status).store
  | .restart => s.restarted

def run (s : Store) (operations : List Operation) : Store := operations.foldl perform s

/-- Whether the ids in a read can be told apart when they are joined. -/
def Read.IsPlain : Read → Prop
  | .get l => l.IsPlain
  | .isBoostedBy id accountId => (Lookup.boost id accountId).IsPlain
  | _ => True

def Read.lookup? : Read → Option Lookup
  | .get l => some l
  | .isBoostedBy id accountId => some (.boost id accountId)
  | _ => none

theorem Read.IsPlain.lookup {r : Read} (hr : r.IsPlain) {l : Lookup} (hl : r.lookup? = some l) :
    l.IsPlain := by
  cases r <;> cases hl <;> exact hr

theorem fetches_read {p : Lookup → Prop} (hids : ∀ id, p (.id id)) {r : Read}
    (hr : ∀ l, r.lookup? = some l → p l) (s : Store) (mode : Retrieval) :
    Fetches p s (s.read r mode).2 := by
  cases r with
  | get l => exact fetches_get hids (hr l rfl) s mode
  | getMany ids => exact s.fetches_getMany hids mode ids
  | replies id => exact s.fetches_listed hids .replies id mode
  | boosts id => exact s.fetches_listed hids .boosts id mode
  | countReplies id => exact s.fetches_countListed .replies id
  | countBoosts id => exact s.fetches_countListed .boosts id
  | isBoostedBy id accountId => exact fetches_isBoostedBy hids (hr _ rfl) s
  | ancestors status => exact s.fetches_ancestors hids status mode
  | descendants id => exact s.fetches_descendants hids id mode
  | usingEmoji emojiId => exact s.fetches_usingEmoji hids emojiId mode

def beginning : Store where
  caches := .withGcFrequency 1
  queue := { (default : Queue) with capacity := 1, capacity_pos := Nat.one_pos }

theorem ofDatabase_beginning : ofDatabase ⟨"", 1, 1, "info", "pretty"⟩ {} = .ok beginning := rfl

/-! ### Events -/

/-- What happens to a store: it is used, or its database fails or recovers, with its connections
closed or not and some tables out of reach. -/
inductive Event
  | use (operation : Operation)
  | outage (isClosed : Bool) (dropped : List TableName)

def after (s : Store) : Event → Store
  | .use operation => s.perform operation
  | .outage isClosed dropped =>
    { s with database := { s.database with
      isClosed, tables := { s.database.tables with dropped } } }

def afterAll (s : Store) (events : List Event) : Store := events.foldl after s

/-- Whether every operation of a run satisfies `P` where it is used. -/
def Along (P : Store → Operation → Prop) : Store → List Event → Prop
  | _, [] => True
  | s, event :: rest =>
    (∀ operation, event = .use operation → P s operation) ∧ Along P (s.after event) rest

end StatusStore.Store
