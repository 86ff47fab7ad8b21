/-
  StatusStore/Store/Basic.lean
  ============================
  **The store**: a database, the caches before it, and the queue that tells of
  its changes.

  Whatever is read goes through the caches; what they hold is barebones.
-/
import StatusStore.Cache.Caches
import StatusStore.Database.Read
import StatusStore.Database.Write
import StatusStore.Queue

namespace StatusStore

inductive Retrieval
  /-- With every record that it refers to. -/
  | full
  /-- The stored row only. -/
  | barebones
deriving DecidableEq, Repr

structure Store where
  database : Database := {}
  caches : Cache.Caches := default
  queue : Queue := default
deriving Inhabited

namespace Store

/-- The store after a restart: the caches and the queue are empty, the database is as it was, and
all counts go on. -/
def restarted (s : Store) : Store where
  database := s.database
  caches := s.caches.restarted
  queue := s.queue.restarted

def load (s : Store) (l : Lookup) : Except Error Status × Store :=
  let (answer, caches, database) := s.caches.load (.ofLookup l) (·.status l) s.database
  (answer, { s with caches, database })

def loadList (s : Store) (kind : Cache.ListKind) (id : String) :
    Except Error (List String) × Store :=
  let query (database : Database) := match kind with
    | .replies => database.replyIds id
    | .boosts => database.boostIds id
  let (answer, caches, database) := s.caches.loadList kind id query s.database
  (answer, { s with caches, database })

def fetch (α : Type) [Database.Persistent α] (s : Store) (id : String) :
    Except Error α × Store :=
  let (answer, database) := s.database.fetch α id
  (answer, { s with database })

/-- Write a status in one transaction, and cache it if that succeeds. -/
def save (s : Store) (status : Status) (write : Database → Except Error Unit × Database) :
    Except Error Unit × Store :=
  let (answer, caches, database) := s.caches.store status.barebones write s.database
  (answer, { s with caches, database })

def publish (s : Store) (action : StatusAction) (status : Status) : Bool × Store :=
  let (queued, queue) := s.queue.publish action status
  (queued, { s with queue })

end Store

end StatusStore
