/-
  StatusStore/Store/Write.lean
  ============================
  **The writes of the store.**  A write is one transaction; only if it succeeds
  is the cache changed and an event published.  The status in the caller's hands
  keeps what a write changed in it even if the write fails.
-/
import StatusStore.Store.Population

namespace StatusStore

/-- The status with the thread that it starts: one without a thread and without a parent starts
`fresh`.  A reply without a thread stays without one. -/
def Status.startThread (status : Status) (fresh : Thread) : Option Thread × Status :=
  if status.threadId.isNone && status.inReplyToId.isNone then
    (some fresh, { status with threadId := some fresh.id })
  else (none, status)

namespace Store

/-- Insert a status; `fresh` is the thread that it starts if it is in need of one. -/
def put (s : Store) (status : Status) (fresh : Thread) : Except Error Unit × Status × Store :=
  let (newThread, status) := status.startThread fresh
  match s.save status (·.putStatus status newThread) with
  | (.ok (), s) => (.ok (), status, (s.publish .create status).2)
  | (.error e, s) => (.error e, status, s)

/-- Write `columns` of a stored status, all if none is named, at the time `now`. -/
def update (s : Store) (status : Status) (columns : List StatusColumn) (now : Timestamp) :
    Except Error Unit × Status × Store :=
  let status := { status with updatedAt := now }
  match s.save status (·.updateStatus status columns) with
  | (.ok (), s) => (.ok (), status, (s.publish .update status).2)
  | (.error e, s) => (.error e, status, s)

/-- Delete a status, which need not be there.  It is loaded first, so that the lists that it is in
are dropped with it; its cache entry is dropped even if the deletion fails. -/
def delete (s : Store) (id : String) : Except Error Unit × Store :=
  let (existing, s) := s.get (.id id) .barebones
  let (answer, database) := s.database.deleteStatus id
  let s := { s with database, caches := s.caches.invalidate (.ofLookup (.id id)) }
  match answer, existing with
  | .ok (), .ok status => (.ok (), (s.publish .delete status).2)
  | _, _ => (answer, s)

end Store

end StatusStore
