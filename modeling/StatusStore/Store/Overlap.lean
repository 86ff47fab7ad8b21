/-
  StatusStore/Store/Overlap.lean
  ==============================
  **Calls that overlap.**  A call of the store goes from one await to the next:
  it is begun, its use of the database takes effect (`perform`), and it is
  resumed, any number of times and in any order with other calls.  It can also
  be dropped at any await.

  The caches see a call as a flight under the same handle.  A deletion is the
  flight of the load before it, then a transaction that no lock protects.  A
  status that is populated takes a flight for its parent and one for the status
  that it boosts, one after the other.
-/
import StatusStore.Store.Population
import StatusStore.Store.Write

namespace StatusStore

inductive Request
  | get (l : Lookup) (mode : Retrieval)
  | put (status : Status) (fresh : Thread)
  | update (status : Status) (columns : List StatusColumn) (now : Timestamp)
  | delete (id : String)

inductive Task
  | lookup (l : Lookup) (mode : Retrieval)
  /-- A population under way: the parts that are left, the first of them being fetched. -/
  | fill (status : Status) (failures : PopulateError) (parts : List Part)
  /-- A population of which the database has answered for the part before `parts`. -/
  | filled (status : Status) (failures : PopulateError) (parts : List Part)
  /-- A write under way: the status as the caller has it, and the transaction. -/
  | save (action : StatusAction) (status : Status) (statements : List Database.Statement)
  /-- The load before a deletion. -/
  | preload (id : String)
  /-- A deletion under way: what was loaded, and the answer of the database. -/
  | remove (id : String) (existing : Option Status) (answer : Option (Except Error Unit))

inductive Returned
  | status (result : Except Error Status)
  | unit (result : Except Error Unit)

structure Call where
  handle : Nat
  task : Task

structure Overlap where
  store : Store
  calls : List Call := []
  /-- What has returned, latest first. -/
  returned : List (Nat × Returned) := []

inductive OverlapStep
  | begin (handle : Nat) (request : Request)
  | perform (handle : Nat)
  | resume (handle : Nat)
  | cancel (handle : Nat)

namespace Overlap

def task? (o : Overlap) (handle : Nat) : Option Task :=
  (o.calls.find? (·.handle = handle)).map Call.task

def setTask (o : Overlap) (handle : Nat) (task : Task) : Overlap :=
  { o with calls := o.calls.map fun c => if c.handle = handle then { c with task } else c }

def forget (o : Overlap) (handle : Nat) : Overlap :=
  { o with calls := o.calls.filter (·.handle ≠ handle) }

def finish (o : Overlap) (handle : Nat) (result : Returned) : Overlap :=
  { o.forget handle with returned := (handle, result) :: o.returned }

def setCaches (o : Overlap) (caches : Cache.Caches) : Overlap :=
  { o with store := { o.store with caches } }

def setDatabase (o : Overlap) (database : Database) : Overlap :=
  { o with store := { o.store with database } }

def evict (o : Overlap) (id : String) : Overlap :=
  o.setCaches (o.store.caches.invalidate (.ofLookup (.id id)))

/-- Fetch the parts of a status that are left, up to the first that has to be waited for. -/
def populate (o : Overlap) (handle : Nat) (status : Status) (failures : PopulateError) :
    List Part → Overlap
  | [] => o.finish handle (.status (Population.mk o.store status failures).result)
  | part :: rest =>
    match Population.loaded? status part with
    | some id =>
      let (progress, caches) := o.store.caches.start handle (.load (.ofLookup (.id id)) none)
      let o := o.setCaches caches
      match progress with
      | .status (.loaded answer) =>
        let p := (Population.mk o.store status failures).receive part answer
        o.populate handle p.status p.failures rest
      | _ => o.setTask handle (.fill status failures (part :: rest))
    | none =>
      if Population.asks status part then o.setTask handle (.fill status failures (part :: rest))
      else
        let p := (Population.mk o.store status failures).fill part
        o.populate handle p.status p.failures rest

/-- Go on after the flight of a call was started or polled. -/
def afterFlight (o : Overlap) (handle : Nat) (task : Task) : Cache.CallProgress → Overlap
  | .status (.loaded result) =>
    match task, result with
    | .preload id, result => o.setTask handle (.remove id result.toOption none)
    | .lookup _ .full, .ok status => o.populate handle status {} Part.all
    | .fill status failures (part :: rest), answer =>
      let p := (Population.mk o.store status failures).receive part answer
      o.populate handle p.status p.failures rest
    | _, result => o.finish handle (.status result)
  | .status (.stored result) =>
    let o := match task, result with
      | .save action status _, .ok () =>
        { o with store := (o.store.publish action status).2 }
      | _, _ => o
    o.finish handle (.unit result)
  | _ => o

/-- Start the flight of a call; a handle that a call has is refused. -/
def launch (o : Overlap) (handle : Nat) (task : Task) (work : Cache.Work Status) : Overlap :=
  if (o.task? handle).isSome then o
  else
    let (progress, caches) := o.store.caches.start handle work
    let o := { o with calls := o.calls ++ [Call.mk handle task] }
    (o.setCaches caches).afterFlight handle task progress

def begin (o : Overlap) (handle : Nat) : Request → Overlap
  | .get l mode => o.launch handle (.lookup l mode) (.load (.ofLookup l) none)
  | .put status fresh =>
    let (newThread, status) := status.startThread fresh
    let statements := Database.Statement.put status newThread
    o.launch handle (.save .create status statements) (.store status.barebones none)
  | .update status columns now =>
    let status := { status with updatedAt := now }
    let statements := Database.Statement.update status columns
    o.launch handle (.save .update status statements) (.store status.barebones none)
  | .delete id => o.launch handle (.preload id) (.load (.ofLookup (.id id)) none)

def performLoad (o : Overlap) (handle : Nat) (l : Lookup) : Overlap :=
  if o.store.caches.statuses.isAsking handle then
    let (answer, database) := o.store.database.status l
    (o.setDatabase database).setCaches (o.store.caches.answerLoad handle answer)
  else o

/-- What the call under `handle` asked of the database takes effect, if it asked for anything. -/
def perform (o : Overlap) (handle : Nat) : Overlap :=
  match o.task? handle with
  | none => o
  | some (.lookup l _) => o.performLoad handle l
  | some (.fill status failures (part :: rest)) =>
    match Population.loaded? status part with
    | some id => o.performLoad handle (.id id)
    | none =>
      let p := (Population.mk o.store status failures).fill part
      { o with store := p.store }.setTask handle (.filled p.status p.failures rest)
  | some (.preload id) => o.performLoad handle (.id id)
  | some (.save _ _ statements) =>
    if o.store.caches.statuses.isAsking handle then
      let (answer, database) := o.store.database.transact statements
      (o.setDatabase database).setCaches (o.store.caches.answerStore handle answer)
    else o
  | some (.remove id existing none) =>
    let (answer, database) := o.store.database.deleteStatus id
    (o.setDatabase database).setTask handle (.remove id existing (some answer))
  | some (.remove _ _ (some _)) | some (.fill _ _ []) | some (.filled ..) => o

def resume (o : Overlap) (handle : Nat) : Overlap :=
  match o.task? handle with
  | none => o
  | some (.remove _ _ none) => o
  | some (.remove id existing (some answer)) =>
    let o := match answer, existing with
      | .ok (), some status => { o with store := (o.store.publish .delete status).2 }
      | _, _ => o
    (o.evict id).finish handle (.unit answer)
  | some (.filled status failures parts) => o.populate handle status failures parts
  | some task =>
    let (progress, caches) := o.store.caches.poll handle
    (o.setCaches caches).afterFlight handle task progress

/-- Drop the call under `handle`.  A deletion that has been sent takes its cache entry along. -/
def cancel (o : Overlap) (handle : Nat) : Overlap :=
  match o.task? handle with
  | none => o
  | some (.remove id _ _) => (o.evict id).forget handle
  | some _ => (o.setCaches (o.store.caches.cancel handle).2).forget handle

def step (o : Overlap) : OverlapStep → Overlap
  | .begin handle request => o.begin handle request
  | .perform handle => o.perform handle
  | .resume handle => o.resume handle
  | .cancel handle => o.cancel handle

def run (o : Overlap) (steps : List OverlapStep) : Overlap := steps.foldl step o

def isAsking (o : Overlap) (handle : Nat) : Bool :=
  match o.task? handle with
  | some (.remove _ _ none) => true
  | some (.fill status _ (part :: _)) =>
    Population.asks status part || o.store.caches.statuses.isAsking handle
  | _ => o.store.caches.statuses.isAsking handle

/-! ### One connection

Where the database has one connection, calls that ask for it stand in line. -/

/-- Calls in progress, and those of them that stand in line for the connection. -/
structure Line where
  overlap : Overlap
  waiting : List Nat := []

/-- A closed database answers at once, so a call that asks it goes on. -/
def refused (o : Overlap) (handle : Nat) : Overlap :=
  if o.store.database.isClosed && o.isAsking handle then (o.perform handle).resume handle else o

namespace Line

/-- A call was polled: if it asks the database now, it takes its place at the end of the line.  A
closed database is asked once for each part at the most, and once before. -/
def attend (l : Line) (handle : Nat) : Line :=
  let o := (Part.all.length + 1).repeat (·.refused handle) l.overlap
  if o.isAsking handle && !l.waiting.contains handle then ⟨o, l.waiting ++ [handle]⟩
  else { l with overlap := o }

def poll (l : Line) : Line :=
  l.overlap.calls.foldl (fun l c =>
    { l with overlap := l.overlap.resume c.handle }.attend c.handle) l

/-- The database answers the call at the head of the line.  A second poll reaches the calls that
the first one woke up after it had passed them. -/
def serve (l : Line) : Line :=
  match l.waiting with
  | [] => l
  | handle :: waiting => poll (poll ⟨l.overlap.perform handle, waiting⟩)

end Line

end Overlap

namespace Store

def getAtOnce (s : Store) (l : Lookup) (mode : Retrieval) (n : Nat) :
    List (Except Error Status) × Store :=
  let begun : Overlap.Line := (List.range n).foldl (fun line handle =>
    { line with overlap := line.overlap.begin handle (.get l mode) }.attend handle)
    { overlap := { store := s } }
  let ended := (n * (Part.all.length + 1)).repeat Overlap.Line.serve begun
  let result (handle : Nat) : Option (Except Error Status) :=
    match ended.overlap.returned.lookup handle with
    | some (.status r) => some r
    | _ => none
  ((List.range n).filterMap result, ended.overlap.store)

end Store

end StatusStore
