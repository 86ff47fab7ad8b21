/-
  StatusStore/Cache/Entity.lean
  =============================
  **A cache with many aliases per value.**  A cache is an index with counters,
  the locks of its keys, and the loads and stores in flight.

  This module holds the single changes that a cache goes through (a hit, the
  beginning and end of a load, a commit, an invalidation), and the two uses of
  a cache by one caller at a time: `load` and `store`.  Loads and stores that
  overlap are the matter of `StatusStore.Cache.Flight`; they go through the same
  changes.

  A value that a store displaces or an invalidation removes is *announced*, and
  so is every stored value, since lists that other caches keep may depend on it.
-/
import StatusStore.Cache.Index
import StatusStore.Error
import StatusStore.Lock.Session

namespace StatusStore.Cache

/-- What a flight does, and the answer of its computation as soon as it is known. -/
inductive Work (α : Type)
  /-- Fetch the value under `key`. -/
  | load (key : Key) (answer : Option (Except Error α))
  /-- Persist `value`, then cache it. -/
  | store (value : α) (answer : Option (Except Error Unit))

inductive Phase
  | waiting
  | running
deriving DecidableEq, Repr

/-- A load or store that has not ended. -/
structure Flight (α : Type) where
  handle : Nat
  work : Work α
  phase : Phase

structure EntityCache (α : Type) where
  name : String
  index : Index α := {}
  hits : Nat := 0
  misses : Nat := 0
  /-- The number of entries when it was recorded last. -/
  recordedSize : Option Nat := none
  /-- Computations started. -/
  started : Nat := 0
  locks : Lock.Session := {}
  /-- Loads and stores that have not ended, oldest first. -/
  flights : List (Flight α) := []

namespace EntityCache

variable {α : Type}

def withGcFrequency (name : String) (frequency : UInt32) : EntityCache α :=
  { name, locks := .withGcFrequency frequency }

def get? (c : EntityCache α) (key : Key) : Option α := c.index.get? key.encode

def size (c : EntityCache α) : Nat := c.index.size

def isEmpty (c : EntityCache α) : Bool := c.index.isEmpty

/-- The cache as a new process finds it: nothing is cached and the counters go on. -/
def restarted (c : EntityCache α) : EntityCache α :=
  { c with
    index := {}
    flights := []
    locks := { Lock.Session.withGcFrequency c.locks.table.gcFrequency with
               waits := c.locks.waits } }

/-! ### Single changes -/

def recordHit (c : EntityCache α) : EntityCache α := { c with hits := c.hits + 1 }

def recordSize (c : EntityCache α) : EntityCache α :=
  { c with recordedSize := some c.index.size }

def beginLoad (c : EntityCache α) (key : String) : EntityCache α :=
  { c with
    index := c.index.beginLoad key
    misses := c.misses + 1
    started := c.started + 1 }

variable [Cacheable α]

def abandonLoad (c : EntityCache α) (key : String) : EntityCache α :=
  { c with index := (c.index.finishLoad key none).2 }

/-- End the load of a key with the answer of its computation.  A value is cached if it is
fresh; an error is not. -/
def settleLoad (c : EntityCache α) (key : String) : Except Error α → EntityCache α
  | .error _ => c.abandonLoad key
  | .ok v =>
    match c.index.finishLoad key (some v) with
    | (true, index) => { c with index := (index.insert v (some key)).2 }.recordSize
    | (false, index) => { c with index }

/-- Cache a persisted value; answers the values to announce. -/
def commit (c : EntityCache α) (v : α) : List α × EntityCache α :=
  let (displaced, index) := c.index.commit v
  (displaced ++ [v], { c with index }.recordSize)

/-- Remove the value under `key`, whichever alias it is; answers the values to announce. -/
def invalidate (c : EntityCache α) (key : Key) : List α × EntityCache α :=
  let (removed, index) := c.index.invalidate key.encode
  (removed.toList, { c with index }.recordSize)

/-! ### One caller at a time -/

def load {σ : Type} (c : EntityCache α) (key : Key) (compute : σ → Except Error α × σ) (env : σ) :
    Except Error α × EntityCache α × σ :=
  match c.get? key with
  | some v => (.ok v, c.recordHit, env)
  | none =>
    let (answer, env) := compute env
    (answer, (c.beginLoad key.encode).settleLoad key.encode answer, env)

/-- Persist `v`, then cache it; answers the values to announce.  Nothing is cached if `persist`
fails, and nothing is persisted that could not be cached. -/
def store {σ : Type} (c : EntityCache α) (v : α) (persist : σ → Except Error Unit × σ) (env : σ) :
    Except Error Unit × List α × EntityCache α × σ :=
  if (Cacheable.keys v).isEmpty then (.error (.internal (.noCacheKey c.name)), [], c, env)
  else
    let c := { c with started := c.started + 1 }
    match persist env with
    | (.error e, env) => (.error e, [], c, env)
    | (.ok (), env) =>
      let (announced, c) := c.commit v
      (.ok (), announced, c, env)

end EntityCache

end StatusStore.Cache
