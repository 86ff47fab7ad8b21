/-
  StatusStore/Cache/Index.lean
  ============================
  **The index of a cache**: entries, the aliases that lead to them, and the
  bookkeeping by which a load learns that its value is out of date.

  Every store and invalidation is a change: it starts a new generation and marks
  the aliases that it touched.  A load remembers the generation in which it
  began, and its value is fresh if none of the aliases in question was marked
  since then.  Marks are only kept while they can matter to a load in flight.
-/
import StatusStore.KeyMap
import StatusStore.Cache.Key

namespace StatusStore.Cache

/-- A cached value with all the aliases that lead to it. -/
structure Entry (α : Type) where
  value : α
  aliases : List String
deriving Repr

/-- The entries and the changes are numbered without bound.  Both numbers go up by one at a time, so
they agree with numbers in 64 bits as long as fewer than `2 ^ 64` entries have been made and fewer
than `2 ^ 64` changes have happened. -/
structure Index (α : Type) where
  entries : KeyMap Nat (Entry α) := {}
  /-- Where each alias leads. -/
  places : KeyMap String Nat := {}
  /-- The number of the entry made last. -/
  lastEntry : Nat := 0
  /-- Changes so far. -/
  generation : Nat := 0
  /-- The loads in flight: the generation in which each began. -/
  loading : KeyMap String Nat := {}
  /-- The generation in which an alias was last touched, if a load may ask. -/
  touched : KeyMap String Nat := {}

namespace Index

variable {α : Type}

instance : Inhabited (Index α) := ⟨{}⟩

def get? (x : Index α) (key : String) : Option α := do
  let entry ← x.entries.get? (← x.places.get? key)
  return entry.value

def size (x : Index α) : Nat := x.entries.size

def isEmpty (x : Index α) : Bool := x.entries.isEmpty

def remove (x : Index α) (key : String) : Option (Entry α) × Index α :=
  match x.places.get? key with
  | none => (none, x)
  | some n =>
    match x.entries.get? n with
    | none => (none, x)
    | some entry =>
      (some entry,
        { x with
          entries := x.entries.erase n
          places := entry.aliases.foldl (·.erase ·) x.places })

/-- Remove one alias and leave its entry to the others. -/
def unlink (x : Index α) (key : String) : Index α :=
  match x.places.get? key with
  | none => x
  | some n =>
    let x := { x with places := x.places.erase key }
    match x.entries.get? n with
    | none => x
    | some entry =>
      let entry := { entry with aliases := entry.aliases.filter (· ≠ key) }
      { x with entries := x.entries.insert n entry }

/-- Remove the entries that `keys` lead to, in turn; answers their values. -/
def removeAll (x : Index α) : List String → List α × Index α
  | [] => ([], x)
  | key :: keys =>
    let (entry, x) := x.remove key
    let (values, x) := x.removeAll keys
    (entry.toList.map Entry.value ++ values, x)

def file (x : Index α) (value : α) (keys : List String) : Index α :=
  let n := x.lastEntry + 1
  { x with
    lastEntry := n
    places := keys.foldl (·.insert · n) x.places
    entries := x.entries.insert n ⟨value, keys⟩ }

/-- Start a new generation and mark `keys` as touched in it. -/
def touch (x : Index α) (keys : List String) : Index α :=
  let generation := x.generation + 1
  if x.loading.isEmpty then { x with generation }
  else { x with generation, touched := keys.foldl (·.insert · generation) x.touched }

def beginLoad (x : Index α) (key : String) : Index α :=
  { x with loading := x.loading.insert key x.generation }

def changedSince (x : Index α) (start : Nat) (key : String) : Bool :=
  (x.touched.get? key).any (start < ·)

/-- Keep the marks that some load in flight may still ask for. -/
def prune (x : Index α) : Index α :=
  match x.loading.values.min? with
  | some oldest => { x with touched := x.touched.filter fun _ generation => oldest < generation }
  | none => { x with touched := {} }

variable [Cacheable α]

/-- End the load of `key`; answers whether its value, if it has one, may be cached. -/
def finishLoad (x : Index α) (key : String) (value : Option α) : Bool × Index α :=
  match x.loading.get? key with
  | none => (false, x)
  | some start =>
    let fresh := match value with
      | some v => !x.changedSince start key && !(aliases v).any (x.changedSince start)
      | none => false
    (fresh, { x with loading := x.loading.erase key }.prune)

/-- Put `value` under its aliases, and under `lookup` too if there is one.  Whatever they
led to leaves the index and is the answer. -/
def insert (x : Index α) (value : α) (lookup : Option String) : List α × Index α :=
  let own := aliases value
  let keys := own ++ lookup.toList.filter (!own.contains ·)
  let (displaced, x) := x.removeAll keys
  (displaced, x.file value keys)

/-- Make a stored value visible: drop its stale aliases, put it under its own, and mark all
of these and the aliases of what it displaced.  Answers what it displaced. -/
def commit (x : Index α) (value : α) : List α × Index α :=
  let stale := staleAliases value
  let (displaced, x) := (stale.foldl unlink x).insert value none
  (displaced, x.touch (aliases value ++ stale ++ displaced.flatMap aliases))

/-- Remove the value under `key` and mark all the aliases it had.  Answers what it removed. -/
def invalidate (x : Index α) (key : String) : Option α × Index α :=
  let (removed, x) := x.remove key
  (removed.map Entry.value, x.touch (key :: removed.toList.flatMap Entry.aliases))

end Index

end StatusStore.Cache
