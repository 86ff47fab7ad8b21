/-
  StatusStore/Cache/Flight.lean
  =============================
  **Loads and stores that overlap.**  A flight takes the lock of its key, then
  computes, then changes the index; between two of these it can be interrupted,
  polled again later, or cancelled.  Whoever waited for a key looks again before
  computing, so that of many loads of one key one computes and the others find
  its value.

  The answer of a computation is handed to its flight from outside (`answer`),
  possibly before the computation has started.
-/
import StatusStore.Cache.Entity

namespace StatusStore.Cache

inductive Progress (α : Type)
  | pending
  /-- A load has ended. -/
  | loaded (result : Except Error α)
  /-- A store has ended. -/
  | stored (result : Except Error Unit)
  /-- No flight has this handle, or no longer. -/
  | over
  /-- The handle already names a flight; nothing was started. -/
  | busy

namespace Work

variable {α : Type}

/-- The key that a flight locks; a value without keys has none. -/
def lockKey? [Cacheable α] : Work α → Option String
  | .load key _ => some key.encode
  | .store value _ => (Cacheable.keys value).head?.map Key.encode

def isAnswered : Work α → Bool
  | .load _ answer => answer.isSome
  | .store _ answer => answer.isSome

/-- The work with its load answered, unless an answer was there. -/
def answerLoad (result : Except Error α) : Work α → Work α
  | .load key none => .load key (some result)
  | work => work

def answerStore (result : Except Error Unit) : Work α → Work α
  | .store value none => .store value (some result)
  | work => work

end Work

namespace EntityCache

variable {α : Type}

def flight? (c : EntityCache α) (handle : Nat) : Option (Flight α) :=
  c.flights.find? (·.handle = handle)

def isAsking (c : EntityCache α) (handle : Nat) : Bool :=
  (c.flight? handle).any fun f => f.phase = .running && !f.work.isAnswered

def modifyFlight (c : EntityCache α) (handle : Nat) (f : Flight α → Flight α) : EntityCache α :=
  { c with flights := c.flights.map fun x => if x.handle = handle then f x else x }

/-- Give back the lock of a flight and forget the flight. -/
def endFlight (c : EntityCache α) (handle : Nat) : EntityCache α :=
  { c with
    locks := (c.locks.drop handle).2
    flights := c.flights.filter (·.handle ≠ handle) }

def answerLoad (c : EntityCache α) (handle : Nat) (result : Except Error α) : EntityCache α :=
  c.modifyFlight handle fun f => { f with work := f.work.answerLoad result }

def answerStore (c : EntityCache α) (handle : Nat) (result : Except Error Unit) : EntityCache α :=
  c.modifyFlight handle fun f => { f with work := f.work.answerStore result }

variable [Cacheable α]

/-- Go on with the computation of a flight; answers the values to announce too. -/
def advance (c : EntityCache α) (f : Flight α) : Progress α × List α × EntityCache α :=
  match f.work with
  | .load _ none | .store _ none => (.pending, [], c)
  | .load key (some result) =>
    (.loaded result, [], (c.settleLoad key.encode result).endFlight f.handle)
  | .store _ (some (.error e)) => (.stored (.error e), [], c.endFlight f.handle)
  | .store v (some (.ok ())) =>
    let (announced, c) := c.commit v
    (.stored (.ok ()), announced, c.endFlight f.handle)

/-- A flight has got the lock of its key: it starts computing, unless it is a load whose value
is there by now. -/
def enter (c : EntityCache α) (f : Flight α) : Progress α × List α × EntityCache α :=
  let running := c.modifyFlight f.handle ({ · with phase := .running })
  match f.work with
  | .load key _ =>
    match c.get? key with
    | some v => (.loaded (.ok v), [], c.recordHit.endFlight f.handle)
    | none => (running.beginLoad key.encode).advance f
  | .store _ _ => { running with started := running.started + 1 }.advance f

/-- Start a flight and poll it once. -/
def start (c : EntityCache α) (handle : Nat) (work : Work α) :
    Progress α × List α × EntityCache α :=
  let f : Flight α := ⟨handle, work, .waiting⟩
  let take (key : String) : Progress α × List α × EntityCache α :=
    match c.locks.acquire handle key .write with
    | (.acquired, locks) => { c with locks, flights := c.flights ++ [f] }.enter f
    | (.pending, locks) => (.pending, [], { c with locks, flights := c.flights ++ [f] })
    | _ => (.busy, [], c)
  match work with
  | .load key _ =>
    match c.get? key with
    | some v => (.loaded (.ok v), [], c.recordHit)
    | none => take key.encode
  | .store _ _ =>
    match work.lockKey? with
    | some key => take key
    | none => (.stored (.error (.internal (.noCacheKey c.name))), [], c)

def poll (c : EntityCache α) (handle : Nat) : Progress α × List α × EntityCache α :=
  match c.flight? handle with
  | none => (.over, [], c)
  | some f =>
    match f.phase with
    | .running => c.advance f
    | .waiting =>
      match c.locks.poll handle with
      | (.acquired, locks) => { c with locks }.enter f
      | (_, locks) => (.pending, [], { c with locks })

def cancel (c : EntityCache α) (handle : Nat) : Bool × EntityCache α :=
  match c.flight? handle with
  | none => (false, c)
  | some f =>
    match f.phase, f.work with
    | .running, .load key _ => (true, (c.abandonLoad key.encode).endFlight handle)
    | _, _ => (true, c.endFlight handle)

def unfinished (c : EntityCache α) : List Nat := c.flights.map (·.handle)

end EntityCache

end StatusStore.Cache
