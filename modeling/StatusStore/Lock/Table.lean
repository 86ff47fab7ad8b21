/-
  StatusStore/Lock/Table.lean
  ===========================
  **The lock table**: a slot for every key that somebody holds or waits for.
  Keys appear on first use and leave with their last holder or waiter.

  A table only does the bookkeeping of one moment: an acquire that tries its
  luck (`attempt`), a holder that leaves (`release`) and a waiter that gives up
  (`withdraw`).  Who is waiting and who has been woken is the matter of
  `StatusStore.Lock.Session`.
-/
import StatusStore.KeyMap
import StatusStore.Lock.Pool

namespace StatusStore.Lock

/-- Releases between two rotations of the pool, unless told otherwise. -/
def defaultGcFrequency : UInt32 := 1024

/-- Slots by key, with the pool that idle slots come from and go to. -/
structure Table where
  slots : KeyMap String Slot := {}
  pool : Pool := {}
  /-- Releases so far, counted in 32 bits. -/
  releases : UInt32 := 0
  /-- Releases between two rotations of the pool. -/
  gcFrequency : UInt32 := defaultGcFrequency
  /-- The ticket issued last; in 64 bits the same below `2 ^ 64`, see `Slot`. -/
  lastTicket : Nat := 0
  /-- Broadcast channels made so far. -/
  channels : Nat := 0
  gcFrequency_pos : 0 < gcFrequency := by decide

/-- What an acquire finds: the lock, or a place among the waiters. -/
inductive Attempt
  | granted
  | registered (ticket channel : Nat)
deriving DecidableEq, Repr

inductive Fault
  | unknownKey (key : String)
  | notHeld (key : String)
deriving DecidableEq, Repr

structure Release where
  table : Table
  broadcast : Option Nat

namespace Table

instance : Inhabited Table := ⟨{}⟩

/-- An empty table; a frequency of zero is taken as one. -/
def withGcFrequency (frequency : UInt32) : Table where
  gcFrequency := if 0 < frequency then frequency else 1
  gcFrequency_pos := by
    split
    · assumption
    · decide

def size (t : Table) : Nat := t.slots.size

def isEmpty (t : Table) : Bool := t.slots.isEmpty

def pooled (t : Table) : Nat := t.pool.size

/-- A slot without a key: an idle one, or a new one with a channel of its own. -/
def spare (t : Table) : Slot × Table :=
  match t.pool.take? with
  | some (slot, pool) => (slot, { t with pool })
  | none => ({ channel := t.channels }, { t with channels := t.channels + 1 })

/-- The slot of `key`: the present one, or a spare one under a new ticket. -/
def slotFor (t : Table) (key : String) : Slot × Table :=
  match t.slots.get? key with
  | some slot => (slot, t)
  | none =>
    let (slot, t) := t.spare
    ({ slot with ticket := t.lastTicket + 1 }, { t with lastTicket := t.lastTicket + 1 })

def place (t : Table) (key : String) (slot : Slot) : Table :=
  { t with slots := t.slots.insert key slot }

def evict (t : Table) (key : String) (slot : Slot) : Table :=
  { t with slots := t.slots.erase key, pool := t.pool.put slot }

/-- Take the lock on `key`, or register as one more waiter. -/
def attempt (t : Table) (key : String) (kind : Kind) : Attempt × Table :=
  let (slot, t) := t.slotFor key
  match slot.hold.enter? kind with
  | some hold => (.granted, t.place key { slot with hold })
  | none =>
    (.registered slot.ticket slot.channel,
      t.place key { slot with waiters := slot.waiters + 1 })

def countRelease (t : Table) : Table :=
  let releases := t.releases + 1
  { t with
    releases
    pool := if releases % t.gcFrequency = 0 then t.pool.rotate else t.pool }

/-- Give up one hold on `key`.

The last holder evicts the key if nobody waits.  Otherwise it empties the
waiter count, issues a new ticket and wakes everyone on the slot's channel. -/
def release (t : Table) (key : String) : Except Fault Release :=
  let ticket := t.lastTicket + 1
  let t := { t with lastTicket := ticket }
  match t.slots.get? key with
  | none => .error (.unknownKey key)
  | some slot =>
    match slot.hold.leave? with
    | none => .error (.notHeld key)
    | some .free =>
      if slot.waiters = 0 then
        .ok ⟨(t.evict key { slot with hold := .free }).countRelease, none⟩
      else
        .ok ⟨(t.place key { slot with hold := .free, waiters := 0, ticket }).countRelease,
          some slot.channel⟩
    | some hold => .ok ⟨(t.place key { slot with hold }).countRelease, none⟩

/-- Withdraw a waiter that registered on `key` under `ticket`.

A broadcast since then has already discounted it, which shows in the ticket.
Whoever leaves a free key without waiters behind evicts it. -/
def withdraw (t : Table) (key : String) (ticket : Nat) : Table :=
  match t.slots.get? key with
  | none => t
  | some slot =>
    let waiters := if slot.ticket = ticket then slot.waiters - 1 else slot.waiters
    let slot := { slot with waiters }
    if waiters = 0 ∧ slot.hold = .free then t.evict key slot else t.place key slot

end Table

end StatusStore.Lock
