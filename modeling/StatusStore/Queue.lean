/-
  StatusStore/Queue.lean
  ======================
  **The queue of notifications.**  Whoever changes a status publishes an event;
  one receiver takes the events in order.  Publishing never waits: an event that
  finds the queue full or its receiver gone is dropped, and every attempt is
  counted as queued or dropped.

  A queue has room for at least one event, which is part of its type.
-/
import StatusStore.KeyMap
import StatusStore.Model.Status

namespace StatusStore

inductive StatusAction
  | create
  | update
  | delete
deriving DecidableEq, Repr

namespace StatusAction

def all : List StatusAction := [.create, .update, .delete]

def name : StatusAction → String
  | create => "create"
  | update => "update"
  | delete => "delete"

def ofName? (s : String) : Option StatusAction := all.find? (·.name = s)

end StatusAction

structure StatusEvent where
  action : StatusAction
  status : Status
deriving Repr

inductive Outcome
  | queued
  | dropped
deriving DecidableEq, Repr

def Outcome.name : Outcome → String
  | queued => "queued"
  | dropped => "dropped"

/-- Events that wait for their receiver, oldest first. -/
structure Queue where
  capacity : Nat
  capacity_pos : 0 < capacity
  pending : List StatusEvent := []
  /-- Whether the receiver is gone. -/
  isClosed : Bool := false
  /-- How often an event of each action was queued or dropped. -/
  tallies : KeyMap (StatusAction × Outcome) Nat := {}

inductive CapacityFault
  | zero
  | tooLarge
deriving DecidableEq, Repr

namespace CapacityFault

def limit : Nat := Nat.pow 2 61 - 1

def message : CapacityFault → String
  | zero => "mpsc bounded channel requires buffer > 0"
  | tooLarge => "a semaphore may not have more than MAX_PERMITS permits (2305843009213693951)"

end CapacityFault

namespace Queue

def ofCapacity (capacity : Nat) : Except CapacityFault Queue :=
  if h : 0 < capacity then
    if capacity ≤ CapacityFault.limit then .ok { capacity, capacity_pos := h }
    else .error .tooLarge
  else .error .zero

def defaultCapacity : Nat := 1024

instance : Inhabited Queue := ⟨{ capacity := defaultCapacity, capacity_pos := by decide }⟩

def timesOf (q : Queue) (action : StatusAction) (outcome : Outcome) : Nat :=
  (q.tallies.get? (action, outcome)).getD 0

def tally (q : Queue) (action : StatusAction) (outcome : Outcome) : Queue :=
  { q with tallies := q.tallies.insert (action, outcome) (q.timesOf action outcome + 1) }

def hasRoom (q : Queue) : Bool := !q.isClosed && q.pending.length < q.capacity

/-- Publish an event; answers whether it was queued. -/
def publish (q : Queue) (action : StatusAction) (status : Status) : Bool × Queue :=
  if q.hasRoom then
    (true, { q.tally action .queued with pending := q.pending ++ [⟨action, status⟩] })
  else (false, q.tally action .dropped)

def receive (q : Queue) : Option StatusEvent × Queue :=
  match q.pending with
  | [] => (none, q)
  | e :: rest => (some e, { q with pending := rest })

def drain (q : Queue) : List StatusEvent × Queue := (q.pending, { q with pending := [] })

/-- The receiver goes, and what it had not taken is lost. -/
def close (q : Queue) : Queue := { q with isClosed := true, pending := [] }

/-- A new queue of the same capacity, whose counts go on. -/
def restarted (q : Queue) : Queue := { q with isClosed := false, pending := [] }

end Queue

end StatusStore
