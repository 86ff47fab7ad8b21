/-
  StatusStore/Lock/Session.lean
  =============================
  **Acquires in progress over one lock table.**  A session knows every acquire
  that has not ended: the ones that hold their key, and the ones that wait,
  woken or not.  A step starts an acquire, polls it, or drops it; dropping a
  holder releases the key and dropping a waiter cancels it.

  Waking is the only way in which one acquire reaches another: a broadcast
  marks all who wait on its channel, and a marked acquire tries again when it
  is polled next.
-/
import StatusStore.Lock.Table
import StatusStore.Text.Quoted

namespace StatusStore.Lock

inductive Standing
  /-- Registered under `ticket` and asleep on `channel`, unless `woken`. -/
  | waiting (ticket channel : Nat) (woken : Bool)
  | holding
deriving DecidableEq, Repr

/-- An acquire that has not ended, under the handle its caller gave it. -/
structure Acquire where
  handle : Nat
  key : String
  kind : Kind
  standing : Standing
deriving DecidableEq, Repr

/-- A lock table with the acquires in progress, oldest first. -/
structure Session where
  table : Table := {}
  acquires : List Acquire := []
  /-- How often an acquire had to wait. -/
  waits : Nat := 0

inductive Step
  | acquire (handle : Nat) (key : String) (kind : Kind)
  | poll (handle : Nat)
  | drop (handle : Nat)
deriving DecidableEq, Repr

inductive Answer
  /-- The acquire has just got its lock. -/
  | acquired
  /-- The acquire waits. -/
  | pending
  /-- The acquire had its lock already. -/
  | held
  | released
  | cancelled
  /-- No acquire in progress has this handle. -/
  | gone
  /-- The handle already names an acquire in progress; nothing was started. -/
  | busy
  /-- A holder had no hold to give back. -/
  | fault (fault : Fault)
deriving DecidableEq, Repr

def Kind.name : Kind → String
  | .read => "Read"
  | .write => "Write"

namespace Acquire

def description (a : Acquire) : String :=
  "KeyLockGuard \x7b key: " ++ Text.quoted a.key ++ ", kind: " ++ a.kind.name ++ " \x7d"

def isHolding (a : Acquire) : Bool := a.standing = .holding

def isWaiting (a : Acquire) : Bool := !a.isHolding

def hear (a : Acquire) (channel : Nat) : Acquire :=
  match a.standing with
  | .waiting ticket c woken =>
    { a with standing := .waiting ticket c (woken || c = channel) }
  | .holding => a

end Acquire

namespace Session

instance : Inhabited Session := ⟨{ table := default }⟩

def withGcFrequency (frequency : UInt32) : Session := { table := .withGcFrequency frequency }

def find? (s : Session) (handle : Nat) : Option Acquire :=
  s.acquires.find? (·.handle = handle)

def remove (s : Session) (handle : Nat) : Session :=
  { s with acquires := s.acquires.filter (·.handle ≠ handle) }

def restand (s : Session) (handle : Nat) (standing : Standing) : Session :=
  { s with
    acquires := s.acquires.map fun a => if a.handle = handle then { a with standing } else a }

def broadcast (s : Session) (channel : Nat) : Session :=
  { s with acquires := s.acquires.map (·.hear channel) }

/-- Start an acquire and poll it once. -/
def acquire (s : Session) (handle : Nat) (key : String) (kind : Kind) : Answer × Session :=
  match s.find? handle with
  | some _ => (.busy, s)
  | none =>
    match s.table.attempt key kind with
    | (.granted, table) =>
      (.acquired,
        { s with table, acquires := s.acquires ++ [⟨handle, key, kind, .holding⟩] })
    | (.registered ticket channel, table) =>
      (.pending,
        { table
          acquires := s.acquires ++ [⟨handle, key, kind, .waiting ticket channel false⟩]
          waits := s.waits + 1 })

/-- Poll an acquire: a woken waiter tries again, and may have to wait again. -/
def poll (s : Session) (handle : Nat) : Answer × Session :=
  match s.find? handle with
  | none => (.gone, s)
  | some a =>
    match a.standing with
    | .holding => (.held, s)
    | .waiting _ _ false => (.pending, s)
    | .waiting _ _ true =>
      match s.table.attempt a.key a.kind with
      | (.granted, table) => (.acquired, { s with table }.restand handle .holding)
      | (.registered ticket channel, table) =>
        (.pending,
          { s with table, waits := s.waits + 1 }.restand handle (.waiting ticket channel false))

/-- Drop an acquire: a holder releases its key, a waiter withdraws. -/
def drop (s : Session) (handle : Nat) : Answer × Session :=
  match s.find? handle with
  | none => (.gone, s)
  | some a =>
    match a.standing with
    | .waiting ticket _ _ =>
      (.cancelled, { s with table := s.table.withdraw a.key ticket }.remove handle)
    | .holding =>
      match s.table.release a.key with
      | .error fault => (.fault fault, s.remove handle)
      | .ok ⟨table, none⟩ => (.released, { s with table }.remove handle)
      | .ok ⟨table, some channel⟩ =>
        (.released, ({ s with table }.remove handle).broadcast channel)

def step (s : Session) : Step → Answer × Session
  | .acquire handle key kind => s.acquire handle key kind
  | .poll handle => s.poll handle
  | .drop handle => s.drop handle

def run (s : Session) : List Step → List Answer × Session
  | [] => ([], s)
  | x :: xs =>
    let (answer, s) := s.step x
    let (answers, s) := s.run xs
    (answer :: answers, s)

/-- Poll the given handles in turn; answers those that have got their lock. -/
def pollEach (s : Session) : List Nat → List Nat × Session
  | [] => ([], s)
  | h :: hs =>
    match s.poll h with
    | (.acquired, s) => let (got, s) := s.pollEach hs; (h :: got, s)
    | (_, s) => s.pollEach hs

def waiting (s : Session) : List Nat := (s.acquires.filter (·.isWaiting)).map (·.handle)

/-- Passes over everyone who waits, until one of them (or the last of `fuel`) gains nothing. -/
def passes (s : Session) : Nat → List Nat × Session
  | 0 => ([], s)
  | fuel + 1 =>
    match s.pollEach s.waiting with
    | ([], s) => ([], s)
    | (got, s) => let (more, s) := s.passes fuel; (got ++ more, s)

/-- Poll everyone who waits, oldest first, until a pass gains nothing.  Each pass
but the last turns a waiter into a holder, so there are no more passes than waiters
and one. -/
def pump (s : Session) : List Nat × Session := s.passes (s.waiting.length + 1)

end Session

end StatusStore.Lock
