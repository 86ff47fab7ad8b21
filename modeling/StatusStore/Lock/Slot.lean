/-
  StatusStore/Lock/Slot.lean
  ==========================
  **One key's read/write lock.**  A slot records who holds the key, how many
  acquires wait for it, and the channel over which those are woken.  Slots move
  between keys, so what ties a waiter to *its* stay on a key is the ticket: it
  changes when the slot takes up a key and at every broadcast.
-/

namespace StatusStore.Lock

inductive Kind
  | read
  | write
deriving DecidableEq, Repr

/-- Who holds a key: nobody, some readers, or one writer.

The count of readers has no bound.  It agrees with a count in 32 bits as long as fewer than
`2 ^ 32` readers hold the key at once. -/
inductive Hold
  | free
  | readers (count : Nat)
  | writer
deriving DecidableEq, Repr

/-- The hold after one more holder of the given kind; `none` if it must wait. -/
def Hold.enter? : Hold → Kind → Option Hold
  | .free, .read => some (.readers 1)
  | .free, .write => some .writer
  | .readers n, .read => some (.readers (n + 1))
  | .readers _, .write => none
  | .writer, _ => none

/-- The hold after one holder leaves; `none` if nobody is recorded. -/
def Hold.leave? : Hold → Option Hold
  | .free => none
  | .readers 0 => none
  | .readers 1 => some .free
  | .readers (n + 2) => some (.readers (n + 1))
  | .writer => some .free

/-- The lock state of a key, recycled from key to key.

Waiters and tickets are numbers without bound.  The waiters agree with a count in 64 bits as long as
fewer than `2 ^ 64` acquires wait for the key at once.  The tickets agree with tickets in 64 bits as
long as fewer than `2 ^ 64` have been issued: none is greater than the last one issued
(`Table.Sound.ticket_le`), and those that differ also differ in 64 bits (`Session.run_ticketed`). -/
structure Slot where
  hold : Hold := .free
  /-- Acquires registered since the last broadcast. -/
  waiters : Nat := 0
  /-- Names the stretch between two broadcasts on one key. -/
  ticket : Nat := 0
  /-- Names the broadcast channel, which stays with the slot. -/
  channel : Nat
deriving DecidableEq, Repr

end StatusStore.Lock
