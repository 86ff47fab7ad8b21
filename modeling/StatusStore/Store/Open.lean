/-
  StatusStore/Store/Open.lean
  ===========================
  **Starting a store** from its configuration.
-/
import StatusStore.Config.Basic
import StatusStore.Database.Open
import StatusStore.Store.Basic

namespace StatusStore.Store

/-- A store before an open database, with empty caches and an empty queue. -/
def ofDatabase (c : Config) (database : Database) : Except CapacityFault Store := do
  let queue ← Queue.ofCapacity c.capacity.toNat
  return { database, caches := .withGcFrequency c.lockGcFrequency, queue }

end StatusStore.Store
