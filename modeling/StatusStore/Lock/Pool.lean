/-
  StatusStore/Lock/Pool.lean
  ==========================
  **Idle slots in two generations.**  A slot that leaves the table goes to the
  current generation.  A rotation makes the current generation the old one and
  drops what was old, so a slot that nobody takes survives one rotation and not
  two.
-/
import StatusStore.Lock.Slot

namespace StatusStore.Lock

/-- Idle slots, each generation with the last one put on top. -/
structure Pool where
  current : List Slot := []
  old : List Slot := []
deriving DecidableEq, Repr

namespace Pool

/-- Take the slot put last, from the current generation first. -/
def take? (p : Pool) : Option (Slot × Pool) :=
  match p.current, p.old with
  | slot :: rest, _ => some (slot, { p with current := rest })
  | [], slot :: rest => some (slot, { p with old := rest })
  | [], [] => none

def put (p : Pool) (slot : Slot) : Pool := { p with current := slot :: p.current }

def rotate (p : Pool) : Pool := { current := [], old := p.current }

def size (p : Pool) : Nat := p.current.length + p.old.length

end Pool

end StatusStore.Lock
