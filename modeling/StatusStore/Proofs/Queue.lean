/-
  StatusStore/Proofs/Queue.lean
  =============================
  **What becomes of an event.**  A queue that has room takes an event as its last
  one, and a queue that is full or closed drops it; the attempt is counted as the
  one or the other, and nothing else in the queue changes.

  Main statements: `pending_tell` and `timesOf_tell`.
-/
import StatusStore.Queue

namespace StatusStore

theorem StatusAction.eq_of_name {a b : StatusAction} (h : a.name = b.name) : a = b := by
  cases a <;> cases b <;> first | rfl | simp [name] at h

theorem Outcome.eq_of_name {o p : Outcome} (h : o.name = p.name) : o = p := by
  cases o <;> cases p <;> first | rfl | simp [name] at h

namespace Queue

variable {q : Queue}

/-- A queue starts open and empty. -/
theorem ofCapacity_ok {n : Nat} {q : Queue} (h : ofCapacity n = .ok q) :
    ∃ hn, q = { capacity := n, capacity_pos := hn } := by
  unfold ofCapacity at h
  split at h
  · rename_i hn
    split at h
    · cases h
      exact ⟨hn, rfl⟩
    · cases h
  · cases h

/-- What would become of an event now. -/
def fate (q : Queue) : Outcome := if q.hasRoom then .queued else .dropped

theorem fate_eq_queued :
    q.fate = .queued ↔ q.isClosed = false ∧ q.pending.length < q.capacity := by
  have hfate : q.fate = .queued ↔ q.hasRoom = true := by
    cases hroom : q.hasRoom <;> simp [fate, hroom]
  rw [hfate]
  simp [hasRoom]

theorem fate_of_isClosed (h : q.isClosed = true) : q.fate = .dropped := by
  simp [fate, hasRoom, h]

def tell (q : Queue) : Option StatusEvent → Queue
  | none => q
  | some e => (q.publish e.action e.status).2

/-- An event is counted by its fate, and comes last if that is to be queued. -/
theorem tell_some (q : Queue) (e : StatusEvent) :
    q.tell (some e) = { q.tally e.action q.fate with
      pending := q.pending ++ if q.fate = .queued then [e] else [] } := by
  cases hroom : q.hasRoom <;> simp [tell, publish, fate, tally, hroom]

theorem pending_tell (q : Queue) (e : StatusEvent) :
    (q.tell (some e)).pending = q.pending ++ if q.fate = .queued then [e] else [] := by
  rw [tell_some]

/-- Telling changes neither the capacity nor whether the queue is closed. -/
theorem frame_tell (q : Queue) (told : Option StatusEvent) :
    (q.tell told).capacity = q.capacity ∧ (q.tell told).isClosed = q.isClosed := by
  cases told with
  | none => exact ⟨rfl, rfl⟩
  | some e =>
    rw [tell_some]
    exact ⟨rfl, rfl⟩

theorem timesOf_tally (q : Queue) (a b : StatusAction) (o p : Outcome) :
    (q.tally b p).timesOf a o = q.timesOf a o + if b = a ∧ p = o then 1 else 0 := by
  unfold tally timesOf
  rw [KeyMap.get?_insert]
  by_cases hsame : (a, o) = (b, p)
  · cases hsame
    simp
  · have hother : ¬ (b = a ∧ p = o) := by
      rintro ⟨rfl, rfl⟩
      exact hsame rfl
    rw [if_neg hsame, if_neg hother, Nat.add_zero]

/-- An event is counted once, by its action and its fate. -/
theorem timesOf_tell (q : Queue) (e : StatusEvent) (a : StatusAction) (o : Outcome) :
    (q.tell (some e)).timesOf a o =
      q.timesOf a o + if e.action = a ∧ q.fate = o then 1 else 0 := by
  rw [tell_some, ← timesOf_tally]
  rfl

/-- The oldest event is the one that is taken. -/
theorem receive_pending (q : Queue) :
    q.receive.1.toList ++ q.receive.2.pending = q.pending := by
  unfold receive
  split
  · rename_i hnone
    rw [hnone]
    rfl
  · rename_i e rest hsome
    rw [hsome]
    rfl

/-- Taking an event changes nothing else. -/
theorem frame_receive (q : Queue) :
    q.receive.2.capacity = q.capacity ∧ q.receive.2.isClosed = q.isClosed ∧
      q.receive.2.tallies = q.tallies := by
  unfold receive
  split <;> exact ⟨rfl, rfl, rfl⟩

end Queue

end StatusStore
