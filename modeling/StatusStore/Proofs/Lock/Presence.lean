/-
  StatusStore/Proofs/Lock/Presence.lean
  =====================================
  **No key outstays its users.**  A key is in the table because somebody holds
  it, or because it was freed by a broadcast and one of those who were woken has
  yet to run: nobody is counted as waiting for such a key, so it is the last of
  them to be polled or dropped that takes the key up or takes it out.

  A woken waiter may find that another has already taken the key out, or that a
  newcomer has put it back; either way the slot that it finds is not its own any
  more, and it is the books of `Accounted` and `Attended` that say so.

  Main statement: `Session.run_presence`.
-/
import StatusStore.Proofs.Lock.Exclusion
import StatusStore.Proofs.Lock.Progress

namespace StatusStore.Lock

namespace Session

variable {s : Session} {key : String}

def Guarded (s : Session) (key : String) : Prop :=
  ∃ a ∈ s.acquires, a.isHolding = true ∧ a.key = key

/-- The key is unlocked and nobody is counted as waiting for it, but somebody was woken on it and
has not been polled since. -/
structure HandedOn (s : Session) (key : String) (slot : Slot) : Prop where
  present : s.table.slots.get? key = some slot
  free : slot.hold = .free
  uncounted : slot.waiters = 0
  awake : ∃ a ∈ s.acquires, a.isAwake = true ∧ a.key = key

theorem Sound.guarded_iff (h : s.Sound) : s.Guarded key ↔ s.table.holdOf key ≠ .free := by
  constructor
  · rintro ⟨a, ha, hholding, rfl⟩ hfree
    exact Nat.ne_of_gt (guards_pos ha hholding) ((h.exclusive.free a.key).1 hfree a.kind)
  · exact h.exists_guard

theorem Sound.handedOn {slot : Slot} (h : s.Sound) (hslot : s.table.slots.get? key = some slot)
    (hfree : slot.hold = .free) : s.HandedOn key slot where
  present := hslot
  free := hfree
  uncounted := by
    rw [h.accounted.waiters hslot]
    exact h.accounted.sleepers_of_free ((Table.holdOf_of_get? hslot).trans hfree)
  awake := by
    obtain ⟨a, ha, hkey, hawake⟩ := h.attended hslot hfree
    exact ⟨a, ha, hawake, hkey⟩

/-- A key is present exactly while it has a guard or was handed on to somebody who has yet to
run. -/
theorem Sound.presence (h : s.Sound) :
    s.table.slots.contains key = true ↔ s.Guarded key ∨ ∃ slot, s.HandedOn key slot := by
  rw [KeyMap.contains, Option.isSome_iff_exists]
  constructor
  · rintro ⟨slot, hslot⟩
    by_cases hfree : slot.hold = .free
    · exact Or.inr ⟨slot, h.handedOn hslot hfree⟩
    · exact Or.inl (h.guarded_iff.2 (Table.holdOf_of_get? hslot ▸ hfree))
  · rintro (hguarded | ⟨slot, hhanded⟩)
    · cases hslot : s.table.slots.get? key with
      | some slot => exact ⟨slot, rfl⟩
      | none => exact absurd (Table.holdOf_of_absent hslot) (h.guarded_iff.1 hguarded)
    · exact ⟨slot, hhanded.present⟩

/-- After any run a key is in the table if and only if somebody holds it, or it is unlocked, nobody
is counted as waiting for it and somebody who was woken on it has yet to be polled.  So when no
guard is live and no acquire waits the table is empty. -/
theorem run_presence (frequency : UInt32) (steps : List Step) :
    (∀ key, ((withGcFrequency frequency).run steps).2.table.slots.contains key = true ↔
      ((withGcFrequency frequency).run steps).2.Guarded key ∨
        ∃ slot, ((withGcFrequency frequency).run steps).2.HandedOn key slot) ∧
    ((∀ a ∈ ((withGcFrequency frequency).run steps).2.acquires,
        a.isHolding = false ∧ a.isWaiting = false) →
      ((withGcFrequency frequency).run steps).2.table.isEmpty = true) := by
  have h := run_sound frequency steps
  refine ⟨fun key => h.presence, fun hnobody => h.isEmpty_of_done ?_⟩
  apply List.eq_nil_iff_forall_not_mem.2
  intro a ha
  obtain ⟨hholding, hwaiting⟩ := hnobody a ha
  simp [Acquire.isWaiting, hholding] at hwaiting

/-- Two waiters are woken; one gives up and takes the key out, a newcomer puts it back, the other
retries, is woken once more and gives up. -/
def churn : List Step :=
  [.acquire 0 "k" .write, .acquire 1 "k" .write, .acquire 2 "k" .write, .drop 0, .drop 1,
    .acquire 3 "k" .write, .poll 2, .drop 3, .drop 2]

theorem run_presence_churn :
    (∀ a ∈ ((withGcFrequency 16).run churn).2.acquires,
        a.isHolding = false ∧ a.isWaiting = false) ∧
      ((withGcFrequency 16).run churn).2.table.isEmpty = true := by
  have hnobody : ∀ a ∈ ((withGcFrequency 16).run churn).2.acquires,
      a.isHolding = false ∧ a.isWaiting = false := by
    decide +kernel
  exact ⟨hnobody, (run_presence 16 churn).2 hnobody⟩

end Session

end StatusStore.Lock
