/-
  StatusStore/Proofs/Lock/Exclusion.lean
  ======================================
  **Readers share and writers exclude.**  What a table records of a key is the
  number of its live guards of either kind, so that a writer who is let in finds
  nobody, and nobody is let in beside it.  A guard that goes always finds its own
  hold on record.

  Main statement: `Session.run_exclusive`.
-/
import StatusStore.Proofs.Lock.Reachable

namespace StatusStore.Lock

theorem eq_of_countP_eq_one {α : Type} [DecidableEq α] {p : α → Bool} {as : List α} {a b : α}
    (hone : as.countP p = 1) (ha : a ∈ as) (hb : b ∈ as) (hpa : p a = true) (hpb : p b = true) :
    b = a := by
  have hperm := List.perm_cons_erase ha
  rw [hperm.countP_eq, List.countP_cons_of_pos hpa] at hone
  have hnone : (as.erase a).countP p = 0 := Nat.succ.inj hone
  rcases List.mem_cons.1 (hperm.mem_iff.1 hb) with hsame | hrest
  · exact hsame
  · exact absurd hpb (List.countP_eq_zero.1 hnone b hrest)

namespace Session

/-- The table knows who holds each key, and a writer holds its key alone. -/
structure Exclusive (s : Session) : Prop where
  alone : ∀ a ∈ s.acquires, ∀ b ∈ s.acquires, a.isHolding = true → b.isHolding = true →
    a.key = b.key → a.kind = .write → b = a
  writer : ∀ key, s.table.holdOf key = .writer ↔ guards s.acquires key .write = 1
  readers : ∀ key n, s.table.holdOf key = .readers n ↔
    1 ≤ n ∧ guards s.acquires key .read = n ∧ guards s.acquires key .write = 0
  free : ∀ key, s.table.holdOf key = .free ↔ ∀ kind, guards s.acquires key kind = 0

variable {s : Session}

theorem guards_pos {as : List Acquire} {a : Acquire} (ha : a ∈ as) (hholding : a.isHolding = true) :
    0 < guards as a.key a.kind :=
  List.countP_pos_iff.2 ⟨a, ha, by simp [Acquire.guards, hholding]⟩

theorem Sound.exclusive (h : s.Sound) : s.Exclusive := by
  constructor
  case alone =>
    intro a ha b hb hholda hholdb hkey hwrite
    have htallies := h.accounted.holds a.key
    have hposa := guards_pos ha hholda
    have hposb := guards_pos hb hholdb
    rw [hwrite] at hposa
    rw [← hkey] at hposb
    cases hhold : s.table.holdOf a.key with
    | free =>
      rw [hhold] at htallies
      exact absurd htallies.2 (Nat.ne_of_gt hposa)
    | readers n =>
      rw [hhold] at htallies
      exact absurd htallies.2.2 (Nat.ne_of_gt hposa)
    | writer =>
      rw [hhold] at htallies
      have hkind : b.kind = .write := by
        cases hread : b.kind with
        | read =>
          rw [hread] at hposb
          exact absurd htallies.1 (Nat.ne_of_gt hposb)
        | write => rfl
      exact eq_of_countP_eq_one htallies.2 ha hb (by simp [Acquire.guards, hholda, hwrite])
        (by simp [Acquire.guards, hholdb, hkind, hkey])
  case writer =>
    intro key
    have htallies := h.accounted.holds key
    cases hhold : s.table.holdOf key <;> simp_all [Hold.Tallies]
  case readers =>
    intro key n
    have htallies := h.accounted.holds key
    cases hhold : s.table.holdOf key <;> simp_all [Hold.Tallies] <;> omega
  case free =>
    intro key
    have hboth : (∀ kind, guards s.acquires key kind = 0) ↔
        guards s.acquires key .read = 0 ∧ guards s.acquires key .write = 0 := by
      constructor
      · intro hall
        exact ⟨hall .read, hall .write⟩
      · rintro ⟨hread, hwrite⟩ kind
        cases kind with
        | read => exact hread
        | write => exact hwrite
    rw [hboth]
    exact (h.accounted.holds key).free_iff

theorem not_fault_of_moves {x : Step} {answer : Answer} {u : Session} (h : Moves s x answer u)
    (fault : Fault) : answer ≠ .fault fault := by
  have hattempt : ∀ a : Attempt, a.answer ≠ .fault fault := by
    intro a hfault
    cases a <;> cases hfault
  cases h with
  | entered => exact hattempt _
  | retried => exact hattempt _
  | _ => exact Answer.noConfusion

theorem Sound.run_not_fault (h : s.Sound) (steps : List Step) (fault : Fault) :
    Answer.fault fault ∉ (s.run steps).1 := by
  induction steps generalizing s with
  | nil => exact List.not_mem_nil
  | cons x xs ih =>
    intro hmem
    rcases List.mem_cons.1 hmem with hfirst | hrest
    · exact not_fault_of_moves (h.moves x) fault hfirst.symm
    · exact ih (h.step x) hrest

/-- After any run the table knows who holds each key, a writer holds its key alone, and no guard
that was dropped on the way met a fault. -/
theorem run_exclusive (frequency : UInt32) (steps : List Step) :
    ((withGcFrequency frequency).run steps).2.Exclusive ∧
      ∀ fault, Answer.fault fault ∉ ((withGcFrequency frequency).run steps).1 :=
  ⟨(run_sound frequency steps).exclusive,
    (sound_withGcFrequency frequency).run_not_fault steps⟩

end Session

end StatusStore.Lock
