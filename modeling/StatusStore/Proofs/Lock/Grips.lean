/-
  StatusStore/Proofs/Lock/Grips.lean
  ==================================
  **A session as a map from handles.**  For those who take locks, an acquire in
  progress is a key, a kind, and whether it holds the key; how it waits and
  whether it has been woken is the matter of the table.  Seen this way each step
  changes what is under its own handle and nothing else, a broadcast included.

  Main statements: `acquire_grip?`, `poll_grip?` and `drop_grip?` for what the
  steps do, `Sound.grip?_alone` for exclusion and `Sound.poll_gets` for progress.
-/
import StatusStore.Proofs.Lock.Exclusion
import StatusStore.Proofs.Lock.Progress

namespace StatusStore.Lock

/-- What an acquire in progress is to its caller. -/
structure Grip where
  key : String
  kind : Kind
  holds : Bool
deriving DecidableEq, Repr

def Acquire.grip (a : Acquire) : Grip := ⟨a.key, a.kind, a.isHolding⟩

namespace Session

variable {s u : Session} {handle : Nat} {key : String} {kind : Kind}

def grip? (s : Session) (handle : Nat) : Option Grip := (s.find? handle).map Acquire.grip

theorem grip?_eq_none : s.grip? handle = none ↔ s.find? handle = none := by
  simp [grip?]

theorem find?_of_grip? {g : Grip} (h : s.grip? handle = some g) :
    ∃ a, s.find? handle = some a ∧ a ∈ s.acquires ∧ a.handle = handle ∧ a.grip = g := by
  obtain ⟨a, hfind, hgrip⟩ := Option.map_eq_some_iff.1 h
  have hhandle := List.find?_some hfind
  exact ⟨a, hfind, List.mem_of_find?_eq_some hfind, by simpa using hhandle, hgrip⟩

theorem Sound.grip?_of_mem {a : Acquire} (h : s.Sound) (ha : a ∈ s.acquires) :
    s.grip? a.handle = some a.grip := by
  rw [grip?, h.find?_of_mem ha]
  rfl

/-! ### What the steps do -/

theorem grip?_append {a : Acquire} (hfree : s.find? a.handle = none)
    (hacquires : u.acquires = s.acquires ++ [a]) (j : Nat) :
    u.grip? j = if j = a.handle then some a.grip else s.grip? j := by
  have hfind : u.find? j = (s.find? j).or (if a.handle = j then some a else none) := by
    simp only [find?, hacquires, List.find?_append, List.find?_singleton, decide_eq_true_eq]
  rw [grip?, hfind, grip?]
  by_cases hj : j = a.handle
  · subst hj
    simp [hfree]
  · simp [hj, Ne.symm hj]

/-- A new acquire holds its key or waits for it. -/
theorem acquire_grip? (hfree : s.grip? handle = none) (key : String) (kind : Kind) :
    ∃ got : Bool, (s.acquire handle key kind).1 = (if got then .acquired else .pending) ∧
      ∀ j, (s.acquire handle key kind).2.grip? j =
        if j = handle then some ⟨key, kind, got⟩ else s.grip? j := by
  rw [grip?_eq_none] at hfree
  unfold acquire
  rw [hfree]
  generalize s.table.attempt key kind = attempted
  obtain ⟨attempt, table⟩ := attempted
  cases attempt with
  | granted => exact ⟨true, rfl, grip?_append (a := ⟨handle, key, kind, .holding⟩) hfree rfl⟩
  | registered ticket channel =>
    exact ⟨false, rfl,
      grip?_append (a := ⟨handle, key, kind, .waiting ticket channel false⟩) hfree rfl⟩

theorem find?_restand (s : Session) (handle : Nat) (standing : Standing) (j : Nat) :
    (s.restand handle standing).find? j =
      (s.find? j).map fun a => if j = handle then { a with standing } else a := by
  have hsame : ∀ a : Acquire,
      (if a.handle = handle then { a with standing } else a).handle = a.handle := by
    intro a
    split <;> rfl
  simp only [find?, restand, List.find?_map, Function.comp_def, hsame]
  cases hfind : s.acquires.find? (·.handle = j) with
  | none => rfl
  | some a =>
    have hj : a.handle = j := by simpa using List.find?_some hfind
    simp [hj]

/-- A poll that is answered with the lock turns a waiter into a holder. -/
theorem poll_grip? (h : (s.poll handle).1 = .acquired) :
    ∃ key kind, s.grip? handle = some ⟨key, kind, false⟩ ∧
      ∀ j, (s.poll handle).2.grip? j =
        if j = handle then some ⟨key, kind, true⟩ else s.grip? j := by
  unfold poll at h ⊢
  cases hfind : s.find? handle with
  | none => simp [hfind] at h
  | some a =>
    cases hstanding : a.standing with
    | holding => simp [hfind, hstanding] at h
    | waiting ticket channel woken =>
      cases woken with
      | false => simp [hfind, hstanding] at h
      | true =>
        simp only [hfind, hstanding] at h ⊢
        generalize s.table.attempt a.key a.kind = attempted at h ⊢
        obtain ⟨attempt, table⟩ := attempted
        cases attempt with
        | registered ticket channel => cases h
        | granted =>
          refine ⟨a.key, a.kind, ?_, fun j => ?_⟩
          · simp [grip?, hfind, Acquire.grip, Acquire.isHolding, hstanding]
          · have hrest : (Session.find? { s with table } j) = s.find? j := rfl
            rw [grip?, find?_restand, hrest, grip?]
            by_cases hj : j = handle
            · simp [hj, hfind, Acquire.grip, Acquire.isHolding]
            · simp [hj]

/-- Any other poll leaves everybody with what they had. -/
theorem poll_grip?_of_ne (h : (s.poll handle).1 ≠ .acquired) (j : Nat) :
    (s.poll handle).2.grip? j = s.grip? j := by
  unfold poll at h ⊢
  cases hfind : s.find? handle with
  | none => rfl
  | some a =>
    cases hstanding : a.standing with
    | holding => simp [hstanding]
    | waiting ticket channel woken =>
      cases woken with
      | false => simp [hstanding]
      | true =>
        simp only [hfind, hstanding] at h ⊢
        generalize s.table.attempt a.key a.kind = attempted at h ⊢
        obtain ⟨attempt, table⟩ := attempted
        cases attempt with
        | granted => exact absurd rfl h
        | registered ticket channel =>
          have hrest : (Session.find? { s with table, waits := s.waits + 1 } j) = s.find? j := rfl
          simp only [grip?, find?_restand, hrest]
          by_cases hj : j = handle
          · simp [hj, hfind, Acquire.grip, Acquire.isHolding, hstanding]
          · simp [hj]

theorem find?_remove (s : Session) (handle j : Nat) :
    (s.remove handle).find? j = if j = handle then none else s.find? j := by
  simp only [find?, remove, List.find?_filter]
  split
  · rename_i hj
    subst hj
    simp
  · rename_i hj
    congr 1
    funext a
    by_cases ha : a.handle = j
    · simp [ha, hj]
    · simp [ha]

theorem grip?_remove (s : Session) (handle j : Nat) :
    (s.remove handle).grip? j = if j = handle then none else s.grip? j := by
  rw [grip?, find?_remove]
  split <;> rfl

theorem grip?_broadcast (s : Session) (channel j : Nat) :
    (s.broadcast channel).grip? j = s.grip? j := by
  have hgrip : ∀ a : Acquire, (a.hear channel).grip = a.grip := by
    intro a
    unfold Acquire.hear
    split
    · rename_i hstanding
      simp [Acquire.grip, Acquire.isHolding, hstanding]
    · rfl
  simp only [grip?, find?, broadcast, List.find?_map, Function.comp_def, Acquire.handle_hear,
    Option.map_map, hgrip]

/-- Whoever is dropped is gone, and the others are as they were. -/
theorem drop_grip? (s : Session) (handle j : Nat) :
    (s.drop handle).2.grip? j = if j = handle then none else s.grip? j := by
  unfold drop
  cases hfind : s.find? handle with
  | none =>
    dsimp only
    split
    · rename_i hj
      rw [hj]
      exact grip?_eq_none.2 hfind
    · rfl
  | some a =>
    have hremove : ∀ table : Table, (Session.remove { s with table } handle).grip? j =
        if j = handle then none else s.grip? j :=
      fun table => grip?_remove { s with table } handle j
    dsimp only
    split
    · exact hremove _
    · split
      · exact grip?_remove s handle j
      · exact hremove _
      · rw [grip?_broadcast]
        exact hremove _

/-! ### Exclusion and progress -/

/-- A writer that holds its key holds it alone. -/
theorem Sound.grip?_alone {i j : Nat} {g : Grip} (h : s.Sound)
    (hi : s.grip? i = some ⟨key, .write, true⟩) (hj : s.grip? j = some g) (hholds : g.holds = true)
    (hkey : g.key = key) : i = j := by
  obtain ⟨a, -, ha, rfl, hgrip⟩ := find?_of_grip? hi
  obtain ⟨b, -, hb, rfl, rfl⟩ := find?_of_grip? hj
  have hgrip := Grip.mk.inj hgrip
  have hsame : b = a := h.exclusive.alone a ha b hb hgrip.2.2 hholds (hgrip.1.trans hkey.symm)
    hgrip.2.1
  rw [hsame]

/-- Whoever waits for a key that nobody holds gets it when polled. -/
theorem Sound.poll_gets (h : s.Sound) (hwaits : s.grip? handle = some ⟨key, kind, false⟩)
    (hfree : ∀ j g, s.grip? j = some g → g.holds = true → g.key ≠ key) :
    (s.poll handle).1 = .acquired := by
  obtain ⟨a, -, ha, rfl, hgrip⟩ := find?_of_grip? hwaits
  obtain ⟨rfl, -, hholding⟩ := Grip.mk.inj hgrip
  refine (h.poll_acquired ha (by simp [Acquire.isWaiting, hholding]) ?_).2
  intro b hb hholds
  exact hfree b.handle b.grip (h.grip?_of_mem hb) hholds

end Session

end StatusStore.Lock
