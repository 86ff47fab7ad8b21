/-
  StatusStore/Proofs/Cache/History.lean
  =====================================
  **What there is to tell of a run**: the loads that are called, the computations
  that begin and their answers, what loads return, and the values that are stored.
  A history is told latest first, so that what had happened by an event is what
  follows it in the list.

  Main statements: `told_queued`, `told_began` and the others of that name, which
  give the events of each thing that an action can do, and `Moves.asked`,
  `Moves.computing` and `Moves.returned`, which say what the events mean for the
  flights.
-/
import StatusStore.Proofs.Cache.Tracking

namespace StatusStore.Cache

inductive Event (α : Type)
  /-- A load was called. -/
  | asked (handle : Nat)
  /-- A load has found nothing under its lock and begins to compute. -/
  | began (handle : Nat)
  /-- The computation of a load has come to an answer. -/
  | answered (handle : Nat) (result : Except Error α)
  /-- The load of a key returns. -/
  | returned (handle : Nat) (key : Key) (result : Except Error α)
  /-- A store has put its value into the cache. -/
  | stored (value : α)

def Event.handle? {α : Type} : Event α → Option Nat
  | asked h | began h | answered h _ | returned h _ _ => some h
  | stored _ => none

namespace EntityCache

variable {α : Type} {c u : EntityCache α} {h j : Nat} {key : Key} {v : α} {a : Action α}
  {p : Progress α}

def isLoading (c : EntityCache α) (h : Nat) : Bool :=
  match c.flight? h with
  | some ⟨_, .load _ _, .running⟩ => true
  | _ => false

/-- The beginning of a computation, if it lies between two states of a cache. -/
def begins (c u : EntityCache α) (h : Nat) : List (Event α) :=
  if !c.isLoading h && u.isLoading h then [.began h] else []

/-- The events of an action, by what it tells and the cache after it. -/
def told (c : EntityCache α) (a : Action α) (p : Progress α) (u : EntityCache α) : List (Event α) :=
  match a, p with
  | .load h key, .loaded r => [.returned h key r, .asked h]
  | .load h _, .pending => begins c u h ++ [.asked h]
  | .poll h, .pending => begins c u h
  | .poll h, .loaded r =>
    match c.flight? h with
    | some ⟨_, .load key _, _⟩ => [.returned h key r]
    | _ => []
  | .poll h, .stored (.ok ()) =>
    match c.flight? h with
    | some ⟨_, .store v _, _⟩ => [.stored v]
    | _ => []
  | .answerLoad h r, _ =>
    match c.flight? h with
    | some ⟨_, .load _ none, .running⟩ => [.answered h r]
    | _ => []
  | _, _ => []

theorem begins_of_same (hsame : u.flight? h = c.flight? h) : begins c u h = [] := by
  simp [begins, isLoading, hsame]

theorem begins_of_waiting {w : Work α} (hu : u.flight? h = some ⟨h, w, .waiting⟩) :
    begins c u h = [] := by
  simp [begins, isLoading, hu]

theorem begins_of_store {r : Option (Except Error Unit)} {phase : Phase}
    (hu : u.flight? h = some ⟨h, .store v r, phase⟩) : begins c u h = [] := by
  simp [begins, isLoading, hu]

theorem begins_of_admits {r : Option (Except Error α)} (hadmits : Admits c h (.load key r) a)
    (hu : u.flight? h = some ⟨h, .load key r, .running⟩) : begins c u h = [.began h] := by
  cases hadmits with
  | atOnce hnone => simp [begins, isLoading, hu, hnone]
  | later hf => simp [begins, isLoading, hu, hf]

/-- The events of an action are about its own handle. -/
theorem handle?_of_told {e : Event α} (he : e ∈ c.told a p u) (hh : e.handle? = some h) :
    a.handle? = some h := by
  have hbegins : ∀ j, e ∈ begins c u j → some j = some h := by
    intro j he
    unfold begins at he
    split at he
    · obtain rfl := List.mem_singleton.1 he
      exact hh
    · cases he
  unfold told at he
  split at he
  · rcases List.mem_cons.1 he with rfl | he
    · exact hh
    · obtain rfl := List.mem_singleton.1 he
      exact hh
  · rcases List.mem_append.1 he with he | he
    · exact hbegins _ he
    · obtain rfl := List.mem_singleton.1 he
      exact hh
  · exact hbegins _ he
  · split at he
    · obtain rfl := List.mem_singleton.1 he
      exact hh
    · cases he
  · split at he
    · obtain rfl := List.mem_singleton.1 he
      cases hh
    · cases he
  · split at he
    · obtain rfl := List.mem_singleton.1 he
      exact hh
    · cases he
  · cases he

/-! ### The events of each move -/

theorem told_queued {w : Work α} (hsets : Sets c u h (some ⟨h, w, .waiting⟩)) :
    c.told (starting h w) .pending u = match w with
      | .load _ _ => [.asked h]
      | .store _ _ => [] := by
  cases w with
  | load key r => simp [starting, told, begins_of_waiting hsets.self]
  | store v r => rfl

theorem told_began {r : Option (Except Error α)} (hadmits : Admits c h (.load key r) a)
    (hsets : Sets c u h (some ⟨h, .load key r, .running⟩)) :
    c.told a .pending u = [.began h] ∨
      c.flight? h = none ∧ c.told a .pending u = [.began h, .asked h] := by
  have hbegins := begins_of_admits hadmits hsets.self
  cases hadmits with
  | atOnce hnone => exact Or.inr ⟨hnone, congrArg (· ++ [Event.asked h]) hbegins⟩
  | later _ => exact Or.inl hbegins

theorem told_persists {r : Option (Except Error Unit)} (hadmits : Admits c h (.store v r) a)
    (hsets : Sets c u h (some ⟨h, .store v r, .running⟩)) : c.told a .pending u = [] := by
  cases hadmits with
  | atOnce _ => rfl
  | later _ => exact begins_of_store hsets.self

theorem told_returned {r : Option (Except Error α)} {phase : Phase} {answer : Except Error α}
    (hf : c.flight? h = some ⟨h, .load key r, phase⟩) :
    c.told (.poll h) (.loaded answer) u = [.returned h key answer] := by
  simp [told, hf]

theorem told_answered {r : Except Error α} (hf : c.flight? h = some ⟨h, .load key none, .running⟩) :
    c.told (.answerLoad h r) p u = [.answered h r] := by
  simp [told, hf]

theorem told_stored {r : Option (Except Error Unit)} {phase : Phase}
    (hf : c.flight? h = some ⟨h, .store v r, phase⟩) :
    c.told (.poll h) (.stored (.ok ())) u = [.stored v] := by
  simp [told, hf]

variable [Cacheable α]

def events (c : EntityCache α) (a : Action α) : List (Event α) := c.told a (c.act a).1 (c.act a).2

def history (c : EntityCache α) : List (Action α) → List (Event α)
  | [] => []
  | a :: actions => (c.act a).2.history actions ++ c.events a

theorem Idle.told (hidle : Idle c a p) (hsame : ∀ j, u.flight? j = c.flight? j) :
    c.told a p u = [] ∨ ∃ h key v, a = .load h key ∧ c.flight? h = none ∧ c.get? key = some v ∧
      c.told a p u = [.returned h key (.ok v), .asked h] := by
  cases hidle with
  | @hit h key v hnone hv => exact Or.inr ⟨h, key, v, rfl, hnone, hv, rfl⟩
  | @busy h w f _ => cases w <;> exact Or.inl rfl
  | refused _ => exact Or.inl rfl
  | unused _ => exact Or.inl rfl
  | asking _ _ _ => exact Or.inl (begins_of_same (hsame _))
  | blocked _ _ _ => exact Or.inl (begins_of_same (hsame _))
  | @unheard a h hanswer hload _ =>
    obtain ⟨r, rfl⟩ | ⟨r, rfl⟩ := hanswer
    · left
      simp only [EntityCache.told]
      split
      · rename_i handle key hf
        obtain rfl : handle = h := handle_of_flight? hf
        exact absurd hf (hload key r rfl)
      · rfl
    · exact Or.inl rfl
  | missed _ => exact Or.inl rfl

/-! ### What the events say of the flights -/

namespace Moves

/-- A load is called under a handle that is not in use. -/
theorem asked (hm : Moves c a p u) (hasked : .asked j ∈ c.told a p u) : c.flight? j = none := by
  cases hm with
  | idle hidle _ hsame =>
    rcases hidle.told hsame with hnone | ⟨h, key, v, -, hnone, -, htold⟩
    · simp [hnone] at hasked
    · rw [htold] at hasked
      obtain rfl : j = h := by simpa using hasked
      exact hnone
  | @queued h w _ hnone _ _ _ hsets =>
    rw [told_queued hsets] at hasked
    cases w with
    | load key r =>
      obtain rfl : j = h := by simpa using hasked
      exact hnone
    | store v r => cases hasked
  | @began a h key _ hadmits _ _ _ hsets =>
    rcases told_began hadmits hsets with htold | ⟨hnone, htold⟩
    · simp [htold] at hasked
    · rw [htold] at hasked
      obtain rfl : j = h := by simpa using hasked
      exact hnone
  | persists hadmits _ _ hsets => simp [told_persists hadmits hsets] at hasked
  | found hf _ _ _ => simp [told_returned hf] at hasked
  | loaded hf _ _ => simp [told_returned hf] at hasked
  | failed hf _ _ => simp [told_returned hf] at hasked
  | answeredLoad hf _ _ => simp [told_answered hf] at hasked
  | committed hf _ _ => simp [told_stored hf] at hasked
  | answeredStore _ _ _ => cases hasked
  | rejected _ _ _ => cases hasked
  | abandoned _ _ _ => cases hasked
  | withdrawn _ _ _ _ => cases hasked
  | invalidated _ _ => cases hasked

/-- A load that computes did so before, with the same answer, or it has just begun, or it has just
been answered. -/
theorem computing {i : Key} {r : Option (Except Error α)} (hm : Moves c a p u)
    (hf : u.flight? j = some ⟨j, .load i r, .running⟩) :
    c.flight? j = some ⟨j, .load i r, .running⟩ ∨
      (.began j ∈ c.told a p u ∧ r = none) ∨
      (c.flight? j = some ⟨j, .load i none, .running⟩ ∧
        ∃ x, r = some x ∧ c.told a p u = [.answered j x]) := by
  have hothers : ∀ {h : Nat}, Sets c u h none → c.flight? j = some ⟨j, .load i r, .running⟩ := by
    intro h hsets
    rw [hsets] at hf
    split at hf
    · cases hf
    · exact hf
  cases hm with
  | idle _ _ hsame => exact Or.inl (hsame j ▸ hf)
  | queued _ _ _ _ hsets =>
    rw [hsets] at hf
    split at hf
    · cases hf
    · exact Or.inl hf
  | @began a h key _ hadmits _ _ _ hsets =>
    have htold : .began h ∈ c.told a .pending u := by
      rcases told_began hadmits hsets with htold | ⟨-, htold⟩ <;> simp [htold]
    rw [hsets] at hf
    split at hf
    · rename_i hj
      cases hf
      exact Or.inr (Or.inl ⟨htold, rfl⟩)
    · exact Or.inl hf
  | persists _ _ _ hsets =>
    rw [hsets] at hf
    split at hf
    · cases hf
    · exact Or.inl hf
  | @answeredLoad h key x _ hbefore _ hsets =>
    rw [hsets] at hf
    split at hf
    · rename_i hj
      cases hf
      exact Or.inr (Or.inr ⟨hbefore, x, rfl, told_answered hbefore⟩)
    · exact Or.inl hf
  | answeredStore _ _ hsets =>
    rw [hsets] at hf
    split at hf
    · cases hf
    · exact Or.inl hf
  | found _ _ _ hsets => exact Or.inl (hothers hsets)
  | loaded _ _ hsets => exact Or.inl (hothers hsets)
  | failed _ _ hsets => exact Or.inl (hothers hsets)
  | committed _ _ hsets => exact Or.inl (hothers hsets)
  | rejected _ _ hsets => exact Or.inl (hothers hsets)
  | abandoned _ _ hsets => exact Or.inl (hothers hsets)
  | withdrawn _ _ _ hsets => exact Or.inl (hothers hsets)
  | invalidated _ hsame => exact Or.inl (hsame j ▸ hf)

/-- What a load returns is found under its key, or is what it computed. -/
theorem returned {i : Key} (hm : Moves c a p u) (hreturned : .returned j i (.ok v) ∈ c.told a p u) :
    c.get? i = some v ∨ c.flight? j = some ⟨j, .load i (some (.ok v)), .running⟩ := by
  cases hm with
  | idle hidle _ hsame =>
    rcases hidle.told hsame with hnone | ⟨h, key, w, -, -, hw, htold⟩
    · simp [hnone] at hreturned
    · rw [htold] at hreturned
      obtain ⟨rfl, rfl, rfl⟩ : j = h ∧ i = key ∧ v = w := by simpa using hreturned
      exact Or.inl hw
  | @queued h w _ _ _ _ _ hsets =>
    rw [told_queued hsets] at hreturned
    cases w <;> simp at hreturned
  | began hadmits _ _ _ hsets =>
    rcases told_began hadmits hsets with htold | ⟨-, htold⟩ <;> simp [htold] at hreturned
  | persists hadmits _ _ hsets => simp [told_persists hadmits hsets] at hreturned
  | @found h key w _ hf hw _ _ =>
    rw [told_returned hf] at hreturned
    obtain ⟨rfl, rfl, rfl⟩ : j = h ∧ i = key ∧ v = w := by simpa using hreturned
    exact Or.inl hw
  | @loaded h key w _ hf _ _ =>
    rw [told_returned hf] at hreturned
    obtain ⟨rfl, rfl, rfl⟩ : j = h ∧ i = key ∧ v = w := by simpa using hreturned
    exact Or.inr hf
  | failed hf _ _ => simp [told_returned hf] at hreturned
  | answeredLoad hf _ _ => simp [told_answered hf] at hreturned
  | committed hf _ _ => simp [told_stored hf] at hreturned
  | answeredStore _ _ _ => cases hreturned
  | rejected _ _ _ => cases hreturned
  | abandoned _ _ _ => cases hreturned
  | withdrawn _ _ _ _ => cases hreturned
  | invalidated _ _ => cases hreturned

/-! ### How a load comes to its end -/

/-- Who calls a load gets a value at once or has a flight. -/
theorem called (hm : Moves c (.load h key) p u) :
    (∃ r, .returned h key r ∈ c.told (.load h key) p u) ∨ u.flight? h ≠ none := by
  generalize ha : Action.load h key = a at hm
  cases hm with
  | idle hidle _ hsame =>
    cases hidle with
    | @hit h' i v _ _ =>
      cases ha
      exact Or.inl ⟨.ok v, List.mem_cons_self⟩
    | @busy h' w f hf =>
      have hh : h = h' := Option.some.inj ((congrArg Action.handle? ha).trans (handle?_starting h' w))
      right
      rw [hh, hsame, hf]
      simp
    | @unheard _ _ hanswer _ _ => obtain ⟨r, rfl⟩ | ⟨r, rfl⟩ := hanswer <;> cases ha
    | _ => cases ha
  | @queued h' w _ _ _ _ _ hsets =>
    have hh : h = h' := Option.some.inj ((congrArg Action.handle? ha).trans (handle?_starting h' w))
    right
    rw [hh, hsets.self]
    simp
  | began hadmits _ _ _ hsets =>
    have hh := Option.some.inj ((congrArg Action.handle? ha).trans hadmits.handle?)
    right
    rw [hh, hsets.self]
    simp
  | persists hadmits _ _ hsets =>
    have hh := Option.some.inj ((congrArg Action.handle? ha).trans hadmits.handle?)
    right
    rw [hh, hsets.self]
    simp
  | _ => cases ha

/-- A load that nobody drops stays in flight, with its answer if it has one, until it returns. -/
theorem stays {r : Option (Except Error α)} {phase : Phase} (hm : Moves c a p u)
    (hf : c.flight? h = some ⟨h, .load key r, phase⟩) (hstay : a ≠ .cancel h) :
    (∃ x, .returned h key x ∈ c.told a p u) ∨
      (u.flight? h ≠ none ∧ (r.isSome = true → phase = .running → u.flight? h = c.flight? h)) := by
  have hfate := hm.fate hf hstay
  generalize hflight : u.flight? h = g at hfate
  cases hfate with
  | same => exact Or.inr ⟨Option.some_ne_none _, fun _ _ => hf.symm⟩
  | admitted _ _ => exact Or.inr ⟨Option.some_ne_none _, fun _ hruns => by cases hruns⟩
  | answeredLoad _ => exact Or.inr ⟨Option.some_ne_none _, fun hsome => by cases hsome⟩
  | @loaded _ _ _ x ha hp =>
    left
    rw [ha, hp, told_returned hf]
    exact ⟨x, List.mem_singleton_self _⟩

/-- An answer reaches the load that asks for it. -/
theorem answers {r : Except Error α} (hm : Moves c (.answerLoad h r) p u)
    (hf : c.flight? h = some ⟨h, .load key none, .running⟩) :
    u.flight? h = some ⟨h, .load key (some r), .running⟩ := by
  generalize ha : Action.answerLoad h r = a at hm
  cases hm with
  | idle hidle _ _ =>
    cases hidle with
    | @busy h' w f _ => cases w <;> cases ha
    | @unheard _ h' hanswer hload _ =>
      obtain rfl : h' = h := by
        obtain ⟨r', rfl⟩ | ⟨r', rfl⟩ := hanswer
        · cases ha
          rfl
        · cases ha
      exact absurd hf (hload key r ha.symm)
    | _ => cases ha
  | @queued h' w _ _ _ _ _ _ => cases w <;> cases ha
  | began hadmits _ _ _ _ => cases hadmits <;> cases ha
  | persists hadmits _ _ _ => cases hadmits <;> cases ha
  | @answeredLoad h' i r' _ hg _ hsets =>
    cases ha
    rw [hf] at hg
    cases hg
    exact hsets.self
  | _ => cases ha

/-- A load that has been answered returns when it is polled. -/
theorem ends {r : Except Error α} (hm : Moves c (.poll h) p u)
    (hf : c.flight? h = some ⟨h, .load key (some r), .running⟩) :
    .returned h key r ∈ c.told (.poll h) p u := by
  cases hm.polled hf with
  | asking hquery => cases hquery
  | loaded _ =>
    rw [told_returned hf]
    exact List.mem_singleton_self _

/-- A load that waits for a key that nobody computes returns the value of the key when it is polled,
or begins to compute if there is none. -/
theorem proceeds (hm : Moves c (.poll h) p u)
    (hf : c.flight? h = some ⟨h, .load key none, .waiting⟩) (hfree : c.Free key.encode) :
    (∃ v, .returned h key (.ok v) ∈ c.told (.poll h) p u) ∨
      (c.get? key = none ∧ .began h ∈ c.told (.poll h) p u) := by
  cases hm.polled hf with
  | blocked hheld => exact absurd hfree hheld
  | found _ _ =>
    left
    rw [told_returned hf]
    exact ⟨_, List.mem_singleton_self _⟩
  | began hmiss hbegun =>
    refine Or.inr ⟨hmiss, ?_⟩
    have htold : c.told (.poll h) .pending u = [.began h] := begins_of_admits (.later hf) hbegun
    rw [htold]
    exact List.mem_singleton_self _

end Moves

end EntityCache

end StatusStore.Cache
