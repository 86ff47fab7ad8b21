/-
  StatusStore/Proofs/Lock/Independence.lean
  =========================================
  **Keys know nothing of each other, nor of waiters that gave up.**  All keys
  share one pool of slots and one supply of tickets and channels, and a waiter
  that gives up turns evictions into broadcasts and back.  None of this reaches
  an answer: what an acquire is told depends on who holds its key and on nothing
  else.

  An asleep waiter could not enter if it were woken (`Patient`), so a poll asks
  in effect whether the holders let the acquire in (`Admits`), and so does a first
  attempt.  Two sessions in which the same acquires hold a key answer alike about
  it; main statement: `Session.run_excerpt`.
-/
import StatusStore.Proofs.Lock.Grips

namespace StatusStore.Lock

def Step.handle : Step → Nat
  | .acquire handle _ _ | .poll handle | .drop handle => handle

namespace Session

variable {s u r : Session} {x : Step} {answer : Answer} {key : String} {kind : Kind}
  {handle j : Nat} {g : Grip}

/-! ### A run without the other keys and without some that gave up -/

/-- The key of the acquire that a step starts, polls or drops, if there is one. -/
def keyOf? (s : Session) : Step → Option String
  | .acquire handle key _ => if (s.find? handle).isSome then none else some key
  | .poll handle | .drop handle => (s.find? handle).map Acquire.key

/-- Whether the acquire under a handle is dropped in the course of the steps and has never got its
lock. -/
def isCancelled (s : Session) (handle : Nat) : List Step → Bool
  | [] => false
  | x :: xs =>
    if x = .drop handle then (s.step x).1 = .cancelled else (s.step x).2.isCancelled handle xs

/-- Whether the acquire under a handle is left in a run that goes on with the steps, when the cancelled
ones under `hidden` handles are taken out. -/
def isLeft (s : Session) (hidden : Nat → Bool) (steps : List Step) (handle : Nat) : Bool :=
  !(hidden handle && s.isCancelled handle steps)

/-- The steps of a run on `key` that are left, with what they were answered. -/
def excerpt (s : Session) (key : String) (hidden : Nat → Bool) : List Step → List (Step × Answer)
  | [] => []
  | x :: xs =>
    let rest := (s.step x).2.excerpt key hidden xs
    if s.keyOf? x = some key ∧ s.isLeft hidden (x :: xs) x.handle then (x, (s.step x).1) :: rest
    else rest

theorem excerpt_sublist (s : Session) (key : String) (hidden : Nat → Bool) (steps : List Step) :
    (s.excerpt key hidden steps).Sublist (steps.zip (s.run steps).1) := by
  induction steps generalizing s with
  | nil => exact List.Sublist.refl _
  | cons x xs ih =>
    simp only [excerpt, run, List.zip_cons_cons]
    split
    · exact (ih (s.step x).2).cons_cons _
    · exact (ih (s.step x).2).cons _

/-! ### Who is let in -/

/-- No holder of the key keeps out an acquire of the kind: there is none, or all of them read. -/
def Admits (s : Session) (key : String) (kind : Kind) : Prop :=
  ∀ j other, s.grip? j = some ⟨key, other, true⟩ → other = .read ∧ kind = .read

theorem Sound.grip?_eq_some (h : s.Sound) :
    s.grip? j = some g ↔ ∃ a ∈ s.acquires, a.handle = j ∧ a.grip = g := by
  constructor
  · intro hg
    obtain ⟨a, -, ha, hhandle, hgrip⟩ := find?_of_grip? hg
    exact ⟨a, ha, hhandle, hgrip⟩
  · rintro ⟨a, ha, rfl, rfl⟩
    exact h.grip?_of_mem ha

theorem Sound.exists_grip_iff (h : s.Sound) :
    (∃ j, s.grip? j = some ⟨key, kind, true⟩) ↔ guards s.acquires key kind ≠ 0 := by
  rw [guards, Nat.ne_zero_iff_zero_lt, List.countP_pos_iff]
  constructor
  · rintro ⟨j, hg⟩
    obtain ⟨a, ha, -, hgrip⟩ := h.grip?_eq_some.1 hg
    obtain ⟨hkey, hkind, hholds⟩ := Grip.mk.inj hgrip
    refine ⟨a, ha, ?_⟩
    simp [Acquire.guards, hkey, hkind, hholds]
  · rintro ⟨a, ha, hguards⟩
    simp only [Acquire.guards, Bool.and_eq_true, decide_eq_true_eq] at hguards
    obtain ⟨⟨hholds, rfl⟩, rfl⟩ := hguards
    refine ⟨a.handle, h.grip?_eq_some.2 ⟨a, ha, rfl, ?_⟩⟩
    simp [Acquire.grip, hholds]

/-- The table lets an acquire in when the holders do. -/
theorem Sound.enter?_eq_none (h : s.Sound) :
    (s.table.holdOf key).enter? kind = none ↔ ¬ s.Admits key kind := by
  have hholders : ∀ other, (∃ j, s.grip? j = some ⟨key, other, true⟩) ↔
      guards s.acquires key other ≠ 0 := fun other => h.exists_grip_iff
  have htallies := h.accounted.holds key
  cases hhold : s.table.holdOf key with
  | free =>
    rw [hhold] at htallies
    have hadmits : s.Admits key kind := by
      intro j other hg
      have hsome := (hholders other).1 ⟨j, hg⟩
      cases other with
      | read => exact absurd htallies.1 hsome
      | write => exact absurd htallies.2 hsome
    cases kind <;> simp [Hold.enter?, hadmits]
  | readers n =>
    rw [hhold] at htallies
    obtain ⟨hread, hpos, hwrite⟩ := htallies
    cases kind with
    | read =>
      have hadmits : s.Admits key .read := by
        intro j other hg
        cases other with
        | read => exact ⟨rfl, rfl⟩
        | write => exact absurd hwrite ((hholders .write).1 ⟨j, hg⟩)
      simp [Hold.enter?, hadmits]
    | write =>
      obtain ⟨j, hg⟩ := (hholders .read).2 (hread ▸ Nat.ne_of_gt hpos)
      have hrefuses : ¬ s.Admits key .write := by
        intro hadmits
        cases (hadmits j .read hg).2
      simp [Hold.enter?, hrefuses]
  | writer =>
    rw [hhold] at htallies
    obtain ⟨j, hg⟩ := (hholders .write).2 (by simp [htallies.2])
    have hrefuses : ¬ s.Admits key kind := by
      intro hadmits
      cases (hadmits j .write hg).1
    cases kind <;> simp [Hold.enter?, hrefuses]

/-- A key that has no other holders in `u` than in `s` lets in at least as many. -/
theorem Admits.of_holders (h : s.Admits key kind)
    (hholders : ∀ j other, u.grip? j = some ⟨key, other, true⟩ →
      s.grip? j = some ⟨key, other, true⟩) : u.Admits key kind :=
  fun j other hg => h j other (hholders j other hg)

end Session

theorem Table.Sound.attempt_granted_iff {t : Table} {key : String} {kind : Kind} (h : t.Sound) :
    (t.attempt key kind).1 = .granted ↔ (t.holdOf key).enter? kind ≠ none := by
  obtain ⟨u, slot, hstands, ⟨hold, henter, hattempt⟩ | ⟨henter, hattempt⟩⟩ := h.attempt_at key kind
  · rw [hattempt, ← hstands.hold, henter]
    simp
  · rw [hattempt, ← hstands.hold, henter]
    simp

/-- Who has to wait could not enter afterwards either. -/
theorem Table.Sound.enter?_of_registered {t : Table} {key : String} {kind : Kind} (h : t.Sound)
    (hwaits : (t.attempt key kind).1 ≠ .granted) :
    ((t.attempt key kind).2.holdOf key).enter? kind = none := by
  obtain ⟨u, slot, -, ⟨hold, -, hattempt⟩ | ⟨henter, hattempt⟩⟩ := h.attempt_at key kind
  · rw [hattempt] at hwaits
    exact absurd rfl hwaits
  · rw [hattempt, Table.holdOf_place, if_pos rfl]
    exact henter

namespace Session

variable {s u r : Session} {x : Step} {answer : Answer} {key : String} {kind : Kind}
  {handle j : Nat} {g : Grip}

/-! ### Sleeping costs nothing -/

/-- Whoever sleeps could not enter now. -/
def Patient (s : Session) : Prop :=
  ∀ a ∈ s.acquires, a.isAsleep = true → ¬ s.Admits a.key a.kind

/-- Acquires that are neither among the sleepers of `s` nor held back by the same holders have been
registered just now. -/
theorem Patient.of_attempt {a : Acquire} {rest : List Acquire} (h : s.Patient) (hu : u.Sound)
    (hs : s.Sound) (htable : u.table = (s.table.attempt a.key a.kind).2)
    (hstanding : a.standing = (s.table.attempt a.key a.kind).1.standing)
    (hafter : u.acquires.Perm (a :: rest)) (hrest : ∀ b ∈ rest, b ∈ s.acquires)
    (hholders : ∀ b ∈ s.acquires, b.isHolding = true → b ∈ rest) : u.Patient := by
  intro b hb hasleep hadmits
  rcases List.mem_cons.1 (hafter.mem_iff.1 hb) with rfl | hb
  · have hwaits : (s.table.attempt b.key b.kind).1 ≠ .granted := by
      intro hgranted
      rw [hgranted] at hstanding
      simp [Acquire.isAsleep, hstanding, Attempt.standing] at hasleep
    have hnone := hs.table.enter?_of_registered hwaits
    rw [← htable] at hnone
    exact hu.enter?_eq_none.1 hnone hadmits
  · apply h b (hrest b hb) hasleep
    apply hadmits.of_holders
    intro i other hg
    obtain ⟨c, hc, hhandle, hgrip⟩ := hs.grip?_eq_some.1 hg
    have hcholds := hholders c hc (Grip.mk.inj hgrip).2.2
    exact hu.grip?_eq_some.2 ⟨c, hafter.mem_iff.2 (List.mem_cons_of_mem a hcholds), hhandle, hgrip⟩

/-- When a guard goes, those who stay asleep have another guard before them that keeps them out. -/
theorem Patient.of_release {a : Acquire} {rest : List Acquire} {broadcast : Option Nat}
    (h : s.Patient) (hs : s.Sound) (hu : u.Sound) (hbefore : s.acquires.Perm (a :: rest))
    (hafter : u.acquires = hearing broadcast rest) : u.Patient := by
  intro b' hb' hasleep hadmits
  have hheard : ∀ c' ∈ u.acquires, ∃ c ∈ rest, c'.handle = c.handle ∧ c'.grip = c.grip ∧
      (c'.isAsleep = true → c.isAsleep = true) := by
    intro c' hc'
    rw [hafter] at hc'
    cases broadcast with
    | none => exact ⟨c', hc', rfl, rfl, id⟩
    | some channel =>
      obtain ⟨c, hc, rfl⟩ := List.mem_map.1 hc'
      refine ⟨c, hc, c.handle_hear channel, ?_, ?_⟩
      · unfold Acquire.hear
        split
        · rename_i hstanding
          simp [Acquire.grip, Acquire.isHolding, hstanding]
        · rfl
      · unfold Acquire.hear
        split
        · rename_i hstanding
          simp only [Acquire.isAsleep, hstanding]
          intro hdeaf
          simp_all
        · exact id
  obtain ⟨b, hb, -, hgrip, hslept⟩ := hheard b' hb'
  obtain ⟨hkey, hkind, -⟩ := Grip.mk.inj hgrip
  obtain ⟨e', he', heholds', hekey'⟩ := hu.guard_of_asleep hb' hasleep
  obtain ⟨e, he, -, hegrip, -⟩ := hheard e' he'
  obtain ⟨hekey, hekind, heholds⟩ := Grip.mk.inj hegrip
  -- Some other guard holds the key, so it reads, and so would the sleeper.
  have hreads := hadmits e'.handle e'.kind (by
    rw [hu.grip?_of_mem he', Acquire.grip, hekey', heholds'])
  have hbs := hbefore.mem_iff.2 (List.mem_cons_of_mem a hb)
  have hes := hbefore.mem_iff.2 (List.mem_cons_of_mem a he)
  apply h b hbs (hslept hasleep)
  rw [← hkey, ← hkind]
  intro i other hg
  obtain ⟨d, hd, -, hdgrip⟩ := hs.grip?_eq_some.1 hg
  obtain ⟨hdkey, rfl, hdholds⟩ := Grip.mk.inj hdgrip
  refine ⟨?_, hreads.2⟩
  cases hdkind : d.kind with
  | read => rfl
  | write =>
    have hsame : e = d := hs.exclusive.alone d hd e hes hdholds (heholds ▸ heholds')
      (hdkey.trans (hekey'.symm.trans hekey)) hdkind
    rw [← hdkind, ← hsame, ← hekind]
    exact hreads.1

theorem Patient.of_moves (h : s.Patient) (hs : s.Sound) (hu : u.Sound)
    (hmoves : Moves s x answer u) : u.Patient := by
  cases hmoves with
  | busy => exact h
  | gone => exact h
  | held => exact h
  | asleep => exact h
  | entered _ htable hafter =>
    exact h.of_attempt hu hs htable rfl hafter (fun b hb => hb) fun b hb _ => hb
  | @retried a rest _ _ _ hstanding hbefore htable hafter =>
    apply h.of_attempt (a := ⟨a.handle, a.key, a.kind, (s.table.attempt a.key a.kind).1.standing⟩)
      hu hs htable rfl hafter
    · intro b hb
      exact hbefore.mem_iff.2 (List.mem_cons_of_mem a hb)
    · intro b hb hholds
      rcases List.mem_cons.1 (hbefore.mem_iff.1 hb) with rfl | hb
      · simp [Acquire.isHolding, hstanding] at hholds
      · exact hb
  | @withdrawn a rest _ _ _ _ hstanding hbefore _ hafter =>
    intro b hb hasleep hadmits
    rw [hafter] at hb
    apply h b (hbefore.mem_iff.2 (List.mem_cons_of_mem a hb)) hasleep
    apply hadmits.of_holders
    intro i other hg
    obtain ⟨c, hc, hhandle, hgrip⟩ := hs.grip?_eq_some.1 hg
    rcases List.mem_cons.1 (hbefore.mem_iff.1 hc) with rfl | hc
    · simp [Acquire.grip, Acquire.isHolding, hstanding] at hgrip
    · exact hu.grip?_eq_some.2 ⟨c, hafter ▸ hc, hhandle, hgrip⟩
  | released _ hbefore _ hafter => exact h.of_release hs hu hbefore hafter

/-- What runs from an empty table keep up, with what it says of sleepers. -/
structure Settled (s : Session) : Prop where
  sound : s.Sound
  patient : s.Patient

theorem settled_withGcFrequency (frequency : UInt32) : (withGcFrequency frequency).Settled where
  sound := sound_withGcFrequency frequency
  patient _ ha := by cases ha

theorem Settled.step (h : s.Settled) (x : Step) : (s.step x).2.Settled where
  sound := h.sound.step x
  patient := h.patient.of_moves h.sound (h.sound.step x) (h.sound.moves x)

/-! ### Answers by grips -/

theorem acquire_busy (hg : s.grip? handle = some g) (key : String) (kind : Kind) :
    s.acquire handle key kind = (.busy, s) := by
  obtain ⟨a, hfind, -⟩ := find?_of_grip? hg
  simp [acquire, hfind]

theorem poll_held (hg : s.grip? handle = some ⟨key, kind, true⟩) :
    s.poll handle = (.held, s) := by
  obtain ⟨a, hfind, -, -, hgrip⟩ := find?_of_grip? hg
  have hholds : a.standing = .holding := by
    simpa [Acquire.isHolding] using (Grip.mk.inj hgrip).2.2
  simp [poll, hfind, hholds]

theorem drop_waiting (hg : s.grip? handle = some ⟨key, kind, false⟩) :
    (s.drop handle).1 = .cancelled := by
  obtain ⟨a, hfind, -, -, hgrip⟩ := find?_of_grip? hg
  have hwaits := (Grip.mk.inj hgrip).2.2
  cases hstanding : a.standing with
  | holding => simp [Acquire.isHolding, hstanding] at hwaits
  | waiting ticket channel woken => simp [drop, hfind, hstanding]

theorem Sound.drop_holding (h : s.Sound) (hg : s.grip? handle = some ⟨key, kind, true⟩) :
    (s.drop handle).1 = .released := by
  obtain ⟨a, hfind, ha, rfl, hgrip⟩ := find?_of_grip? hg
  have hholds : a.standing = .holding := by
    simpa [Acquire.isHolding] using (Grip.mk.inj hgrip).2.2
  obtain ⟨-, hperm, -⟩ := perm_of_find? h.handles hfind
  obtain ⟨table, broadcast, hrelease, -⟩ :=
    release_accounted h.table (h.accounted.perm hperm) hholds
  cases broadcast <;> simp [drop, hfind, hholds, hrelease]

theorem Sound.attempt_granted_iff (h : s.Sound) :
    (s.table.attempt key kind).1 = .granted ↔ s.Admits key kind := by
  rw [h.table.attempt_granted_iff, Ne, h.enter?_eq_none, Classical.not_not]

/-- A new acquire gets its lock at once when the holders of the key let it in. -/
theorem Sound.acquire_eq_acquired (h : s.Sound) (hg : s.grip? handle = none) :
    (s.acquire handle key kind).1 = .acquired ↔ s.Admits key kind := by
  rw [← h.attempt_granted_iff]
  simp only [acquire, grip?_eq_none.1 hg]
  generalize s.table.attempt key kind = attempted
  obtain ⟨attempt, table⟩ := attempted
  cases attempt <;> simp

/-- So does a waiter that is polled, woken or not. -/
theorem Settled.poll_eq_acquired (h : s.Settled) (hg : s.grip? handle = some ⟨key, kind, false⟩) :
    (s.poll handle).1 = .acquired ↔ s.Admits key kind := by
  obtain ⟨a, hfind, ha, -, hgrip⟩ := find?_of_grip? hg
  obtain ⟨rfl, rfl, hwaits⟩ := Grip.mk.inj hgrip
  cases hstanding : a.standing with
  | holding => simp [Acquire.isHolding, hstanding] at hwaits
  | waiting ticket channel woken =>
    cases woken with
    | false =>
      have hrefuses := h.patient a ha (by simp [Acquire.isAsleep, hstanding])
      simp [poll, hfind, hstanding, hrefuses]
    | true =>
      rw [← h.sound.attempt_granted_iff]
      simp only [poll, hfind, hstanding]
      generalize s.table.attempt a.key a.kind = attempted
      obtain ⟨attempt, table⟩ := attempted
      cases attempt <;> simp

theorem poll_waiting (hg : s.grip? handle = some ⟨key, kind, false⟩)
    (hnot : (s.poll handle).1 ≠ .acquired) : (s.poll handle).1 = .pending := by
  obtain ⟨a, hfind, -, -, hgrip⟩ := find?_of_grip? hg
  have hwaits := (Grip.mk.inj hgrip).2.2
  cases hstanding : a.standing with
  | holding => simp [Acquire.isHolding, hstanding] at hwaits
  | waiting ticket channel woken =>
    cases woken with
    | false => simp [poll, hfind, hstanding]
    | true =>
      simp only [poll, hfind, hstanding] at hnot ⊢
      generalize s.table.attempt a.key a.kind = attempted at hnot ⊢
      obtain ⟨attempt, table⟩ := attempted
      cases attempt with
      | granted => exact absurd rfl hnot
      | registered ticket channel => rfl

/-- A step changes the grip under its own handle only. -/
theorem step_grip?_of_ne (s : Session) (hj : j ≠ x.handle) : (s.step x).2.grip? j = s.grip? j := by
  cases x with
  | acquire handle key kind =>
    cases hg : s.grip? handle with
    | some g =>
      rw [step, acquire_busy hg]
    | none =>
      obtain ⟨got, -, hgrips⟩ := acquire_grip? hg key kind
      exact (hgrips j).trans (if_neg hj)
  | poll handle =>
    by_cases hgot : (s.poll handle).1 = .acquired
    · obtain ⟨key, kind, -, hgrips⟩ := poll_grip? hgot
      exact (hgrips j).trans (if_neg hj)
    · exact poll_grip?_of_ne hgot j
  | drop handle => exact (s.drop_grip? handle j).trans (if_neg hj)

/-! ### Two sessions with the same holders of a key -/

theorem acquire_alike (hs : s.Sound) (hr : r.Sound) (hgrips : s.grip? handle = none)
    (hgripr : r.grip? handle = none) (hadmits : r.Admits key kind ↔ s.Admits key kind) :
    (r.acquire handle key kind).1 = (s.acquire handle key kind).1 ∧
      (r.acquire handle key kind).2.grip? handle = (s.acquire handle key kind).2.grip? handle := by
  have hgots : (s.acquire handle key kind).1 = .acquired ↔ _ := hs.acquire_eq_acquired hgrips
  have hgotr : (r.acquire handle key kind).1 = .acquired ↔ _ := hr.acquire_eq_acquired hgripr
  obtain ⟨gots, hanswers, hafters⟩ := acquire_grip? hgrips key kind
  obtain ⟨gotr, hanswerr, hafterr⟩ := acquire_grip? hgripr key kind
  obtain rfl : gotr = gots := by
    rw [hadmits, ← hgots, hanswers, hanswerr] at hgotr
    cases gotr <;> cases gots <;> simp at hgotr <;> rfl
  constructor
  · rw [hanswers, hanswerr]
  · rw [hafters, hafterr, if_pos rfl, if_pos rfl]

theorem poll_alike (hs : s.Settled) (hr : r.Settled) (hgrips : s.grip? handle = some g)
    (hgripr : r.grip? handle = some g) (hadmits : r.Admits g.key g.kind ↔ s.Admits g.key g.kind) :
    (r.poll handle).1 = (s.poll handle).1 ∧
      (r.poll handle).2.grip? handle = (s.poll handle).2.grip? handle := by
  obtain ⟨key, kind, holds⟩ := g
  cases holds with
  | true =>
    rw [poll_held hgrips, poll_held hgripr]
    exact ⟨rfl, hgripr.trans hgrips.symm⟩
  | false =>
    have hgot : (r.poll handle).1 = .acquired ↔ (s.poll handle).1 = .acquired := by
      rw [hr.poll_eq_acquired hgripr, hs.poll_eq_acquired hgrips]
      exact hadmits
    by_cases hacquired : (s.poll handle).1 = .acquired
    · have hacquiredr := hgot.2 hacquired
      obtain ⟨key, kind, hbefores, hafters⟩ := poll_grip? hacquired
      obtain ⟨key', kind', hbeforer, hafterr⟩ := poll_grip? hacquiredr
      obtain ⟨rfl, rfl, -⟩ := Grip.mk.inj (Option.some.inj (hbefores.symm.trans hgrips))
      obtain ⟨rfl, rfl, -⟩ := Grip.mk.inj (Option.some.inj (hbeforer.symm.trans hgripr))
      constructor
      · rw [hacquired, hacquiredr]
      · rw [hafters, hafterr, if_pos rfl, if_pos rfl]
    · have hnot : (r.poll handle).1 ≠ .acquired := fun h => hacquired (hgot.1 h)
      constructor
      · rw [poll_waiting hgrips hacquired, poll_waiting hgripr hnot]
      · rw [poll_grip?_of_ne hacquired, poll_grip?_of_ne hnot, hgrips, hgripr]

theorem drop_alike (hs : s.Sound) (hr : r.Sound) (hgrips : s.grip? handle = some g)
    (hgripr : r.grip? handle = some g) : (r.drop handle).1 = (s.drop handle).1 := by
  obtain ⟨key, kind, holds⟩ := g
  cases holds with
  | true => rw [hs.drop_holding hgrips, hr.drop_holding hgripr]
  | false => rw [drop_waiting hgrips, drop_waiting hgripr]

theorem step_alike (hs : s.Settled) (hr : r.Settled) (hsame : r.grip? x.handle = s.grip? x.handle)
    (hkey : s.keyOf? x = some key) (hadmits : ∀ kind, r.Admits key kind ↔ s.Admits key kind) :
    (r.step x).1 = (s.step x).1 ∧ (r.step x).2.grip? x.handle = (s.step x).2.grip? x.handle := by
  cases x with
  | acquire handle own kind =>
    have hfree : s.grip? handle = none := by
      rw [grip?_eq_none]
      cases hfind : s.find? handle with
      | none => rfl
      | some a => simp [keyOf?, hfind] at hkey
    obtain rfl : own = key := by simpa [keyOf?, grip?_eq_none.1 hfree] using hkey
    exact acquire_alike hs.sound hr.sound hfree (hsame.trans hfree) (hadmits kind)
  | poll handle =>
    obtain ⟨a, hfind, rfl⟩ := Option.map_eq_some_iff.1 hkey
    have hgrip : s.grip? handle = some a.grip := congrArg (Option.map Acquire.grip) hfind
    exact poll_alike hs hr hgrip (hsame.trans hgrip) (hadmits a.kind)
  | drop handle =>
    obtain ⟨a, hfind, rfl⟩ := Option.map_eq_some_iff.1 hkey
    have hgrip : s.grip? handle = some a.grip := congrArg (Option.map Acquire.grip) hfind
    constructor
    · exact drop_alike hs.sound hr.sound hgrip (hsame.trans hgrip)
    · simp only [Session.step, drop_grip?, Step.handle, if_pos]

/-! ### What is left of a session -/

/-- A step that reaches no acquire changes nothing. -/
theorem step_of_keyOf?_none (hkey : s.keyOf? x = none) : (s.step x).2 = s := by
  cases x with
  | acquire handle own kind =>
    cases hfind : s.find? handle with
    | none => simp [keyOf?, hfind] at hkey
    | some a => simp [Session.step, acquire, hfind]
  | poll handle =>
    have hfind : s.find? handle = none := Option.map_eq_none_iff.1 hkey
    simp [Session.step, poll, hfind]
  | drop handle =>
    have hfind : s.find? handle = none := Option.map_eq_none_iff.1 hkey
    simp [Session.step, drop, hfind]

theorem isLeft_step {hidden : Nat → Bool} {xs : List Step} (hx : x ≠ .drop j) :
    (s.step x).2.isLeft hidden xs j = s.isLeft hidden (x :: xs) j := by
  rw [isLeft, isLeft, isCancelled, if_neg hx]

theorem grip?_of_keyOf? (hkey : s.keyOf? x = some key) (hg : s.grip? x.handle = some g) :
    g.key = key := by
  obtain ⟨a, hfind, -, -, rfl⟩ := find?_of_grip? hg
  cases x with
  | acquire handle own kind =>
    rw [Step.handle] at hfind
    simp [keyOf?, hfind] at hkey
  | poll handle =>
    rw [Step.handle] at hfind
    simpa [keyOf?, hfind, Acquire.grip] using hkey
  | drop handle =>
    rw [Step.handle] at hfind
    simpa [keyOf?, hfind, Acquire.grip] using hkey

theorem step_grip?_of_keyOf? (hkey : s.keyOf? x = some key)
    (hg : (s.step x).2.grip? x.handle = some g) : g.key = key := by
  cases x with
  | acquire handle own kind =>
    cases hfind : s.grip? handle with
    | some before =>
      obtain ⟨a, hfind, -⟩ := find?_of_grip? hfind
      simp [keyOf?, hfind] at hkey
    | none =>
      obtain rfl : own = key := by simpa [keyOf?, grip?_eq_none.1 hfind] using hkey
      obtain ⟨got, -, hafter⟩ := acquire_grip? hfind own kind
      rw [step, Step.handle, hafter, if_pos rfl] at hg
      cases hg
      rfl
  | poll handle =>
    by_cases hgot : (s.poll handle).1 = .acquired
    · obtain ⟨own, kind, hbefore, hafter⟩ := poll_grip? hgot
      have hown := grip?_of_keyOf? hkey hbefore
      rw [step, Step.handle, hafter, if_pos rfl] at hg
      cases hg
      exact hown
    · rw [step, Step.handle, poll_grip?_of_ne hgot] at hg
      exact grip?_of_keyOf? hkey hg
  | drop handle =>
    rw [step, Step.handle, drop_grip?, if_pos rfl] at hg
    cases hg

/-- Who holds its key is released in the end, not cancelled. -/
theorem Sound.isCancelled_of_holds (h : s.Sound) (hg : s.grip? j = some ⟨key, kind, true⟩)
    (steps : List Step) : s.isCancelled j steps = false := by
  induction steps generalizing s with
  | nil => rfl
  | cons x xs ih =>
    rw [isCancelled]
    split
    · rename_i hx
      subst hx
      rw [Session.step, h.drop_holding hg]
      rfl
    · rename_i hx
      apply ih (h.step x)
      by_cases hj : j = x.handle
      · subst hj
        cases x with
        | acquire handle own kind =>
          have hbusy := acquire_busy (s := s) hg own kind
          exact (congrArg (·.2.grip? handle) hbusy).trans hg
        | poll handle => exact (congrArg (·.2.grip? handle) (poll_held hg)).trans hg
        | drop handle => exact absurd rfl hx
      · rw [step_grip?_of_ne s hj]
        exact hg

/-- `r` has of the acquires of `s` those that are left of the key. -/
structure Excerpts (key : String) (hidden : Nat → Bool) (steps : List Step) (s r : Session) :
    Prop where
  whole : s.Settled
  part : r.Settled
  grips : ∀ j g, r.grip? j = some g ↔
    s.grip? j = some g ∧ g.key = key ∧ s.isLeft hidden steps j = true

namespace Excerpts

variable {hidden : Nat → Bool} {steps xs : List Step}

theorem admits_iff (h : Excerpts key hidden steps s r) (kind : Kind) :
    r.Admits key kind ↔ s.Admits key kind := by
  constructor
  · intro hadmits
    apply hadmits.of_holders
    intro j other hg
    refine (h.grips j _).2 ⟨hg, rfl, ?_⟩
    simp [isLeft, h.whole.sound.isCancelled_of_holds hg]
  · intro hadmits
    apply hadmits.of_holders
    intro j other hg
    exact ((h.grips j _).1 hg).1

/-- A step that is left is answered as in the whole run, and the others leave no trace. -/
theorem step (h : Excerpts key hidden (x :: xs) s r) :
    if s.keyOf? x = some key ∧ s.isLeft hidden (x :: xs) x.handle then
      (r.step x).1 = (s.step x).1 ∧ Excerpts key hidden xs (s.step x).2 (r.step x).2
    else Excerpts key hidden xs (s.step x).2 r := by
  have hothers : ∀ j, j ≠ x.handle → ∀ g, r.grip? j = some g ↔
      (s.step x).2.grip? j = some g ∧ g.key = key ∧ (s.step x).2.isLeft hidden xs j = true := by
    intro j hj g
    have hx : x ≠ .drop j := by
      rintro rfl
      exact hj rfl
    rw [h.grips, step_grip?_of_ne s hj, isLeft_step hx]
  have hleft : ∀ g, (s.step x).2.grip? x.handle = some g →
      (s.step x).2.isLeft hidden xs x.handle = s.isLeft hidden (x :: xs) x.handle := by
    intro g hg
    apply isLeft_step
    intro hx
    rw [hx, Session.step, drop_grip?, Step.handle, if_pos rfl] at hg
    cases hg
  split
  · rename_i hkept
    obtain ⟨hkey, hstays⟩ := hkept
    have hsame : r.grip? x.handle = s.grip? x.handle := by
      ext g
      rw [h.grips]
      constructor
      · rintro ⟨hg, -⟩
        exact hg
      · intro hg
        exact ⟨hg, grip?_of_keyOf? hkey hg, hstays⟩
    obtain ⟨hanswer, hafter⟩ := step_alike h.whole h.part hsame hkey h.admits_iff
    refine ⟨hanswer, h.whole.step x, h.part.step x, fun j g => ?_⟩
    by_cases hj : j = x.handle
    · subst hj
      rw [hafter]
      constructor
      · intro hg
        exact ⟨hg, step_grip?_of_keyOf? hkey hg, (hleft g hg).trans hstays⟩
      · rintro ⟨hg, -⟩
        exact hg
    · rw [step_grip?_of_ne r hj]
      exact hothers j hj g
  · rename_i hgone
    refine ⟨h.whole.step x, h.part, fun j g => ?_⟩
    by_cases hj : j = x.handle
    · subst hj
      rw [h.grips]
      cases hkey : s.keyOf? x with
      | none =>
        have hsame := step_of_keyOf?_none hkey
        constructor
        · rintro ⟨hg, hown, hstays⟩
          have hafter : (s.step x).2.grip? x.handle = some g := hsame.symm ▸ hg
          exact ⟨hafter, hown, (hleft g hafter).trans hstays⟩
        · rintro ⟨hafter, hown, hstays⟩
          rw [hleft g hafter] at hstays
          exact ⟨hsame ▸ hafter, hown, hstays⟩
      | some own =>
        -- The acquire is of another key, or it is taken out: it is not in `r`, before or after.
        constructor
        · rintro ⟨hg, rfl, hstays⟩
          rw [grip?_of_keyOf? hkey hg] at hgone
          exact absurd ⟨hkey, hstays⟩ hgone
        · rintro ⟨hg, rfl, hstays⟩
          rw [step_grip?_of_keyOf? hkey hg] at hgone
          rw [hleft g hg] at hstays
          exact absurd ⟨hkey, hstays⟩ hgone
    · exact hothers j hj g

end Excerpts

/-- A run is answered alike without the steps on other keys and without those of acquires that are
cancelled, however often the pool is rotated. -/
theorem run_excerpt (frequency other : UInt32) (key : String) (hidden : Nat → Bool)
    (steps : List Step) :
    ((withGcFrequency frequency).excerpt key hidden steps).Sublist
        (steps.zip ((withGcFrequency frequency).run steps).1) ∧
      ((withGcFrequency other).run
          (((withGcFrequency frequency).excerpt key hidden steps).map Prod.fst)).1 =
        ((withGcFrequency frequency).excerpt key hidden steps).map Prod.snd := by
  refine ⟨excerpt_sublist _ _ _ _, ?_⟩
  have hstart : Excerpts key hidden steps (withGcFrequency frequency) (withGcFrequency other) :=
    ⟨settled_withGcFrequency frequency, settled_withGcFrequency other, fun j g => by
      simp [grip?, find?, withGcFrequency]⟩
  generalize withGcFrequency frequency = s at hstart ⊢
  generalize withGcFrequency other = r at hstart ⊢
  induction steps generalizing s r with
  | nil => rfl
  | cons x xs ih =>
    have hstep := hstart.step
    simp only [excerpt]
    split at hstep
    · rename_i hkept
      rw [if_pos hkept]
      simp only [List.map_cons, run, hstep.1, ih _ _ hstep.2]
    · rename_i hgone
      rw [if_neg hgone]
      exact ih _ _ hstep

/-- A writer is followed by a waiter that is woken and gives up, while another key is in use. -/
example : (withGcFrequency 1).excerpt "k" (fun _ => true)
    [.acquire 0 "k" .write, .acquire 1 "k" .read, .acquire 2 "j" .read, .drop 0, .drop 1,
      .acquire 3 "k" .write] =
    [(.acquire 0 "k" .write, .acquired), (.drop 0, .released),
      (.acquire 3 "k" .write, .acquired)] := by
  decide +kernel

end Session

end StatusStore.Lock
