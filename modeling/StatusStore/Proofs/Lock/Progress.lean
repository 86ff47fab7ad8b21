/-
  StatusStore/Proofs/Lock/Progress.lean
  =====================================
  **Nobody waits forever.**  Whoever sleeps does so on a key that somebody holds,
  and the last guard of a key wakes all who wait for it.  So when no new acquires
  come, the pending ones are polled again and the guards dropped, every acquire
  gets its lock or gives up, and the table runs empty.

  The argument counts the work that is left: two for an acquire that waits and
  one for a guard.  Each step either leaves every acquire as it stands or lessens
  the work, and in a fair schedule a step of the second kind always comes.

  Main statement: `Session.run_progress`.
-/
import StatusStore.Proofs.Lock.Reachable

namespace StatusStore.Lock

theorem Table.Sound.attempt_granted {t : Table} {key : String} (h : t.Sound)
    (hfree : t.holdOf key = .free) (kind : Kind) : (t.attempt key kind).1 = .granted := by
  obtain ⟨u, slot, hstands, hattempt⟩ := h.attempt_at key kind
  rcases hattempt with ⟨hold, -, hattempt⟩ | ⟨hnone, -⟩
  · rw [hattempt]
  · exact absurd (hstands.hold.trans hfree) (Hold.enter?_none hnone)

namespace Session

variable {s u : Session}

/-! ### Who can go on -/

theorem Sound.exists_guard {key : String} (h : s.Sound) (hheld : s.table.holdOf key ≠ .free) :
    ∃ a ∈ s.acquires, a.isHolding = true ∧ a.key = key := by
  have hsome : ∃ kind, 0 < guards s.acquires key kind := by
    have hfree := (h.accounted.holds key).free_iff
    by_cases hread : guards s.acquires key .read = 0
    · exact ⟨.write, Nat.pos_of_ne_zero fun hwrite => hheld (hfree.2 ⟨hread, hwrite⟩)⟩
    · exact ⟨.read, Nat.pos_of_ne_zero hread⟩
  obtain ⟨kind, hpos⟩ := hsome
  obtain ⟨a, ha, hguards⟩ := List.countP_pos_iff.1 hpos
  simp only [Acquire.guards, Bool.and_eq_true, decide_eq_true_eq] at hguards
  exact ⟨a, ha, hguards.1.1, hguards.1.2⟩

/-- Whoever waits without having been woken waits for a guard. -/
theorem Sound.guard_of_asleep {a : Acquire} (h : s.Sound) (ha : a ∈ s.acquires)
    (hasleep : a.isAsleep = true) : ∃ b ∈ s.acquires, b.isHolding = true ∧ b.key = a.key := by
  have hsleeps : a.sleepsOn a.key = true := by simp [Acquire.sleepsOn, hasleep]
  obtain ⟨slot, hslot, hheld, -⟩ := h.accounted.slot_of_sleepsOn ha hsleeps
  exact h.exists_guard (Table.holdOf_of_get? hslot ▸ hheld)

theorem Sound.find?_of_mem {a : Acquire} (h : s.Sound) (ha : a ∈ s.acquires) :
    s.find? a.handle = some a := by
  cases hfind : s.find? a.handle with
  | none => exact absurd (by simp) (List.find?_eq_none.1 hfind a ha)
  | some b =>
    obtain ⟨-, hperm, -⟩ := perm_of_find? h.handles hfind
    rcases List.mem_cons.1 (hperm.mem_iff.1 ha) with hsame | hrest
    · rw [hsame]
    · simp [remove] at hrest

/-- Whoever waits for a key without guards has been woken, and gets the key when polled. -/
theorem Sound.poll_acquired {a : Acquire} (h : s.Sound) (ha : a ∈ s.acquires)
    (hwaiting : a.isWaiting = true)
    (hfree : ∀ b ∈ s.acquires, b.isHolding = true → b.key ≠ a.key) :
    a.isAwake = true ∧ (s.poll a.handle).1 = .acquired := by
  have hhold : s.table.holdOf a.key = .free := by
    by_cases hheld : s.table.holdOf a.key = .free
    · exact hheld
    · obtain ⟨b, hb, hholding, hkey⟩ := h.exists_guard hheld
      exact absurd hkey (hfree b hb hholding)
  cases hstanding : a.standing with
  | holding => simp [Acquire.isWaiting, Acquire.isHolding, hstanding] at hwaiting
  | waiting ticket channel woken =>
    cases woken with
    | false =>
      obtain ⟨b, hb, hholding, hkey⟩ := h.guard_of_asleep ha (by simp [Acquire.isAsleep, hstanding])
      exact absurd hkey (hfree b hb hholding)
    | true =>
      refine ⟨by simp [Acquire.isAwake, hstanding], ?_⟩
      have hgranted := h.table.attempt_granted hhold a.kind
      simp only [poll, h.find?_of_mem ha, hstanding]
      generalize s.table.attempt a.key a.kind = attempted at hgranted ⊢
      obtain ⟨attempt, table⟩ := attempted
      obtain rfl : attempt = .granted := hgranted
      rfl

theorem Sound.isEmpty_of_done (h : s.Sound) (hdone : s.acquires = []) :
    s.table.isEmpty = true := by
  apply (KeyMap.isEmpty_iff s.table.slots).2
  intro key
  cases hslot : s.table.slots.get? key with
  | none => rfl
  | some slot =>
    have hnobody : ∀ {p : Acquire → Prop}, ¬ ∃ a ∈ s.acquires, p a := by
      rintro p ⟨a, ha, -⟩
      rw [hdone] at ha
      cases ha
    by_cases hhold : slot.hold = .free
    · exact absurd (h.attended hslot hhold) hnobody
    · rw [← Table.holdOf_of_get? hslot] at hhold
      exact absurd (h.exists_guard hhold) hnobody

end Session

/-! ### The work that is left -/

/-- Whether an answer tells that an acquire has got on. -/
def Answer.settles : Answer → Bool
  | .acquired | .released | .cancelled => true
  | _ => false

/-- Who is in progress, and whether it holds its key. -/
def roll (as : List Acquire) : List (Nat × Bool) := as.map fun a => (a.handle, a.isHolding)

/-- One step for every guard and two for every acquire that waits. -/
def work (as : List Acquire) : Nat := (roll as).length + (roll as).countP (!·.2)

theorem roll_hearing (broadcast : Option Nat) (as : List Acquire) :
    roll (hearing broadcast as) = roll as := by
  cases broadcast with
  | none => rfl
  | some channel =>
    simp only [roll, hearing, List.map_map]
    apply List.map_congr_left
    intro a _
    simp only [Function.comp, Acquire.handle_hear]
    unfold Acquire.hear
    split
    · rename_i hstanding
      simp [Acquire.isHolding, hstanding]
    · rfl

theorem work_eq_of_roll {as bs : List Acquire} (h : (roll as).Perm (roll bs)) :
    work as = work bs := by
  rw [work, h.length_eq, h.countP_eq, work]

theorem work_cons_holding {a : Acquire} (h : a.standing = .holding) (as : List Acquire) :
    work (a :: as) = work as + 1 := by
  simp only [work, roll, List.map_cons, List.length_cons, List.countP_cons, Acquire.isHolding, h]
  simp +arith

theorem work_cons_waiting {a : Acquire} {ticket channel : Nat} {woken : Bool}
    (h : a.standing = .waiting ticket channel woken) (as : List Acquire) :
    work (a :: as) = work as + 2 := by
  simp only [work, roll, List.map_cons, List.length_cons, List.countP_cons, Acquire.isHolding, h]
  simp +arith

namespace Session

variable {s u : Session} {x : Step} {answer : Answer}

/-- A step that starts nothing leaves everyone as they stand, or somebody gets on and there is less
to do. -/
theorem less_of_moves (h : Moves s x answer u)
    (hstart : ∀ handle key kind, x ≠ .acquire handle key kind) :
    (answer.settles = false ∧ (roll u.acquires).Perm (roll s.acquires)) ∨
      (answer.settles = true ∧ work u.acquires < work s.acquires) := by
  have hroll : ∀ {as bs : List Acquire}, as.Perm bs → (roll as).Perm (roll bs) := fun p => p.map _
  cases h with
  | busy => exact absurd rfl (hstart _ _ _)
  | entered => exact absurd rfl (hstart _ _ _)
  | gone => exact Or.inl ⟨rfl, List.Perm.refl _⟩
  | held => exact Or.inl ⟨rfl, List.Perm.refl _⟩
  | asleep => exact Or.inl ⟨rfl, List.Perm.refl _⟩
  | @retried a rest ticket channel _ hstanding hbefore htable hafter =>
    cases hattempt : (s.table.attempt a.key a.kind).1 with
    | granted =>
      rw [hattempt] at hafter
      refine Or.inr ⟨rfl, ?_⟩
      rw [work_eq_of_roll (hroll hbefore), work_eq_of_roll (hroll hafter),
        work_cons_waiting hstanding, work_cons_holding rfl]
      exact Nat.lt_succ_self _
    | registered ticket channel =>
      rw [hattempt] at hafter
      have hsame : roll ({ a with standing := .waiting ticket channel false } :: rest) =
          roll (a :: rest) := by
        simp [roll, Acquire.isHolding, hstanding]
      exact Or.inl ⟨rfl, (hroll hafter).trans (hsame ▸ (hroll hbefore).symm)⟩
  | withdrawn hstanding hbefore htable hrest =>
    refine Or.inr ⟨rfl, ?_⟩
    rw [hrest, work_eq_of_roll (hroll hbefore), work_cons_waiting hstanding]
    omega
  | released hstanding hbefore hrelease hrest =>
    refine Or.inr ⟨rfl, ?_⟩
    rw [hrest, work_eq_of_roll (hroll hbefore), work_cons_holding hstanding,
      work_eq_of_roll (List.Perm.of_eq (roll_hearing _ _))]
    exact Nat.lt_succ_self _

/-- An acquire ends its wait when it is polled and gets its lock, or when it is dropped. -/
theorem wait_of_moves {handle : Nat} (h : Moves s x answer u)
    (hwaits : (handle, false) ∈ roll s.acquires) :
    (handle, false) ∈ roll u.acquires ∨ (x = .poll handle ∧ answer = .acquired) ∨
      (x = .drop handle ∧ answer = .cancelled) := by
  have hroll : ∀ {as bs : List Acquire}, as.Perm bs →
      ((handle, false) ∈ roll as ↔ (handle, false) ∈ roll bs) := fun p => (p.map _).mem_iff
  cases h with
  | busy => exact Or.inl hwaits
  | gone => exact Or.inl hwaits
  | held => exact Or.inl hwaits
  | asleep => exact Or.inl hwaits
  | entered hfind htable hafter => exact Or.inl ((hroll hafter).2 (List.mem_cons_of_mem _ hwaits))
  | @retried a rest ticket channel _ hstanding hbefore htable hafter =>
    rcases List.mem_cons.1 ((hroll hbefore).1 hwaits) with hself | hrest
    · obtain ⟨rfl, -⟩ := Prod.mk.inj hself
      cases hattempt : (s.table.attempt a.key a.kind).1 with
      | granted => exact Or.inr (Or.inl ⟨rfl, rfl⟩)
      | registered ticket channel =>
        rw [hattempt] at hafter
        exact Or.inl ((hroll hafter).2 List.mem_cons_self)
    · exact Or.inl ((hroll hafter).2 (List.mem_cons_of_mem _ hrest))
  | withdrawn hstanding hbefore htable hrest =>
    rcases List.mem_cons.1 ((hroll hbefore).1 hwaits) with hself | hrest'
    · obtain ⟨rfl, -⟩ := Prod.mk.inj hself
      exact Or.inr (Or.inr ⟨rfl, rfl⟩)
    · exact Or.inl (hrest ▸ hrest')
  | released hstanding hbefore hrelease hrest =>
    rcases List.mem_cons.1 ((hroll hbefore).1 hwaits) with hself | hrest'
    · have hholding := (Prod.mk.inj hself).2
      simp [Acquire.isHolding, hstanding] at hholding
    · rw [hrest, roll_hearing]
      exact Or.inl hrest'

theorem Sound.drop_settles {a : Acquire} (h : s.Sound) (ha : a ∈ s.acquires) :
    (s.drop a.handle).1.settles = true := by
  have hmoves := h.drop_moves a.handle
  generalize s.drop a.handle = dropped at hmoves ⊢
  obtain ⟨answer, u⟩ := dropped
  have hfind := h.find?_of_mem ha
  generalize hstep : Step.drop a.handle = x at hmoves
  cases hmoves with
  | gone heither hnone =>
    rw [← hstep] at heither
    obtain rfl : a.handle = _ := by simpa using heither
    rw [hfind] at hnone
    cases hnone
  | withdrawn => rfl
  | released => rfl
  | _ => cases hstep

/-! ### Endless schedules -/

def stateAt (s : Session) (schedule : Nat → Step) : Nat → Session
  | 0 => s
  | n + 1 => ((s.stateAt schedule n).step (schedule n)).2

def answerAt (s : Session) (schedule : Nat → Step) (n : Nat) : Answer :=
  ((s.stateAt schedule n).step (schedule n)).1

/-- A schedule that starts nothing, and in which whoever waits is polled again or dropped, and every
guard is dropped, sooner or later and in any order. -/
structure Fair (s : Session) (schedule : Nat → Step) : Prop where
  settling : ∀ n handle key kind, schedule n ≠ .acquire handle key kind
  waiters : ∀ n, ∀ a ∈ (s.stateAt schedule n).acquires, a.isWaiting = true →
    ∃ m, n ≤ m ∧ (schedule m = .poll a.handle ∨ schedule m = .drop a.handle)
  guards : ∀ n, ∀ a ∈ (s.stateAt schedule n).acquires, a.isHolding = true →
    ∃ m, n ≤ m ∧ schedule m = .drop a.handle

variable {schedule : Nat → Step}

theorem Sound.stateAt (h : s.Sound) (schedule : Nat → Step) (n : Nat) :
    (s.stateAt schedule n).Sound := by
  induction n with
  | zero => exact h
  | succ n ih => exact ih.step (schedule n)

theorem Sound.less_at (h : s.Sound) (hfair : s.Fair schedule) (n : Nat) :
    ((s.answerAt schedule n).settles = false ∧
      (roll (s.stateAt schedule (n + 1)).acquires).Perm (roll (s.stateAt schedule n).acquires)) ∨
    ((s.answerAt schedule n).settles = true ∧
      work (s.stateAt schedule (n + 1)).acquires < work (s.stateAt schedule n).acquires) :=
  less_of_moves ((h.stateAt schedule n).moves (schedule n)) (hfair.settling n)

/-- Up to any later moment either there is less to do or everyone stands as before. -/
theorem Sound.less_or_same (h : s.Sound) (hfair : s.Fair schedule) {n m : Nat} (hle : n ≤ m) :
    work (s.stateAt schedule m).acquires < work (s.stateAt schedule n).acquires ∨
      (roll (s.stateAt schedule m).acquires).Perm (roll (s.stateAt schedule n).acquires) := by
  induction hle with
  | refl => exact Or.inr (List.Perm.refl _)
  | @step m _ ih =>
    rcases h.less_at hfair m with ⟨-, hsame⟩ | ⟨-, hless⟩
    · rcases ih with hearlier | hperm
      · exact Or.inl (work_eq_of_roll hsame ▸ hearlier)
      · exact Or.inr (hsame.trans hperm)
    · rcases ih with hearlier | hperm
      · exact Or.inl (Nat.lt_trans hless hearlier)
      · exact Or.inl (work_eq_of_roll hperm ▸ hless)

/-- While anybody is in progress, there is less to do at some later moment. -/
theorem Sound.exists_less (h : s.Sound) (hfair : s.Fair schedule) (n : Nat)
    (hsome : (s.stateAt schedule n).acquires ≠ []) :
    ∃ m, work (s.stateAt schedule m).acquires < work (s.stateAt schedule n).acquires := by
  -- It is enough that a step gets on at a moment when everyone still stands as they do now.
  have henough : ∀ m, n ≤ m →
      ((roll (s.stateAt schedule m).acquires).Perm (roll (s.stateAt schedule n).acquires) →
        (s.answerAt schedule m).settles = true) →
      ∃ m, work (s.stateAt schedule m).acquires < work (s.stateAt schedule n).acquires := by
    intro m hle hsettles
    rcases h.less_or_same hfair hle with hless | hsame
    · exact ⟨m, hless⟩
    · rcases h.less_at hfair m with ⟨hidle, -⟩ | ⟨-, hless⟩
      · rw [hsettles hsame] at hidle
        cases hidle
      · exact ⟨m + 1, work_eq_of_roll hsame ▸ hless⟩
  have hstill : ∀ {m : Nat} {a : Acquire}, a ∈ (s.stateAt schedule n).acquires →
      (roll (s.stateAt schedule m).acquires).Perm (roll (s.stateAt schedule n).acquires) →
      ∃ b ∈ (s.stateAt schedule m).acquires, b.handle = a.handle ∧ b.isHolding = a.isHolding := by
    intro m a ha hsame
    have hentry := hsame.mem_iff.2 (List.mem_map_of_mem ha)
    obtain ⟨b, hb, hsame⟩ := List.mem_map.1 hentry
    exact ⟨b, hb, Prod.mk.inj hsame⟩
  have hdrop : ∀ {m : Nat} {a : Acquire}, n ≤ m → a ∈ (s.stateAt schedule n).acquires →
      schedule m = .drop a.handle →
      ∃ m, work (s.stateAt schedule m).acquires < work (s.stateAt schedule n).acquires := by
    intro m a hle ha hdropped
    apply henough m hle
    intro hsame
    obtain ⟨b, hb, hhandle, -⟩ := hstill ha hsame
    simp only [answerAt, hdropped, ← hhandle]
    exact (h.stateAt schedule m).drop_settles hb
  by_cases hguard : ∃ a ∈ (s.stateAt schedule n).acquires, a.isHolding = true
  · obtain ⟨a, ha, hholding⟩ := hguard
    obtain ⟨m, hle, hdropped⟩ := hfair.guards n a ha hholding
    exact hdrop hle ha hdropped
  · obtain ⟨a, ha⟩ := List.exists_mem_of_ne_nil _ hsome
    have hwaiting : a.isHolding = false := by
      cases hholding : a.isHolding with
      | false => rfl
      | true => exact absurd ⟨a, ha, hholding⟩ hguard
    obtain ⟨m, hle, hpolled | hdropped⟩ := hfair.waiters n a ha (by simp [Acquire.isWaiting, hwaiting])
    · apply henough m hle
      intro hsame
      obtain ⟨b, hb, hhandle, hstands⟩ := hstill ha hsame
      have hnobody : ∀ c ∈ (s.stateAt schedule m).acquires, c.isHolding = true → c.key ≠ b.key := by
        intro c hc hholding
        have hentry := hsame.mem_iff.1 (List.mem_map_of_mem hc)
        obtain ⟨d, hd, hsame⟩ := List.mem_map.1 hentry
        exact absurd ⟨d, hd, (Prod.mk.inj hsame).2.trans hholding⟩ hguard
      have hgot := ((h.stateAt schedule m).poll_acquired hb
        (by simp [Acquire.isWaiting, hstands, hwaiting]) hnobody).2
      simp only [answerAt, hpolled, ← hhandle]
      exact congrArg Answer.settles hgot
    · exact hdrop hle ha hdropped

/-- A fair schedule comes to a moment from which on nobody is in progress. -/
theorem Sound.exists_done (h : s.Sound) (hfair : s.Fair schedule) :
    ∃ n, ∀ m, n ≤ m → (s.stateAt schedule m).acquires = [] := by
  have hreach : ∀ left n, work (s.stateAt schedule n).acquires = left →
      ∃ m, (s.stateAt schedule m).acquires = [] := by
    intro left
    induction left using Nat.strongRecOn with
    | ind left ih =>
      intro n hleft
      by_cases hdone : (s.stateAt schedule n).acquires = []
      · exact ⟨n, hdone⟩
      · obtain ⟨m, hless⟩ := h.exists_less hfair n hdone
        exact ih _ (hleft ▸ hless) m rfl
  obtain ⟨n, hdone⟩ := hreach _ 0 rfl
  refine ⟨n, fun m hle => ?_⟩
  rcases h.less_or_same hfair hle with hless | hsame
  · rw [hdone] at hless
    cases hless
  · rw [hdone] at hsame
    exact List.map_eq_nil_iff.1 hsame.eq_nil

/-- Up to any moment an acquire that waited at first still does, or its wait has ended with its lock
or by its being dropped. -/
theorem Sound.wait_ends (h : s.Sound) (schedule : Nat → Step) {handle : Nat}
    (hwaits : (handle, false) ∈ roll s.acquires) (n : Nat) :
    (handle, false) ∈ roll (s.stateAt schedule n).acquires ∨
      ∃ m, (schedule m = .poll handle ∧ s.answerAt schedule m = .acquired) ∨
        (schedule m = .drop handle ∧ s.answerAt schedule m = .cancelled) := by
  induction n with
  | zero => exact Or.inl hwaits
  | succ n ih =>
    rcases ih with hstill | hended
    · rcases wait_of_moves ((h.stateAt schedule n).moves (schedule n)) hstill with hstill | hended
      · exact Or.inl hstill
      · exact Or.inr ⟨n, hended⟩
    · exact Or.inr hended

/-- After any run, whoever waits without having been woken waits for a live guard; whoever waits for
a key without guards has been woken and gets the key when polled; and from there every fair schedule
ends each wait with the lock or a cancellation and leaves nobody in progress and no key in the
table. -/
theorem run_progress (frequency : UInt32) (steps : List Step) :
    (∀ a ∈ ((withGcFrequency frequency).run steps).2.acquires, a.isAsleep = true →
      ∃ b ∈ ((withGcFrequency frequency).run steps).2.acquires,
        b.isHolding = true ∧ b.key = a.key) ∧
    (∀ a ∈ ((withGcFrequency frequency).run steps).2.acquires, a.isWaiting = true →
      (∀ b ∈ ((withGcFrequency frequency).run steps).2.acquires,
        b.isHolding = true → b.key ≠ a.key) →
      a.isAwake = true ∧
        (((withGcFrequency frequency).run steps).2.poll a.handle).1 = .acquired) ∧
    ∀ schedule, ((withGcFrequency frequency).run steps).2.Fair schedule →
      (∀ a ∈ ((withGcFrequency frequency).run steps).2.acquires, a.isWaiting = true →
        ∃ n, (schedule n = .poll a.handle ∧
            ((withGcFrequency frequency).run steps).2.answerAt schedule n = .acquired) ∨
          (schedule n = .drop a.handle ∧
            ((withGcFrequency frequency).run steps).2.answerAt schedule n = .cancelled)) ∧
      ∃ n, ∀ m, n ≤ m →
        (((withGcFrequency frequency).run steps).2.stateAt schedule m).acquires = [] ∧
        (((withGcFrequency frequency).run steps).2.stateAt schedule m).table.isEmpty = true := by
  have h := run_sound frequency steps
  generalize ((withGcFrequency frequency).run steps).2 = s at h ⊢
  refine ⟨fun a ha hasleep => h.guard_of_asleep ha hasleep,
    fun a ha hwaiting hfree => h.poll_acquired ha hwaiting hfree, fun schedule hfair => ?_⟩
  obtain ⟨n, hdone⟩ := h.exists_done hfair
  constructor
  · intro a ha hwaiting
    have hwaits : (a.handle, false) ∈ roll s.acquires :=
      List.mem_map.2 ⟨a, ha, by simpa [Acquire.isWaiting] using hwaiting⟩
    rcases h.wait_ends schedule hwaits n with hstill | hended
    · rw [hdone n (Nat.le_refl n)] at hstill
      cases hstill
    · exact hended
  · refine ⟨n, fun m hle => ⟨hdone m hle, ?_⟩⟩
    exact (h.stateAt schedule m).isEmpty_of_done (hdone m hle)

/-- A writer that has gone, with another one woken. -/
def handover : List Step := [.acquire 0 "k" .write, .acquire 1 "k" .write, .drop 0]

def takeover (n : Nat) : Step := if n = 0 then .poll 1 else .drop 1

theorem takeover_fair : ((withGcFrequency 16).run handover).2.Fair takeover := by
  have hdrop : ∀ n, ∃ m, n ≤ m ∧ takeover m = .drop 1 := fun n => ⟨n + 1, Nat.le_succ n, rfl⟩
  have hhandle : ∀ n, ∀ a ∈ (((withGcFrequency 16).run handover).2.stateAt takeover n).acquires,
      a.handle = 1 := by
    have hgone : ∀ n, (((withGcFrequency 16).run handover).2.stateAt takeover (n + 2)).acquires =
        [] := by
      intro n
      induction n with
      | zero => rfl
      | succ n ih =>
        have hidle : ∀ s : Session, s.acquires = [] → (s.drop 1).2 = s := by
          intro s hdone
          simp [drop, find?, hdone]
        have hnext := hidle _ ih
        exact (congrArg acquires hnext).trans ih
    intro n a ha
    match n with
    | 0 =>
      obtain rfl := List.mem_singleton.1 ha
      rfl
    | 1 =>
      obtain rfl := List.mem_singleton.1 ha
      rfl
    | n + 2 =>
      rw [hgone] at ha
      cases ha
  constructor
  case settling =>
    intro n handle key kind
    unfold takeover
    split <;> exact Step.noConfusion
  case waiters =>
    intro n a ha _
    obtain ⟨m, hle, hdropped⟩ := hdrop n
    exact ⟨m, hle, Or.inr (hhandle n a ha ▸ hdropped)⟩
  case guards =>
    intro n a ha _
    exact hhandle n a ha ▸ hdrop n

theorem run_progress_handover :
    ((withGcFrequency 16).run handover).2.Fair takeover ∧
      ∃ n, ∀ m, n ≤ m →
        (((withGcFrequency 16).run handover).2.stateAt takeover m).acquires = [] ∧
        (((withGcFrequency 16).run handover).2.stateAt takeover m).table.isEmpty = true :=
  ⟨takeover_fair, ((run_progress 16 handover).2.2 takeover takeover_fair).2⟩

end Session

end StatusStore.Lock
