/-
  StatusStore/Proofs/Lock/Reachable.lean
  ======================================
  **What a run of acquires, polls and drops keeps up.**  `Moves` lists what a
  step can do, each time with the one acquire that it concerns in front of the
  others.  A session is `Sound` when no handle is in use twice, no two slots are
  mixed up, and the books of its table are right.

  Main statements: `Session.Sound.moves` (a step of a sound session does one of
  the things listed, none of which is a fault) and `Session.run_sound` (every run
  from an empty table ends in a sound session).
-/
import StatusStore.Proofs.Lock.Broadcast

namespace StatusStore.Lock

/-! ### The acquire under a handle -/

/-- What the acquire in progress under a handle leaves when it goes, and that it can be put
first. -/
theorem Session.perm_of_find? {s : Session} {handle : Nat} {a : Acquire}
    (hnodup : (s.acquires.map Acquire.handle).Nodup) (hfind : s.find? handle = some a) :
    a.handle = handle ∧ s.acquires.Perm (a :: (s.remove handle).acquires) ∧
      ∀ standing, (s.restand handle standing).acquires.Perm
        ({ a with standing } :: (s.remove handle).acquires) := by
  obtain ⟨hhandle, before, after, hsplit, hbefore⟩ := List.find?_eq_some_iff_append.1 hfind
  obtain rfl : a.handle = handle := by simpa using hhandle
  have hneb : ∀ b ∈ before, b.handle ≠ a.handle := by
    intro b hb
    simpa using hbefore b hb
  have hnea : ∀ b ∈ after, b.handle ≠ a.handle := by
    rw [hsplit, List.map_append, List.map_cons] at hnodup
    have htail := (List.nodup_append.1 hnodup).2.1
    intro b hb hsame
    exact (List.nodup_cons.1 htail).1 (List.mem_map.2 ⟨b, hb, hsame⟩)
  have hremove : (s.remove a.handle).acquires = before ++ after := by
    have hkeep : ∀ bs : List Acquire, (∀ b ∈ bs, b.handle ≠ a.handle) →
        bs.filter (·.handle ≠ a.handle) = bs := by
      intro bs hbs
      exact List.filter_eq_self.2 fun b hb => by simpa using hbs b hb
    simp only [remove, hsplit, List.filter_append]
    rw [List.filter_cons_of_neg (by simp), hkeep before hneb, hkeep after hnea]
  refine ⟨rfl, ?_, fun standing => ?_⟩
  · rw [hremove, hsplit]
    exact List.perm_middle
  · have hkeep : ∀ bs : List Acquire, (∀ b ∈ bs, b.handle ≠ a.handle) →
        bs.map (fun b => if b.handle = a.handle then { b with standing } else b) = bs := by
      intro bs hbs
      exact List.map_congr_left (fun b hb => if_neg (hbs b hb)) |>.trans (List.map_id bs)
    rw [hremove]
    simp only [restand, hsplit, List.map_append, List.map_cons, if_pos]
    rw [hkeep before hneb, hkeep after hnea]
    exact List.perm_middle

/-! ### What a step can do -/

def Attempt.answer : Attempt → Answer
  | .granted => .acquired
  | .registered _ _ => .pending

inductive Moves (s : Session) : Step → Answer → Session → Prop
  | busy {handle : Nat} {key : String} {kind : Kind} {a : Acquire} :
      s.find? handle = some a → Moves s (.acquire handle key kind) .busy s
  | gone {x : Step} {handle : Nat} : x = .poll handle ∨ x = .drop handle →
      s.find? handle = none → Moves s x .gone s
  | held {a : Acquire} : a ∈ s.acquires → a.standing = .holding →
      Moves s (.poll a.handle) .held s
  | asleep {a : Acquire} {ticket channel : Nat} : a ∈ s.acquires →
      a.standing = .waiting ticket channel false → Moves s (.poll a.handle) .pending s
  /-- A new acquire makes its first attempt. -/
  | entered {handle : Nat} {key : String} {kind : Kind} {u : Session} :
      s.find? handle = none →
      u.table = (s.table.attempt key kind).2 →
      u.acquires.Perm (⟨handle, key, kind, (s.table.attempt key kind).1.standing⟩ :: s.acquires) →
      Moves s (.acquire handle key kind) (s.table.attempt key kind).1.answer u
  /-- A woken waiter makes another attempt. -/
  | retried {a : Acquire} {rest : List Acquire} {ticket channel : Nat} {u : Session} :
      a.standing = .waiting ticket channel true → s.acquires.Perm (a :: rest) →
      u.table = (s.table.attempt a.key a.kind).2 →
      u.acquires.Perm ({ a with standing := (s.table.attempt a.key a.kind).1.standing } :: rest) →
      Moves s (.poll a.handle) (s.table.attempt a.key a.kind).1.answer u
  /-- A waiter gives up. -/
  | withdrawn {a : Acquire} {rest : List Acquire} {ticket channel : Nat} {woken : Bool}
      {u : Session} :
      a.standing = .waiting ticket channel woken → s.acquires.Perm (a :: rest) →
      u.table = s.table.withdraw a.key ticket → u.acquires = rest →
      Moves s (.drop a.handle) .cancelled u
  /-- A guard goes. -/
  | released {a : Acquire} {rest : List Acquire} {u : Session} {broadcast : Option Nat} :
      a.standing = .holding → s.acquires.Perm (a :: rest) →
      s.table.release a.key = .ok ⟨u.table, broadcast⟩ → u.acquires = hearing broadcast rest →
      Moves s (.drop a.handle) .released u

/-! ### Sound sessions -/

/-- The invariant of every run. -/
structure Session.Sound (s : Session) : Prop where
  handles : (s.acquires.map Acquire.handle).Nodup
  table : s.table.Sound
  accounted : Accounted s.table s.acquires
  attended : Attended s.table s.acquires

namespace Session

variable {s u : Session} {x : Step} {answer : Answer}

theorem sound_withGcFrequency (frequency : UInt32) : (withGcFrequency frequency).Sound where
  handles := List.nodup_nil
  table := Table.sound_withGcFrequency frequency
  accounted :=
    { holds := fun _ => ⟨rfl, rfl⟩
      waiters := fun hslot => by cases hslot
      asleep := fun ha => by cases ha
      awake := fun ha => by cases ha }
  attended := fun hslot => by cases hslot

theorem acquire_moves (s : Session) (handle : Nat) (key : String) (kind : Kind) :
    Moves s (.acquire handle key kind) (s.acquire handle key kind).1
      (s.acquire handle key kind).2 := by
  unfold acquire
  split
  · rename_i a hfind
    exact .busy hfind
  · rename_i hfind
    have hentered : ∀ u : Session, u.table = (s.table.attempt key kind).2 → u.acquires.Perm _ →
        Moves s (.acquire handle key kind) (s.table.attempt key kind).1.answer u :=
      fun u => Moves.entered hfind
    generalize s.table.attempt key kind = attempted at hentered ⊢
    obtain ⟨attempt, table⟩ := attempted
    cases attempt with
    | granted => exact hentered _ rfl (List.perm_append_singleton _ _)
    | registered ticket channel => exact hentered _ rfl (List.perm_append_singleton _ _)

theorem Sound.poll_moves (h : s.Sound) (handle : Nat) :
    Moves s (.poll handle) (s.poll handle).1 (s.poll handle).2 := by
  unfold poll
  split
  · rename_i hfind
    exact .gone (Or.inl rfl) hfind
  · rename_i a hfind
    obtain ⟨rfl, hperm, hrestand⟩ := perm_of_find? h.handles hfind
    have hmem : a ∈ s.acquires := hperm.mem_iff.2 List.mem_cons_self
    split
    · rename_i hstanding
      exact .held hmem hstanding
    · rename_i hstanding
      exact .asleep hmem hstanding
    · rename_i hstanding
      have hretried := fun u => Moves.retried (u := u) hstanding hperm
      generalize s.table.attempt a.key a.kind = attempted at hretried ⊢
      obtain ⟨attempt, table⟩ := attempted
      cases attempt with
      | granted => exact hretried _ rfl (hrestand _)
      | registered ticket channel => exact hretried _ rfl (hrestand _)

theorem Sound.drop_moves (h : s.Sound) (handle : Nat) :
    Moves s (.drop handle) (s.drop handle).1 (s.drop handle).2 := by
  unfold drop
  split
  · rename_i hfind
    exact .gone (Or.inr rfl) hfind
  · rename_i a hfind
    obtain ⟨rfl, hperm, -⟩ := perm_of_find? h.handles hfind
    split
    · rename_i hstanding
      exact .withdrawn hstanding hperm rfl rfl
    · rename_i hstanding
      obtain ⟨table, broadcast, hrelease, -⟩ :=
        release_accounted h.table (h.accounted.perm hperm) hstanding
      rw [hrelease]
      cases broadcast with
      | none => exact .released hstanding hperm hrelease rfl
      | some channel => exact .released hstanding hperm hrelease rfl

theorem Sound.moves (h : s.Sound) (x : Step) : Moves s x (s.step x).1 (s.step x).2 := by
  cases x with
  | acquire handle key kind => exact s.acquire_moves handle key kind
  | poll handle => exact h.poll_moves handle
  | drop handle => exact h.drop_moves handle

end Session

theorem handles_hearing (broadcast : Option Nat) (as : List Acquire) :
    (hearing broadcast as).map Acquire.handle = as.map Acquire.handle := by
  cases broadcast with
  | none => rfl
  | some channel => simp [hearing, Function.comp_def]

namespace Session

variable {s u : Session} {x : Step} {answer : Answer}

theorem Sound.of_moves (h : s.Sound) (hmoves : Moves s x answer u) : u.Sound := by
  cases hmoves with
  | busy => exact h
  | gone => exact h
  | held => exact h
  | asleep => exact h
  | @entered handle key kind _ hfind htable hperm =>
    have hfresh : handle ∉ s.acquires.map Acquire.handle := by
      rw [List.mem_map]
      rintro ⟨a, ha, rfl⟩
      exact List.find?_eq_none.1 hfind a ha (by simp)
    constructor
    case handles =>
      rw [(hperm.map Acquire.handle).nodup_iff]
      exact List.nodup_cons.2 ⟨hfresh, h.handles⟩
    case table => exact htable ▸ h.table.attempt key kind
    case accounted =>
      exact htable ▸ (attempt_accounted h.table h.accounted handle key kind).perm hperm.symm
    case attended =>
      refine htable ▸ attempt_attended h.table h.attended ?_
      intro b hb _
      exact hperm.mem_iff.2 (List.mem_cons_of_mem _ hb)
  | @retried a rest ticket channel _ hstanding hbefore htable hperm =>
    have haccounted := (h.accounted.perm hbefore).dismiss hstanding
    constructor
    case handles =>
      rw [(hperm.map Acquire.handle).nodup_iff]
      exact (hbefore.map Acquire.handle).nodup_iff.1 h.handles
    case table => exact htable ▸ h.table.attempt a.key a.kind
    case accounted =>
      exact htable ▸ (attempt_accounted h.table haccounted a.handle a.key a.kind).perm hperm.symm
    case attended =>
      refine htable ▸ attempt_attended h.table (Attended.perm h.attended hbefore) ?_
      intro b hb hother
      rcases List.mem_cons.1 hb with rfl | hb
      · exact absurd rfl hother
      · exact hperm.mem_iff.2 (List.mem_cons_of_mem _ hb)
  | @withdrawn a rest ticket channel woken _ hstanding hbefore htable hrest =>
    have haccounted := h.accounted.perm hbefore
    constructor
    case handles =>
      rw [hrest]
      exact (List.nodup_cons.1 ((hbefore.map Acquire.handle).nodup_iff.1 h.handles)).2
    case table => exact htable ▸ h.table.withdraw a.key ticket
    case accounted =>
      rw [htable, hrest]
      exact withdraw_accounted h.table haccounted hstanding
    case attended =>
      rw [htable, hrest]
      exact withdraw_attended h.table haccounted (Attended.perm h.attended hbefore) hstanding
  | @released a rest _ broadcast hstanding hbefore hrelease hrest =>
    have haccounted := h.accounted.perm hbefore
    obtain ⟨table, heard, hrelease', hsound, hafter⟩ :=
      release_accounted h.table haccounted hstanding
    obtain ⟨rfl, rfl⟩ : table = u.table ∧ heard = broadcast := by
      simpa [hrelease'] using hrelease
    constructor
    case handles =>
      rw [hrest, handles_hearing]
      exact (List.nodup_cons.1 ((hbefore.map Acquire.handle).nodup_iff.1 h.handles)).2
    case table => exact hsound
    case accounted => exact hrest ▸ hafter
    case attended =>
      rw [hrest]
      exact release_attended h.table haccounted (Attended.perm h.attended hbefore) hstanding hrelease

theorem Sound.step (h : s.Sound) (x : Step) : (s.step x).2.Sound := h.of_moves (h.moves x)

theorem Sound.run (h : s.Sound) (steps : List Step) : (s.run steps).2.Sound := by
  induction steps generalizing s with
  | nil => exact h
  | cons x xs ih => exact ih (h.step x)

/-- A run keeps what every step of a sound session keeps. -/
theorem Sound.run_keeps {P : Session → Prop}
    (hstep : ∀ {s : Session}, s.Sound → P s → ∀ x, P (s.step x).2)
    (h : s.Sound) (hs : P s) (steps : List Step) : P (s.run steps).2 := by
  induction steps generalizing s with
  | nil => exact hs
  | cons x xs ih => exact ih (h.step x) (hstep h hs x)

/-- Every run from an empty table ends in a sound session. -/
theorem run_sound (frequency : UInt32) (steps : List Step) :
    ((withGcFrequency frequency).run steps).2.Sound :=
  (sound_withGcFrequency frequency).run steps

end Session

end StatusStore.Lock
