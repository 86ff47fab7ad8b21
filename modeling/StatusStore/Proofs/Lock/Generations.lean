/-
  StatusStore/Proofs/Lock/Generations.lean
  ========================================
  **How long a slot stays idle.**  Releases are counted in 32 bits, and the pool
  is rotated whenever the count is a multiple of the frequency.  When the count
  wraps it comes to zero, which is a multiple of every frequency: the rotation
  comes early then, never late, and `sinceRotation` counts the releases since the
  last rotation across the wrap.

  A slot that is given back outlives one rotation, and so it has been idle for
  less than twice the frequency.  The argument is by induction on the run: slots
  of the current generation were given back since the last rotation, and those of
  the old one since the last but one.

  Main statement: `Session.run_generations`.
-/
import Mathlib.Data.List.Induction
import StatusStore.Proofs.Lock.Turnover

namespace StatusStore.Lock

/-! ### The count of releases -/

namespace Table

def isDue (t : Table) : Bool := (t.releases + 1) % t.gcFrequency = 0

def sinceRotation (t : Table) : Nat := (t.releases % t.gcFrequency).toNat

theorem toNat_gcFrequency_pos (t : Table) : 0 < t.gcFrequency.toNat :=
  UInt32.lt_iff_toNat_lt.1 t.gcFrequency_pos

theorem sinceRotation_lt (t : Table) : t.sinceRotation < t.gcFrequency.toNat := by
  rw [sinceRotation, UInt32.toNat_mod]
  exact Nat.mod_lt _ t.toNat_gcFrequency_pos

/-- A release starts the count anew or adds one to it, although the counter wraps. -/
theorem sinceRotation_countRelease (t : Table) :
    t.countRelease.sinceRotation = if t.isDue then 0 else t.sinceRotation + 1 := by
  have hafter : t.countRelease.sinceRotation =
      (t.releases.toNat + 1) % 4294967296 % t.gcFrequency.toNat := by
    simp [sinceRotation, countRelease, UInt32.toNat_mod, UInt32.toNat_add]
  have hdue : t.isDue = true ↔ (t.releases.toNat + 1) % 4294967296 % t.gcFrequency.toNat = 0 := by
    simp [isDue, ← UInt32.toNat_inj, UInt32.toNat_mod, UInt32.toNat_add]
  rw [hafter]
  split
  · rename_i hrotates
    exact hdue.1 hrotates
  · rename_i hstays
    rw [hdue] at hstays
    have hpos := t.toNat_gcFrequency_pos
    have hbound : t.releases.toNat < 4294967296 := t.releases.toNat_lt
    -- The counter does not wrap here: zero is a multiple of the frequency.
    have hnowrap : t.releases.toNat + 1 < 4294967296 := by
      refine Nat.lt_of_le_of_ne hbound fun hwraps => hstays ?_
      rw [hwraps, Nat.mod_self, Nat.zero_mod]
    rw [Nat.mod_eq_of_lt hnowrap] at hstays ⊢
    rw [sinceRotation, UInt32.toNat_mod]
    rw [← Nat.mod_add_mod] at hstays ⊢
    have hlt := Nat.mod_lt t.releases.toNat hpos
    refine Nat.mod_eq_of_lt (Nat.lt_of_le_of_ne hlt fun hfull => hstays ?_)
    rw [hfull, Nat.mod_self]

/-- The counter wraps to zero, and the pool is rotated after 296 releases instead of 1000. -/
example : ({ releases := 4294967295, gcFrequency := 1000 } : Table).isDue = true ∧
    ({ releases := 4294967295, gcFrequency := 1000 } : Table).sinceRotation = 295 := by
  decide

theorem Trades.isDue {t w : Table} (h : t.Trades w) : w.isDue = t.isDue := by
  rw [Table.isDue, Table.isDue, h.releases, h.frequency]

theorem Trades.sinceRotation {t w : Table} (h : t.Trades w) :
    w.sinceRotation = t.sinceRotation := by
  rw [Table.sinceRotation, Table.sinceRotation, h.releases, h.frequency]

theorem pool_countRelease (t : Table) :
    t.countRelease.pool = if t.isDue then t.pool.rotate else t.pool := by
  simp [countRelease, isDue]

theorem toNat_withGcFrequency (frequency : UInt32) :
    (withGcFrequency frequency).gcFrequency.toNat = max frequency.toNat 1 := by
  simp only [withGcFrequency]
  split
  · rename_i hpos
    exact (Nat.max_eq_left (UInt32.lt_iff_toNat_lt.1 hpos)).symm
  · rename_i hzero
    obtain rfl : frequency = 0 := by simpa [UInt32.pos_iff_ne_zero] using hzero
    rfl

end Table

namespace Pool

variable {p q : Pool} {slot : Slot}

/-- Rotations after which a slot with the channel is gone, if nobody takes it. -/
def lifetime (p : Pool) (channel : Nat) : Nat :=
  if channel ∈ p.current.map Slot.channel then 2
  else if channel ∈ p.old.map Slot.channel then 1
  else 0

theorem lifetime_le_two (p : Pool) (channel : Nat) : p.lifetime channel ≤ 2 := by
  simp only [lifetime]
  split
  · exact Nat.le_refl _
  · split <;> omega

theorem lifetime_eq_zero_iff (p : Pool) (channel : Nat) :
    p.lifetime channel = 0 ↔ ¬ ∃ slot ∈ p.slots, slot.channel = channel := by
  rw [← List.mem_map, slots, List.map_append, List.mem_append, lifetime]
  split
  · simp [*]
  · split <;> simp [*]

theorem lifetime_rotate (p : Pool) (channel : Nat) :
    p.rotate.lifetime channel = p.lifetime channel - 1 := by
  by_cases hcurrent : channel ∈ p.current.map Slot.channel
  · simp only [lifetime, rotate, List.map_nil, List.not_mem_nil, hcurrent, if_true, if_false]
  · simp only [lifetime, rotate, List.map_nil, List.not_mem_nil, hcurrent, if_false]
    split <;> rfl

theorem lifetime_put (p : Pool) {channel : Nat} (hother : slot.channel ≠ channel) :
    (p.put slot).lifetime channel = p.lifetime channel := by
  simp [lifetime, put, hother.symm]

theorem lifetime_take? {channel : Nat} (h : p.take? = some (slot, q))
    (hother : slot.channel ≠ channel) : q.lifetime channel = p.lifetime channel := by
  rcases take?_eq_some h with ⟨hcurrent, hold⟩ | ⟨hcurrent, hrest, hold⟩
  · simp [lifetime, hcurrent, hold, hother.symm]
  · simp [lifetime, hcurrent, hrest, hold, hother.symm]

end Pool

/-- A slot that no key has before or after stays where it is. -/
theorem Table.Exchange.lifetime_eq {t w : Table} {channel : Nat} (h : Exchange t w)
    (hbefore : ¬ t.InUse channel) (hafter : ¬ w.InUse channel) :
    w.pool.lifetime channel = t.pool.lifetime channel := by
  cases h with
  | kept hpool _ => rw [hpool]
  | taken slot htake hnow _ =>
    exact Pool.lifetime_take? htake fun hsame => hafter (hsame ▸ hnow)
  | returned slot hpool hthen _ =>
    rw [hpool]
    exact Pool.lifetime_put t.pool fun hsame => hbefore (hsame ▸ hthen)

namespace Session

variable {s : Session}

/-! ### Runs -/

theorem run_append (s : Session) (xs ys : List Step) :
    s.run (xs ++ ys) =
      ((s.run xs).1 ++ ((s.run xs).2.run ys).1, ((s.run xs).2.run ys).2) := by
  induction xs generalizing s with
  | nil => rfl
  | cons x xs ih => simp only [List.cons_append, run, ih]

/-- Guards dropped in a run of the steps. -/
def releasesIn (s : Session) (steps : List Step) : Nat := (s.run steps).1.count .released

/-- Whether the step drops a guard with which the pool is rotated. -/
def rotates (s : Session) (x : Step) : Bool := (s.step x).1 = .released && s.table.isDue

/-- Rotations of the pool in a run of the steps. -/
def rotationsIn (s : Session) : List Step → Nat
  | [] => 0
  | x :: xs => (if s.rotates x then 1 else 0) + (s.step x).2.rotationsIn xs

theorem releasesIn_append (s : Session) (xs ys : List Step) :
    s.releasesIn (xs ++ ys) = s.releasesIn xs + (s.run xs).2.releasesIn ys := by
  simp only [releasesIn, run_append, List.count_append]

theorem releasesIn_singleton (s : Session) (x : Step) :
    s.releasesIn [x] = if (s.step x).1 = .released then 1 else 0 := by
  simp [releasesIn, run, List.count_singleton]

/-- A step is a trade, after which the pool may be rotated. -/
theorem Sound.step_pool (h : s.Sound) (x : Step) : ∃ w, s.table.Trades w ∧
    (s.step x).2.table.slots = w.slots ∧ (s.step x).2.table.channels = w.channels ∧
    (s.step x).2.table.pool = if s.rotates x then w.pool.rotate else w.pool := by
  obtain ⟨w, htrades, htable⟩ := h.step_trades x
  refine ⟨w, htrades, ?_⟩
  rw [htable, rotates]
  split
  · rename_i hreleased
    refine ⟨rfl, rfl, ?_⟩
    rw [Table.pool_countRelease, htrades.isDue, hreleased]
    simp
  · rename_i hother
    refine ⟨rfl, rfl, ?_⟩
    simp [hother]

theorem Sound.gcFrequency_step (h : s.Sound) (x : Step) :
    (s.step x).2.table.gcFrequency = s.table.gcFrequency := by
  obtain ⟨w, htrades, htable⟩ := h.step_trades x
  rw [htable, ← htrades.frequency]
  split <;> rfl

theorem Sound.sinceRotation_step (h : s.Sound) (x : Step) :
    (s.step x).2.table.sinceRotation =
      if s.rotates x then 0 else s.table.sinceRotation + s.releasesIn [x] := by
  obtain ⟨w, htrades, htable⟩ := h.step_trades x
  rw [htable, rotates, releasesIn_singleton]
  split
  · rename_i hreleased
    rw [Table.sinceRotation_countRelease, htrades.isDue, htrades.sinceRotation]
    simp [hreleased]
  · rename_i hother
    simp [hother, htrades.sinceRotation]

theorem Sound.gcFrequency_run (h : s.Sound) (steps : List Step) :
    (s.run steps).2.table.gcFrequency = s.table.gcFrequency := by
  refine h.run_keeps (P := fun u => u.table.gcFrequency = s.table.gcFrequency) ?_ rfl steps
  intro u hu hsame x
  exact (hu.gcFrequency_step x).trans hsame

/-- While the pool is not rotated, every guard that is dropped counts. -/
theorem Sound.sinceRotation_run (h : s.Sound) {more : List Step} (hnone : s.rotationsIn more = 0) :
    (s.run more).2.table.sinceRotation = s.table.sinceRotation + s.releasesIn more := by
  induction more generalizing s with
  | nil => rfl
  | cons x xs ih =>
    obtain ⟨hstays, hxs⟩ := Nat.add_eq_zero_iff.1 hnone
    have hstep := h.sinceRotation_step x
    rw [if_neg fun hrotates => by simp [hrotates] at hstays] at hstep
    have hrun : (s.run (x :: xs)).2 = ((s.step x).2.run xs).2 := rfl
    have hcount : s.releasesIn (x :: xs) = s.releasesIn [x] + (s.step x).2.releasesIn xs :=
      s.releasesIn_append [x] xs
    rw [hrun, ih (h.step x) hxs, hstep, hcount, Nat.add_assoc]

theorem Sound.releasesIn_lt (h : s.Sound) {more : List Step} (hnone : s.rotationsIn more = 0) :
    s.releasesIn more < s.table.gcFrequency.toNat := by
  have hafter := (s.run more).2.table.sinceRotation_lt
  rw [h.sinceRotation_run hnone, h.gcFrequency_run more] at hafter
  exact Nat.lt_of_le_of_lt (Nat.le_add_left _ _) hafter

/-! ### Since when a slot is idle -/

/-- A step of the run gave the slot back, which has not left the pool after that, and fewer than
`bound` guards were dropped in that step and since. -/
def PutBack (start : Session) (steps : List Step) (slot : Slot) (bound : Nat) : Prop :=
  ∃ before x after, steps = before ++ x :: after ∧
    (start.run before).2.table.InUse slot.channel ∧
    (∀ mid, mid <+: after → slot ∈ (start.run (before ++ x :: mid)).2.table.pool.slots) ∧
    (start.run before).2.releasesIn (x :: after) < bound

variable {start : Session} {steps : List Step} {slot : Slot} {bound : Nat}

theorem PutBack.mono {more : Nat} (h : start.PutBack steps slot bound) (hle : bound ≤ more) :
    start.PutBack steps slot more := by
  obtain ⟨before, x, after, hsteps, huse, hidle, hcount⟩ := h
  exact ⟨before, x, after, hsteps, huse, hidle, Nat.lt_of_lt_of_le hcount hle⟩

theorem PutBack.later {x : Step} (h : start.PutBack steps slot bound)
    (hslot : slot ∈ (start.run (steps ++ [x])).2.table.pool.slots) :
    start.PutBack (steps ++ [x]) slot (bound + (start.run steps).2.releasesIn [x]) := by
  obtain ⟨before, y, after, rfl, huse, hidle, hcount⟩ := h
  have hassoc : before ++ y :: after ++ [x] = before ++ y :: (after ++ [x]) := by simp
  refine ⟨before, y, after ++ [x], hassoc, huse, fun mid hmid => ?_, ?_⟩
  · rcases List.prefix_concat_iff.1 hmid with rfl | hmid
    · exact hassoc ▸ hslot
    · exact hidle mid hmid
  · have hsplit := (start.run before).2.releasesIn_append (y :: after) [x]
    have hthere : ((start.run before).2.run (y :: after)).2 =
        (start.run (before ++ y :: after)).2 := by rw [run_append]
    rw [hthere] at hsplit
    rw [← List.cons_append, hsplit]
    exact Nat.add_lt_add_right hcount _

theorem putBack_now {x : Step} (huse : (start.run steps).2.table.InUse slot.channel)
    (hslot : slot ∈ (start.run (steps ++ [x])).2.table.pool.slots) :
    start.PutBack (steps ++ [x]) slot ((start.run steps).2.releasesIn [x] + 1) := by
  refine ⟨steps, x, [], rfl, huse, fun mid hmid => ?_, Nat.lt_succ_self _⟩
  obtain rfl := List.prefix_nil.1 hmid
  exact hslot

/-- What the generation of a slot says about the time since which it is idle. -/
structure Dated (start : Session) (steps : List Step) : Prop where
  current : ∀ slot ∈ (start.run steps).2.table.pool.current,
    start.PutBack steps slot ((start.run steps).2.table.sinceRotation + 1)
  old : ∀ slot ∈ (start.run steps).2.table.pool.old,
    start.PutBack steps slot ((start.run steps).2.table.gcFrequency.toNat +
      (start.run steps).2.table.sinceRotation + 1)

theorem Dated.later_current {w : Table} {x : Step} (h : start.Dated steps)
    (htrades : (start.run steps).2.table.Trades w) (hslot : slot ∈ w.pool.current)
    (hstays : slot ∈ (start.run (steps ++ [x])).2.table.pool.slots) :
    start.PutBack (steps ++ [x]) slot
      ((start.run steps).2.table.sinceRotation + 1 + (start.run steps).2.releasesIn [x]) := by
  rcases htrades.exchange.mem_current hslot with hslot | huse
  · exact (h.current slot hslot).later hstays
  · exact (putBack_now huse hstays).mono (by omega)

theorem Dated.later_old {w : Table} {x : Step} (h : start.Dated steps)
    (htrades : (start.run steps).2.table.Trades w) (hslot : slot ∈ w.pool.old)
    (hstays : slot ∈ (start.run (steps ++ [x])).2.table.pool.slots) :
    start.PutBack (steps ++ [x]) slot ((start.run steps).2.table.gcFrequency.toNat +
      (start.run steps).2.table.sinceRotation + 1 + (start.run steps).2.releasesIn [x]) :=
  (h.old slot (htrades.exchange.mem_old hslot)).later hstays

theorem Dated.concat (hsound : (start.run steps).2.Sound) (h : start.Dated steps) (x : Step) :
    start.Dated (steps ++ [x]) := by
  have hlt := (start.run steps).2.table.sinceRotation_lt
  have hafter : (start.run (steps ++ [x])).2 = ((start.run steps).2.step x).2 := by
    rw [run_append]
    rfl
  have hsince := hsound.sinceRotation_step x
  have hfrequency := congrArg UInt32.toNat (hsound.gcFrequency_step x)
  obtain ⟨w, htrades, -, -, hpool⟩ := hsound.step_pool x
  rw [← hafter] at hsince hfrequency hpool
  cases hrotates : (start.run steps).2.rotates x with
  | false =>
    rw [hrotates, if_neg Bool.false_ne_true] at hsince hpool
    constructor
    case current =>
      intro slot hslot
      have hstays := List.mem_append_left (start.run (steps ++ [x])).2.table.pool.old hslot
      exact (h.later_current htrades (hpool ▸ hslot) hstays).mono (by omega)
    case old =>
      intro slot hslot
      have hstays := List.mem_append_right (start.run (steps ++ [x])).2.table.pool.current hslot
      exact (h.later_old htrades (hpool ▸ hslot) hstays).mono (by omega)
  | true =>
    -- The current generation becomes the old one, and the count starts anew.
    rw [hrotates, if_pos rfl] at hsince hpool
    have hone : (start.run steps).2.releasesIn [x] ≤ 1 := by
      rw [releasesIn_singleton]
      split <;> omega
    constructor
    case current =>
      intro slot hslot
      rw [hpool] at hslot
      cases hslot
    case old =>
      intro slot hslot
      have hstays := List.mem_append_right (start.run (steps ++ [x])).2.table.pool.current hslot
      have hformer : slot ∈ w.pool.current := by
        rwa [hpool] at hslot
      exact (h.later_current htrades hformer hstays).mono (by omega)

theorem dated (frequency : UInt32) (steps : List Step) :
    (withGcFrequency frequency).Dated steps := by
  induction steps using List.reverseRecOn with
  | nil =>
    constructor
    case current => exact fun slot hslot => by cases hslot
    case old => exact fun slot hslot => by cases hslot
  | append_singleton steps x ih => exact ih.concat (run_sound frequency steps) x

/-! ### Slots that nobody takes -/

/-- While no key has a slot, every rotation takes from its lifetime. -/
theorem Sound.lifetime_step (h : s.Sound) {channel : Nat} (x : Step)
    (hbefore : ¬ s.table.InUse channel) (hafter : ¬ (s.step x).2.table.InUse channel) :
    (s.step x).2.table.pool.lifetime channel =
      s.table.pool.lifetime channel - if s.rotates x then 1 else 0 := by
  obtain ⟨w, htrades, hslots, -, hpool⟩ := h.step_pool x
  have hsame : w.pool.lifetime channel = s.table.pool.lifetime channel := by
    rw [Table.InUse, hslots] at hafter
    exact htrades.exchange.lifetime_eq hbefore hafter
  rw [hpool]
  split
  · rw [Pool.lifetime_rotate, hsame]
  · rw [hsame, Nat.sub_zero]

theorem Sound.lifetime_run (h : s.Sound) {more : List Step} {channel : Nat}
    (hunused : ∀ mid, mid <+: more → ¬ (s.run mid).2.table.InUse channel) :
    (s.run more).2.table.pool.lifetime channel =
      s.table.pool.lifetime channel - s.rotationsIn more := by
  induction more generalizing s with
  | nil => rfl
  | cons x xs ih =>
    have hbefore : ¬ s.table.InUse channel := hunused [] List.nil_prefix
    have hafter : ¬ (s.step x).2.table.InUse channel :=
      hunused [x] (List.cons_prefix_cons.2 ⟨rfl, List.nil_prefix⟩)
    have hrest : ∀ mid, mid <+: xs → ¬ ((s.step x).2.run mid).2.table.InUse channel :=
      fun mid hmid => hunused (x :: mid) (List.cons_prefix_cons.2 ⟨rfl, hmid⟩)
    have hrun : (s.run (x :: xs)).2 = ((s.step x).2.run xs).2 := rfl
    rw [hrun, ih (h.step x) hrest, h.lifetime_step x hbefore hafter, rotationsIn, Nat.sub_sub]

theorem Sound.channels_step (h : s.Sound) (x : Step) :
    s.table.channels ≤ (s.step x).2.table.channels := by
  obtain ⟨w, htrades, -, hchannels, -⟩ := h.step_pool x
  exact hchannels ▸ htrades.channels_le

theorem Sound.channels_run (h : s.Sound) (steps : List Step) :
    s.table.channels ≤ (s.run steps).2.table.channels := by
  refine h.run_keeps (P := fun u => s.table.channels ≤ u.table.channels) ?_ (Nat.le_refl _) steps
  intro u hu hle x
  exact Nat.le_trans hle (hu.channels_step x)

theorem Sound.lost_step (h : s.Sound) {channel : Nat} (hlost : s.table.Lost channel) (x : Step) :
    (s.step x).2.table.Lost channel := by
  have hunused : ¬ (s.step x).2.table.InUse channel := by
    obtain ⟨w, htrades, hslots, -, -⟩ := h.step_pool x
    rw [Table.InUse, hslots]
    exact htrades.exchange.not_inUse hlost
  constructor
  case made => exact Nat.lt_of_lt_of_le hlost.made (h.channels_step x)
  case not_inUse => exact hunused
  case not_idle =>
    apply (Pool.lifetime_eq_zero_iff _ _).1
    rw [h.lifetime_step x hlost.not_inUse hunused,
      (Pool.lifetime_eq_zero_iff _ _).2 hlost.not_idle, Nat.zero_sub]

theorem Sound.lost_run (h : s.Sound) {channel : Nat} (hlost : s.table.Lost channel)
    (steps : List Step) : (s.run steps).2.table.Lost channel :=
  h.run_keeps (P := fun u => u.table.Lost channel) (fun hu hlost x => hu.lost_step hlost x)
    hlost steps

/-- Two rotations end a slot that nobody takes. -/
theorem Sound.lost_of_rotations (h : s.Sound) {more : List Step}
    (hslot : slot ∈ s.table.pool.slots)
    (hunused : ∀ mid, mid <+: more → ¬ (s.run mid).2.table.InUse slot.channel)
    (htwice : 2 ≤ s.rotationsIn more) : (s.run more).2.table.Lost slot.channel := by
  constructor
  case made => exact Nat.lt_of_lt_of_le (h.table.idle_channel_lt slot hslot) (h.channels_run more)
  case not_inUse => exact hunused more (List.prefix_refl more)
  case not_idle =>
    apply (Pool.lifetime_eq_zero_iff _ _).1
    rw [h.lifetime_run hunused]
    exact Nat.sub_eq_zero_of_le (Nat.le_trans (Pool.lifetime_le_two _ _) htwice)

/-- What a frequency of `g` says about the pool of the session after `steps`. -/
structure Ages (start : Session) (steps : List Step) (g : Nat) : Prop where
  /-- Fewer than `g` guards are dropped before the one with which the pool is next rotated. -/
  frequent : ∀ more, (start.run steps).2.rotationsIn more = 0 →
    (start.run steps).2.releasesIn more < g
  /-- A slot in the pool was put back fewer than `2 * g` guards ago. -/
  recent : ∀ slot ∈ (start.run steps).2.table.pool.slots, start.PutBack steps slot (2 * g)
  /-- If nobody takes it while the pool is rotated twice, it is gone for good. -/
  dropped : ∀ slot ∈ (start.run steps).2.table.pool.slots, ∀ more,
    (∀ mid, mid <+: more → ¬ (start.run (steps ++ mid)).2.table.InUse slot.channel) →
    2 ≤ (start.run steps).2.rotationsIn more →
    ∀ later, (start.run (steps ++ more ++ later)).2.table.Lost slot.channel

/-- After any run the pool has been rotated at least with every `g`-th guard, no slot in it has been
idle for as many as `2 * g`, and two rotations end a slot that nobody takes. -/
theorem run_generations (frequency : UInt32) (steps : List Step) :
    (withGcFrequency frequency).Ages steps (max frequency.toNat 1) := by
  have hsound := run_sound frequency steps
  have hg : ((withGcFrequency frequency).run steps).2.table.gcFrequency.toNat =
      max frequency.toNat 1 := by
    rw [(sound_withGcFrequency frequency).gcFrequency_run steps]
    exact Table.toNat_withGcFrequency frequency
  have hlt := ((withGcFrequency frequency).run steps).2.table.sinceRotation_lt
  constructor
  case frequent =>
    intro more hnone
    exact hg ▸ hsound.releasesIn_lt hnone
  case recent =>
    have hdated := dated frequency steps
    intro slot hslot
    rcases List.mem_append.1 hslot with hcurrent | hold
    · exact (hdated.current slot hcurrent).mono (by omega)
    · exact (hdated.old slot hold).mono (by omega)
  case dropped =>
    intro slot hslot more hunused htwice later
    simp only [run_append] at hunused ⊢
    exact (hsound.run more).lost_run (hsound.lost_of_rotations hslot hunused htwice) later

/-- With a frequency of two, the slots of the two guards that went first are gone when four have. -/
example : ((withGcFrequency 2).run
    [.acquire 0 "a" .write, .acquire 1 "b" .write, .acquire 2 "c" .write, .acquire 3 "d" .write,
      .drop 0, .drop 1, .drop 2, .drop 3]).2.table.pool.slots.map Slot.channel = [3, 2] := by
  decide +kernel

end Session

end StatusStore.Lock
