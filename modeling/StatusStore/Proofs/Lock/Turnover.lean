/-
  StatusStore/Proofs/Lock/Turnover.lean
  =====================================
  **How slots change hands.**  A slot is in use while a key has it and idle while
  it is in the pool, and its channel tells it from all others.  Rotations apart,
  a step of a session moves at most one slot: a key that appears takes one out of
  the pool or gets a new one, and a key that leaves gives its own back, whether
  its last guard goes or a waiter gives up.

  Main statement: `Session.Sound.step_trades`, what a step does to the pool of a
  session.
-/
import StatusStore.Proofs.Lock.Reachable

namespace StatusStore.Lock

namespace Table

def InUse (t : Table) (channel : Nat) : Prop :=
  ∃ key slot, t.slots.get? key = some slot ∧ slot.channel = channel

def Idle (t : Table) (channel : Nat) : Prop := ∃ slot ∈ t.pool.slots, slot.channel = channel

variable {t w : Table} {key : String} {slot : Slot} {channel : Nat}

theorem inUse_of_get? (h : t.slots.get? key = some slot) : t.InUse slot.channel :=
  ⟨key, slot, h, rfl⟩

theorem inUse_place : (t.place key slot).InUse slot.channel :=
  ⟨key, slot, by simp, rfl⟩

theorem inUse_of_place (h : (t.place key slot).InUse channel) :
    t.InUse channel ∨ channel = slot.channel := by
  obtain ⟨k, r, hr, rfl⟩ := h
  rw [get?_place] at hr
  split at hr
  · cases hr
    exact Or.inr rfl
  · exact Or.inl (inUse_of_get? hr)

theorem inUse_of_evict (h : (t.evict key slot).InUse channel) : t.InUse channel := by
  obtain ⟨k, r, hr, rfl⟩ := h
  rw [get?_evict] at hr
  split at hr
  · cases hr
  · exact inUse_of_get? hr

/-- The slot with the channel was made, and neither a key nor the pool has it any more. -/
structure Lost (t : Table) (channel : Nat) : Prop where
  made : channel < t.channels
  not_inUse : ¬ t.InUse channel
  not_idle : ¬ t.Idle channel

/-! ### What an operation does to the pool -/

/-- The slot, if any, that goes between the pool and the keys of `t` to make `w`. -/
inductive Exchange (t w : Table) : Prop
  /-- None does; a key that has appeared has a slot with a new channel. -/
  | kept : w.pool = t.pool →
      (∀ channel, w.InUse channel → t.InUse channel ∨ t.channels ≤ channel) → Exchange t w
  | taken (slot : Slot) : t.pool.take? = some (slot, w.pool) → w.InUse slot.channel →
      (∀ channel, w.InUse channel → t.InUse channel ∨ channel = slot.channel) → Exchange t w
  | returned (slot : Slot) : w.pool = t.pool.put slot → t.InUse slot.channel →
      (∀ channel, w.InUse channel → t.InUse channel) → Exchange t w

/-- The current generation gains only slots that a key has given back, -/
theorem Exchange.mem_current (h : Exchange t w) (hslot : slot ∈ w.pool.current) :
    slot ∈ t.pool.current ∨ t.InUse slot.channel := by
  cases h with
  | kept hpool _ =>
    rw [hpool] at hslot
    exact Or.inl hslot
  | taken taken htake _ _ =>
    rcases Pool.take?_eq_some htake with ⟨hcurrent, -⟩ | ⟨-, hempty, -⟩
    · rw [hcurrent]
      exact Or.inl (List.mem_cons_of_mem taken hslot)
    · rw [hempty] at hslot
      cases hslot
  | returned back hpool hbefore _ =>
    rw [hpool] at hslot
    rcases List.mem_cons.1 hslot with rfl | hslot
    · exact Or.inr hbefore
    · exact Or.inl hslot

/-- and the old one gains none. -/
theorem Exchange.mem_old (h : Exchange t w) (hslot : slot ∈ w.pool.old) : slot ∈ t.pool.old := by
  cases h with
  | kept hpool _ => exact hpool ▸ hslot
  | taken taken htake _ _ =>
    rcases Pool.take?_eq_some htake with ⟨-, hold⟩ | ⟨-, -, hold⟩
    · exact hold ▸ hslot
    · rw [hold]
      exact List.mem_cons_of_mem taken hslot
  | returned back hpool _ _ =>
    rw [hpool] at hslot
    exact hslot

/-- A slot that is lost does not come back to a key. -/
theorem Exchange.not_inUse (h : Exchange t w)
    (hlost : t.Lost channel) : ¬ w.InUse channel := by
  intro huse
  cases h with
  | kept _ hcome =>
    rcases hcome channel huse with huse | hnew
    · exact hlost.not_inUse huse
    · exact Nat.not_lt.2 hnew hlost.made
  | taken slot htake _ hcome =>
    rcases hcome channel huse with huse | rfl
    · exact hlost.not_inUse huse
    · refine hlost.not_idle ⟨slot, ?_, rfl⟩
      rw [Pool.slots_take? htake]
      exact List.mem_cons_self
  | returned _ _ _ hcome => exact hlost.not_inUse (hcome channel huse)

/-- `w` is `t` after an operation, up to the counting of a release. -/
structure Trades (t w : Table) : Prop where
  releases : w.releases = t.releases
  frequency : w.gcFrequency = t.gcFrequency
  channels_le : t.channels ≤ w.channels
  exchange : Exchange t w

theorem Trades.refl (t : Table) : t.Trades t where
  releases := rfl
  frequency := rfl
  channels_le := Nat.le_refl _
  exchange := .kept rfl fun _ huse => Or.inl huse

/-- Changing the slot of a key in place moves no slot. -/
theorem trades_replace {r : Slot} (hr : t.slots.get? key = some r)
    (hchannel : slot.channel = r.channel) :
    t.Trades (t.place key slot) where
  releases := rfl
  frequency := rfl
  channels_le := Nat.le_refl _
  exchange := by
    refine .kept rfl fun channel huse => Or.inl ?_
    rcases inUse_of_place huse with huse | rfl
    · exact huse
    · exact hchannel ▸ inUse_of_get? hr

theorem trades_evict {r : Slot} (hr : t.slots.get? key = some r)
    (hchannel : slot.channel = r.channel) :
    t.Trades (t.evict key slot) where
  releases := rfl
  frequency := rfl
  channels_le := Nat.le_refl _
  exchange := .returned slot rfl (hchannel ▸ inUse_of_get? hr) fun _ => inUse_of_evict

/-- A key that appears takes a slot out of the pool, or gets one that was made for it. -/
theorem trades_slotFor {r : Slot} (key : String)
    (hchannel : r.channel = (t.slotFor key).1.channel) :
    t.Trades ((t.slotFor key).2.place key r) := by
  unfold slotFor at hchannel ⊢
  cases hslot : t.slots.get? key with
  | some slot =>
    simp only [hslot] at hchannel ⊢
    exact trades_replace hslot hchannel
  | none =>
    simp only [hslot] at hchannel ⊢
    unfold spare at hchannel ⊢
    cases htake : t.pool.take? with
    | some taken =>
      obtain ⟨slot, pool⟩ := taken
      simp only [htake] at hchannel ⊢
      constructor
      case releases => rfl
      case frequency => rfl
      case channels_le => exact Nat.le_refl _
      case exchange =>
        refine .taken slot htake (hchannel ▸ inUse_place) fun channel huse => ?_
        rcases inUse_of_place huse with huse | hsame
        · exact Or.inl huse
        · exact Or.inr (hsame.trans hchannel)
    | none =>
      simp only [htake] at hchannel ⊢
      constructor
      case releases => rfl
      case frequency => rfl
      case channels_le => exact Nat.le_succ _
      case exchange =>
        refine .kept rfl fun channel huse => ?_
        rcases inUse_of_place huse with huse | hsame
        · exact Or.inl huse
        · exact Or.inr (Nat.le_of_eq (hsame.trans hchannel).symm)

theorem trades_attempt (t : Table) (key : String) (kind : Kind) :
    t.Trades (t.attempt key kind).2 := by
  unfold attempt
  have htrades : ∀ r : Slot, r.channel = (t.slotFor key).1.channel →
      t.Trades ((t.slotFor key).2.place key r) := fun r => trades_slotFor key
  generalize t.slotFor key = p at htrades ⊢
  obtain ⟨slot, u⟩ := p
  dsimp only at htrades ⊢
  split
  · exact htrades _ rfl
  · exact htrades _ rfl

theorem trades_withdraw (t : Table) (key : String) (ticket : Nat) :
    t.Trades (t.withdraw key ticket) := by
  cases hslot : t.slots.get? key with
  | none =>
    rw [withdraw_absent hslot]
    exact .refl t
  | some slot =>
    rw [withdraw_of_get? hslot]
    split
    · exact trades_evict hslot (by rfl)
    · exact trades_replace hslot (by rfl)

/-- A release gives the slot back or keeps it, and is counted after that. -/
theorem trades_release {u : Table} {broadcast : Option Nat}
    (h : t.release key = .ok ⟨u, broadcast⟩) :
    ∃ w, t.Trades w ∧ u = w.countRelease := by
  have hissued : ∀ {w : Table}, t.issued.Trades w → t.Trades w :=
    fun htrades => ⟨htrades.releases, htrades.frequency, htrades.channels_le, by
      cases htrades.exchange with
      | kept hpool huse => exact .kept hpool huse
      | taken slot htake hnow huse => exact .taken slot htake hnow huse
      | returned slot hpool hbefore huse => exact .returned slot hpool hbefore huse⟩
  unfold release at h
  cases hslot : t.slots.get? key with
  | none => simp [hslot] at h
  | some slot =>
    have hslot' : t.issued.slots.get? key = some slot := hslot
    simp only [hslot] at h
    split at h
    · cases h
    · split at h
      · cases h
        exact ⟨_, hissued (trades_evict hslot' (by rfl)), rfl⟩
      · cases h
        exact ⟨_, hissued (trades_replace hslot' (by rfl)), rfl⟩
    · cases h
      exact ⟨_, hissued (trades_replace hslot' (by rfl)), rfl⟩

end Table

/-! ### What a step does to the pool -/

namespace Session

variable {s : Session}

theorem Attempt.answer_ne_released (attempt : Attempt) : attempt.answer ≠ .released := by
  cases attempt <;> exact Answer.noConfusion

/-- A step trades one slot at most, and counts a release if it is one. -/
theorem Sound.step_trades (h : s.Sound) (x : Step) : ∃ w, s.table.Trades w ∧
    (s.step x).2.table = if (s.step x).1 = .released then w.countRelease else w := by
  have hmoves := h.moves x
  generalize s.step x = after at hmoves ⊢
  obtain ⟨answer, u⟩ := after
  dsimp only at hmoves ⊢
  cases hmoves with
  | busy => exact ⟨s.table, .refl _, rfl⟩
  | gone => exact ⟨s.table, .refl _, rfl⟩
  | held => exact ⟨s.table, .refl _, rfl⟩
  | asleep => exact ⟨s.table, .refl _, rfl⟩
  | @entered handle key kind _ hfind htable =>
    refine ⟨_, s.table.trades_attempt key kind, ?_⟩
    rw [if_neg (Attempt.answer_ne_released _), htable]
  | @retried a rest ticket channel _ hstanding hbefore htable =>
    refine ⟨_, s.table.trades_attempt a.key a.kind, ?_⟩
    rw [if_neg (Attempt.answer_ne_released _), htable]
  | @withdrawn a rest ticket channel woken _ hstanding hbefore htable =>
    exact ⟨_, s.table.trades_withdraw a.key ticket, htable⟩
  | released hstanding hbefore hrelease =>
    obtain ⟨w, htrades, htable⟩ := Table.trades_release hrelease
    exact ⟨w, htrades, htable⟩

end Session

end StatusStore.Lock
