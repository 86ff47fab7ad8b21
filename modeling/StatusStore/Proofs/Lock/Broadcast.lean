/-
  StatusStore/Proofs/Lock/Broadcast.lean
  ======================================
  **How a guard goes.**  The last guard of a key frees it, and then either nobody
  waits and the key goes too, or all who wait are woken at once.  A broadcast is
  heard by channel, and what makes it reach the sleepers of its key and nobody
  else is that channels tell slots apart.

  Main statements: `release_accounted` says that a guard that is dropped never
  meets a fault and leaves right books behind, and `release_attended` that a free
  key does not stay behind alone.
-/
import StatusStore.Proofs.Lock.Accounts

namespace StatusStore.Lock

variable {t : Table} {a : Acquire} {as : List Acquire}

/-! ### A guard less -/

theorem Accounted.leave (h : Accounted t (a :: as)) (hholding : a.standing = .holding) :
    ∃ slot hold, t.slots.get? a.key = some slot ∧ slot.hold.leave? = some hold ∧
      hold.Tallies (guards as a.key) := by
  have hguards : guards (a :: as) a.key =
      fun kind => guards as a.key kind + if a.kind = kind then 1 else 0 := by
    funext kind
    simp [guards_cons_holding hholding]
  have hholds := hguards ▸ h.holds a.key
  obtain ⟨hold, hleave, htallies⟩ := hholds.leave
  cases hslot : t.slots.get? a.key with
  | none =>
    rw [Table.holdOf_of_absent hslot] at hleave
    cases hleave
  | some slot =>
    exact ⟨slot, hold, rfl, Table.holdOf_of_get? hslot ▸ hleave, htallies⟩

/-! ### Broadcasts -/

namespace Acquire

@[simp] theorem key_hear (a : Acquire) (channel : Nat) : (a.hear channel).key = a.key := by
  unfold hear
  split <;> rfl

@[simp] theorem handle_hear (a : Acquire) (channel : Nat) :
    (a.hear channel).handle = a.handle := by
  unfold hear
  split <;> rfl

@[simp] theorem guards_hear (a : Acquire) (channel : Nat) (key : String) (kind : Kind) :
    (a.hear channel).guards key kind = a.guards key kind := by
  unfold hear
  split
  · rename_i hstanding
    simp [guards, isHolding, hstanding]
  · rfl

theorem standing_hear {ticket own : Nat} {woken : Bool} (h : a.standing = .waiting ticket own woken)
    (channel : Nat) :
    (a.hear channel).standing = .waiting ticket own (woken || own = channel) := by
  simp [hear, h]

theorem isAwake_hear {channel : Nat} (h : a.isAwake = true) : (a.hear channel).isAwake = true := by
  unfold isAwake at h
  split at h
  · rename_i hstanding
    simp [isAwake, standing_hear hstanding, h]
  · cases h

theorem key_of_sleepsOn {key : String} (h : a.sleepsOn key = true) : a.key = key := by
  simp only [sleepsOn, Bool.and_eq_true, decide_eq_true_eq] at h
  exact h.2

/-- Those still asleep after a broadcast were asleep on another channel. -/
theorem sleepsOn_hear {channel : Nat} {key : String} :
    (a.hear channel).sleepsOn key = true ↔
      a.sleepsOn key = true ∧ ∀ ticket, a.standing ≠ .waiting ticket channel false := by
  cases hstanding : a.standing with
  | waiting ticket own woken =>
    cases woken with
    | true => simp [sleepsOn, isAsleep, standing_hear hstanding, hstanding]
    | false =>
      simp only [sleepsOn, isAsleep, standing_hear hstanding, hstanding, key_hear]
      simp [and_comm]
  | holding => simp [hear, hstanding]

/-- Whoever waits after a broadcast has waited before: woken already, or on another channel, or on
the one that was broadcast on. -/
theorem standing_of_hear {channel ticket own : Nat} {woken : Bool}
    (h : (a.hear channel).standing = .waiting ticket own woken) :
    ∃ before, a.standing = .waiting ticket own before ∧ woken = (before || own = channel) := by
  cases hstanding : a.standing with
  | waiting ticket' own' before =>
    rw [standing_hear hstanding] at h
    cases h
    exact ⟨before, rfl, rfl⟩
  | holding =>
    simp only [hear, hstanding] at h
    cases h

end Acquire

theorem guards_hearing (as : List Acquire) (channel : Nat) (key : String) :
    guards (as.map (·.hear channel)) key = guards as key := by
  funext kind
  simp [guards, List.countP_map, Function.comp_def]

def hearing (broadcast : Option Nat) (as : List Acquire) : List Acquire :=
  match broadcast with
  | some channel => as.map (·.hear channel)
  | none => as

/-- Whoever sleeps on the channel of a key sleeps on that key, under its ticket. -/
theorem Accounted.key_of_channel {key : String} {slot : Slot} {b : Acquire} {ticket : Nat}
    (hs : t.Sound) (h : Accounted t as) (hslot : t.slots.get? key = some slot) (hb : b ∈ as)
    (hstanding : b.standing = .waiting ticket slot.channel false) :
    b.key = key ∧ ticket = slot.ticket := by
  obtain ⟨s, hs', -, hticket, hchannel⟩ := h.asleep hb hstanding
  have hkey : b.key = key := hs.channel_inj hs' hslot hchannel
  subst hkey
  exact ⟨rfl, hticket ▸ congrArg Slot.ticket (Option.some.inj (hs'.symm.trans hslot))⟩

/-- The channel of a key reaches those asleep on the key and nobody else. -/
theorem Accounted.sleepers_broadcast {key : String} {slot : Slot} (hs : t.Sound)
    (h : Accounted t as) (hslot : t.slots.get? key = some slot) (k : String) :
    sleepers (as.map (·.hear slot.channel)) k = if k = key then 0 else sleepers as k := by
  rw [sleepers, List.countP_map]
  split
  · rename_i hkey
    subst hkey
    rw [List.countP_eq_zero]
    intro b hb hsleeps
    obtain ⟨hbefore, hdeaf⟩ := Acquire.sleepsOn_hear.1 hsleeps
    obtain ⟨s, hs', -, hstanding⟩ := h.slot_of_sleepsOn hb hbefore
    have hsame : s = slot := Option.some.inj (hs'.symm.trans hslot)
    exact hdeaf s.ticket (hsame ▸ hstanding)
  · rename_i hkey
    refine List.countP_congr fun b hb => Acquire.sleepsOn_hear.trans ⟨And.left, fun hsleeps => ?_⟩
    refine ⟨hsleeps, fun ticket hstanding => hkey ?_⟩
    obtain ⟨rfl, -⟩ := h.key_of_channel hs hslot hb hstanding
    exact (Acquire.key_of_sleepsOn hsleeps).symm

/-- Whoever is awake after a broadcast has a ticket that no other key has: it was on the books as
awake before, or it had the ticket of the key. -/
theorem Accounted.spent_of_hear {key : String} {slot : Slot} {b : Acquire} {ticket own : Nat}
    (hs : t.Sound) (h : Accounted t as) (hslot : t.slots.get? key = some slot) (hb : b ∈ as)
    (hstanding : (b.hear slot.channel).standing = .waiting ticket own true) :
    ticket ≤ t.lastTicket ∧ ∀ {k : String} {r : Slot},
      t.slots.get? k = some r → k ≠ key → r.ticket ≠ ticket := by
  obtain ⟨before, hbefore, hwoken⟩ := Acquire.standing_of_hear hstanding
  cases before with
  | true =>
    obtain ⟨hle, hne⟩ := h.awake hb hbefore
    exact ⟨hle, fun hr _ => hne hr⟩
  | false =>
    obtain rfl : own = slot.channel := by simpa using hwoken
    obtain ⟨-, rfl⟩ := h.key_of_channel hs hslot hb hbefore
    exact ⟨hs.ticket_le hslot, fun hr hkey e => hkey (hs.ticket_inj hr hslot e)⟩

/-- A key that is freed under a new ticket, with everyone awake who was waiting on its channel, is
on the books as it should be. -/
theorem Accounted.wake {u : Table} {slot : Slot} (hs : t.Sound) (h : Accounted t (a :: as))
    (hholding : a.standing = .holding) (hslot : t.slots.get? a.key = some slot)
    (hslots : ∀ k, u.slots.get? k =
      if k = a.key then some { slot with hold := .free, waiters := 0, ticket := t.lastTicket + 1 }
      else t.slots.get? k)
    (htickets : u.lastTicket = t.lastTicket + 1) (hfree : Hold.free.Tallies (guards as a.key)) :
    Accounted u (as.map (·.hear slot.channel)) := by
  have hsleepers : ∀ k, sleepers (as.map (·.hear slot.channel)) k =
      if k = a.key then 0 else sleepers (a :: as) k := by
    intro k
    have hstill : (a.hear slot.channel).standing = .holding := by simp [Acquire.hear, hholding]
    rw [← h.sleepers_broadcast hs hslot k, List.map_cons, sleepers_cons_holding hstill]
  constructor
  case holds =>
    intro k
    rw [guards_hearing]
    by_cases hkey : k = a.key
    · subst hkey
      have hfreed : u.holdOf a.key = .free := by simp [Table.holdOf, hslots]
      exact hfreed ▸ hfree
    · have hsame : u.holdOf k = t.holdOf k := by simp only [Table.holdOf, hslots, if_neg hkey]
      rw [hsame, ← guards_cons_other (Ne.symm hkey)]
      exact h.holds k
  case waiters =>
    intro k r hr
    rw [hslots] at hr
    rw [hsleepers]
    split at hr
    · rename_i hkey
      cases hr
      rw [if_pos hkey]
    · rename_i hkey
      rw [if_neg hkey]
      exact h.waiters hr
  case asleep =>
    intro b' ticket own hb' hstanding
    obtain ⟨b, hb, rfl⟩ := List.mem_map.1 hb'
    obtain ⟨before, hbefore, hwoken⟩ := Acquire.standing_of_hear hstanding
    obtain ⟨rfl, hdeaf⟩ : before = false ∧ own ≠ slot.channel := by simpa using hwoken.symm
    obtain ⟨s, hs', hheld, hticket, rfl⟩ := h.asleep (List.mem_cons_of_mem a hb) hbefore
    refine ⟨s, ?_, hheld, hticket, rfl⟩
    rw [Acquire.key_hear, hslots, if_neg ?_]
    · exact hs'
    · intro hkey
      rw [hkey, hslot] at hs'
      cases hs'
      exact hdeaf rfl
  case awake =>
    intro b' ticket own hb' hstanding
    obtain ⟨b, hb, rfl⟩ := List.mem_map.1 hb'
    have hspent := h.spent_of_hear hs hslot (List.mem_cons_of_mem a hb) hstanding
    refine ⟨htickets ▸ Nat.le_succ_of_le hspent.1, fun {k r} hr => ?_⟩
    rw [hslots] at hr
    split at hr
    · cases hr
      exact Nat.ne_of_gt (Nat.lt_succ_of_le hspent.1)
    · rename_i hkey
      exact hspent.2 hr hkey

/-- A guard that is dropped releases its key without fault and leaves right books, and whom the
table lost sight of has been woken. -/
theorem release_accounted (hs : t.Sound) (h : Accounted t (a :: as))
    (hholding : a.standing = .holding) :
    ∃ u broadcast, t.release a.key = .ok ⟨u, broadcast⟩ ∧ u.Sound ∧
      Accounted u (hearing broadcast as) := by
  obtain ⟨slot, hold, hslot, hleave, htallies⟩ := h.leave hholding
  obtain ⟨u, broadcast, left, hrelease, hleft, hslots, htickets, hsound⟩ :=
    hs.release_at hslot hleave
  refine ⟨u, broadcast, hrelease, hsound, ?_⟩
  have hwaiters : slot.waiters = sleepers as a.key :=
    (h.waiters hslot).trans (sleepers_cons_holding hholding a.key)
  have htickets_le : t.lastTicket ≤ u.lastTicket := htickets ▸ Nat.le_succ t.lastTicket
  cases hleft with
  | evicted hfree halone =>
    have : hold = .free := Option.some.inj (hleave.symm.trans hfree)
    subst this
    refine h.exit hslot hslots htickets_le (fun _ => ⟨htallies, hwaiters ▸ halone⟩) ?_
    intro r hr
    cases hr
  | shared other hother hheld =>
    have : hold = other := Option.some.inj (hleave.symm.trans hother)
    subst this
    refine h.exit hslot hslots htickets_le (fun hnone => by cases hnone) ?_
    intro r hr
    cases hr
    exact ⟨rfl, rfl, htallies, hwaiters, fun _ => hheld⟩
  | woken hfree hsome =>
    have : hold = .free := Option.some.inj (hleave.symm.trans hfree)
    subst this
    exact h.wake hs hholding hslot hslots htickets htallies

/-- A free key that stays after a guard has gone is attended: it was before, or it has just been
freed and had a waiter. -/
theorem release_attended {u : Table} {broadcast : Option Nat} (hs : t.Sound)
    (h : Accounted t (a :: as)) (hattended : Attended t (a :: as))
    (hholding : a.standing = .holding) (hrelease : t.release a.key = .ok ⟨u, broadcast⟩) :
    Attended u (hearing broadcast as) := by
  obtain ⟨slot, hold, hslot, hleave, -⟩ := h.leave hholding
  obtain ⟨v, c, left, hrelease', hleft, hslots, -, -⟩ := hs.release_at hslot hleave
  obtain ⟨rfl, rfl⟩ : v = u ∧ c = broadcast := by simpa [hrelease'] using hrelease
  have hwaiters : slot.waiters = sleepers as a.key :=
    (h.waiters hslot).trans (sleepers_cons_holding hholding a.key)
  have hother : ∀ {key : String} {r : Slot}, t.slots.get? key = some r → r.hold = .free →
      ∃ b ∈ hearing c as, b.key = key ∧ b.isAwake = true := by
    intro key r hr hfree
    obtain ⟨b, hb, hkey, hawake⟩ := hattended hr hfree
    rcases List.mem_cons.1 hb with rfl | hb
    · simp [Acquire.isAwake, hholding] at hawake
    · cases c with
      | none => exact ⟨b, hb, hkey, hawake⟩
      | some channel =>
        exact ⟨b.hear channel, List.mem_map_of_mem hb, by simpa using hkey,
          Acquire.isAwake_hear hawake⟩
  intro key r hr hfree
  rw [hslots] at hr
  split at hr
  · rename_i hkey
    cases hleft with
    | evicted => cases hr
    | shared other _ hheld =>
      cases hr
      exact absurd hfree hheld
    | woken _ hsome =>
      obtain ⟨b, hb, hsleeps⟩ := sleepers_ne_zero.1 (hwaiters ▸ hsome)
      obtain ⟨s, hs', -, hstanding⟩ := h.slot_of_sleepsOn (List.mem_cons_of_mem a hb) hsleeps
      have hsame : s = slot := Option.some.inj (hs'.symm.trans hslot)
      subst hsame
      refine ⟨b.hear s.channel, List.mem_map_of_mem hb, ?_, ?_⟩
      · rw [Acquire.key_hear, hkey]
        exact Acquire.key_of_sleepsOn hsleeps
      · simp [Acquire.isAwake, Acquire.standing_hear hstanding]
  · exact hother hr hfree

end StatusStore.Lock
