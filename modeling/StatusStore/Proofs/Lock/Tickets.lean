/-
  StatusStore/Proofs/Lock/Tickets.lean
  ====================================
  **Tickets and channels tell waiters apart.**  A waiter that gives up looks its
  key up by name and may meet a slot that has come to the key since; a broadcast
  goes out on a channel that has served other keys before.  Neither does harm:
  the ticket of a key is the ticket of those asleep on it and of nobody who was
  woken, and nobody listens on the channel of an idle slot.

  Tickets may be kept in 64 bits: they are issued in order, so as long as fewer
  than `2 ^ 64` of them have been issued, two that differ also differ in 64 bits.

  Main statement: `Session.run_ticketed`.
-/
import StatusStore.Proofs.Lock.Exclusion
import StatusStore.Proofs.Lock.Progress

namespace StatusStore.Lock

/-- The number of waiters on record for a key; none for a key that is absent. -/
def Table.waitersOn (t : Table) (key : String) : Nat :=
  ((t.slots.get? key).map Slot.waiters).getD 0

def Acquire.woken (a : Acquire) : Acquire :=
  match a.standing with
  | .waiting ticket channel _ => { a with standing := .waiting ticket channel true }
  | .holding => a

/-- Whether nobody but the acquire holds its key. -/
def Session.isLastGuard (s : Session) (a : Acquire) : Bool :=
  (s.remove a.handle).acquires.all fun b => !b.isHolding || b.key ≠ a.key

variable {t : Table} {as : List Acquire} {key : String} {slot : Slot}

theorem guards_eq_zero_iff : guards as key .read = 0 ∧ guards as key .write = 0 ↔
    ∀ b ∈ as, b.isHolding = true → b.key ≠ key := by
  simp only [guards, List.countP_eq_zero, Acquire.guards, Bool.and_eq_true, decide_eq_true_eq]
  constructor
  · rintro ⟨hread, hwrite⟩ b hb hholding hkey
    cases hkind : b.kind with
    | read => exact hread b hb ⟨⟨hholding, hkey⟩, hkind⟩
    | write => exact hwrite b hb ⟨⟨hholding, hkey⟩, hkind⟩
  · intro hnone
    constructor
    · intro b hb hguards
      exact hnone b hb hguards.1.1 hguards.1.2
    · intro b hb hguards
      exact hnone b hb hguards.1.1 hguards.1.2

/-! ### Whom a broadcast reaches -/

/-- The channel of a key wakes those asleep on the key and leaves the others as they are. -/
theorem Accounted.hear_eq {b : Acquire} (hs : t.Sound) (h : Accounted t as)
    (hslot : t.slots.get? key = some slot) (hb : b ∈ as) :
    b.hear slot.channel = if b.sleepsOn key then b.woken else b := by
  have hasleep : ∀ ticket channel, b.standing = .waiting ticket channel false →
      (channel = slot.channel ↔ b.key = key) := by
    intro ticket channel hstanding
    constructor
    · rintro rfl
      exact (h.key_of_channel hs hslot hb hstanding).1
    · intro hkey
      obtain ⟨r, hr, -, -, hchannel⟩ := h.asleep hb hstanding
      rw [hkey, hslot] at hr
      cases hr
      exact hchannel.symm
  obtain ⟨handle, own, kind, standing⟩ := b
  cases standing with
  | holding => rfl
  | waiting ticket channel woken =>
    cases woken with
    | true => simp [Acquire.hear, Acquire.sleepsOn, Acquire.isAsleep]
    | false =>
      have hreaches := hasleep ticket channel rfl
      by_cases hkey : own = key
      · have hheard : channel = slot.channel := hreaches.2 hkey
        simp [Acquire.hear, Acquire.sleepsOn, Acquire.isAsleep, Acquire.woken, hheard, hkey]
      · have hdeaf : channel ≠ slot.channel := fun hsame => hkey (hreaches.1 hsame)
        simp [Acquire.hear, Acquire.sleepsOn, Acquire.isAsleep, hkey, hdeaf]

namespace Session

variable {s : Session} {a : Acquire}

theorem Sound.isLastGuard_iff {hold : Hold} (htallies : hold.Tallies
    (guards (s.remove a.handle).acquires a.key)) : s.isLastGuard a = true ↔ hold = .free := by
  rw [htallies.free_iff, guards_eq_zero_iff, isLastGuard, List.all_eq_true]
  refine forall₂_congr fun b _ => ?_
  cases b.isHolding <;> simp

/-- A guard that goes wakes everyone asleep on its key if it was the last one, and nobody else. -/
theorem Sound.acquires_drop_guard (h : s.Sound) (ha : a ∈ s.acquires)
    (hholding : a.standing = .holding) :
    (s.drop a.handle).2.acquires = (s.remove a.handle).acquires.map fun b =>
      if s.isLastGuard a && b.sleepsOn a.key then b.woken else b := by
  obtain ⟨-, hperm, -⟩ := perm_of_find? h.handles (h.find?_of_mem ha)
  have haccounted := h.accounted.perm hperm
  obtain ⟨slot, hold, hslot, hleave, htallies⟩ := haccounted.leave hholding
  obtain ⟨table, broadcast, left, hrelease, hleft, -⟩ := h.table.release_at hslot hleave
  have hlast := Sound.isLastGuard_iff htallies
  have hheard : (s.drop a.handle).2.acquires = hearing broadcast (s.remove a.handle).acquires := by
    simp only [drop, h.find?_of_mem ha, hholding, hrelease]
    cases broadcast <;> rfl
  have hquiet : (∀ b ∈ (s.remove a.handle).acquires,
        (s.isLastGuard a && b.sleepsOn a.key) = false) →
      (s.remove a.handle).acquires = (s.remove a.handle).acquires.map fun b =>
        if s.isLastGuard a && b.sleepsOn a.key then b.woken else b := by
    intro hnobody
    rw [List.map_congr_left fun b hb => if_neg (by simp [hnobody b hb]), List.map_id']
  rw [hheard]
  cases hleft with
  | evicted hfree halone =>
    have hnobody : sleepers (s.remove a.handle).acquires a.key = 0 := by
      rw [← sleepers_cons_holding hholding, ← haccounted.waiters hslot, halone]
    refine hquiet fun b hb => ?_
    simp [List.countP_eq_zero.1 hnobody b hb]
  | shared other hother hheld =>
    obtain rfl : hold = other := Option.some.inj (hleave.symm.trans hother)
    refine hquiet fun b hb => ?_
    have hothers : s.isLastGuard a = false := Bool.eq_false_iff.2 fun htrue => hheld (hlast.1 htrue)
    rw [hothers, Bool.false_and]
  | woken hfree hsome =>
    obtain rfl : hold = .free := Option.some.inj (hleave.symm.trans hfree)
    refine List.map_congr_left fun b hb => ?_
    rw [hlast.2 rfl, Bool.true_and]
    exact haccounted.hear_eq h.table hslot (List.mem_cons_of_mem a hb)

/-! ### Whom a waiter discounts -/

theorem Sound.waitersOn_eq (h : s.Sound) (key : String) :
    s.table.waitersOn key = sleepers s.acquires key := by
  rw [Table.waitersOn]
  cases hslot : s.table.slots.get? key with
  | some slot => exact h.accounted.waiters hslot
  | none => exact (h.accounted.sleepers_of_free (Table.holdOf_of_absent hslot)).symm

/-- A waiter that withdraws takes itself off the record, if it was on it, and nobody else. -/
theorem Sound.waitersOn_drop_waiter (h : s.Sound) (ha : a ∈ s.acquires)
    (hwaiting : a.isWaiting = true) :
    (s.drop a.handle).2.acquires = (s.remove a.handle).acquires ∧
      ∀ key, (s.drop a.handle).2.table.waitersOn key + (if a.sleepsOn key then 1 else 0) =
        s.table.waitersOn key := by
  obtain ⟨-, hperm, -⟩ := perm_of_find? h.handles (h.find?_of_mem ha)
  have hrest : (s.drop a.handle).2.acquires = (s.remove a.handle).acquires := by
    cases hstanding : a.standing with
    | holding => simp [Acquire.isWaiting, Acquire.isHolding, hstanding] at hwaiting
    | waiting ticket channel woken => simp [drop, h.find?_of_mem ha, hstanding, remove]
  refine ⟨hrest, fun key => ?_⟩
  have hafter : (s.drop a.handle).2.Sound := h.step (.drop a.handle)
  rw [hafter.waitersOn_eq, h.waitersOn_eq, hrest, sleepers, sleepers, hperm.countP_eq,
    List.countP_cons]

/-! ### Every run -/

/-- What the tickets and the channels of a session are good for. -/
structure Ticketed (s : Session) : Prop where
  /-- The waiters on record for a key are those asleep on it, -/
  counted : ∀ key slot, s.table.slots.get? key = some slot →
    slot.waiters = sleepers s.acquires key
  /-- who have the ticket of the key and listen on its channel. -/
  current : ∀ a ∈ s.acquires, ∀ ticket channel, a.standing = .waiting ticket channel false →
    ∃ slot, s.table.slots.get? a.key = some slot ∧ slot.ticket = ticket ∧ slot.channel = channel
  /-- Whoever was woken has a ticket that no key has. -/
  spent : ∀ a ∈ s.acquires, ∀ ticket channel, a.standing = .waiting ticket channel true →
    ∀ key slot, s.table.slots.get? key = some slot → slot.ticket.toUInt64 ≠ ticket.toUInt64
  /-- So a waiter that finds its own ticket has not been woken, and there is one to be taken off. -/
  covered : ∀ a ∈ s.acquires, ∀ ticket channel woken, a.standing = .waiting ticket channel woken →
    ∀ slot, s.table.slots.get? a.key = some slot → slot.ticket.toUInt64 = ticket.toUInt64 →
      woken = false ∧ 0 < slot.waiters
  /-- Whoever withdraws is taken off the record if it was on it, and nobody else is. -/
  withdrawn : ∀ a ∈ s.acquires, a.isWaiting = true →
    (s.drop a.handle).2.acquires = (s.remove a.handle).acquires ∧
      ∀ key, (s.drop a.handle).2.table.waitersOn key + (if a.sleepsOn key then 1 else 0) =
        s.table.waitersOn key
  /-- An idle slot is unlocked, without waiters, and nobody listens on its channel. -/
  idle : ∀ slot ∈ s.table.pool.slots, slot.hold = .free ∧ slot.waiters = 0 ∧
    ∀ a ∈ s.acquires, ∀ ticket, a.standing ≠ .waiting ticket slot.channel false
  /-- So the last guard of a key wakes those asleep on the key and nobody else, and the others wake
  nobody. -/
  woken : ∀ a ∈ s.acquires, a.isHolding = true →
    (s.drop a.handle).2.acquires = (s.remove a.handle).acquires.map fun b =>
      if s.isLastGuard a && b.sleepsOn a.key then b.woken else b

/-- The ticket of somebody woken is spent, in 64 bits as well. -/
theorem Sound.toUInt64_ne (h : s.Sound) (hissued : s.table.lastTicket < UInt64.size)
    (ha : a ∈ s.acquires) {ticket channel : Nat}
    (hstanding : a.standing = .waiting ticket channel true)
    (hslot : s.table.slots.get? key = some slot) : slot.ticket.toUInt64 ≠ ticket.toUInt64 := by
  obtain ⟨hle, hother⟩ := h.accounted.awake ha hstanding
  have hslotle : slot.ticket ≤ s.table.lastTicket := h.table.ticket_le hslot
  intro hsame
  apply hother hslot
  have hnat := congrArg UInt64.toNat hsame
  simp only [Nat.toUInt64] at hnat
  rw [UInt64.toNat_ofNat_of_lt' (Nat.lt_of_le_of_lt hslotle hissued),
    UInt64.toNat_ofNat_of_lt' (Nat.lt_of_le_of_lt hle hissued)] at hnat
  exact hnat

theorem Sound.ticketed (h : s.Sound) (hissued : s.table.lastTicket < UInt64.size) : s.Ticketed where
  counted key slot hslot := h.accounted.waiters hslot
  current a ha ticket channel hstanding := by
    obtain ⟨slot, hslot, -, hticket, hchannel⟩ := h.accounted.asleep ha hstanding
    exact ⟨slot, hslot, hticket, hchannel⟩
  spent a ha ticket channel hstanding key slot hslot := h.toUInt64_ne hissued ha hstanding hslot
  covered a ha ticket channel woken hstanding slot hslot hsame := by
    cases woken with
    | true => exact absurd hsame (h.toUInt64_ne hissued ha hstanding hslot)
    | false =>
      refine ⟨rfl, ?_⟩
      rw [h.accounted.waiters hslot, Nat.pos_iff_ne_zero, sleepers_ne_zero]
      exact ⟨a, ha, by simp [Acquire.sleepsOn, Acquire.isAsleep, hstanding]⟩
  withdrawn a ha hwaiting := h.waitersOn_drop_waiter ha hwaiting
  idle slot hslot := by
    obtain ⟨hfree, halone⟩ := h.table.idle slot hslot
    refine ⟨hfree, halone, fun a ha ticket hstanding => ?_⟩
    obtain ⟨r, hr, -, -, hchannel⟩ := h.accounted.asleep ha hstanding
    exact h.table.idle_apart hr slot hslot hchannel
  woken a ha hholding := h.acquires_drop_guard ha (by simpa [Acquire.isHolding] using hholding)

/-- After any run that has issued fewer than `2 ^ 64` tickets, the tickets and the channels do what
they are for. -/
theorem run_ticketed (frequency : UInt32) (steps : List Step)
    (hissued : ((withGcFrequency frequency).run steps).2.table.lastTicket < UInt64.size) :
    ((withGcFrequency frequency).run steps).2.Ticketed :=
  (run_sound frequency steps).ticketed hissued

/-- The slot of one key goes on to another, where two waiters are woken and a newcomer is asleep. -/
def recycling : List Step :=
  [.acquire 0 "j" .write, .drop 0, .acquire 1 "k" .write, .acquire 2 "k" .write,
    .acquire 3 "k" .read, .drop 1, .acquire 4 "k" .write, .acquire 5 "k" .read]

theorem run_ticketed_recycling :
    ((withGcFrequency 16).run recycling).2.table.lastTicket < UInt64.size ∧
      ((withGcFrequency 16).run recycling).2.Ticketed := by
  have hissued : ((withGcFrequency 16).run recycling).2.table.lastTicket < UInt64.size := by
    decide +kernel
  exact ⟨hissued, run_ticketed 16 recycling hissued⟩

end Session

end StatusStore.Lock
