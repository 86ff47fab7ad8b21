/-
  StatusStore/Proofs/Lock/Accounts.lean
  =====================================
  **The books of a lock table.**  A table records of each key who holds it and
  how many wait for it.  Here the records are compared with the acquires
  themselves: `Accounted` says that the hold of a key is the tally of its live
  guards, that its waiters are the acquires asleep on it, that whoever sleeps
  does so on the channel of a held key, and that whoever was woken has a ticket
  that no slot carries any more.

  Main statements: `attempt_accounted` and `withdraw_accounted` say that an
  acquire that comes and a waiter that goes leave right books.  Each speaks of
  one acquire in front of the others, whose order does not matter.  How a guard
  goes is the matter of `StatusStore.Proofs.Lock.Broadcast`.
-/
import StatusStore.Lock.Session
import StatusStore.Proofs.Lock.Slots

namespace StatusStore.Lock

/-! ### Holds against numbers of guards -/

/-- The numbers of readers and writers that a hold stands for. -/
def Hold.Tallies : Hold → (Kind → Nat) → Prop
  | .free, n => n .read = 0 ∧ n .write = 0
  | .readers count, n => n .read = count ∧ 0 < count ∧ n .write = 0
  | .writer, n => n .read = 0 ∧ n .write = 1

theorem Hold.Tallies.enter {h k : Hold} {n : Kind → Nat} {kind : Kind} (hn : h.Tallies n)
    (henter : h.enter? kind = some k) :
    k.Tallies fun other => n other + if kind = other then 1 else 0 := by
  cases h <;> cases kind <;> simp [Hold.enter?] at henter <;> subst henter <;>
    simp_all [Hold.Tallies]

theorem Hold.enter?_some {h k : Hold} {kind : Kind} (henter : h.enter? kind = some k) :
    k ≠ .free := by
  rintro rfl
  cases h <;> cases kind <;> simp [Hold.enter?] at henter

theorem Hold.enter?_none {h : Hold} {kind : Kind} (henter : h.enter? kind = none) :
    h ≠ .free := by
  rintro rfl
  cases kind <;> simp [Hold.enter?] at henter

/-- A hold that counts a guard can be left by it. -/
theorem Hold.Tallies.leave {h : Hold} {n : Kind → Nat} {kind : Kind}
    (hn : h.Tallies fun other => n other + if kind = other then 1 else 0) :
    ∃ k, h.leave? = some k ∧ k.Tallies n := by
  match h with
  | .free => cases kind <;> simp [Hold.Tallies] at hn
  | .readers 0 => exact absurd hn.2.1 (Nat.lt_irrefl 0)
  | .readers 1 => cases kind <;> simp_all [Hold.Tallies, Hold.leave?]
  | .readers (count + 2) => cases kind <;> simp_all [Hold.Tallies, Hold.leave?]
  | .writer => cases kind <;> simp_all [Hold.Tallies, Hold.leave?]

theorem Hold.Tallies.free_iff {h : Hold} {n : Kind → Nat} (hn : h.Tallies n) :
    h = .free ↔ n .read = 0 ∧ n .write = 0 := by
  cases h with
  | free => simpa [Hold.Tallies] using hn
  | readers count =>
    obtain ⟨hread, hpos, -⟩ := hn
    simp only [reduceCtorEq, false_iff]
    omega
  | writer =>
    obtain ⟨-, hwrite⟩ := hn
    simp [hwrite]

/-! ### What is counted -/

namespace Acquire

def isAsleep (a : Acquire) : Bool :=
  match a.standing with
  | .waiting _ _ woken => !woken
  | .holding => false

def isAwake (a : Acquire) : Bool :=
  match a.standing with
  | .waiting _ _ woken => woken
  | .holding => false

def guards (a : Acquire) (key : String) (kind : Kind) : Bool :=
  a.isHolding && a.key = key && a.kind = kind

def sleepsOn (a : Acquire) (key : String) : Bool := a.isAsleep && a.key = key

end Acquire

def guards (as : List Acquire) (key : String) (kind : Kind) : Nat :=
  as.countP (·.guards key kind)

def sleepers (as : List Acquire) (key : String) : Nat := as.countP (·.sleepsOn key)

def Attempt.standing : Attempt → Standing
  | .granted => .holding
  | .registered ticket channel => .waiting ticket channel false

variable {t : Table} {a : Acquire} {as : List Acquire}

theorem guards_cons_holding (h : a.standing = .holding) (key : String) (kind : Kind) :
    guards (a :: as) key kind = guards as key kind + if a.key = key ∧ a.kind = kind then 1 else 0 := by
  simp [guards, List.countP_cons, Acquire.guards, Acquire.isHolding, h]

theorem guards_cons_waiting {ticket channel : Nat} {woken : Bool}
    (h : a.standing = .waiting ticket channel woken) (key : String) (kind : Kind) :
    guards (a :: as) key kind = guards as key kind := by
  simp [guards, Acquire.guards, Acquire.isHolding, h]

theorem sleepers_cons_asleep {ticket channel : Nat}
    (h : a.standing = .waiting ticket channel false) (key : String) :
    sleepers (a :: as) key = sleepers as key + if a.key = key then 1 else 0 := by
  simp [sleepers, List.countP_cons, Acquire.sleepsOn, Acquire.isAsleep, h]

theorem sleepers_cons_awake {ticket channel : Nat}
    (h : a.standing = .waiting ticket channel true) (key : String) :
    sleepers (a :: as) key = sleepers as key := by
  simp [sleepers, Acquire.sleepsOn, Acquire.isAsleep, h]

theorem sleepers_cons_holding (h : a.standing = .holding) (key : String) :
    sleepers (a :: as) key = sleepers as key := by
  simp [sleepers, Acquire.sleepsOn, Acquire.isAsleep, h]

theorem guards_cons_other {key : String} (h : a.key ≠ key) : guards (a :: as) key = guards as key := by
  funext kind
  simp [guards, Acquire.guards, h]

theorem sleepers_cons_other {key : String} (h : a.key ≠ key) :
    sleepers (a :: as) key = sleepers as key := by
  simp [sleepers, Acquire.sleepsOn, h]

/-! ### The books -/

/-- The records of a table agree with the acquires in progress. -/
structure Accounted (t : Table) (as : List Acquire) : Prop where
  holds : ∀ key, (t.holdOf key).Tallies (guards as key)
  waiters : ∀ {key : String} {slot : Slot},
    t.slots.get? key = some slot → slot.waiters = sleepers as key
  asleep : ∀ {a : Acquire} {ticket channel : Nat}, a ∈ as →
    a.standing = .waiting ticket channel false →
    ∃ slot, t.slots.get? a.key = some slot ∧ slot.hold ≠ .free ∧ slot.ticket = ticket ∧
      slot.channel = channel
  awake : ∀ {a : Acquire} {ticket channel : Nat}, a ∈ as →
    a.standing = .waiting ticket channel true →
    ticket ≤ t.lastTicket ∧ ∀ {key : String} {slot : Slot},
      t.slots.get? key = some slot → slot.ticket ≠ ticket

/-- A key that is present and free has somebody who was woken on it. -/
def Attended (t : Table) (as : List Acquire) : Prop :=
  ∀ {key : String} {slot : Slot}, t.slots.get? key = some slot → slot.hold = .free →
    ∃ a ∈ as, a.key = key ∧ a.isAwake = true

theorem Accounted.perm {bs : List Acquire} (h : Accounted t as) (p : as.Perm bs) :
    Accounted t bs where
  holds key := by
    have hguards : guards bs key = guards as key := funext fun kind => (p.countP_eq _).symm
    rw [hguards]
    exact h.holds key
  waiters hslot := (h.waiters hslot).trans (p.countP_eq _)
  asleep ha := h.asleep (p.mem_iff.2 ha)
  awake ha := h.awake (p.mem_iff.2 ha)

theorem Attended.perm {bs : List Acquire} (h : Attended t as) (p : as.Perm bs) :
    Attended t bs := by
  intro key slot hslot hfree
  obtain ⟨a, ha, hkey, hawake⟩ := h hslot hfree
  exact ⟨a, p.mem_iff.1 ha, hkey, hawake⟩

theorem Accounted.dismiss {ticket channel : Nat} (h : Accounted t (a :: as))
    (ha : a.standing = .waiting ticket channel true) : Accounted t as where
  holds key := by
    have hguards : guards (a :: as) key = guards as key :=
      funext fun kind => guards_cons_waiting ha key kind
    exact hguards ▸ h.holds key
  waiters {key _} hslot := (h.waiters hslot).trans (sleepers_cons_awake ha key)
  asleep hb := h.asleep (List.mem_cons_of_mem a hb)
  awake hb := h.awake (List.mem_cons_of_mem a hb)

/-- Whoever sleeps has the current ticket and the channel of its key, and the key is held. -/
theorem Accounted.slot_of_sleepsOn {key : String} (h : Accounted t as) (ha : a ∈ as)
    (hsleeps : a.sleepsOn key = true) :
    ∃ slot, t.slots.get? key = some slot ∧ slot.hold ≠ .free ∧
      a.standing = .waiting slot.ticket slot.channel false := by
  simp only [Acquire.sleepsOn, Acquire.isAsleep, Bool.and_eq_true, decide_eq_true_eq] at hsleeps
  obtain ⟨hasleep, hkey⟩ := hsleeps
  split at hasleep
  · rename_i ticket channel woken hstanding
    cases woken with
    | true => cases hasleep
    | false =>
      obtain ⟨slot, hslot, hheld, rfl, rfl⟩ := h.asleep ha hstanding
      exact ⟨slot, hkey ▸ hslot, hheld, hstanding⟩
  · cases hasleep

theorem sleepers_ne_zero {key : String} : sleepers as key ≠ 0 ↔ ∃ a ∈ as, a.sleepsOn key = true := by
  rw [sleepers, Nat.ne_zero_iff_zero_lt, List.countP_pos_iff]

/-- Nobody sleeps on a key that is absent or free. -/
theorem Accounted.sleepers_of_free {key : String} (h : Accounted t as)
    (hfree : t.holdOf key = .free) : sleepers as key = 0 := by
  by_cases hzero : sleepers as key = 0
  · exact hzero
  · obtain ⟨a, ha, hsleeps⟩ := sleepers_ne_zero.1 hzero
    obtain ⟨slot, hslot, hheld, -⟩ := h.slot_of_sleepsOn ha hsleeps
    exact absurd (Table.holdOf_of_get? hslot ▸ hfree) hheld

/-! ### One acquire more -/

/-- What the slot that stands for a key counts as waiting are those asleep on the key. -/
theorem Accounted.waiters_stands {u : Table} {key : String} {slot : Slot} (h : Accounted t as)
    (hstands : t.Stands u key slot) : slot.waiters = sleepers as key := by
  rcases hstands.origin with hslot | ⟨habsent, halone, -⟩
  · exact h.waiters hslot
  · exact halone.trans (h.sleepers_of_free (Table.holdOf_of_absent habsent)).symm

/-- The books stay right if a new acquire is entered together with its effect on its slot: the slot
is held, and the acquire is a guard of it or asleep on its channel. -/
theorem Accounted.enter {u : Table} {slot r : Slot} (h : Accounted t as)
    (hstands : t.Stands u a.key slot) (ticket : r.ticket = slot.ticket)
    (channel : r.channel = slot.channel) (held : r.hold ≠ .free)
    (holds : r.hold.Tallies (guards (a :: as) a.key))
    (waiters : r.waiters = sleepers (a :: as) a.key)
    (standing : a.standing = .holding ∨ a.standing = .waiting slot.ticket slot.channel false) :
    Accounted (u.place a.key r) (a :: as) where
  holds key := by
    rw [Table.holdOf_place]
    split
    · rename_i hkey
      exact hkey ▸ holds
    · rename_i hkey
      have hsame : u.holdOf key = t.holdOf key := by simp only [Table.holdOf, hstands.slots]
      rw [hsame, guards_cons_other (Ne.symm hkey)]
      exact h.holds key
  waiters {key _} hslot := by
    rw [Table.get?_place] at hslot
    split at hslot
    · rename_i hkey
      cases hslot
      exact hkey ▸ waiters
    · rename_i hkey
      rw [hstands.slots] at hslot
      rw [sleepers_cons_other (Ne.symm hkey)]
      exact h.waiters hslot
  asleep {b _ _} hb hstanding := by
    rw [Table.get?_place]
    rcases List.mem_cons.1 hb with rfl | hb
    · rw [if_pos rfl]
      rcases standing with hholding | hasleep
      · rw [hholding] at hstanding
        cases hstanding
      · rw [hasleep] at hstanding
        cases hstanding
        exact ⟨r, rfl, held, ticket, channel⟩
    · obtain ⟨s, hs, hheld, hticket, hchannel⟩ := h.asleep hb hstanding
      split
      · rename_i hkey
        rcases hstands.origin with hslot | ⟨habsent, -, -⟩
        · have : s = slot := Option.some.inj (hs.symm.trans (hkey ▸ hslot))
          subst this
          exact ⟨r, rfl, held, ticket.trans hticket, channel.trans hchannel⟩
        · rw [hkey, habsent] at hs
          cases hs
      · exact ⟨s, hstands.slots ▸ hs, hheld, hticket, hchannel⟩
  awake {b _ _} hb hstanding := by
    rcases List.mem_cons.1 hb with rfl | hb
    · rcases standing with hother | hother <;> rw [hother] at hstanding <;> cases hstanding
    · obtain ⟨hle, hne⟩ := h.awake hb hstanding
      refine ⟨Nat.le_trans hle hstands.lastTicket_le, fun {key s} hs => ?_⟩
      rw [Table.get?_place] at hs
      split at hs
      · cases hs
        rcases hstands.origin with hslot | ⟨-, -, hfresh⟩
        · exact ticket ▸ hne hslot
        · omega
      · exact hne (hstands.slots ▸ hs)

/-- An attempt keeps the books if the acquire that made it is entered as it was answered. -/
theorem attempt_accounted (hs : t.Sound) (h : Accounted t as) (handle : Nat) (key : String)
    (kind : Kind) :
    Accounted (t.attempt key kind).2
      (⟨handle, key, kind, (t.attempt key kind).1.standing⟩ :: as) := by
  obtain ⟨u, slot, hstands, hattempt⟩ := hs.attempt_at key kind
  have hwaiters := h.waiters_stands hstands
  have hholds : slot.hold.Tallies (guards as key) := hstands.hold ▸ h.holds key
  rcases hattempt with ⟨hold, henter, hattempt⟩ | ⟨henter, hattempt⟩
  · rw [hattempt]
    have hguards : guards (⟨handle, key, kind, .holding⟩ :: as) key =
        fun other => guards as key other + if kind = other then 1 else 0 := by
      funext other
      simp [guards_cons_holding]
    refine h.enter (a := ⟨handle, key, kind, .holding⟩) hstands rfl rfl
      (Hold.enter?_some henter) ?_ ?_ (Or.inl rfl)
    · rw [hguards]
      exact hholds.enter henter
    · exact hwaiters.trans (sleepers_cons_holding rfl key).symm
  · rw [hattempt]
    have hguards : guards (⟨handle, key, kind, .waiting slot.ticket slot.channel false⟩ :: as) key =
        guards as key :=
      funext fun other => guards_cons_waiting rfl key other
    refine h.enter (a := ⟨handle, key, kind, .waiting slot.ticket slot.channel false⟩) hstands rfl
      rfl (Hold.enter?_none henter) ?_ ?_ (Or.inr rfl)
    · rw [hguards]
      exact hholds
    · rw [sleepers_cons_asleep rfl, if_pos rfl, hwaiters]

/-- After an attempt its key is held; so whoever is awake on a free key had been so before. -/
theorem attempt_attended {bs : List Acquire} {key : String} {kind : Kind} (hs : t.Sound)
    (h : Attended t bs) (keep : ∀ b ∈ bs, b.key ≠ key → b ∈ as) :
    Attended (t.attempt key kind).2 as := by
  obtain ⟨u, slot, hstands, hattempt⟩ := hs.attempt_at key kind
  have hplaced : ∃ r : Slot, r.hold ≠ .free ∧ (t.attempt key kind).2 = u.place key r := by
    rcases hattempt with ⟨hold, henter, hattempt⟩ | ⟨henter, hattempt⟩
    · exact ⟨_, Hold.enter?_some henter, congrArg Prod.snd hattempt⟩
    · exact ⟨{ slot with waiters := slot.waiters + 1 }, Hold.enter?_none henter,
        congrArg Prod.snd hattempt⟩
  obtain ⟨r, hheld, hplaced⟩ := hplaced
  intro k s hs hfree
  rw [hplaced, Table.get?_place] at hs
  split at hs
  · cases hs
    exact absurd hfree hheld
  · rename_i hkey
    obtain ⟨b, hb, hbkey, hawake⟩ := h (hstands.slots ▸ hs) hfree
    exact ⟨b, keep b hb (hbkey ▸ hkey), hbkey, hawake⟩

/-! ### One acquire less -/

/-- The books stay right if an acquire is struck off together with its effect on its slot: the slot
leaves, with nobody on its key, or it stays with the ticket and channel that it had. -/
theorem Accounted.exit {u : Table} {slot : Slot} {left : Option Slot} (h : Accounted t (a :: as))
    (hslot : t.slots.get? a.key = some slot)
    (slots : ∀ k, u.slots.get? k = if k = a.key then left else t.slots.get? k)
    (tickets : t.lastTicket ≤ u.lastTicket)
    (gone : left = none → Hold.free.Tallies (guards as a.key) ∧ sleepers as a.key = 0)
    (stays : ∀ r, left = some r → r.ticket = slot.ticket ∧ r.channel = slot.channel ∧
      r.hold.Tallies (guards as a.key) ∧ r.waiters = sleepers as a.key ∧
      (sleepers as a.key ≠ 0 → r.hold ≠ .free)) : Accounted u as where
  holds key := by
    by_cases hkey : key = a.key
    · subst hkey
      simp only [Table.holdOf, slots, if_pos]
      cases left with
      | none => exact (gone rfl).1
      | some r => exact (stays r rfl).2.2.1
    · have hsame : u.holdOf key = t.holdOf key := by simp only [Table.holdOf, slots, if_neg hkey]
      rw [hsame, ← guards_cons_other (Ne.symm hkey)]
      exact h.holds key
  waiters {key r} hr := by
    rw [slots] at hr
    split at hr
    · rename_i hkey
      exact hkey ▸ (stays r hr).2.2.2.1
    · rename_i hkey
      rw [← sleepers_cons_other (Ne.symm hkey)]
      exact h.waiters hr
  asleep {b ticket channel} hb hstanding := by
    obtain ⟨s, hs, hheld, hticket, hchannel⟩ := h.asleep (List.mem_cons_of_mem a hb) hstanding
    rw [slots]
    split
    · rename_i hkey
      have hsleeps : sleepers as a.key ≠ 0 :=
        sleepers_ne_zero.2 ⟨b, hb, by simp [Acquire.sleepsOn, Acquire.isAsleep, hstanding, hkey]⟩
      have hsame : s = slot := Option.some.inj (hs.symm.trans (hkey ▸ hslot))
      subst hsame
      cases left with
      | none => exact absurd (gone rfl).2 hsleeps
      | some r =>
        obtain ⟨hrticket, hrchannel, -, -, hrheld⟩ := stays r rfl
        exact ⟨r, rfl, hrheld hsleeps, hrticket.trans hticket, hrchannel.trans hchannel⟩
    · exact ⟨s, hs, hheld, hticket, hchannel⟩
  awake {b ticket channel} hb hstanding := by
    obtain ⟨hle, hne⟩ := h.awake (List.mem_cons_of_mem a hb) hstanding
    refine ⟨Nat.le_trans hle tickets, fun {key r} hr => ?_⟩
    rw [slots] at hr
    split at hr
    · exact (stays r hr).1 ▸ hne hslot
    · exact hne hr

theorem Accounted.withdrawn_waiters {slot : Slot} {ticket channel : Nat} {woken : Bool}
    (h : Accounted t (a :: as)) (hslot : t.slots.get? a.key = some slot)
    (hwaiting : a.standing = .waiting ticket channel woken) :
    (slot.withdrawn ticket).waiters = sleepers as a.key := by
  have hwaiters := h.waiters hslot
  cases woken with
  | true =>
    have hother : slot.ticket ≠ ticket := (h.awake List.mem_cons_self hwaiting).2 hslot
    rw [sleepers_cons_awake hwaiting] at hwaiters
    simp [Slot.withdrawn, hother, hwaiters]
  | false =>
    obtain ⟨s, hs, -, hticket, -⟩ := h.asleep List.mem_cons_self hwaiting
    have hsame : s = slot := Option.some.inj (hs.symm.trans hslot)
    rw [sleepers_cons_asleep hwaiting, if_pos rfl] at hwaiters
    simp [Slot.withdrawn, ← hsame, hticket, hsame ▸ hwaiters]

/-- A waiter that withdraws leaves right books. -/
theorem withdraw_accounted {ticket channel : Nat} {woken : Bool} (hs : t.Sound)
    (h : Accounted t (a :: as)) (hwaiting : a.standing = .waiting ticket channel woken) :
    Accounted (t.withdraw a.key ticket) as := by
  cases hslot : t.slots.get? a.key with
  | none =>
    rw [Table.withdraw_absent hslot]
    cases woken with
    | true => exact h.dismiss hwaiting
    | false =>
      obtain ⟨s, hs, -⟩ := h.asleep List.mem_cons_self hwaiting
      rw [hslot] at hs
      cases hs
  | some slot =>
    obtain ⟨hslots, htickets, -⟩ := hs.withdraw_at hslot ticket
    have hwaiters := h.withdrawn_waiters hslot hwaiting
    have hholds : slot.hold.Tallies (guards as a.key) := by
      have hguards : guards (a :: as) a.key = guards as a.key :=
        funext fun kind => guards_cons_waiting hwaiting a.key kind
      rw [← hguards, ← Table.holdOf_of_get? hslot]
      exact h.holds a.key
    refine h.exit hslot hslots (Nat.le_of_eq htickets.symm) ?_ ?_
    · intro hnone
      split at hnone
      · rename_i hidle
        exact ⟨hidle.2 ▸ hholds, hwaiters ▸ hidle.1⟩
      · cases hnone
    · intro r hr
      split at hr
      · cases hr
      · cases hr
        refine ⟨rfl, rfl, hholds, hwaiters, fun hsleeps => ?_⟩
        obtain ⟨b, hb, hbsleeps⟩ := sleepers_ne_zero.1 hsleeps
        obtain ⟨s, hs, hheld, -⟩ := h.slot_of_sleepsOn (List.mem_cons_of_mem a hb) hbsleeps
        exact Option.some.inj (hs.symm.trans hslot) ▸ hheld

/-- Whoever leaves a free key without waiters behind takes it out of the table, so a free key that
stays is attended as before. -/
theorem withdraw_attended {ticket channel : Nat} {woken : Bool} (hs : t.Sound)
    (h : Accounted t (a :: as)) (hattended : Attended t (a :: as))
    (hwaiting : a.standing = .waiting ticket channel woken) :
    Attended (t.withdraw a.key ticket) as := by
  intro key r hr hfree
  have hsome : ∀ {s : Slot}, t.slots.get? key = some s → s.hold = .free → key ≠ a.key →
      ∃ b ∈ as, b.key = key ∧ b.isAwake = true := by
    intro s hs hsfree hother
    obtain ⟨b, hb, hkey, hawake⟩ := hattended hs hsfree
    rcases List.mem_cons.1 hb with rfl | hb
    · exact absurd hkey.symm hother
    · exact ⟨b, hb, hkey, hawake⟩
  cases hslot : t.slots.get? a.key with
  | none =>
    rw [Table.withdraw_absent hslot] at hr
    apply hsome hr hfree
    rintro rfl
    rw [hslot] at hr
    cases hr
  | some slot =>
    obtain ⟨hslots, -, -⟩ := hs.withdraw_at hslot ticket
    have hwaiters := h.withdrawn_waiters hslot hwaiting
    have hzero : t.holdOf a.key = .free → sleepers as a.key = 0 := by
      intro hheld
      have hnone := h.sleepers_of_free hheld
      rw [sleepers, List.countP_cons] at hnone
      exact Nat.eq_zero_of_add_eq_zero_right hnone
    rw [hslots] at hr
    split at hr
    · split at hr
      · cases hr
      · rename_i hstay
        cases hr
        have hslotfree : slot.hold = .free := hfree
        exact absurd ⟨hwaiters.trans (hzero ((Table.holdOf_of_get? hslot).trans hslotfree)),
          hslotfree⟩ hstay
    · rename_i hother
      exact hsome hr hfree hother

end StatusStore.Lock
