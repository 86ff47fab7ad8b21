/-
  StatusStore/Proofs/Lock/Slots.lean
  ==================================
  **Slots never get mixed up.**  A slot wanders between keys and the pool, and
  two things tell its stays apart: its channel, which no other slot has, and its
  ticket, which no other present slot has.  `Table.Sound` says so, together with
  what makes an idle slot fit for reuse: nobody holds it and nobody is counted
  as waiting for it.

  Main statements: `Sound.attempt_at`, `Sound.release_at` and `Sound.withdraw_at`
  say what each of the three operations of a table does to the one slot that it
  touches, and that the table stays sound.
-/
import StatusStore.Lock.Table

namespace StatusStore.Lock

/-! ### The pool as one list -/

/-- All idle slots, in the order in which they are taken. -/
def Pool.slots (p : Pool) : List Slot := p.current ++ p.old

/-- A slot is taken out of the current generation, and out of the old one when that is empty. -/
theorem Pool.take?_eq_some {p q : Pool} {slot : Slot} (h : p.take? = some (slot, q)) :
    p.current = slot :: q.current ∧ p.old = q.old ∨
      p.current = [] ∧ q.current = [] ∧ p.old = slot :: q.old := by
  obtain ⟨current, old⟩ := p
  cases current with
  | cons first rest =>
    obtain ⟨rfl, rfl⟩ : first = slot ∧ _ = q := by simpa [take?] using h
    exact Or.inl ⟨rfl, rfl⟩
  | nil =>
    cases old with
    | cons first rest =>
      obtain ⟨rfl, rfl⟩ : first = slot ∧ _ = q := by simpa [take?] using h
      exact Or.inr ⟨rfl, rfl, rfl⟩
    | nil => simp [take?] at h

theorem Pool.slots_take? {p q : Pool} {slot : Slot} (h : p.take? = some (slot, q)) :
    p.slots = slot :: q.slots := by
  rcases take?_eq_some h with ⟨hcurrent, hold⟩ | ⟨hcurrent, hrest, hold⟩
  · rw [slots, slots, hcurrent, hold, List.cons_append]
  · rw [slots, slots, hcurrent, hrest, hold, List.nil_append, List.nil_append]

@[simp] theorem Pool.slots_put (p : Pool) (slot : Slot) : (p.put slot).slots = slot :: p.slots :=
  rfl

theorem Pool.slots_rotate (p : Pool) : p.rotate.slots.Sublist p.slots := by
  simp only [slots, rotate, List.nil_append]
  exact List.sublist_append_left p.current p.old

def Slot.withdrawn (slot : Slot) (ticket : Nat) : Slot :=
  { slot with waiters := if slot.ticket = ticket then slot.waiters - 1 else slot.waiters }

namespace Table

/-- The recorded hold of a key; a key that is absent is free. -/
def holdOf (t : Table) (key : String) : Hold := ((t.slots.get? key).map Slot.hold).getD .free

def issued (t : Table) : Table := { t with lastTicket := t.lastTicket + 1 }

theorem holdOf_of_get? {t : Table} {key : String} {slot : Slot}
    (h : t.slots.get? key = some slot) : t.holdOf key = slot.hold := by
  simp [holdOf, h]

theorem holdOf_of_absent {t : Table} {key : String} (h : t.slots.get? key = none) :
    t.holdOf key = .free := by
  simp [holdOf, h]

@[simp] theorem get?_place (t : Table) (key k : String) (slot : Slot) :
    (t.place key slot).slots.get? k = if k = key then some slot else t.slots.get? k :=
  KeyMap.get?_insert t.slots key k slot

@[simp] theorem get?_evict (t : Table) (key k : String) (slot : Slot) :
    (t.evict key slot).slots.get? k = if k = key then none else t.slots.get? k :=
  KeyMap.get?_erase t.slots key k

theorem holdOf_place (t : Table) (key k : String) (slot : Slot) :
    (t.place key slot).holdOf k = if k = key then slot.hold else t.holdOf k := by
  simp only [holdOf, get?_place]
  split <;> rfl

/-! ### What keeps slots apart -/

/-- Tickets of present slots differ and have been issued; channels of all slots differ and have
been made; idle slots are free and without waiters. -/
structure Sound (t : Table) : Prop where
  ticket_le : ∀ {k : String} {r : Slot}, t.slots.get? k = some r → r.ticket ≤ t.lastTicket
  ticket_inj : ∀ {j k : String} {r s : Slot},
    t.slots.get? j = some r → t.slots.get? k = some s → r.ticket = s.ticket → j = k
  channel_lt : ∀ {k : String} {r : Slot}, t.slots.get? k = some r → r.channel < t.channels
  channel_inj : ∀ {j k : String} {r s : Slot},
    t.slots.get? j = some r → t.slots.get? k = some s → r.channel = s.channel → j = k
  idle : ∀ s ∈ t.pool.slots, s.hold = .free ∧ s.waiters = 0
  idle_channel_lt : ∀ s ∈ t.pool.slots, s.channel < t.channels
  idle_apart : ∀ {k : String} {r : Slot},
    t.slots.get? k = some r → ∀ s ∈ t.pool.slots, r.channel ≠ s.channel
  idle_nodup : (t.pool.slots.map Slot.channel).Nodup

theorem sound_withGcFrequency (frequency : UInt32) : (withGcFrequency frequency).Sound where
  ticket_le h := by cases h
  ticket_inj h := by cases h
  channel_lt h := by cases h
  channel_inj h := by cases h
  idle _ h := by cases h
  idle_channel_lt _ h := by cases h
  idle_apart h := by cases h
  idle_nodup := List.nodup_nil

variable {t u : Table} {key : String} {slot : Slot}

/-- Being sound is a matter of the slots, the pool and the two counters; the pool may lose slots
and tickets may be issued in vain. -/
theorem Sound.of_eq (h : t.Sound) (slots : ∀ k, u.slots.get? k = t.slots.get? k)
    (pool : u.pool.slots.Sublist t.pool.slots) (tickets : t.lastTicket ≤ u.lastTicket)
    (channels : u.channels = t.channels) : u.Sound where
  ticket_le hr := Nat.le_trans (h.ticket_le (slots _ ▸ hr)) tickets
  ticket_inj hr hs := h.ticket_inj (slots _ ▸ hr) (slots _ ▸ hs)
  channel_lt hr := channels ▸ h.channel_lt (slots _ ▸ hr)
  channel_inj hr hs := h.channel_inj (slots _ ▸ hr) (slots _ ▸ hs)
  idle s hs := h.idle s (pool.subset hs)
  idle_channel_lt s hs := channels ▸ h.idle_channel_lt s (pool.subset hs)
  idle_apart hr s hs := h.idle_apart (slots _ ▸ hr) s (pool.subset hs)
  idle_nodup := h.idle_nodup.sublist (pool.map Slot.channel)

theorem Sound.issued (h : t.Sound) : t.issued.Sound :=
  h.of_eq (fun _ => rfl) (List.Sublist.refl _) (Nat.le_succ _) rfl

/-- A slot can be put under a key if its ticket is the key's own or newer than all others, and its
channel the key's own or found nowhere else. -/
theorem Sound.place (h : t.Sound) (issued : slot.ticket ≤ t.lastTicket)
    (made : slot.channel < t.channels)
    (ticket : ∀ {k r}, t.slots.get? k = some r → r.ticket = slot.ticket → k = key)
    (channel : ∀ {k r}, t.slots.get? k = some r → r.channel = slot.channel → k = key)
    (apart : ∀ s ∈ t.pool.slots, slot.channel ≠ s.channel) : (t.place key slot).Sound where
  ticket_le {k r} hr := by
    rw [get?_place] at hr
    split at hr
    · cases hr
      exact issued
    · exact h.ticket_le hr
  ticket_inj {j k r s} hr hs e := by
    rw [get?_place] at hr hs
    split at hr <;> split at hs
    · simp_all
    · cases hr
      have := ticket hs e.symm
      contradiction
    · cases hs
      have := ticket hr e
      contradiction
    · exact h.ticket_inj hr hs e
  channel_lt {k r} hr := by
    rw [get?_place] at hr
    split at hr
    · cases hr
      exact made
    · exact h.channel_lt hr
  channel_inj {j k r s} hr hs e := by
    rw [get?_place] at hr hs
    split at hr <;> split at hs
    · simp_all
    · cases hr
      have := channel hs e.symm
      contradiction
    · cases hs
      have := channel hr e
      contradiction
    · exact h.channel_inj hr hs e
  idle := h.idle
  idle_channel_lt := h.idle_channel_lt
  idle_apart {k r} hr s hs := by
    rw [get?_place] at hr
    split at hr
    · cases hr
      exact apart s hs
    · exact h.idle_apart hr s hs
  idle_nodup := h.idle_nodup

theorem Sound.replace {r : Slot} (h : t.Sound) (hr : t.slots.get? key = some r)
    (ticket : slot.ticket = r.ticket) (channel : slot.channel = r.channel) :
    (t.place key slot).Sound := by
  refine h.place (ticket ▸ h.ticket_le hr) (channel ▸ h.channel_lt hr) ?_ ?_ ?_
  · intro k s hs e
    exact h.ticket_inj hs hr (e.trans ticket)
  · intro k s hs e
    exact h.channel_inj hs hr (e.trans channel)
  · intro s hs
    exact channel ▸ h.idle_apart hr s hs

theorem Sound.evict {r : Slot} (h : t.Sound) (hr : t.slots.get? key = some r)
    (free : slot.hold = .free) (alone : slot.waiters = 0) (channel : slot.channel = r.channel) :
    (t.evict key slot).Sound where
  ticket_le {k s} hs := by
    rw [get?_evict] at hs
    split at hs
    · cases hs
    · exact h.ticket_le hs
  ticket_inj {j k r s} hr hs e := by
    rw [get?_evict] at hr hs
    split at hr <;> split at hs <;> first | cases hr | skip
    · cases hs
    · exact h.ticket_inj hr hs e
  channel_lt {k s} hs := by
    rw [get?_evict] at hs
    split at hs
    · cases hs
    · exact h.channel_lt hs
  channel_inj {j k r s} hr hs e := by
    rw [get?_evict] at hr hs
    split at hr <;> split at hs <;> first | cases hr | skip
    · cases hs
    · exact h.channel_inj hr hs e
  idle s hs := by
    rcases List.mem_cons.1 hs with rfl | hs
    · exact ⟨free, alone⟩
    · exact h.idle s hs
  idle_channel_lt s hs := by
    rcases List.mem_cons.1 hs with rfl | hs
    · exact channel ▸ h.channel_lt hr
    · exact h.idle_channel_lt s hs
  idle_apart {k q} hq s hs := by
    rw [get?_evict] at hq
    split at hq
    · cases hq
    · rename_i other
      rcases List.mem_cons.1 hs with rfl | hs
      · exact fun e => other (h.channel_inj hq hr (e.trans channel))
      · exact h.idle_apart hq s hs
  idle_nodup := by
    refine List.nodup_cons.2 ⟨?_, h.idle_nodup⟩
    rw [List.mem_map]
    rintro ⟨s, hs, e⟩
    exact h.idle_apart hr s hs (channel.symm.trans e.symm)

theorem Sound.countRelease (h : t.Sound) : t.countRelease.Sound := by
  refine h.of_eq (fun _ => rfl) ?_ (Nat.le_refl _) rfl
  simp only [Table.countRelease]
  split
  · exact Pool.slots_rotate t.pool
  · exact List.Sublist.refl _

/-! ### Where a slot comes from -/

/-- `slot` is unused in `u`, which is `t` after the slot was taken out of its pool or made. -/
structure Spare (t u : Table) (slot : Slot) : Prop where
  free : slot.hold = .free
  alone : slot.waiters = 0
  slots : u.slots = t.slots
  lastTicket : u.lastTicket = t.lastTicket
  sound : u.Sound
  channel_lt : slot.channel < u.channels
  apart : ∀ {k : String} {r : Slot}, u.slots.get? k = some r → r.channel ≠ slot.channel
  idle_apart : ∀ s ∈ u.pool.slots, slot.channel ≠ s.channel

theorem Sound.spare (h : t.Sound) : Spare t t.spare.2 t.spare.1 := by
  unfold Table.spare
  split
  · rename_i slot pool htake
    have hslots := Pool.slots_take? htake
    have hmem : slot ∈ t.pool.slots := by
      rw [hslots]
      exact List.mem_cons_self
    have hnodup := h.idle_nodup
    rw [hslots, List.map_cons, List.nodup_cons] at hnodup
    have hsub : pool.slots.Sublist t.pool.slots := by
      rw [hslots]
      exact List.sublist_cons_self slot pool.slots
    exact {
      free := (h.idle slot hmem).1
      alone := (h.idle slot hmem).2
      slots := rfl
      lastTicket := rfl
      sound := h.of_eq (fun _ => rfl) hsub (Nat.le_refl _) rfl
      channel_lt := h.idle_channel_lt slot hmem
      apart := fun hr => h.idle_apart hr slot hmem
      idle_apart := fun s hs e => hnodup.1 (List.mem_map.2 ⟨s, hs, e.symm⟩) }
  · -- A new channel is beyond all that were made.
    exact {
      free := rfl
      alone := rfl
      slots := rfl
      lastTicket := rfl
      sound := {
        h with
        channel_lt := fun hr => Nat.lt_succ_of_lt (h.channel_lt hr)
        idle_channel_lt := fun s hs => Nat.lt_succ_of_lt (h.idle_channel_lt s hs) }
      channel_lt := Nat.lt_succ_self t.channels
      apart := fun hr => Nat.ne_of_lt (h.channel_lt hr)
      idle_apart := fun s hs => (Nat.ne_of_lt (h.idle_channel_lt s hs)).symm }

/-- `slot` stands for `key` in `u`, which is `t` but for the origin of the slot.  It is the present
slot of the key, or a spare one under a new ticket. -/
structure Stands (t u : Table) (key : String) (slot : Slot) : Prop where
  slots : u.slots = t.slots
  lastTicket_le : t.lastTicket ≤ u.lastTicket
  sound : (u.place key slot).Sound
  hold : slot.hold = t.holdOf key
  origin : t.slots.get? key = some slot ∨
    t.slots.get? key = none ∧ slot.waiters = 0 ∧ t.lastTicket < slot.ticket

theorem Sound.slotFor (h : t.Sound) (key : String) :
    Stands t (t.slotFor key).2 key (t.slotFor key).1 := by
  unfold Table.slotFor
  split
  · rename_i slot hslot
    exact {
      slots := rfl
      lastTicket_le := Nat.le_refl _
      sound := h.replace hslot rfl rfl
      hold := (holdOf_of_get? hslot).symm
      origin := Or.inl hslot }
  · rename_i habsent
    have hspare := h.spare
    generalize t.spare = p at hspare ⊢
    obtain ⟨slot, u⟩ := p
    have hticket : u.lastTicket = t.lastTicket := hspare.lastTicket
    refine {
      slots := hspare.slots
      lastTicket_le := hticket ▸ Nat.le_succ u.lastTicket
      sound := hspare.sound.issued.place (Nat.le_refl _) hspare.channel_lt ?_ ?_ hspare.idle_apart
      hold := hspare.free.trans (holdOf_of_absent habsent).symm
      origin := Or.inr ⟨habsent, hspare.alone, hticket ▸ Nat.lt_succ_self u.lastTicket⟩ }
    · intro k r hr e
      have hle : r.ticket ≤ u.lastTicket := hspare.sound.ticket_le hr
      have heq : r.ticket = u.lastTicket + 1 := e
      omega
    · intro k r hr e
      exact absurd e (hspare.apart hr)

/-! ### The three operations -/

theorem Stands.place {r : Slot} (h : Stands t u key r) (ticket : slot.ticket = r.ticket)
    (channel : slot.channel = r.channel) : (u.place key slot).Sound := by
  have hr : (u.place key r).slots.get? key = some r := by simp
  refine (h.sound.replace hr ticket channel).of_eq ?_ (List.Sublist.refl _) (Nat.le_refl _) rfl
  intro k
  simp only [get?_place]
  split <;> rfl

/-- What an attempt on `key` finds and leaves: a slot stood for the key, and now it has one more
holder of the kind or, if the kind had to wait, one more waiter. -/
theorem Sound.attempt_at (h : t.Sound) (key : String) (kind : Kind) :
    ∃ u slot, Stands t u key slot ∧
      ((∃ hold, slot.hold.enter? kind = some hold ∧
        t.attempt key kind = (.granted, u.place key { slot with hold })) ∨
      (slot.hold.enter? kind = none ∧
        t.attempt key kind = (.registered slot.ticket slot.channel,
          u.place key { slot with waiters := slot.waiters + 1 }))) := by
  refine ⟨(t.slotFor key).2, (t.slotFor key).1, h.slotFor key, ?_⟩
  unfold Table.attempt
  rcases t.slotFor key with ⟨slot, u⟩
  cases henter : slot.hold.enter? kind with
  | some hold => exact Or.inl ⟨hold, rfl, by simp [henter]⟩
  | none => exact Or.inr ⟨rfl, by simp [henter]⟩

theorem Sound.attempt (h : t.Sound) (key : String) (kind : Kind) : (t.attempt key kind).2.Sound := by
  obtain ⟨u, slot, hstands, hattempt⟩ := h.attempt_at key kind
  rcases hattempt with ⟨hold, -, hattempt⟩ | ⟨-, hattempt⟩
  · rw [hattempt]
    exact hstands.place rfl rfl
  · rw [hattempt]
    exact hstands.place rfl rfl

/-- What becomes of the slot of a key when one of its holders leaves, and the channel that is
broadcast on. -/
inductive Leaves (t : Table) (slot : Slot) : Option Slot → Option Nat → Prop
  /-- The last holder leaves and nobody waits. -/
  | evicted : slot.hold.leave? = some .free → slot.waiters = 0 → Leaves t slot none none
  /-- The last holder leaves and wakes all who wait. -/
  | woken : slot.hold.leave? = some .free → slot.waiters ≠ 0 →
      Leaves t slot (some { slot with hold := .free, waiters := 0, ticket := t.lastTicket + 1 })
        (some slot.channel)
  /-- Other holders stay. -/
  | shared (hold : Hold) : slot.hold.leave? = some hold → hold ≠ .free →
      Leaves t slot (some { slot with hold }) none

theorem Sound.release_at {hold : Hold} (h : t.Sound) (hslot : t.slots.get? key = some slot)
    (hleave : slot.hold.leave? = some hold) :
    ∃ u broadcast left, t.release key = .ok ⟨u, broadcast⟩ ∧ Leaves t slot left broadcast ∧
      (∀ k, u.slots.get? k = if k = key then left else t.slots.get? k) ∧
      u.lastTicket = t.lastTicket + 1 ∧ u.Sound := by
  by_cases hfree : hold = .free
  · subst hfree
    by_cases halone : slot.waiters = 0
    · have hrelease : t.release key =
          .ok ⟨(t.issued.evict key { slot with hold := .free }).countRelease, none⟩ := by
        simp [release, Table.issued, hslot, hleave, halone]
      refine ⟨_, none, none, hrelease, .evicted hleave halone, fun k => get?_evict t key k slot, rfl,
        Sound.countRelease ?_⟩
      exact h.issued.evict hslot rfl halone rfl
    · have hrelease : t.release key = .ok ⟨(t.issued.place key
          { slot with hold := .free, waiters := 0, ticket := t.lastTicket + 1 }).countRelease,
          some slot.channel⟩ := by
        simp [release, Table.issued, hslot, hleave, halone]
      refine ⟨_, _, _, hrelease, .woken hleave halone, fun k => get?_place _ _ _ _, rfl,
        Sound.countRelease ?_⟩
      have hmade : slot.channel < t.channels := h.channel_lt hslot
      refine h.issued.place (Nat.le_refl _) hmade ?_ ?_ ?_
      · intro k r hr e
        have hle : r.ticket ≤ t.lastTicket := h.ticket_le hr
        have heq : r.ticket = t.lastTicket + 1 := e
        omega
      · intro k r hr e
        exact h.channel_inj hr hslot e
      · intro s hs
        exact h.idle_apart hslot s hs
  · have hrelease : t.release key =
        .ok ⟨(t.issued.place key { slot with hold }).countRelease, none⟩ := by
      cases hold with
      | free => exact absurd rfl hfree
      | readers n => simp [release, Table.issued, hslot, hleave]
      | writer => simp [release, Table.issued, hslot, hleave]
    refine ⟨_, none, _, hrelease, .shared hold hleave hfree, fun k => get?_place _ _ _ _, rfl,
      Sound.countRelease ?_⟩
    exact h.issued.replace hslot rfl rfl

theorem withdraw_of_get? (hslot : t.slots.get? key = some slot) (ticket : Nat) :
    t.withdraw key ticket =
      if (slot.withdrawn ticket).waiters = 0 ∧ slot.hold = .free then
        t.evict key (slot.withdrawn ticket)
      else t.place key (slot.withdrawn ticket) := by
  unfold withdraw
  rw [hslot]
  rfl

theorem Sound.withdraw_at (h : t.Sound) (hslot : t.slots.get? key = some slot) (ticket : Nat) :
    (∀ k, (t.withdraw key ticket).slots.get? k =
      if k = key then
        if (slot.withdrawn ticket).waiters = 0 ∧ slot.hold = .free then none
        else some (slot.withdrawn ticket)
      else t.slots.get? k) ∧
    (t.withdraw key ticket).lastTicket = t.lastTicket ∧ (t.withdraw key ticket).Sound := by
  rw [withdraw_of_get? hslot]
  split
  · rename_i hidle
    exact ⟨fun k => get?_evict _ _ _ _, rfl, h.evict hslot hidle.2 hidle.1 rfl⟩
  · exact ⟨fun k => get?_place _ _ _ _, rfl, h.replace hslot rfl rfl⟩

theorem withdraw_absent (h : t.slots.get? key = none) (ticket : Nat) :
    t.withdraw key ticket = t := by
  simp [withdraw, h]

theorem Sound.withdraw (h : t.Sound) (key : String) (ticket : Nat) :
    (t.withdraw key ticket).Sound := by
  cases hslot : t.slots.get? key with
  | none => exact (withdraw_absent hslot ticket).symm ▸ h
  | some slot => exact (h.withdraw_at hslot ticket).2.2

end Table

end StatusStore.Lock
