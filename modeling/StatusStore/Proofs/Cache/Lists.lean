/-
  StatusStore/Proofs/Cache/Lists.lean
  ===================================
  **Which lists an announcement drops.**  A list of replies or boosts is dropped
  when a status is announced that is in it, and when the status that it belongs to
  is announced itself.  The other lists stay.

  Main statements: `announce_fewer` and `Fewer.kept_announce`.
-/
import StatusStore.Proofs.Cache.Aliases

namespace StatusStore.Cache

/-- Whether the announcement of a status drops the list of `target`. -/
def Drops (v : Status) : ListKind → String → Prop
  | .replies, target => v.inReplyToId = some target ∨ v.id = target
  | .boosts, target => v.boostOfId = some target ∨ v.id = target

namespace Caches

variable {c d u : Caches}

@[simp] theorem statuses_setLists (c : Caches) (kind : ListKind) (lists : EntityCache IdList) :
    (c.setLists kind lists).statuses = c.statuses := by
  cases kind <;> rfl

theorem lists_setLists (c : Caches) (kind other : ListKind) (lists : EntityCache IdList) :
    (c.setLists kind lists).lists other = if other = kind then lists else c.lists other := by
  cases kind <;> cases other <;> rfl

theorem statuses_dropLists (c : Caches) (v : Status) : (c.dropLists v).statuses = c.statuses := by
  simp only [dropLists, invalidateList, statuses_setLists]
  cases v.inReplyToId <;> cases v.boostOfId <;> simp

/-- Announcements have no part in the status cache. -/
@[simp] theorem statuses_announce (c : Caches) (vs : List Status) :
    (c.announce vs).statuses = c.statuses := by
  induction vs generalizing c with
  | nil => rfl
  | cons v vs ih => exact (ih (c.dropLists v)).trans (c.statuses_dropLists v)

/-- The lists of `u` are sound, and lists of `c` that were not dropped. -/
structure Fewer (c u : Caches) (dropped : ListKind → String → Prop) : Prop where
  sound : ∀ kind, (u.lists kind).index.Sound
  idle : ∀ kind, (u.lists kind).index.Idle
  found : ∀ {kind : ListKind} {k : String} {l : IdList}, (u.lists kind).index.get? k = some l →
    (c.lists kind).index.get? k = some l ∧ ¬ dropped kind l.target

variable {dropped more : ListKind → String → Prop}

theorem Fewer.mono (h : Fewer c u dropped)
    (hfewer : ∀ kind target, more kind target → dropped kind target) : Fewer c u more where
  sound := h.sound
  idle := h.idle
  found hl := by
    obtain ⟨hc, hdropped⟩ := h.found hl
    exact ⟨hc, fun hmore => hdropped (hfewer _ _ hmore)⟩

theorem Fewer.invalidateList (h : Fewer c u dropped) (kind : ListKind) (target : String) :
    Fewer c (u.invalidateList kind target) fun k t =>
      dropped k t ∨ k = kind ∧ t = target := by
  have hlists : ∀ other, ((u.invalidateList kind target).lists other).index =
      if other = kind then
        ((u.lists other).index.invalidate (Key.ofTarget target).encode).2
      else (u.lists other).index := by
    intro other
    simp only [Caches.invalidateList, lists_setLists]
    split
    · rename_i hsame
      subst hsame
      rfl
    · rfl
  constructor
  case sound =>
    intro other
    rw [hlists]
    split
    · exact (h.sound other).invalidate _
    · exact h.sound other
  case idle =>
    intro other
    rw [hlists]
    split
    · exact (h.idle other).invalidate (h.sound other) _
    · exact h.idle other
  case found =>
    intro other k l hl
    rw [hlists] at hl
    split at hl
    · obtain ⟨hl, hapart⟩ := (h.sound other).linked.get?_invalidate.1 hl
      obtain ⟨hc, hdropped⟩ := h.found hl
      refine ⟨hc, fun hany => hany.elim hdropped ?_⟩
      -- A list with this target would have been found under the key that was invalidated.
      rintro ⟨-, htarget⟩
      refine hapart ((h.sound other).place_of_alias hl ?_)
      rw [aliases_idList, htarget]
      exact List.mem_singleton_self _
    · rename_i hother
      obtain ⟨hc, hdropped⟩ := h.found hl
      exact ⟨hc, fun hany => hany.elim hdropped fun hsame => hother hsame.1⟩

theorem Fewer.invalidateOwn (h : Fewer c u dropped) (kind : ListKind) (target : Option String) :
    Fewer c (target.elim u (u.invalidateList kind ·)) fun k t =>
      dropped k t ∨ k = kind ∧ target = some t := by
  cases target with
  | none => exact h.mono (by simp)
  | some target =>
    apply (h.invalidateList kind target).mono
    rintro k t (hdropped | ⟨hk, ht⟩)
    · exact Or.inl hdropped
    · exact Or.inr ⟨hk, (Option.some.inj ht).symm⟩

theorem dropLists_eq (u : Caches) (v : Status) :
    u.dropLists v =
      let w := v.inReplyToId.elim u (u.invalidateList .replies ·)
      ((v.boostOfId.elim w (w.invalidateList .boosts ·)).invalidateList .replies v.id).invalidateList
        .boosts v.id := by
  unfold Caches.dropLists
  cases v.inReplyToId <;> cases v.boostOfId <;> rfl

/-- Announcing a status drops every list that depends on it. -/
theorem Fewer.dropLists (h : Fewer c u dropped) (v : Status) :
    Fewer c (u.dropLists v) fun kind target => dropped kind target ∨ Drops v kind target := by
  have hall := (((h.invalidateOwn .replies v.inReplyToId).invalidateOwn .boosts
    v.boostOfId).invalidateList .replies v.id).invalidateList .boosts v.id
  rw [dropLists_eq]
  apply Fewer.mono hall
  rintro k t (hdropped | hdrops)
  · exact Or.inl (Or.inl (Or.inl (Or.inl hdropped)))
  · cases k with
    | replies =>
      rcases hdrops with hparent | hown
      · exact Or.inl (Or.inl (Or.inl (Or.inr ⟨rfl, hparent⟩)))
      · exact Or.inl (Or.inr ⟨rfl, hown.symm⟩)
    | boosts =>
      rcases hdrops with htarget | hown
      · exact Or.inl (Or.inl (Or.inr ⟨rfl, htarget⟩))
      · exact Or.inr ⟨rfl, hown.symm⟩

theorem Fewer.announce (h : Fewer c u dropped) (vs : List Status) :
    Fewer c (u.announce vs) fun kind target =>
      dropped kind target ∨ ∃ v ∈ vs, Drops v kind target := by
  induction vs generalizing u dropped with
  | nil => exact h.mono (by simp)
  | cons v vs ih =>
    apply (ih (h.dropLists v)).mono
    rintro k t (hdropped | ⟨w, hw, hdrops⟩)
    · exact Or.inl (Or.inl hdropped)
    · rcases List.mem_cons.1 hw with rfl | hw
      · exact Or.inl (Or.inr hdrops)
      · exact Or.inr ⟨w, hw, hdrops⟩

/-- The status cache has no part in the lists. -/
theorem fewer_of_statuses (hs : ∀ kind, (c.lists kind).index.Sound)
    (hidle : ∀ kind, (c.lists kind).index.Idle) (statuses : EntityCache Status) :
    Fewer c { c with statuses } fun _ _ => False := by
  have hsame : ∀ kind, ({ c with statuses } : Caches).lists kind = c.lists kind := by
    intro kind
    cases kind <;> rfl
  constructor
  · exact fun kind => hsame kind ▸ hs kind
  · exact fun kind => hsame kind ▸ hidle kind
  · exact fun hl => ⟨hsame _ ▸ hl, not_false⟩

/-- After announcements, by whatever status cache, no list is left that depends on one of the
announced statuses. -/
theorem announce_fewer (hs : ∀ kind, (c.lists kind).index.Sound)
    (hidle : ∀ kind, (c.lists kind).index.Idle) (statuses : EntityCache Status)
    (vs : List Status) :
    Fewer c ({ c with statuses }.announce vs) fun kind target => ∃ v ∈ vs, Drops v kind target :=
  ((fewer_of_statuses hs hidle statuses).announce vs).mono fun _ _ => Or.inr

/-! ### Lists that stay -/

def Filed (c : Caches) : Prop :=
  ∀ {kind : ListKind} {k : String} {l : IdList},
    (c.lists kind).index.get? k = some l → k = (Key.ofTarget l.target).encode

namespace Fewer

variable {kind other : ListKind} {target k : String} {l : IdList}

theorem filed (h : Fewer c u dropped) (hfiled : c.Filed) : u.Filed :=
  fun hl => hfiled (h.found hl).1

theorem kept_invalidateList (h : Fewer c u dropped) (hfiled : c.Filed)
    (hl : (u.lists other).index.get? k = some l) (hstays : ¬ (other = kind ∧ target = l.target)) :
    ((u.invalidateList kind target).lists other).index.get? k = some l := by
  simp only [Caches.invalidateList, lists_setLists]
  split
  · rename_i hsame
    subst hsame
    refine (h.sound other).linked.get?_invalidate.2 ⟨hl, fun hplace => hstays ⟨rfl, ?_⟩⟩
    -- What leads to one place finds one list, and that has one target.
    have hfound : (u.lists other).index.get? (Key.ofTarget target).encode = some l := by
      simpa only [Index.get?, hplace] using hl
    exact Key.encode_ofTarget_inj (h.filed hfiled hfound)
  · exact hl

theorem kept_invalidateOwn {own : Option String} (h : Fewer c u dropped) (hfiled : c.Filed)
    (hl : (u.lists other).index.get? k = some l) (hstays : ¬ (other = kind ∧ own = some l.target)) :
    ((own.elim u (u.invalidateList kind ·)).lists other).index.get? k = some l := by
  cases own with
  | none => exact hl
  | some target =>
    exact h.kept_invalidateList hfiled hl fun hsame => hstays ⟨hsame.1, congrArg some hsame.2⟩

theorem kept_dropLists {v : Status} (h : Fewer c u dropped) (hfiled : c.Filed)
    (hl : (u.lists other).index.get? k = some l) (hstays : ¬ Drops v other l.target) :
    ((u.dropLists v).lists other).index.get? k = some l := by
  have hparent := h.invalidateOwn .replies v.inReplyToId
  have hboosted := hparent.invalidateOwn .boosts v.boostOfId
  have hown := hboosted.invalidateList .replies v.id
  rw [dropLists_eq]
  apply hown.kept_invalidateList hfiled
  · apply hboosted.kept_invalidateList hfiled
    · apply hparent.kept_invalidateOwn hfiled
      · apply h.kept_invalidateOwn hfiled hl
        rintro ⟨rfl, hsome⟩
        exact hstays (Or.inl hsome)
      · rintro ⟨rfl, hsome⟩
        exact hstays (Or.inl hsome)
    · rintro ⟨rfl, hid⟩
      exact hstays (Or.inr hid)
  · rintro ⟨rfl, hid⟩
    exact hstays (Or.inr hid)

/-- Announcements leave the lists alone that depend on none of the announced statuses. -/
theorem kept_announce {vs : List Status} (h : Fewer c u dropped) (hfiled : c.Filed)
    (hl : (u.lists other).index.get? k = some l) (hstays : ∀ v ∈ vs, ¬ Drops v other l.target) :
    ((u.announce vs).lists other).index.get? k = some l := by
  induction vs generalizing u dropped with
  | nil => exact hl
  | cons v vs ih =>
    obtain ⟨hfirst, hrest⟩ := List.forall_mem_cons.1 hstays
    exact ih (h.dropLists v) (h.kept_dropLists hfiled hl hfirst) hrest

end Fewer

end Caches

end StatusStore.Cache
