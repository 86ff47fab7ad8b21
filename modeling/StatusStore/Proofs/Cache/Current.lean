/-
  StatusStore/Proofs/Cache/Current.lean
  =====================================
  **A cache that is behind only where somebody will catch up.**  What is cached is
  current, or a write of it has been committed that will replace it, or it is being
  removed; and what a load has been answered is current, or will be caught up with,
  or the load will learn that it was touched.  `Current` says this of any notion `P`
  of being current and of any ids `R` that are being removed.

  Main statement: `Current.of_moves`.
-/
import StatusStore.Proofs.Cache.Aliases
import StatusStore.Proofs.Cache.History

namespace StatusStore.Cache.EntityCache

variable {c u : EntityCache Status} {a : Action Status} {p : Progress Status}
  {P P' : Status → Prop} {R R' : String → Prop} {h j : Nat} {key : Key} {v w : Status} {id : String}

/-- The status has been written and is about to be cached. -/
def Commits (c : EntityCache Status) (h : Nat) (v : Status) : Prop :=
  c.flight? h = some ⟨h, .store v (some (.ok ())), .running⟩

/-- What is cached under the id will be replaced, or dropped. -/
def Pending (c : EntityCache Status) (R : String → Prop) (id : String) : Prop :=
  R id ∨ ∃ h v, c.Commits h v ∧ v.id = id

/-- What is cached is current or will be caught up with, and so is what loads have been answered
unless they will learn of it. -/
structure Current (P : Status → Prop) (R : String → Prop) (c : EntityCache Status) : Prop where
  held : ∀ {w : Status}, c.get? (.ofLookup (.id w.id)) = some w → P w ∨ c.Pending R w.id
  loaded : ∀ {h : Nat} {key : Key} {v : Status},
    c.flight? h = some ⟨h, .load key (some (.ok v)), .running⟩ →
    P v ∨ c.Pending R v.id ∨
      c.index.Marked key.encode (Key.ofLookup (.id v.id)).encode
  saved : ∀ {h : Nat} {v : Status}, c.Commits h v → P v ∨ R v.id

theorem current_withGcFrequency (P : Status → Prop) (R : String → Prop) (name : String)
    (frequency : UInt32) : Current P R (withGcFrequency name frequency) where
  held hw := by cases hw
  loaded hf := by cases hf
  saved hf := by cases hf

/-! ### Who has been answered -/

theorem eq_of_answered {r : Except Error Status} (h : .answered j r ∈ c.told a p u) :
    a = .answerLoad j r := by
  have hbegins : ∀ i, .answered j r ∉ begins c u i := by
    intro i hmem
    unfold begins at hmem
    split at hmem <;> simp at hmem
  unfold told at h
  split at h
  · simp at h
  · simp [hbegins] at h
  · exact absurd h (hbegins _)
  · split at h <;> simp at h
  · split at h <;> simp at h
  · split at h
    · simp only [List.mem_singleton, Event.answered.injEq] at h
      rw [h.1, h.2]
    · cases h
  · cases h

/-- A write that was committed is about to be cached until it is cached. -/
theorem Moves.commits (hm : Moves c a p u) (hf : c.Commits h v) (hstay : a ≠ .cancel h) :
    u.Commits h v ∨ a = .poll h ∧ c.touches a = c.index.committed v := by
  have hfate := hm.fate hf hstay
  unfold Commits
  generalize u.flight? h = g at hfate ⊢
  cases hfate with
  | same => exact Or.inl rfl
  | stored ha _ =>
    refine Or.inr ⟨ha, ?_⟩
    have hf : c.flight? h = some ⟨h, .store v (some (.ok ())), .running⟩ := hf
    simp [EntityCache.touches, ha, hf]

/-- A write that is committed after an action was so before, or has just been answered. -/
theorem Moves.commits_before (hc : c.Gripped) (hm : Moves c a p u) (hf : u.Commits h v) :
    c.Commits h v ∨ a = .answerStore h (.ok ()) ∧
      c.flight? h = some ⟨h, .store v none, .running⟩ := by
  by_cases hstay : a = .cancel h
  · subst hstay
    have hgone := hm.cancelled
    rw [Commits, hgone] at hf
    cases hf
  cases hbefore : c.flight? h with
  | none =>
    rcases hm.fate_of_unused hbefore with hnone | ⟨w, phase, -, hquery, -, hflight⟩
    · rw [Commits, hnone] at hf
      cases hf
    · rw [Commits, hflight] at hf
      cases hf
      cases hquery
  | some f =>
    have hfate := hm.fate hbefore hstay
    rw [Commits] at hf ⊢
    rw [hf] at hfate
    rw [hbefore]
    cases hfate with
    | same => exact Or.inl rfl
    | admitted _ _ => cases hc.unanswered hbefore rfl
    | answeredStore ha => exact Or.inr ⟨ha, rfl⟩

/-! ### What an action does to all of this -/

/-- Somebody will still catch up after an action, unless it has touched the id. -/
theorem Moves.pending (hm : Moves c a p u) (hstay : ∀ h, a ≠ .cancel h)
    (hremoving : ∀ id, R id → R' id ∨ a = .invalidate (.ofLookup (.id id)))
    (hpending : c.Pending R id) :
    u.Pending R' id ∨ (Key.ofLookup (.id id)).encode ∈ c.touches a := by
  rcases hpending with hremoved | ⟨h, v, hf, rfl⟩
  · rcases hremoving id hremoved with hstill | rfl
    · exact Or.inl (Or.inl hstill)
    · exact Or.inr List.mem_cons_self
  · rcases hm.commits hf (hstay h) with hstill | ⟨-, htouches⟩
    · exact Or.inl (Or.inr ⟨h, v, hstill, rfl⟩)
    · rw [htouches]
      exact Or.inr (List.mem_append_left _ (List.mem_append_left _ (mem_aliases_id v)))

/-- What is found under an id that an action touches is the status that was just stored. -/
theorem Sound.commits_of_touched (hc : c.Sound) (hx : c.index.Sound) (hm : Moves c a p u)
    (hw : u.get? key = some w) (htouched : key.encode ∈ c.touches a) :
    ∃ h, a = .poll h ∧ c.Commits h w := by
  rcases hm.touches with hnone | ⟨h, v, rfl, -, hindex, hf, -, htouches⟩ |
    ⟨i, rfl, hindex, -, htouches⟩
  · rw [hnone] at htouched
    cases htouched
  · rw [get?, hindex] at hw
    obtain rfl := hx.get?_committed (htouches ▸ htouched) hw
    exact ⟨h, rfl, hf⟩
  · rw [get?, hindex, hc.linked.get?_invalidated (htouches ▸ htouched)] at hw
    cases hw

namespace Current

variable (hstay : ∀ h, a ≠ .cancel h) (hrows : ∀ w, P w → P' w ∨ u.Pending R' w.id)
  (hremoving : ∀ id, R id → R' id ∨ a = .invalidate (.ofLookup (.id id)))
  (hsaved : ∀ {h v}, u.Commits h v → P' v ∨ R' v.id)
include hstay hrows hremoving

theorem held_of_moves (hc : c.Sound) (hx : c.index.Sound) (h : Current P R c) (hm : Moves c a p u)
    (hw : u.get? (.ofLookup (.id w.id)) = some w) : P' w ∨ u.Pending R' w.id := by
  -- A status that was just stored has been written, or is being removed.
  have hstored : ∀ {j}, a = .poll j → c.Commits j w → P' w ∨ u.Pending R' w.id := by
    rintro j rfl hf
    rcases h.saved hf with hcurrent | hremoved
    · exact hrows w hcurrent
    · rcases hremoving w.id hremoved with hstill | hcontra
      · exact Or.inr (Or.inl hstill)
      · cases hcontra
  have hcaught : c.Pending R w.id → P' w ∨ u.Pending R' w.id := by
    intro hpending
    rcases hm.pending hstay hremoving hpending with hstill | htouched
    · exact Or.inr hstill
    · obtain ⟨j, ha, hf⟩ := hc.commits_of_touched hx hm hw htouched
      exact hstored ha hf
  rcases hc.found_of_moves hm hw with hold | ⟨j, ha, -, -, hf⟩ | ⟨j, i, rfl, hf, -, hfresh⟩
  · rcases h.held hold with hcurrent | hpending
    · exact hrows w hcurrent
    · exact hcaught hpending
  · exact hstored ha hf
  · rcases h.loaded hf with hcurrent | hpending | hmarked
    · exact hrows w hcurrent
    · exact hcaught hpending
    · have hunmarked := (Index.finishLoad_fst.1 hfresh).2
      exact absurd hmarked (hunmarked _ (Or.inl (mem_aliases_id w)))

theorem loaded_of_moves (hanswered : ∀ h v, a = .answerLoad h (.ok v) → P' v)
    (hc : c.Sound) (h : Current P R c) (hm : Moves c a p u)
    (hf : u.flight? j = some ⟨j, .load key (some (.ok v)), .running⟩) :
    P' v ∨ u.Pending R' v.id ∨
      u.index.Marked key.encode (Key.ofLookup (.id v.id)).encode := by
  have hrows' : P v → P' v ∨ u.Pending R' v.id ∨
      u.index.Marked key.encode (Key.ofLookup (.id v.id)).encode :=
    fun hcurrent => (hrows v hcurrent).imp_right Or.inl
  rcases hm.computing hf with hbefore | ⟨-, hnew⟩ | ⟨-, x, hx, htold⟩
  · have hmarked := hc.marked_of_moves (k := (Key.ofLookup (.id v.id)).encode) hm ⟨_, hbefore⟩ ⟨_, hf⟩
    rcases h.loaded hbefore with hcurrent | hpending | hold
    · exact hrows' hcurrent
    · rcases hm.pending hstay hremoving hpending with hstill | htouched
      · exact Or.inr (Or.inl hstill)
      · exact Or.inr (Or.inr (hmarked.2 (Or.inr htouched)))
    · exact Or.inr (Or.inr (hmarked.2 (Or.inl hold)))
  · cases hnew
  · cases hx
    refine Or.inl (hanswered j v (eq_of_answered (u := u) (p := p) (c := c) ?_))
    rw [htold]
    exact List.mem_singleton_self _

include hsaved

/-- A cache stays behind only where somebody will catch up. -/
theorem of_moves (hanswered : ∀ h v, a = .answerLoad h (.ok v) → P' v) (hc : c.Sound)
    (hx : c.index.Sound) (h : Current P R c) (hm : Moves c a p u) : Current P' R' u where
  held hw := h.held_of_moves hstay hrows hremoving hc hx hm hw
  loaded hf := h.loaded_of_moves hstay hrows hremoving hanswered hc hm hf
  saved hf := hsaved hf

end Current

end StatusStore.Cache.EntityCache
