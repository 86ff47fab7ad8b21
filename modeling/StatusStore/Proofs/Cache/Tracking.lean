/-
  StatusStore/Proofs/Cache/Tracking.lean
  ======================================
  **Every load that computes is known to the index.**  The index keeps the loads in
  flight by key and not by handle; since no two loads of one key compute at a time,
  nothing is lost by that, and what an action touches is marked for every load
  that goes on computing.

  Main statements: `Sound.of_moves` and `Sound.run` (the invariant of a cache),
  `Sound.marked_of_moves` (which marks a load gains by an action) and
  `Sound.found_of_moves` (where a value that is found has come from).
-/
import StatusStore.Proofs.Cache.Flights
import StatusStore.Proofs.Cache.Marks

namespace StatusStore.Cache

namespace Index

variable {α : Type} [Cacheable α] {x : Index α}

def committed (x : Index α) (v : α) : List String :=
  aliases v ++ staleAliases v ++ (x.commit v).1.flatMap aliases

def invalidated (x : Index α) (key : String) : List String :=
  key :: (x.remove key).1.toList.flatMap Entry.aliases

theorem loading_commit (x : Index α) (v : α) : (x.commit v).2.loading = x.loading := by
  simp only [commit, loading_touch]
  exact ((x.sameMarks_unlinkAll _).trans (sameMarks_insert _ v none)).loading

theorem Dated.commit (h : x.Dated) (v : α) : (x.commit v).2.Dated :=
  (h.of_sameMarks ((x.sameMarks_unlinkAll _).trans (sameMarks_insert _ v none))).touch _

theorem marked_commit (h : x.Dated) {v : α} {key k : String} :
    (x.commit v).2.Marked key k ↔
      x.Marked key k ∨ k ∈ x.committed v ∧ (x.loading.get? key).isSome = true := by
  have hsame := (x.sameMarks_unlinkAll (staleAliases v)).trans (sameMarks_insert _ v none)
  have htouch := @marked_touch α _ key k (x.committed v) (h.of_sameMarks hsame)
  rw [hsame.marked, hsame.loading] at htouch
  exact htouch

omit [Cacheable α] in
theorem loading_invalidate (x : Index α) (key : String) :
    (x.invalidate key).2.loading = x.loading := by
  simp only [invalidate, loading_touch]
  exact (x.sameMarks_remove key).loading

omit [Cacheable α] in
theorem Dated.invalidate (h : x.Dated) (key : String) : (x.invalidate key).2.Dated :=
  (h.of_sameMarks (x.sameMarks_remove key)).touch _

omit [Cacheable α] in
theorem marked_invalidate (h : x.Dated) {j key k : String} :
    (x.invalidate j).2.Marked key k ↔
      x.Marked key k ∨ k ∈ x.invalidated j ∧ (x.loading.get? key).isSome = true := by
  have hsame := x.sameMarks_remove j
  have htouch := @marked_touch α _ key k (x.invalidated j) (h.of_sameMarks hsame)
  rw [hsame.marked, hsame.loading] at htouch
  exact htouch

omit [Cacheable α] in
/-- What an invalidation touches leads nowhere after it. -/
theorem Linked.get?_invalidated (h : x.Linked) {key k : String} (hk : k ∈ x.invalidated key) :
    (x.invalidate key).2.get? k = none := by
  rw [Option.eq_none_iff_forall_ne_some]
  intro w hw
  obtain ⟨-, hapart⟩ := h.get?_invalidate.1 hw
  rcases List.mem_cons.1 hk with rfl | hk
  · exact hapart rfl
  · obtain ⟨e, he, hk⟩ := List.mem_flatMap.1 hk
    unfold Index.remove at he
    cases hplace : x.places.get? key with
    | none => simp [hplace] at he
    | some n =>
      cases hentry : x.entries.get? n with
      | none => simp [hplace, hentry] at he
      | some e' =>
        obtain rfl : e = e' := by simpa [hplace, hentry] using he
        exact hapart (hplace.trans (h.placed hentry hk).symm)

/-- What a commit touches leads to the value that is stored or nowhere. -/
theorem Sound.get?_committed [LawfulCacheable α] (h : x.Sound) {v w : α} {k : String}
    (hk : k ∈ x.committed v) (hw : (x.commit v).2.get? k = some w) : w = v := by
  rcases h.get?_commit.1 hw with ⟨-, rfl⟩ | ⟨halias, hstale, hold, hapart⟩
  · rfl
  · simp only [committed, List.mem_append, halias, hstale, false_or] at hk
    obtain ⟨d, hd, hk⟩ := List.mem_flatMap.1 hk
    obtain ⟨a, ha, hfound⟩ := h.linked.mem_commit_fst.1 hd
    exact absurd (h.place_of_alias hfound hk).symm (hapart a ha)

end Index

namespace EntityCache

variable {α : Type} {c u : EntityCache α} {h j : Nat} {key : Key}

def Loads (c : EntityCache α) (j : Nat) (key : Key) : Prop :=
  ∃ r, c.flight? j = some ⟨j, .load key r, .running⟩

theorem Sets.loads {f : Option (Flight α)} (hsets : Sets c u h f) (hloads : u.Loads j key) :
    (j = h ∧ ∃ r, f = some ⟨h, .load key r, .running⟩) ∨ (j ≠ h ∧ c.Loads j key) := by
  obtain ⟨r, hf⟩ := hloads
  rw [hsets] at hf
  split at hf
  · rename_i hj
    exact Or.inl ⟨hj, r, hj ▸ hf⟩
  · rename_i hj
    exact Or.inr ⟨hj, r, hf⟩

/-- Where a flight has gone, the loads that compute are those that did. -/
theorem Sets.loads_of_none (hsets : Sets c u h none) (hloads : u.Loads j key) :
    j ≠ h ∧ c.Loads j key := by
  rcases hsets.loads hloads with ⟨-, r, hf⟩ | hother
  · cases hf
  · exact hother

theorem loads_of_same (hsame : ∀ j, u.flight? j = c.flight? j) (hloads : u.Loads j key) :
    c.Loads j key := by
  obtain ⟨r, hf⟩ := hloads
  exact ⟨r, hsame j ▸ hf⟩

variable [Cacheable α] {a : Action α} {p : Progress α}

/-- The aliases that an action touches. -/
def touches (c : EntityCache α) : Action α → List String
  | .poll h =>
    match c.flight? h with
    | some ⟨_, .store v (some (.ok ())), .running⟩ => c.index.committed v
    | _ => []
  | .invalidate key => c.index.invalidated key.encode
  | _ => []

theorem Idle.touches (h : Idle c a p) : c.touches a = [] := by
  cases h with
  | hit _ _ => rfl
  | @busy h w f _ => cases w <;> rfl
  | refused _ => rfl
  | unused hnone => simp [EntityCache.touches, hnone]
  | @asking h f hf _ hquery =>
    obtain ⟨handle, ⟨key, r⟩ | ⟨v, _ | r⟩, phase⟩ := f
    · simp [EntityCache.touches, hf]
    · simp [EntityCache.touches, hf]
    · cases hquery
  | @blocked h f hf hwaiting _ =>
    obtain ⟨handle, w, phase⟩ := f
    obtain rfl : phase = .waiting := hwaiting
    simp [EntityCache.touches, hf]
  | unheard hanswer _ _ => obtain ⟨r, rfl⟩ | ⟨r, rfl⟩ := hanswer <;> rfl
  | missed _ => rfl

theorem Admits.touches {w : Work α} (h : Admits c h w a) : c.touches a = [] := by
  cases h with
  | atOnce _ => cases w <;> rfl
  | later hf => simp [EntityCache.touches, hf]

/-- Only commits and invalidations touch anything. -/
theorem Moves.touches (hm : Moves c a p u) :
    c.touches a = [] ∨
      (∃ h v, a = .poll h ∧ p = .stored (.ok ()) ∧ u.index = (c.index.commit v).2 ∧
        c.flight? h = some ⟨h, .store v (some (.ok ())), .running⟩ ∧ Sets c u h none ∧
        c.touches a = c.index.committed v) ∨
      ∃ key, a = .invalidate key ∧ u.index = (c.index.invalidate key.encode).2 ∧
        (∀ j, u.flight? j = c.flight? j) ∧ c.touches a = c.index.invalidated key.encode := by
  cases hm with
  | idle hidle _ _ => exact Or.inl hidle.touches
  | @queued h w _ _ _ _ _ _ => exact Or.inl (by cases w <;> rfl)
  | found hf _ _ _ => exact Or.inl (by simp [EntityCache.touches, hf])
  | began hadmits _ _ _ _ => exact Or.inl hadmits.touches
  | persists hadmits _ _ _ => exact Or.inl hadmits.touches
  | answeredLoad _ _ _ => exact Or.inl rfl
  | answeredStore _ _ _ => exact Or.inl rfl
  | loaded hf _ _ => exact Or.inl (by simp [EntityCache.touches, hf])
  | failed hf _ _ => exact Or.inl (by simp [EntityCache.touches, hf])
  | @committed h v _ hf hindex hsets =>
    exact Or.inr (Or.inl ⟨h, v, rfl, rfl, hindex, hf, hsets, by simp [EntityCache.touches, hf]⟩)
  | rejected hf _ _ => exact Or.inl (by simp [EntityCache.touches, hf])
  | abandoned _ _ _ => exact Or.inl rfl
  | withdrawn _ _ _ _ => exact Or.inl rfl
  | @invalidated key _ hindex hsame => exact Or.inr (Or.inr ⟨key, rfl, hindex, hsame, rfl⟩)

/-! ### The invariant -/

/-- The locks are told by the flights, and the index knows every load that computes. -/
structure Sound (c : EntityCache α) : Prop extends Gripped c where
  linked : c.index.Linked
  dated : c.index.Dated
  loading : ∀ {j : Nat} {key : Key}, c.Loads j key →
    (c.index.loading.get? key.encode).isSome = true

theorem sound_withGcFrequency (name : String) (frequency : UInt32) :
    (EntityCache.withGcFrequency name frequency : EntityCache α).Sound where
  toGripped := .withGcFrequency name frequency
  linked := Index.linked_empty
  dated := Index.dated_empty
  loading hloads := by
    obtain ⟨r, hf⟩ := hloads
    cases hf

/-- No two loads of one key compute at a time. -/
theorem Gripped.loads_alone {i : Key} (hc : c.Gripped) (hh : c.Loads h key) (hj : c.Loads j i)
    (hkey : key.encode = i.encode) : h = j := by
  obtain ⟨r, hf⟩ := hh
  obtain ⟨r', hg⟩ := hj
  exact hc.alone hf hg rfl rfl hkey

theorem Free.loads_ne {k : String} (hfree : c.Free k) (hloads : c.Loads j key) : key.encode ≠ k := by
  obtain ⟨r, hf⟩ := hloads
  exact hfree j _ hf rfl

namespace Sound

/-- Nothing happens to the index, and no load begins to compute. -/
theorem still (hc : c.Sound) (hu : u.Gripped) (hindex : u.index = c.index)
    (hloads : ∀ {j key}, u.Loads j key → c.Loads j key) : u.Sound where
  toGripped := hu
  linked := hindex ▸ hc.linked
  dated := hindex ▸ hc.dated
  loading hl := hindex ▸ hc.loading (hloads hl)

/-- A load has ended, and what came of it may have been inserted. -/
theorem ends {x : Index α} (hc : c.Sound) (hu : u.Gripped) (hkey : c.Loads h key)
    (hended : Index.Ended c.index x key.encode) (hsame : Index.SameMarks x u.index)
    (hlinked : u.index.Linked) (hsets : Sets c u h none) : u.Sound where
  toGripped := hu
  linked := hlinked
  dated := (hended.dated hc.dated).of_sameMarks hsame
  loading {j i} hl := by
    obtain ⟨hother, hloads⟩ := hsets.loads_of_none hl
    rw [hsame.loading, hended.loading, if_neg]
    · exact hc.loading hloads
    · exact fun hkeys => hother (hc.loads_alone hloads hkey hkeys)

theorem of_moves (hc : c.Sound) (hu : u.Gripped) (hm : Moves c a p u) : u.Sound := by
  cases hm with
  | idle _ hindex hsame => exact hc.still hu hindex (loads_of_same hsame)
  | queued _ _ _ hindex hsets =>
    refine hc.still hu hindex fun hl => ?_
    rcases hsets.loads hl with ⟨-, r, hf⟩ | ⟨-, hloads⟩
    · cases hf
    · exact hloads
  | found _ _ hindex hsets => exact hc.still hu hindex fun hl => (hsets.loads_of_none hl).2
  | @began a h key _ _ _ hfree hindex hsets =>
    refine ⟨hu, ?_, ?_, fun {j i} hl => ?_⟩
    · rw [hindex]
      exact hc.linked.of_eq rfl rfl rfl
    · rw [hindex]
      exact hc.dated.beginLoad _
    · rw [hindex, Index.loading_beginLoad]
      split
      · rfl
      · rename_i hkeys
        rcases hsets.loads hl with ⟨-, r, hf⟩ | ⟨-, hloads⟩
        · cases hf
          exact absurd rfl hkeys
        · exact hc.loading hloads
  | persists _ _ hindex hsets =>
    refine hc.still hu hindex fun hl => ?_
    rcases hsets.loads hl with ⟨-, r, hf⟩ | ⟨-, hloads⟩
    · cases hf
    · exact hloads
  | @answeredLoad h key r _ hf hindex hsets =>
    refine hc.still hu hindex fun {j i} hl => ?_
    rcases hsets.loads hl with ⟨rfl, r', hg⟩ | ⟨-, hloads⟩
    · cases hg
      exact ⟨none, hf⟩
    · exact hloads
  | answeredStore _ hindex hsets =>
    refine hc.still hu hindex fun hl => ?_
    rcases hsets.loads hl with ⟨-, r, hf⟩ | ⟨-, hloads⟩
    · cases hf
    · exact hloads
  | @loaded h key v _ hf hindex hsets =>
    have hended := c.index.ended_finishLoad key.encode (some v)
    have hlinked := hc.linked.of_eq hended.places hended.entries hended.lastEntry
    split at hindex
    · exact hc.ends hu ⟨_, hf⟩ hended (hindex ▸ Index.sameMarks_insert _ _ _)
        (hindex ▸ hlinked.insert _ _) hsets
    · exact hc.ends hu ⟨_, hf⟩ hended (hindex ▸ .refl _) (hindex ▸ hlinked) hsets
  | @failed h key e _ hf hindex hsets =>
    have hended := c.index.ended_finishLoad key.encode none
    have hlinked := hc.linked.of_eq hended.places hended.entries hended.lastEntry
    exact hc.ends hu ⟨_, hf⟩ hended (hindex ▸ .refl _) (hindex ▸ hlinked) hsets
  | @committed h v _ _ hindex hsets =>
    refine ⟨hu, hindex ▸ hc.linked.commit v, hindex ▸ hc.dated.commit v, fun hl => ?_⟩
    rw [hindex, Index.loading_commit]
    exact hc.loading (hsets.loads_of_none hl).2
  | rejected _ hindex hsets => exact hc.still hu hindex fun hl => (hsets.loads_of_none hl).2
  | @abandoned h key r _ hf hindex hsets =>
    have hended := c.index.ended_finishLoad key.encode none
    have hlinked := hc.linked.of_eq hended.places hended.entries hended.lastEntry
    exact hc.ends hu ⟨_, hf⟩ hended (hindex ▸ .refl _) (hindex ▸ hlinked) hsets
  | withdrawn _ _ hindex hsets => exact hc.still hu hindex fun hl => (hsets.loads_of_none hl).2
  | @invalidated key _ hindex hsame =>
    refine ⟨hu, hindex ▸ hc.linked.invalidate _, hindex ▸ hc.dated.invalidate _, fun hl => ?_⟩
    rw [hindex, Index.loading_invalidate]
    exact hc.loading (loads_of_same hsame hl)

theorem act (hc : c.Sound) (a : Action α) : (c.act a).2.Sound :=
  hc.of_moves (hc.moves a).2 (hc.moves a).1

theorem run (hc : c.Sound) (actions : List (Action α)) : (c.run actions).Sound := by
  induction actions generalizing c with
  | nil => exact hc
  | cons a actions ih => exact ih (hc.act a)

/-! ### Marks -/

/-- A load that goes on computing is marked for what an action touches, and for nothing else that
it was not marked for. -/
theorem marked_of_moves {k : String} (hc : c.Sound) (hm : Moves c a p u) (hj : c.Loads j key)
    (hj' : u.Loads j key) :
    u.index.Marked key.encode k ↔ c.index.Marked key.encode k ∨ k ∈ c.touches a := by
  rcases hm.touches with htouches | ⟨h, v, -, -, hindex, -, -, htouches⟩ | ⟨i, -, hindex, -, htouches⟩
  · -- Nothing is touched, and the loads that end or begin are of other keys.
    have hends : ∀ {h : Nat} {i : Key} {x : Index α}, c.Loads h i →
        Index.Ended c.index x i.encode → Index.SameMarks x u.index → Sets c u h none →
        (u.index.Marked key.encode k ↔ c.index.Marked key.encode k) := by
      intro h i x hi hended hsame hsets
      have hother := (hsets.loads_of_none hj').1
      rw [hsame.marked, hended.marked fun hkeys => hother (hc.loads_alone hj hi hkeys)]
    rw [htouches]
    simp only [List.not_mem_nil, or_false]
    cases hm with
    | idle _ hindex _ => rw [hindex]
    | queued _ _ _ hindex _ => rw [hindex]
    | found _ _ hindex _ => rw [hindex]
    | began _ _ hfree hindex _ => rw [hindex, Index.marked_beginLoad (hfree.loads_ne hj)]
    | persists _ _ hindex _ => rw [hindex]
    | answeredLoad _ hindex _ => rw [hindex]
    | answeredStore _ hindex _ => rw [hindex]
    | @loaded h i v _ hf hindex hsets =>
      have hended := c.index.ended_finishLoad i.encode (some v)
      split at hindex
      · exact hends ⟨_, hf⟩ hended (hindex ▸ Index.sameMarks_insert _ _ _) hsets
      · exact hends ⟨_, hf⟩ hended (hindex ▸ .refl _) hsets
    | @failed h i e _ hf hindex hsets =>
      exact hends ⟨_, hf⟩ (c.index.ended_finishLoad i.encode none) (hindex ▸ .refl _) hsets
    | @committed h v _ hf hindex _ =>
      have hnone : c.index.committed v = [] := by simpa [touches, hf] using htouches
      rw [hindex, Index.marked_commit hc.dated, hnone]
      simp
    | rejected _ hindex _ => rw [hindex]
    | @abandoned h i r _ hf hindex hsets =>
      exact hends ⟨_, hf⟩ (c.index.ended_finishLoad i.encode none) (hindex ▸ .refl _) hsets
    | withdrawn _ _ hindex _ => rw [hindex]
    | invalidated _ _ => cases htouches
  · rw [htouches, hindex, Index.marked_commit hc.dated]
    simp [hc.loading hj]
  · rw [htouches, hindex, Index.marked_invalidate hc.dated]
    simp [hc.loading hj]

/-! ### What is found -/

/-- What is found after an action was found before, or was just stored, or was just computed by a
load and was fresh. -/
theorem found_of_moves {v : α} (hc : c.Sound) (hm : Moves c a p u) (hv : u.get? key = some v) :
    c.get? key = some v ∨
      (∃ h, a = .poll h ∧ p = .stored (.ok ()) ∧ key.encode ∈ aliases v ∧
        c.flight? h = some ⟨h, .store v (some (.ok ())), .running⟩) ∨
      ∃ h i, a = .poll h ∧ c.flight? h = some ⟨h, .load i (some (.ok v)), .running⟩ ∧
        Index.Files v (some i.encode) key.encode ∧
        (c.index.finishLoad i.encode (some v)).1 = true := by
  have hstill : u.index = c.index → c.get? key = some v := by
    intro hindex
    rw [get?, hindex] at hv
    exact hv
  cases hm with
  | idle _ hindex _ => exact Or.inl (hstill hindex)
  | queued _ _ _ hindex _ => exact Or.inl (hstill hindex)
  | found _ _ hindex _ => exact Or.inl (hstill hindex)
  | began _ _ _ hindex _ =>
    rw [get?, hindex] at hv
    exact Or.inl hv
  | persists _ _ hindex _ => exact Or.inl (hstill hindex)
  | answeredLoad _ hindex _ => exact Or.inl (hstill hindex)
  | answeredStore _ hindex _ => exact Or.inl (hstill hindex)
  | @loaded h i w _ hf hindex _ =>
    have hended := c.index.ended_finishLoad i.encode (some w)
    have hlinked := hc.linked.of_eq hended.places hended.entries hended.lastEntry
    rw [get?, hindex] at hv
    split at hv
    · rename_i hfresh
      rcases (Index.get?_insert hlinked).1 hv with ⟨hfiles, rfl⟩ | ⟨-, hold, -⟩
      · exact Or.inr (Or.inr ⟨h, i, rfl, hf, hfiles, hfresh⟩)
      · rw [hended.get?] at hold
        exact Or.inl hold
    · rw [hended.get?] at hv
      exact Or.inl hv
  | @failed h i e _ _ hindex _ =>
    rw [get?, hindex, (c.index.ended_finishLoad i.encode none).get?] at hv
    exact Or.inl hv
  | @committed h w _ hf hindex _ =>
    rw [get?, hindex] at hv
    rcases hc.linked.get?_commit.1 hv with ⟨halias, rfl⟩ | ⟨-, -, hold, -⟩
    · exact Or.inr (Or.inl ⟨h, rfl, rfl, halias, hf⟩)
    · exact Or.inl hold
  | rejected _ hindex _ => exact Or.inl (hstill hindex)
  | @abandoned h i r _ _ hindex _ =>
    rw [get?, hindex, (c.index.ended_finishLoad i.encode none).get?] at hv
    exact Or.inl hv
  | withdrawn _ _ hindex _ => exact Or.inl (hstill hindex)
  | invalidated hindex _ =>
    rw [get?, hindex] at hv
    exact Or.inl (hc.linked.get?_invalidate.1 hv).1

/-! ### Indexes with all aliases -/

theorem index_of_moves [LawfulCacheable α] (hc : c.index.Sound) (hm : Moves c a p u) :
    u.index.Sound := by
  have hends : ∀ {x : Index α} {i : String}, Index.Ended c.index x i → x.Sound :=
    fun hended => hc.of_eq hended.places hended.entries hended.lastEntry
  cases hm with
  | idle _ hindex _ => exact hindex ▸ hc
  | queued _ _ _ hindex _ => exact hindex ▸ hc
  | found _ _ hindex _ => exact hindex ▸ hc
  | began _ _ _ hindex _ =>
    rw [hindex]
    exact hc.of_eq rfl rfl rfl
  | persists _ _ hindex _ => exact hindex ▸ hc
  | answeredLoad _ hindex _ => exact hindex ▸ hc
  | answeredStore _ hindex _ => exact hindex ▸ hc
  | @loaded h i v _ hf hindex _ =>
    have hended := hends (c.index.ended_finishLoad i.encode (some v))
    split at hindex
    · exact hindex ▸ hended.insert _ _
    · exact hindex ▸ hended
  | @failed h i e _ _ hindex _ => exact hindex ▸ hends (c.index.ended_finishLoad i.encode none)
  | @committed h v _ _ hindex _ => exact hindex ▸ hc.commit v
  | rejected _ hindex _ => exact hindex ▸ hc
  | @abandoned h i r _ _ hindex _ => exact hindex ▸ hends (c.index.ended_finishLoad i.encode none)
  | withdrawn _ _ hindex _ => exact hindex ▸ hc
  | @invalidated i _ hindex _ => exact hindex ▸ hc.invalidate i.encode

theorem index_run [LawfulCacheable α] (hc : c.Sound) (hx : c.index.Sound)
    (actions : List (Action α)) : (c.run actions).index.Sound := by
  induction actions generalizing c with
  | nil => exact hx
  | cons a actions ih => exact ih (hc.act a) (index_of_moves hx (hc.moves a).1)

end Sound

end EntityCache

end StatusStore.Cache
