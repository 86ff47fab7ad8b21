/-
  StatusStore/Proofs/Cache/Changes.lean
  =====================================
  **What a cache change does to the index.**  A commit drops the stale aliases of
  a value and inserts it, an invalidation removes what one key leads to, and the
  end of a load inserts what was computed if it is fresh.  Touching aliases and
  keeping track of loads has no part in what is found.

  Main statements: `Linked.get?_commit`, `Linked.get?_invalidate` and `Index.Idle.settleLoad`,
  which says that a load that nothing else overlaps is always cached.
-/
import StatusStore.Cache.Entity
import StatusStore.Proofs.Cache.Index

namespace StatusStore.Cache

/-- Stale keys are never keys of a value. -/
class LawfulCacheable (α : Type) [Cacheable α] : Prop where
  stale_apart : ∀ (v w : α) {k : String}, k ∈ staleAliases v → k ∉ aliases w

namespace Index

variable {α : Type} {x : Index α}

/-! ### Unlinking -/

theorem places_unlink (x : Index α) (key k : String) :
    (x.unlink key).places.get? k = if k = key then none else x.places.get? k := by
  unfold unlink
  cases hplace : x.places.get? key with
  | none =>
    by_cases hk : k = key
    · simp [hk, hplace]
    · simp [hk]
  | some n =>
    cases hentry : x.entries.get? n <;> simp [hentry]

theorem entries_unlink (x : Index α) (key : String) (n : Nat) :
    (x.unlink key).entries.get? n = (x.entries.get? n).map fun e =>
      if x.places.get? key = some n then { e with aliases := e.aliases.filter (· ≠ key) } else e := by
  unfold unlink
  cases hplace : x.places.get? key with
  | none => simp
  | some m =>
    cases hentry : x.entries.get? m with
    | none =>
      by_cases hn : n = m
      · simp [hentry, hn]
      · cases hother : x.entries.get? n <;> simp [hentry, hother, Ne.symm hn]
    | some e =>
      by_cases hn : n = m
      · simp [hentry, hn]
      · cases hother : x.entries.get? n <;> simp [hentry, hn, hother, Ne.symm hn]

theorem lastEntry_unlink (x : Index α) (key : String) :
    (x.unlink key).lastEntry = x.lastEntry := by
  unfold unlink
  split
  · rfl
  · dsimp only
    split <;> rfl

theorem get?_unlink (x : Index α) (key k : String) :
    (x.unlink key).get? k = if k = key then none else x.get? k := by
  have hplace := x.places_unlink key k
  split
  · rename_i hk
    rw [if_pos hk] at hplace
    simp [Index.get?, hplace]
  · rename_i hk
    rw [if_neg hk] at hplace
    cases hn : x.places.get? k with
    | none => simp [Index.get?, hplace, hn]
    | some n =>
      simp only [Index.get?, hplace, hn, entries_unlink, Option.bind_eq_bind, Option.bind_some]
      cases x.entries.get? n with
      | none => rfl
      | some e =>
        simp only [Option.map_some, Option.bind_some]
        split <;> rfl

theorem places_unlinkAll (x : Index α) (keys : List String) (k : String) :
    (keys.foldl unlink x).places.get? k = if k ∈ keys then none else x.places.get? k := by
  induction keys generalizing x with
  | nil => rfl
  | cons key keys ih =>
    rw [List.foldl_cons, ih, places_unlink]
    by_cases hkeys : k ∈ keys <;> by_cases hkey : k = key <;> simp [hkeys, hkey]

theorem get?_unlinkAll (x : Index α) (keys : List String) (k : String) :
    (keys.foldl unlink x).get? k = if k ∈ keys then none else x.get? k := by
  induction keys generalizing x with
  | nil => rfl
  | cons key keys ih =>
    rw [List.foldl_cons, ih, get?_unlink]
    by_cases hkeys : k ∈ keys <;> by_cases hkey : k = key <;> simp [hkeys, hkey]

/-! ### Marks -/

theorem get?_touch (x : Index α) (keys : List String) (k : String) :
    (x.touch keys).get? k = x.get? k := by
  simp only [touch]
  split <;> rfl

/-! ### Linked changes -/

theorem Linked.unlink (h : x.Linked) (key : String) : (x.unlink key).Linked where
  listed {k n} hn := by
    rw [places_unlink] at hn
    split at hn
    · cases hn
    · rename_i hk
      obtain ⟨e, he, hlisted⟩ := h.listed hn
      rw [entries_unlink, he]
      refine ⟨_, rfl, ?_⟩
      split
      · exact List.mem_filter.2 ⟨hlisted, by simpa using hk⟩
      · exact hlisted
  placed {n e k} he hk := by
    rw [entries_unlink, Option.map_eq_some_iff] at he
    obtain ⟨e, he, rfl⟩ := he
    rw [places_unlink]
    split at hk
    · obtain ⟨hk, hother⟩ := List.mem_filter.1 hk
      rw [if_neg (by simpa using hother)]
      exact h.placed he hk
    · rename_i hplace
      have hk := h.placed he hk
      rw [if_neg]
      · exact hk
      · rintro rfl
        exact hplace hk
  numbered {n e} he := by
    rw [entries_unlink, Option.map_eq_some_iff] at he
    obtain ⟨e, he, -⟩ := he
    rw [lastEntry_unlink]
    exact h.numbered he

theorem Linked.unlinkAll (h : x.Linked) (keys : List String) : (keys.foldl Index.unlink x).Linked := by
  induction keys generalizing x with
  | nil => exact h
  | cons key keys ih => exact ih (h.unlink key)

theorem Linked.touch (h : x.Linked) (keys : List String) : (x.touch keys).Linked := by
  simp only [Index.touch]
  split <;> exact h.of_eq rfl rfl rfl

theorem Linked.invalidate (h : x.Linked) (key : String) : (x.invalidate key).2.Linked := by
  simp only [Index.invalidate]
  exact (h.of_without (h.remove key)).touch _

/-- After an invalidation a key leads to what it led to, unless that was found under the
invalidated key too. -/
theorem Linked.get?_invalidate (h : x.Linked) {key k : String} {w : α} :
    (x.invalidate key).2.get? k = some w ↔
      x.get? k = some w ∧ x.places.get? key ≠ x.places.get? k := by
  have hinvalidate : (x.invalidate key).2.get? k = (x.remove key).2.get? k := by
    simp only [Index.invalidate]
    exact get?_touch _ _ _
  rw [hinvalidate, (h.remove key).get?]
  apply and_congr_right
  intro hw
  obtain ⟨n, e, hn, -⟩ := get?_eq_some.1 hw
  rw [hn]
  constructor
  · exact fun hstays => hstays n rfl
  · rintro hapart m hm hplace
    exact hapart (hplace.trans hm.symm)

theorem Linked.invalidate_fst (h : x.Linked) (key : String) : (x.invalidate key).1 = x.get? key :=
  h.remove_fst key

variable [Cacheable α]

theorem Linked.commit (h : x.Linked) (v : α) : (x.commit v).2.Linked := by
  simp only [Index.commit]
  exact ((h.unlinkAll _).insert v none).touch _

/-! ### Sound changes -/

theorem Sound.unlink {key : String} (h : x.Sound) (hstale : ∀ v : α, key ∉ aliases v) :
    (x.unlink key).Sound := by
  refine (h.linked.unlink key).sound ?_
  intro n e a he ha
  rw [entries_unlink, Option.map_eq_some_iff] at he
  obtain ⟨e, he, rfl⟩ := he
  split at ha
  · rename_i hplace
    rw [if_pos hplace]
    refine List.mem_filter.2 ⟨h.canonical he ha, ?_⟩
    simp only [decide_eq_true_eq]
    rintro rfl
    exact hstale e.value ha
  · rename_i hplace
    rw [if_neg hplace]
    exact h.canonical he ha

theorem Sound.unlinkAll {keys : List String} (h : x.Sound)
    (hstale : ∀ k ∈ keys, ∀ v : α, k ∉ aliases v) : (keys.foldl Index.unlink x).Sound := by
  induction keys generalizing x with
  | nil => exact h
  | cons key keys ih =>
    apply ih (h.unlink (hstale key List.mem_cons_self))
    intro k hk
    exact hstale k (List.mem_cons_of_mem key hk)

theorem Sound.touch (h : x.Sound) (keys : List String) : (x.touch keys).Sound := by
  simp only [Index.touch]
  split <;> exact h.of_eq rfl rfl rfl

/-! ### Commits and invalidations -/

theorem get?_commit_of_alias (x : Index α) {v : α} {k : String} (hk : k ∈ aliases v) :
    (x.commit v).2.get? k = some v := by
  simp only [commit]
  rw [get?_touch]
  exact get?_insert_of_files _ (Or.inl hk)

/-- After a commit the aliases of the value lead to it, its stale aliases nowhere, and the other
keys to what they led to, unless that was found under an alias of the value too. -/
theorem Linked.get?_commit (h : x.Linked) {v w : α} {k : String} :
    (x.commit v).2.get? k = some w ↔
      (k ∈ aliases v ∧ w = v) ∨ (k ∉ aliases v ∧ k ∉ staleAliases v ∧ x.get? k = some w ∧
        ∀ a ∈ aliases v, a ∉ staleAliases v → x.places.get? a ≠ x.places.get? k) := by
  have hcommit : (x.commit v).2.get? k =
      (((staleAliases v).foldl Index.unlink x).insert v none).2.get? k := by
    simp only [Index.commit]
    exact get?_touch _ _ _
  rw [hcommit, get?_insert (h.unlinkAll _)]
  simp only [Files, reduceCtorEq, or_false]
  refine or_congr_right (and_congr_right fun _ => ?_)
  rw [get?_unlinkAll, places_unlinkAll]
  by_cases hstale : k ∈ staleAliases v
  · simp [hstale]
  · rw [if_neg hstale, if_neg hstale]
    simp only [hstale, not_false_eq_true, true_and]
    refine and_congr_right fun hw => forall_congr' fun a => imp_congr_right fun _ => ?_
    obtain ⟨n, e, hn, -⟩ := get?_eq_some.1 hw
    rw [places_unlinkAll]
    by_cases ha : a ∈ staleAliases v
    · simp [ha, hn]
    · simp [ha]

theorem Sound.invalidate (h : x.Sound) (key : String) : (x.invalidate key).2.Sound := by
  simp only [Index.invalidate]
  exact (h.of_without (h.linked.remove key)).touch _

variable [LawfulCacheable α]

theorem Sound.commit (h : x.Sound) (v : α) : (x.commit v).2.Sound := by
  simp only [Index.commit]
  refine Sound.touch (Sound.insert (h.unlinkAll fun k hk w => ?_) v none) _
  exact LawfulCacheable.stale_apart v w hk

/-- Where stale keys are never keys, all aliases of a value tell whether it is displaced. -/
theorem Sound.get?_commit (h : x.Sound) {v w : α} {k : String} :
    (x.commit v).2.get? k = some w ↔
      (k ∈ aliases v ∧ w = v) ∨ (k ∉ aliases v ∧ k ∉ staleAliases v ∧ x.get? k = some w ∧
        ∀ a ∈ aliases v, x.places.get? a ≠ x.places.get? k) := by
  rw [h.linked.get?_commit]
  refine or_congr_right (and_congr_right fun _ => and_congr_right fun _ => and_congr_right fun _ => ?_)
  refine forall_congr' fun a => imp_congr_right fun ha =>
    ⟨fun hapart => hapart ?_, fun hapart _ => hapart⟩
  exact fun hstale => LawfulCacheable.stale_apart v v hstale ha

/-! ### What a change displaces -/

omit [LawfulCacheable α] [Cacheable α] in
theorem Linked.mem_removeAll_fst (h : x.Linked) {keys : List String} {v : α} :
    v ∈ (x.removeAll keys).1 ↔ ∃ key ∈ keys, x.get? key = some v := by
  induction keys generalizing x with
  | nil => simp [Index.removeAll]
  | cons key keys ih =>
    have hfirst := h.remove key
    have hremoved : v ∈ (x.remove key).1.toList.map Entry.value ↔ x.get? key = some v := by
      rw [← h.remove_fst]
      simp only [List.mem_map, Option.mem_toList, Option.map_eq_some_iff]
    simp only [Index.removeAll, List.mem_append, hremoved, ih (h.of_without hfirst)]
    constructor
    · rintro (hv | ⟨j, hj, hv⟩)
      · exact ⟨key, List.mem_cons_self, hv⟩
      · exact ⟨j, List.mem_cons_of_mem key hj, (hfirst.get?.1 hv).1⟩
    · rintro ⟨j, hj, hv⟩
      rcases List.mem_cons.1 hj with rfl | hj
      · exact Or.inl hv
      · -- A later key that leads to the entry of the first finds nothing any more.
        by_cases hsame : x.places.get? key = x.places.get? j
        · left
          simpa only [Index.get?, hsame] using hv
        · refine Or.inr ⟨j, hj, hfirst.get?.2 ⟨hv, fun n hn hkey => hsame ?_⟩⟩
          rw [hkey, hn]

/-- What a commit displaces is what was found under the aliases of the value. -/
theorem Linked.mem_commit_fst (h : x.Linked) {v d : α} :
    d ∈ (x.commit v).1 ↔ ∃ a ∈ aliases v, x.get? a = some d := by
  have hdisplaced : (x.commit v).1 =
      (((staleAliases v).foldl Index.unlink x).removeAll (aliases v ++ [])).1 := rfl
  rw [hdisplaced, (h.unlinkAll _).mem_removeAll_fst, List.append_nil]
  refine exists_congr fun a => and_congr_right fun ha => ?_
  rw [get?_unlinkAll, if_neg fun hstale => LawfulCacheable.stale_apart v v hstale ha]

/-! ### Loads that nothing overlaps -/

/-- No load is in flight, and so no marks are kept. -/
structure Idle (x : Index α) : Prop where
  loading : ∀ k, x.loading.get? k = none
  touched : ∀ k, x.touched.get? k = none

omit [Cacheable α] [LawfulCacheable α] in
theorem idle_empty : ({} : Index α).Idle := ⟨fun _ => rfl, fun _ => rfl⟩

omit [Cacheable α] [LawfulCacheable α] in
theorem Idle.of_eq {y : Index α} (h : x.Idle) (loading : y.loading = x.loading)
    (touched : y.touched = x.touched) : y.Idle where
  loading := loading ▸ h.loading
  touched := touched ▸ h.touched

omit [Cacheable α] [LawfulCacheable α] in
theorem Idle.touch (h : x.Idle) (keys : List String) : (x.touch keys).Idle := by
  have hnone : x.loading.isEmpty = true := (KeyMap.isEmpty_iff _).2 h.loading
  simp only [Index.touch, hnone, if_true]
  exact h.of_eq rfl rfl

omit [LawfulCacheable α] in
theorem Idle.insert (h : x.Idle) (hs : x.Sound) (v : α) (lookup : Option String) :
    (x.insert v lookup).2.Idle := by
  obtain ⟨y, hless, hinsert⟩ := hs.linked.insert_without v lookup
  rw [hinsert]
  exact h.of_eq hless.loading hless.touched

theorem Idle.commit (h : x.Idle) (hs : x.Sound) (v : α) : (x.commit v).2.Idle := by
  have hunlink : ∀ (keys : List String) (y : Index α), y.Idle → (keys.foldl Index.unlink y).Idle := by
    intro keys
    induction keys with
    | nil => exact fun _ hy => hy
    | cons key keys ih =>
      intro y hy
      apply ih _
      unfold Index.unlink
      split
      · exact hy
      · dsimp only
        split <;> exact hy.of_eq rfl rfl
  simp only [Index.commit]
  refine Idle.touch (Idle.insert (hunlink _ x h) (hs.unlinkAll fun k hk w => ?_) v none) _
  exact LawfulCacheable.stale_apart v w hk

omit [LawfulCacheable α] in
theorem Idle.invalidate (h : x.Idle) (hs : x.Sound) (key : String) :
    (x.invalidate key).2.Idle := by
  have hless := hs.linked.remove key
  simp only [Index.invalidate]
  exact (h.of_eq hless.loading hless.touched).touch _

omit [LawfulCacheable α] in
/-- A load that nothing overlaps leaves its value fresh and its bookkeeping behind. -/
theorem Idle.finishLoad (h : x.Idle) (key : String) (value : Option α) :
    ∃ y, (x.beginLoad key).finishLoad key value = (value.isSome, y) ∧ y.places = x.places ∧
      y.entries = x.entries ∧ y.lastEntry = x.lastEntry ∧ y.Idle := by
  have hended : ∀ k, ((x.beginLoad key).loading.erase key).get? k = none := by
    intro k
    simp only [beginLoad, KeyMap.get?_erase, KeyMap.get?_insert, h.loading]
    split <;> simp_all
  have hvalues := KeyMap.values_of_isEmpty ((KeyMap.isEmpty_iff _).2 hended)
  have hunmarked : ∀ start k, (x.beginLoad key).changedSince start k = false := by
    intro start k
    simp [changedSince, beginLoad, h.touched]
  have hbegun : (x.beginLoad key).loading.get? key = some x.generation := by
    simp [beginLoad]
  refine ⟨({ x.beginLoad key with loading := (x.beginLoad key).loading.erase key } : Index α).prune,
    ?_, ?_⟩
  · cases value <;> simp [Index.finishLoad, hbegun, hunmarked]
  · simp only [prune, hvalues]
    exact ⟨rfl, rfl, rfl, ⟨hended, fun _ => rfl⟩⟩

end Index

namespace EntityCache

variable {α : Type} [Cacheable α] {c : EntityCache α}

/-- What a load does that nothing overlaps.  A hit changes nothing that is found; after a miss a
computed value has been inserted under its aliases and the key, and an error changes nothing. -/
theorem load_cases {σ : Type} (hs : c.index.Sound) (hidle : c.index.Idle) (key : Key)
    (compute : σ → Except Error α × σ) (env : σ) :
    (∃ v, c.index.get? key.encode = some v ∧ c.load key compute env = (.ok v, c.recordHit, env)) ∨
    (c.index.get? key.encode = none ∧ ∃ u : EntityCache α,
      c.load key compute env = ((compute env).1, u, (compute env).2) ∧
      u.index.Sound ∧ u.index.Idle ∧
      ((∃ e, (compute env).1 = .error e ∧ ∀ k, u.index.get? k = c.index.get? k) ∨
        ∃ v, (compute env).1 = .ok v ∧ ∀ {k : String} {w : α}, u.index.get? k = some w ↔
          (Index.Files v (some key.encode) k ∧ w = v) ∨
          (¬ Index.Files v (some key.encode) k ∧ c.index.get? k = some w ∧
            ∀ j, Index.Files v (some key.encode) j →
              c.index.places.get? j ≠ c.index.places.get? k))) := by
  unfold load get?
  cases hget : c.index.get? key.encode with
  | some v => exact Or.inl ⟨v, rfl, rfl⟩
  | none =>
    refine Or.inr ⟨rfl, _, rfl, ?_⟩
    cases hanswer : (compute env).1 with
    | error e =>
      obtain ⟨y, hfinish, hplaces, hentries, hlast, hy⟩ :=
        hidle.finishLoad (α := α) key.encode none
      have hindex : ((c.beginLoad key.encode).settleLoad key.encode (.error e)).index = y :=
        congrArg Prod.snd hfinish
      rw [hindex]
      refine ⟨hs.of_eq hplaces hentries hlast, hy, Or.inl ⟨e, rfl, fun k => ?_⟩⟩
      simp only [Index.get?, hplaces, hentries]
    | ok v =>
      obtain ⟨y, hfinish, hplaces, hentries, hlast, hy⟩ :=
        hidle.finishLoad key.encode (some v)
      have hsound : y.Sound := hs.of_eq hplaces hentries hlast
      have hindex : ((c.beginLoad key.encode).settleLoad key.encode (.ok v)).index =
          (y.insert v (some key.encode)).2 := by
        have hfinish' : (c.beginLoad key.encode).index.finishLoad key.encode (some v) = (true, y) :=
          hfinish
        simp [settleLoad, hfinish', recordSize]
      rw [hindex]
      refine ⟨hsound.insert v _, hy.insert hsound v _, Or.inr ⟨v, rfl, fun {k w} => ?_⟩⟩
      have hsame : ∀ k, y.get? k = c.index.get? k := by
        intro k
        simp only [Index.get?, hplaces, hentries]
      rw [Index.get?_insert hsound.linked, hsame, hplaces]

end EntityCache

end StatusStore.Cache
