/-
  StatusStore/Proofs/Cache/Marks.lean
  ===================================
  **What a load in flight will learn.**  An alias is marked for a load if it was
  touched after the load began.  Marks are kept in one map for all loads, only
  while a load is in flight, and pruned to the oldest of them; none of this is
  seen by a load, for which `Marked` grows by what is touched and by nothing else.

  Main statements: `not_marked_beginLoad`, `marked_touch` and `ended_finishLoad`
  give the marks after each operation, and `finishLoad_fst` says that a load may
  be cached if it is marked neither for its key nor for an alias of its value.
-/
import StatusStore.Proofs.Cache.Changes

namespace StatusStore

namespace KeyMap

variable {κ α : Type} [DecidableEq κ]

theorem get?_filter (m : KeyMap κ α) (p : κ → α → Bool) (k : κ) :
    (m.filter p).get? k = (m.get? k).filter (p k) := by
  obtain ⟨pairs, hnodup⟩ := m
  simp only [get?, filter]
  induction pairs with
  | nil => rfl
  | cons b pairs ih =>
    obtain ⟨hfresh, hrest⟩ := List.nodup_cons.1 hnodup
    by_cases hkey : b.1 = k
    · subst hkey
      by_cases hb : p b.1 b.2 = true
      · simp [hb, Option.filter_some]
      · -- No later pair has the key, so none is found once this one is gone.
        have hnone : (pairs.filter fun c => p c.1 c.2).find? (·.1 = b.1) = none := by
          rw [List.find?_eq_none]
          intro c hc hsame
          refine hfresh (List.mem_map.2 ⟨c, (List.mem_filter.1 hc).1, ?_⟩)
          simpa using hsame
        simp [hb, hnone, Option.filter_some]
    · by_cases hb : p b.1 b.2 = true
      · simpa [List.filter_cons, hb, hkey] using ih hrest
      · simpa [List.filter_cons, hb, hkey] using ih hrest

theorem mem_values {m : KeyMap κ α} {k : κ} {v : α} (h : m.get? k = some v) : v ∈ m.values := by
  simp only [get?, Option.map_eq_some_iff] at h
  obtain ⟨b, hb, rfl⟩ := h
  exact List.mem_map_of_mem (List.mem_of_find?_eq_some hb)

end KeyMap

namespace Cache.Index

variable {α : Type} {x y : Index α} {key j k : String} {keys : List String}

/-! ### What has no part in marks -/

structure SameMarks (x y : Index α) : Prop where
  generation : y.generation = x.generation
  loading : y.loading = x.loading
  touched : y.touched = x.touched

theorem SameMarks.refl (x : Index α) : SameMarks x x := ⟨rfl, rfl, rfl⟩

theorem SameMarks.trans {z : Index α} (hxy : SameMarks x y) (hyz : SameMarks y z) :
    SameMarks x z :=
  ⟨hyz.generation.trans hxy.generation, hyz.loading.trans hxy.loading,
    hyz.touched.trans hxy.touched⟩

theorem sameMarks_unlink (x : Index α) (key : String) : SameMarks x (x.unlink key) := by
  unfold unlink
  split
  · exact .refl x
  · dsimp only
    split <;> exact ⟨rfl, rfl, rfl⟩

theorem sameMarks_unlinkAll (x : Index α) (keys : List String) :
    SameMarks x (keys.foldl unlink x) := by
  induction keys generalizing x with
  | nil => exact .refl x
  | cons key keys ih => exact (x.sameMarks_unlink key).trans (ih _)

theorem sameMarks_remove (x : Index α) (key : String) : SameMarks x (x.remove key).2 := by
  unfold remove
  split
  · exact .refl x
  · split <;> exact ⟨rfl, rfl, rfl⟩

theorem sameMarks_removeAll (x : Index α) (keys : List String) :
    SameMarks x (x.removeAll keys).2 := by
  induction keys generalizing x with
  | nil => exact .refl x
  | cons key keys ih => exact (x.sameMarks_remove key).trans (ih _)

theorem sameMarks_insert [Cacheable α] (x : Index α) (v : α) (lookup : Option String) :
    SameMarks x (x.insert v lookup).2 :=
  (x.sameMarks_removeAll _).trans ⟨rfl, rfl, rfl⟩

/-! ### Marks -/

/-- Loads and marks are of generations that have begun. -/
structure Dated (x : Index α) : Prop where
  loading : ∀ {k : String} {g : Nat}, x.loading.get? k = some g → g ≤ x.generation
  touched : ∀ {k : String} {g : Nat}, x.touched.get? k = some g → g ≤ x.generation

/-- The load of `key` that is in flight will learn that `k` was touched since it began. -/
def Marked (x : Index α) (key k : String) : Prop :=
  ∃ start, x.loading.get? key = some start ∧ x.changedSince start k = true

theorem changedSince_iff {start : Nat} :
    x.changedSince start k = true ↔ ∃ g, x.touched.get? k = some g ∧ start < g := by
  simp [changedSince, Option.any_eq_true]

theorem dated_empty : ({} : Index α).Dated where
  loading h := by cases h
  touched h := by cases h

theorem Dated.of_sameMarks (h : x.Dated) (hsame : SameMarks x y) : y.Dated where
  loading hk := hsame.generation ▸ h.loading (hsame.loading ▸ hk)
  touched hk := hsame.generation ▸ h.touched (hsame.touched ▸ hk)

theorem SameMarks.marked (h : SameMarks x y) : y.Marked key k ↔ x.Marked key k := by
  simp only [Marked, changedSince, h.loading, h.touched]

/-! ### Touching -/

theorem loading_touch (x : Index α) (keys : List String) : (x.touch keys).loading = x.loading := by
  simp only [touch]
  split <;> rfl

theorem generation_touch (x : Index α) (keys : List String) :
    (x.touch keys).generation = x.generation + 1 := by
  simp only [touch]
  split <;> rfl

theorem touched_touch (x : Index α) (keys : List String) (k : String) :
    (x.touch keys).touched.get? k =
      if x.loading.isEmpty = false ∧ k ∈ keys then some (x.generation + 1)
      else x.touched.get? k := by
  simp only [touch]
  cases x.loading.isEmpty with
  | true => simp
  | false => simp [KeyMap.get?_foldl_insert]

theorem Dated.touch (h : x.Dated) (keys : List String) : (x.touch keys).Dated where
  loading {k g} hk := by
    rw [loading_touch] at hk
    rw [generation_touch]
    exact Nat.le_succ_of_le (h.loading hk)
  touched {k g} hk := by
    rw [generation_touch]
    rw [touched_touch] at hk
    split at hk
    · cases hk
      exact Nat.le_refl _
    · exact Nat.le_succ_of_le (h.touched hk)

theorem isEmpty_loading {start : Nat} (h : x.loading.get? key = some start) :
    x.loading.isEmpty = false := by
  rw [← Bool.not_eq_true, KeyMap.isEmpty_iff]
  intro hnone
  rw [hnone key] at h
  cases h

/-- What is touched is marked for every load in flight. -/
theorem marked_touch (h : x.Dated) :
    (x.touch keys).Marked key k ↔
      x.Marked key k ∨ k ∈ keys ∧ (x.loading.get? key).isSome = true := by
  simp only [Marked, loading_touch, changedSince_iff, touched_touch]
  constructor
  · rintro ⟨start, hstart, g, hg, hlate⟩
    split at hg
    · rename_i htouched
      exact Or.inr ⟨htouched.2, by simp [hstart]⟩
    · exact Or.inl ⟨start, hstart, g, hg, hlate⟩
  · rintro (⟨start, hstart, g, hg, hlate⟩ | ⟨hk, hsome⟩)
    · refine ⟨start, hstart, ?_⟩
      split
      · exact ⟨_, rfl, Nat.lt_succ_of_le (h.loading hstart)⟩
      · exact ⟨g, hg, hlate⟩
    · obtain ⟨start, hstart⟩ := Option.isSome_iff_exists.1 hsome
      refine ⟨start, hstart, x.generation + 1, ?_, Nat.lt_succ_of_le (h.loading hstart)⟩
      rw [if_pos ⟨isEmpty_loading hstart, hk⟩]

/-! ### Beginning a load -/

theorem loading_beginLoad (x : Index α) (key k : String) :
    (x.beginLoad key).loading.get? k =
      if k = key then some x.generation else x.loading.get? k :=
  KeyMap.get?_insert _ _ _ _

theorem Dated.beginLoad (h : x.Dated) (key : String) : (x.beginLoad key).Dated where
  loading {k g} hk := by
    rw [loading_beginLoad] at hk
    split at hk
    · cases hk
      exact Nat.le_refl _
    · exact h.loading hk
  touched hk := h.touched hk

theorem not_marked_beginLoad (h : x.Dated) : ¬ (x.beginLoad key).Marked key k := by
  rintro ⟨start, hstart, hchanged⟩
  obtain ⟨g, hg, hlate⟩ := changedSince_iff.1 hchanged
  rw [loading_beginLoad, if_pos rfl] at hstart
  cases hstart
  exact Nat.not_le_of_lt hlate (h.touched hg)

theorem marked_beginLoad (hother : key ≠ j) : (x.beginLoad j).Marked key k ↔ x.Marked key k := by
  simp only [Marked, loading_beginLoad, if_neg hother]
  rfl

/-! ### Ending a load -/

theorem prune_eq (x : Index α) : ∃ touched, x.prune = { x with touched } := by
  unfold prune
  split
  · exact ⟨_, rfl⟩
  · exact ⟨_, rfl⟩

theorem touched_prune_of_loading {start : Nat} (h : x.loading.get? key = some start) :
    ∃ oldest, oldest ≤ start ∧
      x.prune.touched.get? k = (x.touched.get? k).filter (oldest < ·) := by
  unfold prune
  have hmem := KeyMap.mem_values h
  cases hmin : x.loading.values.min? with
  | none =>
    rw [List.min?_eq_none_iff] at hmin
    rw [hmin] at hmem
    cases hmem
  | some oldest =>
    refine ⟨oldest, (List.min?_eq_some_iff.1 hmin).2 start hmem, ?_⟩
    exact KeyMap.get?_filter _ _ _

theorem marked_prune : x.prune.Marked key k ↔ x.Marked key k := by
  have hloading : x.prune.loading = x.loading := by
    obtain ⟨touched, hprune⟩ := x.prune_eq
    rw [hprune]
  simp only [Marked, hloading]
  refine exists_congr fun start => and_congr_right fun hstart => ?_
  obtain ⟨oldest, holdest, htouched⟩ := touched_prune_of_loading (k := k) hstart
  rw [changedSince_iff, changedSince_iff, htouched]
  simp only [Option.filter_eq_some_iff, decide_eq_true_eq]
  constructor
  · rintro ⟨g, ⟨hg, -⟩, hlate⟩
    exact ⟨g, hg, hlate⟩
  · rintro ⟨g, hg, hlate⟩
    exact ⟨g, ⟨hg, Nat.lt_of_le_of_lt holdest hlate⟩, hlate⟩

/-- What the end of a load leaves: all but the load itself, and marks that no other load can
miss. -/
structure Ended (x y : Index α) (key : String) : Prop where
  places : y.places = x.places
  entries : y.entries = x.entries
  lastEntry : y.lastEntry = x.lastEntry
  generation : y.generation = x.generation
  loading : ∀ k, y.loading.get? k = if k = key then none else x.loading.get? k
  touched : ∀ {k : String} {g : Nat}, y.touched.get? k = some g → x.touched.get? k = some g
  marked : ∀ {j k : String}, j ≠ key → (y.Marked j k ↔ x.Marked j k)

theorem Ended.get? (h : Ended x y key) (k : String) : y.get? k = x.get? k := by
  simp only [Index.get?, h.places, h.entries]

theorem Ended.dated (h : Ended x y key) (hx : x.Dated) : y.Dated where
  loading {k g} hk := by
    rw [h.loading] at hk
    split at hk
    · cases hk
    · exact h.generation ▸ hx.loading hk
  touched hk := h.generation ▸ hx.touched (h.touched hk)

variable [Cacheable α]

theorem ended_finishLoad (x : Index α) (key : String) (value : Option α) :
    Ended x (x.finishLoad key value).2 key := by
  cases hstart : x.loading.get? key with
  | none =>
    have hidle : (x.finishLoad key value).2 = x := by
      unfold finishLoad
      rw [hstart]
    rw [hidle]
    refine ⟨rfl, rfl, rfl, rfl, fun k => ?_, fun hk => hk, fun _ => Iff.rfl⟩
    split
    · rename_i hk
      rw [hk, hstart]
    · rfl
  | some start =>
    have hends : (x.finishLoad key value).2 =
        ({ x with loading := x.loading.erase key } : Index α).prune := by
      unfold finishLoad
      rw [hstart]
    have hother : ∀ {j k : String}, j ≠ key →
        (({ x with loading := x.loading.erase key } : Index α).Marked j k ↔ x.Marked j k) := by
      intro j k hother
      simp only [Marked, KeyMap.get?_erase, if_neg hother]
      rfl
    obtain ⟨touched, hprune⟩ := prune_eq { x with loading := x.loading.erase key }
    rw [hends]
    constructor
    case marked => exact fun hj => marked_prune.trans (hother hj)
    case touched =>
      intro k g hg
      unfold prune at hg
      split at hg
      · rw [KeyMap.get?_filter, Option.filter_eq_some_iff] at hg
        exact hg.1
      · cases hg
    case loading =>
      intro k
      rw [hprune]
      exact KeyMap.get?_erase _ _ _
    all_goals rw [hprune]

/-- A load may be cached if it is in flight and marked for none of the keys it would be cached
under. -/
theorem finishLoad_fst {v : α} :
    (x.finishLoad key (some v)).1 = true ↔
      (x.loading.get? key).isSome = true ∧ ∀ k, Files v (some key) k → ¬ x.Marked key k := by
  unfold finishLoad
  cases hstart : x.loading.get? key with
  | none => simp
  | some start =>
    have hmarked : ∀ k, x.Marked key k ↔ x.changedSince start k = true := by
      intro k
      simp [Marked, hstart]
    simp only [Bool.and_eq_true, Bool.not_eq_true', List.any_eq_false, Option.isSome_some,
      true_and, hmarked, Files, Option.some.injEq, Bool.not_eq_true]
    constructor
    · rintro ⟨hkey, haliases⟩ k (hk | rfl)
      · exact haliases k hk
      · exact hkey
    · intro hall
      exact ⟨hall key (Or.inr rfl), fun k hk => hall k (Or.inl hk)⟩

end Cache.Index

end StatusStore
