/-
  StatusStore/Proofs/Model/Hydration.lean
  =======================================
  **What hydration makes of a relation.**  Records are fetched for the ids of a
  relation; they may come in any order, with others among them, and several may
  carry one id, of which the last is meant.  With a record for every id the relation
  holds the records in the order of its ids, an id that stands twice having its record
  twice.  With an id missing it is left with its ids alone, also where it held records
  before.

  Main statement: `hydrate_outcome`.
-/
import Mathlib.Data.List.Forall2
import StatusStore.Model.Relation

namespace StatusStore.Relation

variable {α : Type} [Identified α] {r : Relation α} {items : List α} {id : String} {a : α}
  {outcome : Except (List String) Unit × Relation α}

/-! ### The record that is meant -/

def Carried (items : List α) (id : String) : Prop := ∃ a ∈ items, Identified.id a = id

instance (items : List α) (id : String) : Decidable (Carried items id) :=
  inferInstanceAs (Decidable (∃ a ∈ items, Identified.id a = id))

def LastCarrier (items : List α) (id : String) (a : α) : Prop :=
  ∃ before after, items = before ++ a :: after ∧ Identified.id a = id ∧ ¬ Carried after id

theorem pick?_eq_some : pick? items id = some a ↔ LastCarrier items id a := by
  rw [pick?, List.find?_eq_some_iff_append, LastCarrier]
  simp only [decide_eq_true_eq, Carried, not_exists, not_and, Bool.not_eq_true',
    decide_eq_false_iff_not]
  constructor
  · rintro ⟨hid, later, earlier, hsplit, hothers⟩
    refine ⟨earlier.reverse, later.reverse, ?_, hid, fun b hb => hothers b (List.mem_reverse.1 hb)⟩
    rw [← items.reverse_reverse, hsplit]
    simp
  · rintro ⟨before, after, rfl, hid, hothers⟩
    exact ⟨hid, after.reverse, before.reverse, by simp,
      fun b hb => hothers b (List.mem_reverse.1 hb)⟩

theorem pick?_eq_none : pick? items id = none ↔ ¬ Carried items id := by
  simp [pick?, Carried]

theorem LastCarrier.carried (h : LastCarrier items id a) : Carried items id := by
  obtain ⟨before, after, rfl, hid, -⟩ := h
  exact ⟨a, by simp, hid⟩

/-- The records that are meant by some ids, in the order of these. -/
theorem forall₂_filterMap_pick? {ids : List String} (h : ∀ id ∈ ids, Carried items id) :
    List.Forall₂ (LastCarrier items) ids (ids.filterMap (pick? items)) := by
  induction ids with
  | nil => exact .nil
  | cons id ids ih =>
    obtain ⟨hid, hids⟩ := List.forall_mem_cons.1 h
    cases hpick : pick? items id with
    | none => exact absurd hid (pick?_eq_none.1 hpick)
    | some a =>
      rw [List.filterMap_cons_some hpick]
      exact .cons (pick?_eq_some.1 hpick) (ih hids)

/-! ### What comes of a hydration -/

/-- What may come of attaching `items` to `r`. -/
inductive Hydrates (r : Relation α) (items : List α) :
    Except (List String) Unit × Relation α → Prop
  /-- There are no ids. -/
  | nothing (none : r.toIds = []) : Hydrates r items (.ok (), .unset)
  /-- At each place stands the last record that carries the id of the place. -/
  | complete {found : List α} (some : r.toIds ≠ [])
      (placed : List.Forall₂ (LastCarrier items) r.toIds found) :
      Hydrates r items (.ok (), .hydrated found)
  /-- The ids without a record are told, in order and as often as they stand in the relation. -/
  | incomplete {missing : List String}
      (lacking : missing = r.toIds.filter fun id => ¬ Carried items id) (some : missing ≠ []) :
      Hydrates r items (.error missing, .known r.toIds)

theorem hydrates_hydrate (r : Relation α) (items : List α) :
    Hydrates r items (r.hydrate items) := by
  have hmissing : (r.toIds.filter fun id => (pick? items id).isNone) =
      r.toIds.filter fun id => ¬ Carried items id := by
    refine congrArg (List.filter · r.toIds) (funext fun id => ?_)
    rw [Bool.eq_iff_iff, Option.isNone_iff_eq_none, pick?_eq_none, decide_eq_true_eq]
  unfold hydrate
  dsimp only
  rw [hmissing]
  by_cases hnone : r.toIds = []
  · rw [hnone]
    exact .nothing hnone
  · rw [if_neg (by simpa using hnone)]
    by_cases hall : (r.toIds.filter fun id => ¬ Carried items id) = []
    · rw [hall, List.isEmpty_nil, if_pos rfl]
      refine .complete hnone (forall₂_filterMap_pick? fun id hid => ?_)
      simpa using List.filter_eq_nil_iff.1 hall id hid
    · rw [if_neg (by simpa using hall)]
      exact .incomplete rfl hall

/-- A hydration succeeds if some record carries each of the ids. -/
theorem Hydrates.ok_iff (h : Hydrates r items outcome) :
    outcome.1 = .ok () ↔ ∀ id ∈ r.toIds, Carried items id := by
  cases h with
  | nothing hnone => simp [hnone]
  | complete _ hplaced =>
    refine iff_of_true rfl fun id hid => ?_
    obtain ⟨i, hi, rfl⟩ := List.getElem_of_mem hid
    exact (hplaced.get hi (hplaced.length_eq ▸ hi)).carried
  | incomplete hlacking hsome =>
    refine iff_of_false nofun fun hall => hsome ?_
    rw [hlacking, List.filter_eq_nil_iff]
    simpa using hall

theorem size_eq (r : Relation α) : r.size = r.toIds.length := by
  cases r <;> simp [size, toIds]

/-- The relation after records were fetched for it again and again. -/
def hydrateAll (r : Relation α) (fetches : List (List α)) : Relation α :=
  fetches.foldl (fun r items => (r.hydrate items).2) r

theorem toIds_hydrateAll (r : Relation α) (fetches : List (List α)) :
    (r.hydrateAll fetches).toIds = r.toIds := by
  induction fetches generalizing r with
  | nil => rfl
  | cons items fetches ih => exact (ih (r.hydrate items).2).trans (r.toIds_hydrate items)

/-- Whatever is fetched for a relation, it keeps its ids and their number.  It is hydrated if every
id is carried by some record, with the last such record at each place, and else it tells which ids
have none and is left with its ids.  Without its records it is the same after any number of
hydrations. -/
theorem hydrate_outcome (r : Relation α) (items : List α) :
    (r.hydrate items).2.toIds = r.toIds ∧ (r.hydrate items).2.size = r.size ∧
      ((r.hydrate items).1 = .ok () ↔ ∀ id ∈ r.toIds, Carried items id) ∧
      Hydrates r items (r.hydrate items) ∧
      ∀ fetches : List (List α), (r.hydrateAll fetches).idsOnly = r.idsOnly := by
  have hids := r.toIds_hydrate items
  have houtcome := r.hydrates_hydrate items
  refine ⟨hids, ?_, houtcome.ok_iff, houtcome, fun fetches => ?_⟩
  · rw [size_eq, size_eq, hids]
  · rw [idsOnly, idsOnly, toIds_hydrateAll]

end StatusStore.Relation
