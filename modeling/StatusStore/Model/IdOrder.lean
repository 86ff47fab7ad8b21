/-
  StatusStore/Model/IdOrder.lean
  ==============================
  **The order of ids.**  Ids are compared character by character.  Generated ids
  begin with the time of their making, so the highest of them is the newest.
-/

namespace StatusStore

def ascending (ids : List String) : List String := ids.mergeSort fun a b => a ≤ b

def descending (ids : List String) : List String := ids.mergeSort fun a b => b ≤ a

theorem mem_ascending {ids : List String} {id : String} : id ∈ ascending ids ↔ id ∈ ids :=
  (List.mergeSort_perm ids _).mem_iff

theorem mem_descending {ids : List String} {id : String} : id ∈ descending ids ↔ id ∈ ids :=
  (List.mergeSort_perm ids _).mem_iff

theorem ascending_sorted (ids : List String) : (ascending ids).Pairwise (· ≤ ·) := by
  have := @List.pairwise_mergeSort String (fun a b => a ≤ b)
    (fun a b c hab hbc => by simp at *; exact String.le_trans hab hbc)
    (fun a b => by simpa using String.le_total a b) ids
  simpa [ascending] using this

theorem descending_sorted (ids : List String) : (descending ids).Pairwise (fun a b => b ≤ a) := by
  have := @List.pairwise_mergeSort String (fun a b => b ≤ a)
    (fun a b c hab hbc => by simp at *; exact String.le_trans hbc hab)
    (fun a b => by simpa using String.le_total b a) ids
  simpa [descending] using this

/-- Ids that are all different have a strict order. -/
theorem descending_strict {ids : List String} (h : ids.Nodup) :
    (descending ids).Pairwise (fun a b => b < a) := by
  have hapart : (descending ids).Nodup := (List.mergeSort_perm ids _).nodup_iff.2 h
  refine ((descending_sorted ids).and hapart).imp fun ⟨hle, hne⟩ => ?_
  exact Decidable.byContradiction fun hge => hne (String.le_antisymm (String.not_lt.1 hge) hle)

end StatusStore
