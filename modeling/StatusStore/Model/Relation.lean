/-
  StatusStore/Model/Relation.lean
  ===============================
  **A list of related records**, known by their ids or fetched.  A hydrated
  relation holds the records themselves, each with its own id, so it never has
  more or fewer records than ids.

  Main statement: `toIds_hydrate` says that fetching, complete or not, keeps the
  ids and their order.
-/
import StatusStore.Model.Record

namespace StatusStore

/-- The records of one kind that a status refers to, in order. -/
inductive Relation (α : Type)
  /-- Nothing is referred to. -/
  | unset
  /-- The ids are known and the records not fetched. -/
  | known (ids : List String)
  /-- The records are fetched. -/
  | hydrated (items : List α)
deriving DecidableEq, Repr, Inhabited

namespace Relation

variable {α : Type} [Identified α]

def ofIds (ids : List String) : Relation α := if ids.isEmpty then .unset else .known ids

def toIds : Relation α → List String
  | .unset => []
  | .known ids => ids
  | .hydrated items => items.map Identified.id

def size : Relation α → Nat
  | .unset => 0
  | .known ids => ids.length
  | .hydrated items => items.length

def isEmpty (r : Relation α) : Bool := r.size = 0

/-- Whether nothing is left to fetch. -/
def isPopulated : Relation α → Bool
  | .known _ => false
  | _ => true

def items : Relation α → List α
  | .hydrated items => items
  | _ => []

def idsOnly (r : Relation α) : Relation α := ofIds r.toIds

/-- A relation without ids is `unset`, and not a list that is empty. -/
def IsTidy (r : Relation α) : Prop := r.toIds = [] → r = .unset

/-- The record that stands for `id` among fetched ones: the last that carries it. -/
def pick? (items : List α) (id : String) : Option α :=
  items.reverse.find? (Identified.id · = id)

/-- Attach fetched records in the order of the ids.

If some ids have no record, these are the answer, and the relation keeps to its ids. -/
def hydrate (r : Relation α) (items : List α) : Except (List String) Unit × Relation α :=
  let ids := r.toIds
  if ids.isEmpty then (.ok (), .unset)
  else
    let missing := ids.filter fun id => (pick? items id).isNone
    if missing.isEmpty then (.ok (), .hydrated (ids.filterMap (pick? items)))
    else (.error missing, .known ids)

/-! ### Ids through each operation -/

@[simp] theorem toIds_ofIds (ids : List String) : (ofIds ids : Relation α).toIds = ids := by
  cases ids <;> rfl

@[simp] theorem toIds_idsOnly (r : Relation α) : r.idsOnly.toIds = r.toIds := toIds_ofIds r.toIds

@[simp] theorem idsOnly_idsOnly (r : Relation α) : r.idsOnly.idsOnly = r.idsOnly := by
  simp [idsOnly]

/-- To keep the ids only changes nothing just if no records are there and the relation is tidy. -/
theorem idsOnly_eq_self_iff {r : Relation α} : r.idsOnly = r ↔ r.items = [] ∧ r.IsTidy := by
  cases r with
  | unset => simp [idsOnly, toIds, ofIds, items, IsTidy]
  | known ids => cases ids <;> simp [idsOnly, toIds, ofIds, items, IsTidy]
  | hydrated records => cases records <;> simp [idsOnly, toIds, ofIds, items, IsTidy]

theorem id_of_pick? {items : List α} {id : String} {a : α}
    (h : pick? items id = some a) : Identified.id a = id := by
  simpa using List.find?_some h

/-- Fetched records stand where their ids stood. -/
theorem map_id_filterMap_pick? (items : List α) (ids : List String)
    (h : ∀ id ∈ ids, (pick? items id).isSome) :
    (ids.filterMap (pick? items)).map Identified.id = ids := by
  induction ids with
  | nil => rfl
  | cons id ids ih =>
    obtain ⟨a, ha⟩ := Option.isSome_iff_exists.1 (h id List.mem_cons_self)
    rw [List.filterMap_cons_some ha, List.map_cons, id_of_pick? ha,
      ih fun i hi => h i (List.mem_cons_of_mem id hi)]

theorem toIds_hydrate (r : Relation α) (items : List α) : (r.hydrate items).2.toIds = r.toIds := by
  unfold hydrate
  by_cases none : r.toIds.isEmpty
  · rw [if_pos none, List.isEmpty_iff.1 none]
    rfl
  · rw [if_neg none]
    by_cases complete : (r.toIds.filter fun id => (pick? items id).isNone).isEmpty
    · rw [if_pos complete]
      refine map_id_filterMap_pick? items r.toIds fun id hid => ?_
      have := List.filter_eq_nil_iff.1 (List.isEmpty_iff.1 complete) id hid
      simpa [Option.isSome_iff_ne_none] using this
    · rw [if_neg complete]
      rfl

end Relation

end StatusStore
