/-
  StatusStore/KeyMap.lean
  =======================
  **Finite maps with one value per key**, kept as a list of pairs.  Nothing in
  the library shows the order of a map, so a binding goes to the front and the
  list is never sorted.

  Main statements: `get?_insert` and `get?_erase` say which single key each
  operation changes; `nodup_keys` is part of the type, so `size` counts keys.
-/

namespace StatusStore

/-- A finite map from `κ` to `α`: pairs whose keys are pairwise different. -/
structure KeyMap (κ α : Type) where
  pairs : List (κ × α) := []
  nodup_keys : (pairs.map Prod.fst).Nodup := by exact List.nodup_nil

namespace KeyMap

variable {κ α : Type} [DecidableEq κ]

instance : Inhabited (KeyMap κ α) := ⟨{}⟩

instance [DecidableEq α] : DecidableEq (KeyMap κ α) := fun m n =>
  if h : m.pairs = n.pairs then
    isTrue (by cases m; cases n; cases h; rfl)
  else
    isFalse (fun e => h (congrArg KeyMap.pairs e))

def get? (m : KeyMap κ α) (k : κ) : Option α :=
  (m.pairs.find? (·.1 = k)).map Prod.snd

def contains (m : KeyMap κ α) (k : κ) : Bool := (m.get? k).isSome

def keys (m : KeyMap κ α) : List κ := m.pairs.map Prod.fst

def values (m : KeyMap κ α) : List α := m.pairs.map Prod.snd

def size (m : KeyMap κ α) : Nat := m.pairs.length

def isEmpty (m : KeyMap κ α) : Bool := m.pairs.isEmpty

def filter (m : KeyMap κ α) (p : κ → α → Bool) : KeyMap κ α where
  pairs := m.pairs.filter (fun b => p b.1 b.2)
  nodup_keys := m.nodup_keys.sublist (List.filter_sublist.map Prod.fst)

def erase (m : KeyMap κ α) (k : κ) : KeyMap κ α := m.filter (fun j _ => j ≠ k)

def insert (m : KeyMap κ α) (k : κ) (v : α) : KeyMap κ α where
  pairs := (k, v) :: (m.erase k).pairs
  nodup_keys := by
    refine List.nodup_cons.2 ⟨?_, (m.erase k).nodup_keys⟩
    simp [erase, filter]

def mapValues (m : KeyMap κ α) (f : α → α) : KeyMap κ α where
  pairs := m.pairs.map fun (k, v) => (k, f v)
  nodup_keys := by simpa [Function.comp_def] using m.nodup_keys

/-! ### Lookups after each operation -/

@[simp] theorem get?_empty (k : κ) : ({} : KeyMap κ α).get? k = none := rfl

theorem get?_filter_key (m : KeyMap κ α) (p : κ → Bool) (k : κ) :
    (m.filter (fun j _ => p j)).get? k = if p k then m.get? k else none := by
  simp only [get?, filter, List.find?_filter]
  split
  next h =>
    congr 2
    funext b
    by_cases hb : b.1 = k <;> simp [hb, h]
  next h =>
    rw [List.find?_eq_none.2 (fun b _ => ?_)]
    · rfl
    · by_cases hb : b.1 = k <;> simp_all

@[simp] theorem get?_erase (m : KeyMap κ α) (k j : κ) :
    (m.erase k).get? j = if j = k then none else m.get? j := by
  rw [erase, get?_filter_key]
  by_cases h : j = k <;> simp [h]

@[simp] theorem get?_insert (m : KeyMap κ α) (k j : κ) (v : α) :
    (m.insert k v).get? j = if j = k then some v else m.get? j := by
  by_cases h : j = k
  · simp [get?, insert, h]
  · have hk : ¬ k = j := fun e => h e.symm
    have := m.get?_erase k j
    simp only [h, if_false] at this ⊢
    rw [← this]
    simp [get?, insert, hk]

theorem isEmpty_iff (m : KeyMap κ α) : m.isEmpty = true ↔ ∀ k, m.get? k = none := by
  simp only [isEmpty, List.isEmpty_iff, get?, Option.map_eq_none_iff, List.find?_eq_none]
  constructor
  · intro hpairs k b hb
    rw [hpairs] at hb
    cases hb
  · intro habsent
    refine List.eq_nil_iff_forall_not_mem.2 fun b hb => ?_
    exact habsent b.1 b hb (by simp)

theorem mem_keys (m : KeyMap κ α) (k : κ) : k ∈ m.keys ↔ (m.get? k).isSome := by
  simp only [keys, get?, Option.isSome_map, List.find?_isSome, List.mem_map]
  constructor
  · rintro ⟨b, hb, rfl⟩
    exact ⟨b, hb, by simp⟩
  · rintro ⟨b, hb, h⟩
    exact ⟨b, hb, by simpa using h⟩

end KeyMap

end StatusStore
