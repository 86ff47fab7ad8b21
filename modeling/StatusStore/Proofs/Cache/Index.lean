/-
  StatusStore/Proofs/Cache/Index.lean
  ===================================
  **An index is a map from aliases to values.**  It is kept as two maps, from
  aliases to numbers and from numbers to entries.  `Index.Linked` says that the two
  are each other's inverse, and `Index.Sound` that moreover every entry is found
  under all the aliases of its value; everything that changes an index keeps that up.

  Main statements: `get?_insert` and `get?_commit` say which values are found
  after a value was filed, and `get?_invalidate` which after one was removed.
-/
import StatusStore.Cache.Index

namespace StatusStore

/-! ### Maps changed key by key -/

namespace KeyMap

variable {κ α : Type} [DecidableEq κ]

theorem get?_foldl_erase (m : KeyMap κ α) (keys : List κ) (k : κ) :
    (keys.foldl (·.erase ·) m).get? k = if k ∈ keys then none else m.get? k := by
  induction keys generalizing m with
  | nil => rfl
  | cons key keys ih =>
    rw [List.foldl_cons, ih, get?_erase]
    by_cases hkeys : k ∈ keys <;> by_cases hkey : k = key <;> simp [hkeys, hkey]

theorem get?_foldl_insert (m : KeyMap κ α) (keys : List κ) (v : α) (k : κ) :
    (keys.foldl (·.insert · v) m).get? k = if k ∈ keys then some v else m.get? k := by
  induction keys generalizing m with
  | nil => rfl
  | cons key keys ih =>
    rw [List.foldl_cons, ih, get?_insert]
    by_cases hkeys : k ∈ keys <;> by_cases hkey : k = key <;> simp [hkeys, hkey]

omit [DecidableEq κ] in
theorem values_of_isEmpty {m : KeyMap κ α} (h : m.isEmpty = true) : m.values = [] := by
  rw [values, List.isEmpty_iff.1 h]
  rfl

end KeyMap

namespace Cache

namespace Index

variable {α : Type} {x y : Index α}

theorem get?_eq_some {k : String} {v : α} :
    x.get? k = some v ↔
      ∃ n e, x.places.get? k = some n ∧ x.entries.get? n = some e ∧ e.value = v := by
  simp only [get?, Option.bind_eq_bind, Option.bind_eq_some_iff, Option.pure_def,
    Option.some.injEq]
  constructor
  · rintro ⟨n, hn, e, he, hv⟩
    exact ⟨n, e, hn, he, hv⟩
  · rintro ⟨n, e, hn, he, hv⟩
    exact ⟨n, hn, e, he, hv⟩

/-! ### Fewer entries -/

/-- `y` is `x` without the entries whose numbers are `gone`, and without what led to them. -/
structure Without (x y : Index α) (gone : Nat → Prop) : Prop where
  places : ∀ {k : String} {n : Nat},
    y.places.get? k = some n ↔ x.places.get? k = some n ∧ ¬ gone n
  entries : ∀ {n : Nat} {e : Entry α},
    y.entries.get? n = some e ↔ x.entries.get? n = some e ∧ ¬ gone n
  lastEntry : y.lastEntry = x.lastEntry
  loading : y.loading = x.loading
  touched : y.touched = x.touched

theorem Without.get? {gone : Nat → Prop} (h : Without x y gone) {k : String} {v : α} :
    y.get? k = some v ↔ x.get? k = some v ∧ ∀ n, x.places.get? k = some n → ¬ gone n := by
  rw [get?_eq_some, get?_eq_some]
  constructor
  · rintro ⟨n, e, hn, he, hv⟩
    obtain ⟨hn, hstays⟩ := h.places.1 hn
    refine ⟨⟨n, e, hn, (h.entries.1 he).1, hv⟩, fun m hm => ?_⟩
    exact Option.some.inj (hn.symm.trans hm) ▸ hstays
  · rintro ⟨⟨n, e, hn, he, hv⟩, hstays⟩
    exact ⟨n, e, h.places.2 ⟨hn, hstays n hn⟩, h.entries.2 ⟨he, hstays n hn⟩, hv⟩

theorem Without.trans {z : Index α} {gone more : Nat → Prop} (hxy : Without x y gone)
    (hyz : Without y z more) : Without x z (fun n => gone n ∨ more n) where
  places := by
    intro k n
    rw [hyz.places, hxy.places, not_or, and_assoc]
  entries := by
    intro n e
    rw [hyz.entries, hxy.entries, not_or, and_assoc]
  lastEntry := hyz.lastEntry.trans hxy.lastEntry
  loading := hyz.loading.trans hxy.loading
  touched := hyz.touched.trans hxy.touched

theorem Without.congr {gone more : Nat → Prop} (h : Without x y gone) (hsame : ∀ n, gone n ↔ more n) :
    Without x y more where
  places := h.places.trans (and_congr_right fun _ => not_congr (hsame _))
  entries := h.entries.trans (and_congr_right fun _ => not_congr (hsame _))
  lastEntry := h.lastEntry
  loading := h.loading
  touched := h.touched

/-- Whatever the index held, a value is found under the keys that it was filed under. -/
theorem get?_file_of_mem (x : Index α) (v : α) {keys : List String} {k : String} (hk : k ∈ keys) :
    (x.file v keys).get? k = some v := by
  refine get?_eq_some.2 ⟨x.lastEntry + 1, ⟨v, keys⟩, ?_, ?_, rfl⟩
  · simp [file, KeyMap.get?_foldl_insert, hk]
  · simp [file]

/-- What leads to an entry is listed in it and nowhere else, and no entry has a number that is still
to be given. -/
structure Linked (x : Index α) : Prop where
  listed : ∀ {k : String} {n : Nat}, x.places.get? k = some n →
    ∃ e, x.entries.get? n = some e ∧ k ∈ e.aliases
  placed : ∀ {n : Nat} {e : Entry α} {k : String},
    x.entries.get? n = some e → k ∈ e.aliases → x.places.get? k = some n
  numbered : ∀ {n : Nat} {e : Entry α}, x.entries.get? n = some e → n ≤ x.lastEntry

theorem linked_empty : ({} : Index α).Linked where
  listed h := by cases h
  placed h := by cases h
  numbered h := by cases h

theorem Linked.numbered_place {k : String} {n : Nat} (h : x.Linked)
    (hn : x.places.get? k = some n) : n ≤ x.lastEntry := by
  obtain ⟨e, he, -⟩ := h.listed hn
  exact h.numbered he

theorem Linked.of_eq (h : x.Linked) (places : y.places = x.places) (entries : y.entries = x.entries)
    (lastEntry : y.lastEntry = x.lastEntry) : y.Linked where
  listed := by
    rw [places, entries]
    exact h.listed
  placed := by
    rw [places, entries]
    exact h.placed
  numbered := by
    rw [entries, lastEntry]
    exact h.numbered

theorem Linked.of_without {gone : Nat → Prop} (h : x.Linked) (hless : Without x y gone) :
    y.Linked where
  listed hn := by
    obtain ⟨hn, hstays⟩ := hless.places.1 hn
    obtain ⟨e, he, hk⟩ := h.listed hn
    exact ⟨e, hless.entries.2 ⟨he, hstays⟩, hk⟩
  placed he hk := by
    obtain ⟨he, hstays⟩ := hless.entries.1 he
    exact hless.places.2 ⟨h.placed he hk, hstays⟩
  numbered he := hless.lastEntry ▸ h.numbered (hless.entries.1 he).1

/-! ### Removing entries -/

/-- Removing what a key leads to removes that entry and nothing else. -/
theorem Linked.remove (h : x.Linked) (key : String) :
    Without x (x.remove key).2 (fun n => x.places.get? key = some n) := by
  unfold Index.remove
  cases hplace : x.places.get? key with
  | none =>
    constructor <;> simp
  | some n =>
    obtain ⟨e, he, hkey⟩ := h.listed hplace
    simp only [he]
    constructor
    case places =>
      intro k m
      simp only [KeyMap.get?_foldl_erase, Option.some.injEq]
      by_cases hk : k ∈ e.aliases
      · rw [if_pos hk, h.placed he hk]
        simp
      · rw [if_neg hk]
        refine ⟨fun hm => ⟨hm, ?_⟩, And.left⟩
        rintro rfl
        obtain ⟨e', he', hk'⟩ := h.listed hm
        exact hk (Option.some.inj (he.symm.trans he') ▸ hk')
    case entries =>
      intro m e'
      simp only [KeyMap.get?_erase, Option.some.injEq]
      by_cases hm : m = n
      · simp [hm]
      · simp [hm, Ne.symm hm]
    case lastEntry => rfl
    case loading => rfl
    case touched => rfl

theorem Linked.remove_fst (h : x.Linked) (key : String) :
    (x.remove key).1.map Entry.value = x.get? key := by
  unfold Index.remove Index.get?
  cases hplace : x.places.get? key with
  | none => rfl
  | some n =>
    obtain ⟨e, he, -⟩ := h.listed hplace
    simp [he]

theorem Linked.removeAll (h : x.Linked) (keys : List String) :
    Without x (x.removeAll keys).2 (fun n => ∃ key ∈ keys, x.places.get? key = some n) := by
  induction keys generalizing x with
  | nil => constructor <;> simp [Index.removeAll]
  | cons key keys ih =>
    have hfirst := h.remove key
    have hrest := ih (h.of_without hfirst)
    apply (hfirst.trans hrest).congr
    intro n
    constructor
    · rintro (hkey | ⟨j, hj, hplace⟩)
      · exact ⟨key, List.mem_cons_self, hkey⟩
      · exact ⟨j, List.mem_cons_of_mem key hj, (hfirst.places.1 hplace).1⟩
    · rintro ⟨j, hj, hplace⟩
      by_cases hkey : x.places.get? key = some n
      · exact Or.inl hkey
      · rcases List.mem_cons.1 hj with rfl | hj
        · exact Or.inl hplace
        · exact Or.inr ⟨j, hj, hfirst.places.2 ⟨hplace, hkey⟩⟩

/-! ### Filing a value -/

theorem places_file (x : Index α) (v : α) (keys : List String) (k : String) :
    (x.file v keys).places.get? k =
      if k ∈ keys then some (x.lastEntry + 1) else x.places.get? k := by
  simp [file, KeyMap.get?_foldl_insert]

theorem entries_file (x : Index α) (v : α) (keys : List String) (n : Nat) :
    (x.file v keys).entries.get? n =
      if n = x.lastEntry + 1 then some ⟨v, keys⟩ else x.entries.get? n := by
  simp [file]

theorem get?_file_of_not_mem {v : α} {keys : List String} {k : String} (h : x.Linked)
    (hk : k ∉ keys) : (x.file v keys).get? k = x.get? k := by
  have hplace : (x.file v keys).places.get? k = x.places.get? k := by
    rw [places_file, if_neg hk]
  cases hn : x.places.get? k with
  | none =>
    rw [hn] at hplace
    simp [Index.get?, hplace, hn]
  | some n =>
    have hold : n ≠ x.lastEntry + 1 := Nat.ne_of_lt (Nat.lt_succ_of_le (h.numbered_place hn))
    have hentry : (x.file v keys).entries.get? n = x.entries.get? n := by
      rw [entries_file, if_neg hold]
    rw [hn] at hplace
    simp [Index.get?, hplace, hn, hentry]

/-- Filing a value under free keys keeps an index linked. -/
theorem Linked.file {v : α} {keys : List String} (h : x.Linked)
    (hfree : ∀ k ∈ keys, x.places.get? k = none) : (x.file v keys).Linked := by
  constructor
  case listed =>
    intro k n hn
    rw [places_file] at hn
    split at hn
    · rename_i hk
      cases hn
      exact ⟨⟨v, keys⟩, by rw [entries_file, if_pos rfl], hk⟩
    · have hold : n ≠ x.lastEntry + 1 := Nat.ne_of_lt (Nat.lt_succ_of_le (h.numbered_place hn))
      obtain ⟨e, he, hk⟩ := h.listed hn
      exact ⟨e, by rw [entries_file, if_neg hold, he], hk⟩
  case placed =>
    intro n e k he hk
    rw [entries_file] at he
    rw [places_file]
    split at he
    · rename_i hn
      cases he
      rw [if_pos hk, hn]
    · have hplace := h.placed he hk
      rw [if_neg, hplace]
      intro hkeys
      rw [hfree k hkeys] at hplace
      cases hplace
  case numbered =>
    intro n e he
    rw [entries_file] at he
    split at he
    · rename_i hn
      exact Nat.le_of_eq hn
    · exact Nat.le_succ_of_le (h.numbered he)

variable [Cacheable α]

/-- The keys that a value is inserted under: its aliases and the key that it was looked up by. -/
def Files (v : α) (lookup : Option String) (k : String) : Prop := k ∈ aliases v ∨ lookup = some k

theorem mem_insert_keys {v : α} {lookup : Option String} {k : String} :
    k ∈ aliases v ++ lookup.toList.filter (!(aliases v).contains ·) ↔ Files v lookup k := by
  simp only [List.mem_append, List.mem_filter, Option.mem_toList, Files]
  by_cases hk : k ∈ aliases v <;> simp [hk]

theorem get?_insert_of_files (x : Index α) {v : α} {lookup : Option String} {k : String}
    (hk : Files v lookup k) : (x.insert v lookup).2.get? k = some v :=
  get?_file_of_mem _ v (mem_insert_keys.2 hk)

theorem Linked.insert_without (h : x.Linked) (v : α) (lookup : Option String) :
    ∃ y, Without x y (fun n => ∃ j, Files v lookup j ∧ x.places.get? j = some n) ∧
      (x.insert v lookup).2 =
        y.file v (aliases v ++ lookup.toList.filter (!(aliases v).contains ·)) := by
  refine ⟨_, (h.removeAll _).congr fun n => ?_, rfl⟩
  exact exists_congr fun j => and_congr_left fun _ => mem_insert_keys

/-- After the entries that its keys led to are removed, a value is filed under keys that are free. -/
theorem free_of_without {v : α} {lookup : Option String}
    (hless : Without x y fun n => ∃ j, Files v lookup j ∧ x.places.get? j = some n) {k : String}
    (hk : Files v lookup k) : y.places.get? k = none := by
  cases hplace : y.places.get? k with
  | none => rfl
  | some n =>
    obtain ⟨hplace, hstays⟩ := hless.places.1 hplace
    exact absurd ⟨k, hk, hplace⟩ hstays

theorem Linked.insert (h : x.Linked) (v : α) (lookup : Option String) :
    (x.insert v lookup).2.Linked := by
  obtain ⟨y, hless, hinsert⟩ := h.insert_without v lookup
  rw [hinsert]
  exact (h.of_without hless).file fun k hk => free_of_without hless (mem_insert_keys.1 hk)

/-- After an insertion its keys lead to the value, and the other keys to what they led to, unless
that was found under one of these keys too. -/
theorem get?_insert (h : x.Linked) {v w : α} {lookup : Option String} {k : String} :
    (x.insert v lookup).2.get? k = some w ↔
      (Files v lookup k ∧ w = v) ∨ (¬ Files v lookup k ∧ x.get? k = some w ∧
        ∀ j, Files v lookup j → x.places.get? j ≠ x.places.get? k) := by
  by_cases hk : Files v lookup k
  · rw [get?_insert_of_files x hk]
    simp [hk, eq_comm]
  · obtain ⟨y, hless, hinsert⟩ := h.insert_without v lookup
    have hother := mt mem_insert_keys.1 hk
    rw [hinsert, get?_file_of_not_mem (h.of_without hless) hother, hless.get?]
    simp only [hk, false_and, false_or, not_false_eq_true, true_and]
    apply and_congr_right
    intro hw
    obtain ⟨n, e, hn, he, -⟩ := get?_eq_some.1 hw
    rw [hn]
    constructor
    · intro hstays j hj hplace
      exact hstays n rfl ⟨j, hj, hplace⟩
    · rintro hapart m hm ⟨j, hj, hplace⟩
      exact hapart j hj (hplace.trans hm.symm)

/-! ### Indexes with all aliases -/

/-- What leads to an entry is listed in it, and the aliases of its value are among that. -/
structure Sound (x : Index α) : Prop where
  listed : ∀ {k : String} {n : Nat}, x.places.get? k = some n →
    ∃ e, x.entries.get? n = some e ∧ k ∈ e.aliases
  placed : ∀ {n : Nat} {e : Entry α} {k : String},
    x.entries.get? n = some e → k ∈ e.aliases → x.places.get? k = some n
  canonical : ∀ {n : Nat} {e : Entry α} {a : String},
    x.entries.get? n = some e → a ∈ aliases e.value → a ∈ e.aliases
  numbered : ∀ {n : Nat} {e : Entry α}, x.entries.get? n = some e → n ≤ x.lastEntry

theorem Sound.linked (h : x.Sound) : x.Linked := ⟨h.listed, h.placed, h.numbered⟩

theorem Linked.sound (h : x.Linked) (canonical : ∀ {n : Nat} {e : Entry α} {a : String},
    x.entries.get? n = some e → a ∈ aliases e.value → a ∈ e.aliases) : x.Sound :=
  ⟨h.listed, h.placed, canonical, h.numbered⟩

theorem sound_empty : ({} : Index α).Sound := linked_empty.sound fun h => by cases h

/-- All aliases of a value that is found lead to the same place. -/
theorem Sound.place_of_alias {k a : String} {v : α} (h : x.Sound) (hv : x.get? k = some v)
    (ha : a ∈ aliases v) : x.places.get? a = x.places.get? k := by
  obtain ⟨n, e, hn, he, rfl⟩ := get?_eq_some.1 hv
  rw [h.placed he (h.canonical he ha), hn]

/-- A value that is found is found under all its aliases. -/
theorem Sound.get?_of_alias {k a : String} {v : α} (h : x.Sound) (hv : x.get? k = some v)
    (ha : a ∈ aliases v) : x.get? a = some v := by
  have hplace := h.place_of_alias hv ha
  obtain ⟨n, e, hn, he, hvalue⟩ := get?_eq_some.1 hv
  exact get?_eq_some.2 ⟨n, e, hplace.trans hn, he, hvalue⟩

theorem Sound.of_eq (h : x.Sound) (places : y.places = x.places) (entries : y.entries = x.entries)
    (lastEntry : y.lastEntry = x.lastEntry) : y.Sound :=
  (h.linked.of_eq places entries lastEntry).sound fun he ha => h.canonical (entries ▸ he) ha

theorem Sound.of_without {gone : Nat → Prop} (h : x.Sound) (hless : Without x y gone) : y.Sound :=
  (h.linked.of_without hless).sound fun he ha => h.canonical (hless.entries.1 he).1 ha

theorem Sound.insert (h : x.Sound) (v : α) (lookup : Option String) :
    (x.insert v lookup).2.Sound := by
  refine (h.linked.insert v lookup).sound ?_
  intro n e a he ha
  obtain ⟨y, hless, hinsert⟩ := h.linked.insert_without v lookup
  rw [hinsert, entries_file] at he
  split at he
  · cases he
    exact List.mem_append_left _ ha
  · exact (h.of_without hless).canonical he ha

end Index

end Cache

end StatusStore
