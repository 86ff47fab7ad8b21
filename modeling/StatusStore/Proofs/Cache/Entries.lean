/-
  StatusStore/Proofs/Cache/Entries.lean
  =====================================
  **The status cache has one entry for each id.**  However loads, stores and
  invalidations follow each other or overlap, the aliases and the entries of the
  status cache stay each other's inverse, and a status that is found at all is
  found under each lookup that leads to it alone.  The lookup of its id is one of
  these, so two entries never share an id and the size of the cache counts ids.

  Main statement: `run_entries`.
-/
import Mathlib.Data.List.Nodup
import StatusStore.Proofs.Cache.Current

namespace StatusStore

namespace KeyMap

variable {κ α β : Type} [DecidableEq κ]

theorem get?_of_mem_pairs {m : KeyMap κ α} {b : κ × α} (hb : b ∈ m.pairs) :
    m.get? b.1 = some b.2 := by
  have hfound : (m.pairs.find? (·.1 = b.1)).isSome := List.find?_isSome.2 ⟨b, hb, by simp⟩
  obtain ⟨d, hd⟩ := Option.isSome_iff_exists.1 hfound
  have hkey : d.1 = b.1 := by simpa using List.find?_some hd
  have hsame : d = b := List.inj_on_of_nodup_map m.nodup_keys (List.mem_of_find?_eq_some hd) hb hkey
  rw [get?, hd, hsame, Option.map_some]

theorem mem_pairs_of_get? {m : KeyMap κ α} {k : κ} {v : α} (h : m.get? k = some v) :
    (k, v) ∈ m.pairs := by
  obtain ⟨b, hfound, hvalue⟩ := Option.map_eq_some_iff.1 h
  have hkey : b.1 = k := by simpa using List.find?_some hfound
  rw [← hkey, ← hvalue]
  exact List.mem_of_find?_eq_some hfound

/-- What tells the values of different keys apart gives as many things as there are keys. -/
theorem nodup_map_values {m : KeyMap κ α} {f : α → β}
    (hapart : ∀ {k j : κ} {v w : α}, m.get? k = some v → m.get? j = some w → f v = f w → k = j) :
    (m.values.map f).Nodup := by
  rw [values, List.map_map]
  apply List.Nodup.map_on
  · intro b hb d hd hsame
    have hb := get?_of_mem_pairs hb
    have hd := get?_of_mem_pairs hd
    have hkey := hapart hb hd hsame
    rw [hkey, hd] at hb
    exact Prod.ext hkey (Option.some.inj hb).symm
  · exact m.nodup_keys.of_map Prod.fst

theorem exists_of_mem_values {m : KeyMap κ α} {v : α} (hv : v ∈ m.values) :
    ∃ k, m.get? k = some v := by
  obtain ⟨b, hb, rfl⟩ := List.mem_map.1 hv
  exact ⟨b.1, get?_of_mem_pairs hb⟩

end KeyMap

namespace Cache

/-! ### Entries of a sound index -/

namespace Index

variable {x : Index Status} {n m : Nat} {e f : Entry Status}

/-- The aliases and the entries are each other's inverse. -/
theorem Linked.get?_places {α : Type} {x : Index α} (h : x.Linked) {k : String} {n : Nat} :
    x.places.get? k = some n ↔ ∃ e, x.entries.get? n = some e ∧ k ∈ e.aliases := by
  constructor
  · exact h.listed
  · rintro ⟨e, he, hk⟩
    exact h.placed he hk

namespace Sound

theorem get?_of_entry (h : x.Sound) (he : x.entries.get? n = some e) {l : Lookup}
    (hl : l.isBoost = false) (hdescribes : l.describes e.value.toRow = true) :
    x.get? (Key.ofLookup l).encode = some e.value := by
  have halias : (Key.ofLookup l).encode ∈ e.aliases :=
    h.canonical he (mem_aliases.2 ⟨l, hl, hdescribes, rfl⟩)
  exact get?_eq_some.2 ⟨n, e, h.placed he halias, he, rfl⟩

/-- No two entries hold statuses of one id. -/
theorem entry_of_id (h : x.Sound) (he : x.entries.get? n = some e) (hf : x.entries.get? m = some f)
    (hid : e.value.id = f.value.id) : n = m := by
  have hn := h.placed he (h.canonical he (mem_aliases_id e.value))
  have hm := h.placed hf (h.canonical hf (mem_aliases_id f.value))
  rw [hid, hm] at hn
  exact (Option.some.inj hn).symm

/-- The ids of the entries, each of them once, are the ids of all that can be found. -/
theorem ids (h : x.Sound) : ∃ ids : List String, ids.Nodup ∧ x.size = ids.length ∧
    ∀ id, id ∈ ids ↔ ∃ v, x.get? (Key.ofLookup (.id id)).encode = some v ∧ v.id = id := by
  refine ⟨x.entries.values.map (·.value.id), KeyMap.nodup_map_values h.entry_of_id, ?_, ?_⟩
  · simp [size, KeyMap.size, KeyMap.values]
  intro id
  rw [List.mem_map]
  constructor
  · rintro ⟨e, he, rfl⟩
    obtain ⟨n, hn⟩ := KeyMap.exists_of_mem_values he
    exact ⟨e.value, h.get?_of_entry hn rfl (Lookup.describes_id.2 rfl), rfl⟩
  · rintro ⟨v, hv, rfl⟩
    obtain ⟨n, e, -, he, rfl⟩ := get?_eq_some.1 hv
    exact ⟨e, KeyMap.mem_values he, rfl⟩

end Sound

end Index

/-! ### Uses of a cache -/

namespace EntityCache

variable {α : Type} [Cacheable α] {c : EntityCache α}

/-- One use of a cache: a load or store by one caller at a time, with what its computation
answers, or one action of many callers. -/
inductive Use (α : Type)
  | load (key : Key) (answer : Except Error α)
  | store (value : α) (answer : Except Error Unit)
  | invalidate (key : Key)
  | act (action : Action α)

def use (c : EntityCache α) : Use α → EntityCache α
  | .load key answer => (c.load key (fun env => (answer, env)) ()).2.1
  | .store value answer => (c.store value (fun env => (answer, env)) ()).2.2.1
  | .invalidate key => (c.invalidate key).2
  | .act action => (c.act action).2

def useAll (c : EntityCache α) (uses : List (Use α)) : EntityCache α := uses.foldl use c

theorem gripped_use (hc : c.Gripped) (a : Use α) : (c.use a).Gripped := by
  cases a with
  | load key answer =>
    simp only [use, load]
    cases c.get? key with
    | some v => exact hc.congr rfl fun _ => rfl
    | none =>
      obtain ⟨hlocks, hflights⟩ := (c.beginLoad key.encode).flights_settleLoad key.encode answer
      exact hc.congr hlocks fun j => by rw [flight?, hflights]; rfl
  | store value answer =>
    simp only [use, store]
    split
    · exact hc
    · cases answer <;> exact hc.congr rfl fun _ => rfl
  | invalidate key => exact hc.congr rfl fun _ => rfl
  | act action => exact hc.act action

theorem index_settleLoad_sound {key : String} (hx : c.index.Sound) (answer : Except Error α) :
    (c.settleLoad key answer).index.Sound := by
  cases answer with
  | error e =>
    have hended := c.index.ended_finishLoad key none
    exact hx.of_eq hended.places hended.entries hended.lastEntry
  | ok v =>
    have hended := c.index.ended_finishLoad key (some v)
    have hsound := hx.of_eq hended.places hended.entries hended.lastEntry
    rw [index_settleLoad]
    split
    · exact hsound.insert v _
    · exact hsound

theorem index_use [LawfulCacheable α] (hc : c.Gripped) (hx : c.index.Sound) (a : Use α) :
    (c.use a).index.Sound := by
  cases a with
  | load key answer =>
    simp only [use, load]
    cases c.get? key with
    | some v => exact hx
    | none =>
      apply index_settleLoad_sound
      exact hx.of_eq rfl rfl rfl
  | store value answer =>
    simp only [use, store]
    split
    · exact hx
    · cases answer with
      | error e => exact hx
      | ok _ => exact hx.commit value
  | invalidate key => exact hx.invalidate key.encode
  | act action => exact Sound.index_of_moves hx (hc.moves action).1

theorem index_useAll [LawfulCacheable α] (hc : c.Gripped) (hx : c.index.Sound)
    (uses : List (Use α)) : (c.useAll uses).index.Sound := by
  induction uses generalizing c with
  | nil => exact hx
  | cons a uses ih => exact ih (gripped_use hc a) (index_use hc hx a)

/-! ### Runs -/

/-- However a status cache was used: its aliases and entries are each other's inverse, each entry
is found under all lookups that lead to its status alone, so a status found under one key is found
under these; no two entries have the same id; and the size of the cache is the number of ids. -/
theorem run_entries (name : String) (frequency : UInt32) (uses : List (Use Status)) :
    let c := (withGcFrequency name frequency).useAll uses
    (∀ k n, c.index.places.get? k = some n ↔
      ∃ e, c.index.entries.get? n = some e ∧ k ∈ e.aliases) ∧
    (∀ n e l, c.index.entries.get? n = some e → l.isBoost = false →
      l.describes e.value.toRow = true → c.get? (.ofLookup l) = some e.value) ∧
    (∀ key v l, c.get? key = some v → l.isBoost = false → l.describes v.toRow = true →
      c.get? (.ofLookup l) = some v) ∧
    (∀ n m e f, c.index.entries.get? n = some e → c.index.entries.get? m = some f →
      e.value.id = f.value.id → n = m) ∧
    ∃ ids : List String, ids.Nodup ∧ c.size = ids.length ∧
      ∀ id, id ∈ ids ↔ ∃ key v, c.get? key = some v ∧ v.id = id := by
  intro c
  have hsound : c.index.Sound :=
    index_useAll (.withGcFrequency name frequency) Index.sound_empty uses
  refine ⟨fun k n => hsound.linked.get?_places, ?_, ?_, ?_, ?_⟩
  · intro n e l he hl hdescribes
    exact hsound.get?_of_entry he hl hdescribes
  · intro key v l hv hl hdescribes
    exact hsound.get?_of_alias hv (mem_aliases.2 ⟨l, hl, hdescribes, rfl⟩)
  · intro n m e f he hf hid
    exact hsound.entry_of_id he hf hid
  · obtain ⟨ids, hnodup, hsize, hids⟩ := hsound.ids
    refine ⟨ids, hnodup, hsize, fun id => ?_⟩
    rw [hids]
    constructor
    · rintro ⟨v, hv, hid⟩
      exact ⟨.ofLookup (.id id), v, hv, hid⟩
    · rintro ⟨key, v, hv, rfl⟩
      exact ⟨v, hsound.get?_of_alias hv (mem_aliases_id v), rfl⟩

end EntityCache

end Cache

end StatusStore
