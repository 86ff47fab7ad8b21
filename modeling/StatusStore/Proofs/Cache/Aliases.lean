/-
  StatusStore/Proofs/Cache/Aliases.lean
  =====================================
  **What the keys of the caches mean.**  An alias of a status is a lookup that
  describes it, written as one string: the aliases it alone has are those of its id,
  uri, url and poll, and the one that a new boost takes from an older one is that
  of the boost lookup.  No two lookups are written alike, as long as the id of the
  boosted status is free of the separator.

  Main statements: `encode_ofLookup_inj`, `mem_aliases` and `mem_staleAliases`.
-/
import StatusStore.Cache.Caches
import StatusStore.Proofs.Cache.Changes

namespace StatusStore

/-! ### The two kinds of lookups -/

namespace Lookup

def isBoost : Lookup → Bool
  | .boost _ _ => true
  | _ => false

/-- Whether the parts of a lookup can be told apart when they are joined. -/
def IsPlain : Lookup → Prop
  | .boost target _ => Cache.Key.separator ∉ target.toList
  | _ => True

@[simp] theorem describes_id {x : String} {row : StatusRow} :
    (id x).describes row = true ↔ row.id = x := decide_eq_true_iff

@[simp] theorem describes_uri {x : String} {row : StatusRow} :
    (uri x).describes row = true ↔ row.uri = x := decide_eq_true_iff

@[simp] theorem describes_url {x : String} {row : StatusRow} :
    (url x).describes row = true ↔ row.url = some x := decide_eq_true_iff

@[simp] theorem describes_pollId {x : String} {row : StatusRow} :
    (pollId x).describes row = true ↔ row.pollId = some x := decide_eq_true_iff

@[simp] theorem describes_boost {target account : String} {row : StatusRow} :
    (boost target account).describes row = true ↔
      row.boostOfId = some target ∧ row.accountId = account := by
  simp [describes]

theorem IsPlain.of_not_isBoost {l : Lookup} (h : l.isBoost = false) : l.IsPlain := by
  cases l with
  | boost target account => cases h
  | _ => trivial

end Lookup

namespace Cache

/-! ### Keys as strings -/

/-- Two pairs that are joined alike are the same, or differ in which separator parts them. -/
theorem append_separator_iff {α : Type} {sep : α} {as bs cs ds : List α} :
    as ++ sep :: bs = cs ++ sep :: ds ↔ (as = cs ∧ bs = ds) ∨
      (∃ xs, cs = as ++ sep :: xs ∧ bs = xs ++ sep :: ds) ∨
      ∃ xs, as = cs ++ sep :: xs ∧ ds = xs ++ sep :: bs := by
  constructor
  · intro h
    rcases List.append_eq_append_iff.1 h with ⟨xs, rfl, hrest⟩ | ⟨xs, rfl, hrest⟩
    · cases xs with
      | nil => exact Or.inl ⟨(List.append_nil as).symm, (List.cons.inj hrest).2⟩
      | cons x xs =>
        obtain ⟨rfl, rfl⟩ := List.cons.inj hrest
        exact Or.inr (Or.inl ⟨xs, rfl, rfl⟩)
    · cases xs with
      | nil => exact Or.inl ⟨List.append_nil cs, (List.cons.inj hrest).2.symm⟩
      | cons x xs =>
        obtain ⟨rfl, rfl⟩ := List.cons.inj hrest
        exact Or.inr (Or.inr ⟨xs, rfl, rfl⟩)
  · rintro (⟨rfl, rfl⟩ | ⟨xs, rfl, rfl⟩ | ⟨xs, rfl, rfl⟩) <;> simp

theorem append_separator_inj {α : Type} {sep : α} {as bs cs ds : List α} (has : sep ∉ as)
    (hcs : sep ∉ cs) (h : as ++ sep :: bs = cs ++ sep :: ds) : as = cs ∧ bs = ds := by
  rcases append_separator_iff.1 h with hsame | ⟨xs, rfl, -⟩ | ⟨xs, rfl, -⟩
  · exact hsame
  · exact absurd (by simp) hcs
  · exact absurd (by simp) has

namespace Key

/-- What an encoded lookup holds after its name and the separator. -/
def tail : Lookup → List Char
  | .boost target account => target.toList ++ separator :: account.toList
  | .id x | .uri x | .url x | .pollId x => x.toList

theorem toList_encode_ofLookup (l : Lookup) :
    (ofLookup l).encode.toList = l.name.toList ++ separator :: tail l := by
  cases l <;> simp [ofLookup, encode, Lookup.parts, tail]

theorem separator_not_mem_name (l : Lookup) : separator ∉ l.name.toList := by
  cases l <;> simp only [Lookup.name] <;> decide

theorem parts_of_encode {l m : Lookup} (h : (ofLookup l).encode = (ofLookup m).encode) :
    l.name = m.name ∧ tail l = tail m := by
  have hlists := congrArg String.toList h
  rw [toList_encode_ofLookup, toList_encode_ofLookup] at hlists
  obtain ⟨hnames, htails⟩ :=
    append_separator_inj (separator_not_mem_name l) (separator_not_mem_name m) hlists
  exact ⟨String.toList_inj.1 hnames, htails⟩

/-- What is written as a lookup that is not for a boost is that lookup. -/
theorem eq_of_encode {l m : Lookup} (hm : m.isBoost = false)
    (h : (ofLookup l).encode = (ofLookup m).encode) : l = m := by
  obtain ⟨hname, htails⟩ := parts_of_encode h
  cases m with
  | boost target account => cases hm
  | _ =>
    cases l <;> simp [Lookup.name] at hname
    exact congrArg _ (String.toList_inj.1 htails)

theorem encode_ofLookup_inj {l m : Lookup} (hl : l.IsPlain) (hm : m.IsPlain)
    (h : (ofLookup l).encode = (ofLookup m).encode) : l = m := by
  obtain ⟨hname, htails⟩ := parts_of_encode h
  cases l <;> cases m <;> simp [Lookup.name] at hname
  case boost.boost =>
    obtain ⟨htargets, haccounts⟩ := append_separator_inj hl hm htails
    rw [String.toList_inj.1 htargets, String.toList_inj.1 haccounts]
  all_goals exact congrArg _ (String.toList_inj.1 htails)

theorem encode_ofTarget_inj {a b : String} (h : (ofTarget a).encode = (ofTarget b).encode) :
    a = b := by
  have hlists := congrArg String.toList h
  simp only [ofTarget, encode, List.foldl_cons, List.foldl_nil, String.toList_append,
    String.toList_push] at hlists
  exact String.toList_inj.1 (List.append_cancel_left hlists)

end Key

/-! ### The aliases of a status -/

theorem mem_aliases {s : Status} {a : String} :
    a ∈ aliases s ↔
      ∃ l : Lookup, l.isBoost = false ∧ l.describes s.toRow = true ∧ (Key.ofLookup l).encode = a := by
  simp only [aliases, Cacheable.keys, List.map_append, List.map_map, List.mem_append,
    List.mem_map, List.mem_cons, List.not_mem_nil, or_false, Option.mem_toList, Option.map_eq_some_iff]
  constructor
  · rintro ((⟨l, rfl | rfl, rfl⟩ | ⟨l, ⟨x, hx, rfl⟩, rfl⟩) | ⟨l, ⟨x, hx, rfl⟩, rfl⟩)
    · exact ⟨.id s.id, rfl, Lookup.describes_id.2 rfl, rfl⟩
    · exact ⟨.uri s.uri, rfl, Lookup.describes_uri.2 rfl, rfl⟩
    · exact ⟨.url x, rfl, Lookup.describes_url.2 hx, rfl⟩
    · exact ⟨.pollId x, rfl, Lookup.describes_pollId.2 hx, rfl⟩
  · rintro ⟨l, hboost, hdescribes, rfl⟩
    cases l with
    | id x =>
      obtain rfl : s.id = x := Lookup.describes_id.1 hdescribes
      exact Or.inl (Or.inl ⟨.id s.id, Or.inl rfl, rfl⟩)
    | uri x =>
      obtain rfl : s.uri = x := Lookup.describes_uri.1 hdescribes
      exact Or.inl (Or.inl ⟨.uri s.uri, Or.inr rfl, rfl⟩)
    | url x =>
      have hx : s.url = some x := Lookup.describes_url.1 hdescribes
      exact Or.inl (Or.inr ⟨.url x, ⟨x, hx, rfl⟩, rfl⟩)
    | pollId x =>
      have hx : s.pollId = some x := Lookup.describes_pollId.1 hdescribes
      exact Or.inr ⟨.pollId x, ⟨x, hx, rfl⟩, rfl⟩
    | boost target account => cases hboost

theorem mem_staleAliases {s : Status} {a : String} :
    a ∈ staleAliases s ↔
      ∃ l : Lookup, l.isBoost = true ∧ l.describes s.toRow = true ∧ (Key.ofLookup l).encode = a := by
  simp only [staleAliases, Cacheable.staleKeys, List.mem_map, Option.mem_toList,
    Option.map_eq_some_iff]
  constructor
  · rintro ⟨_, ⟨target, htarget, rfl⟩, rfl⟩
    exact ⟨.boost target s.accountId, rfl, Lookup.describes_boost.2 ⟨htarget, rfl⟩, rfl⟩
  · rintro ⟨l, hboost, hdescribes, rfl⟩
    cases l with
    | boost target account =>
      obtain ⟨htarget, rfl⟩ : s.boostOfId = some target ∧ s.accountId = account :=
        Lookup.describes_boost.1 hdescribes
      exact ⟨_, ⟨target, htarget, rfl⟩, rfl⟩
    | _ => cases hboost

/-- A status that a lookup finds alone is cached under it. -/
theorem encode_mem_aliases {s : Status} {l : Lookup} (hl : l.IsPlain) :
    (Key.ofLookup l).encode ∈ aliases s ↔ l.isBoost = false ∧ l.describes s.toRow = true := by
  rw [mem_aliases]
  constructor
  · rintro ⟨m, hboost, hdescribes, hsame⟩
    obtain rfl := Key.encode_ofLookup_inj (.of_not_isBoost hboost) hl hsame
    exact ⟨hboost, hdescribes⟩
  · rintro ⟨hboost, hdescribes⟩
    exact ⟨l, hboost, hdescribes, rfl⟩

theorem mem_aliases_id (w : Status) : (Key.ofLookup (.id w.id)).encode ∈ aliases w :=
  (encode_mem_aliases (l := .id w.id) trivial).2 ⟨rfl, Lookup.describes_id.2 rfl⟩

theorem eq_id_of_alias {w : Status} {id : String}
    (h : (Key.ofLookup (.id id)).encode ∈ aliases w) : w.id = id :=
  Lookup.describes_id.1 ((encode_mem_aliases (l := .id id) trivial).1 h).2

instance : LawfulCacheable Status where
  stale_apart v w k hv hw := by
    obtain ⟨l, hl, -, rfl⟩ := mem_staleAliases.1 hv
    obtain ⟨m, hm, -, hsame⟩ := mem_aliases.1 hw
    obtain rfl := Key.eq_of_encode hm hsame.symm
    rw [hl] at hm
    cases hm

/-! ### Statuses found after a change -/

namespace Index.Sound

variable {x : Index Status} {v w : Status} {k id : String}

/-- What is found after a commit is the status under one of its aliases, or was found before, with
another id and under no alias that went stale. -/
theorem found_of_commit (h : x.Sound) (hw : (x.commit v).2.get? k = some w) :
    (k ∈ aliases v ∧ w = v) ∨
      (k ∉ aliases v ∧ k ∉ staleAliases v ∧ x.get? k = some w ∧ w.id ≠ v.id) := by
  rcases h.get?_commit.1 hw with hown | ⟨halias, hstale, hold, hapart⟩
  · exact Or.inl hown
  · refine Or.inr ⟨halias, hstale, hold, fun hid => ?_⟩
    -- An entry with the id of the status would have been found under that id as well.
    have hwid := mem_aliases_id w
    rw [hid] at hwid
    exact hapart _ (mem_aliases_id v) (h.place_of_alias hold hwid)

/-- What is found after a status was dropped by its id has another id. -/
theorem found_of_invalidate (h : x.Sound)
    (hw : (x.invalidate (Key.ofLookup (.id id)).encode).2.get? k = some w) :
    x.get? k = some w ∧ w.id ≠ id := by
  obtain ⟨hold, hapart⟩ := h.linked.get?_invalidate.1 hw
  refine ⟨hold, ?_⟩
  rintro rfl
  exact hapart (h.place_of_alias hold (mem_aliases_id w))

end Index.Sound

/-! ### The alias of a list -/

theorem aliases_idList (l : IdList) : aliases l = [(Key.ofTarget l.target).encode] := rfl

instance : LawfulCacheable IdList where
  stale_apart _ _ _ hv := by cases hv

end Cache

end StatusStore
