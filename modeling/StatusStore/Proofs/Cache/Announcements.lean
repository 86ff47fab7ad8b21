/-
  StatusStore/Proofs/Cache/Announcements.lean
  ===========================================
  **A store is an update of a map.**  What a cache holds is looked at as a map from
  keys to values, in which two keys are one if the cache files them under one string.
  A store that succeeds changes the map at the keys of its value, at its stale keys
  and at all the keys of the entries that it displaces, and nowhere else; it
  announces what it displaces, in the order of its keys, and then the value.

  Main statements: `Linked.removeAll_fst` (what leaves an index, in which order) and
  `use_announces` (what every use of a status cache does to the map and announces,
  however loads, stores and invalidations went before).
-/
import StatusStore.Proofs.Cache.Entries

namespace StatusStore.Cache

/-! ### What is displaced -/

namespace Index

variable {α : Type} {x y : Index α}

/-- The entries that keys lead to, in the order of the keys, each of them once. -/
def leadTo (x : Index α) (keys : List String) : List Nat :=
  (keys.filterMap x.places.get?).eraseDups

def valueOf? (x : Index α) (n : Nat) : Option α := (x.entries.get? n).map Entry.value

theorem Without.places_of_ne {n : Nat} (h : Without x y (some n = some ·)) (k : String) :
    y.places.get? k = (x.places.get? k).filter (!· == n) := by
  ext m
  rw [h.places, Option.filter_eq_some_iff]
  refine and_congr_right fun _ => ?_
  rw [Option.some.injEq, Bool.not_eq_true', beq_eq_false_iff_ne]
  exact ne_comm

theorem Without.valueOf?_of_ne {n m : Nat} (h : Without x y (some n = some ·)) (hm : m ≠ n) :
    y.valueOf? m = x.valueOf? m := by
  have hentries : y.entries.get? m = x.entries.get? m := by
    ext e
    rw [h.entries]
    simp [Ne.symm hm]
  rw [valueOf?, valueOf?, hentries]

/-- Removing what keys lead to gives the values of those entries, each of them once: the first key
that leads to an entry removes it, and the others find nothing there any more. -/
theorem Linked.removeAll_fst (h : x.Linked) (keys : List String) :
    (x.removeAll keys).1 = (x.leadTo keys).filterMap x.valueOf? := by
  induction keys generalizing x with
  | nil => rfl
  | cons key keys ih =>
    have hless := h.remove key
    have hrest := ih (h.of_without hless)
    have hfirst : (x.remove key).1.toList.map Entry.value = (x.get? key).toList := by
      rw [← h.remove_fst]
      cases (x.remove key).1 <;> rfl
    simp only [Index.removeAll, hfirst, hrest, leadTo, List.filterMap_cons]
    cases hplace : x.places.get? key with
    | none =>
      have hremove : (x.remove key).2 = x := by simp [Index.remove, hplace]
      simp [hremove, Index.get?, hplace]
    | some n =>
      rw [hplace] at hless
      obtain ⟨e, he, -⟩ := h.listed hplace
      have hplaces : keys.filterMap (x.remove key).2.places.get? =
          (keys.filterMap x.places.get?).filter (!· == n) := by
        rw [List.filter_filterMap]
        exact List.filterMap_congr fun k _ => hless.places_of_ne k
      have hvalues : ∀ m ∈ ((keys.filterMap x.places.get?).filter (!· == n)).eraseDups,
          (x.remove key).2.valueOf? m = x.valueOf? m := by
        intro m hm
        have hm := (List.mem_filter.1 (List.mem_eraseDups.1 hm)).2
        exact hless.valueOf?_of_ne (by simpa using hm)
      rw [hplaces, List.filterMap_congr hvalues, List.eraseDups_cons, List.filterMap_cons]
      simp [Index.get?, valueOf?, hplace, he]

theorem valueOf?_unlinkAll (x : Index α) (keys : List String) (n : Nat) :
    (keys.foldl unlink x).valueOf? n = x.valueOf? n := by
  induction keys generalizing x with
  | nil => rfl
  | cons key keys ih =>
    rw [List.foldl_cons, ih, valueOf?, entries_unlink, Option.map_map]
    refine congrArg (Option.map · _) (funext fun e => ?_)
    simp only [Function.comp_apply]
    split <;> rfl

variable [Cacheable α]

/-- The values that a store of a value displaces: those of the entries that its keys lead to. -/
def displacedBy (x : Index α) (v : α) : List α := (x.leadTo (aliases v)).filterMap x.valueOf?

/-- Dropping stale keys beforehand takes no entry away from the keys of a value. -/
theorem Linked.commit_fst [LawfulCacheable α] (h : x.Linked) (v : α) :
    (x.commit v).1 = x.displacedBy v := by
  have hcommit : (x.commit v).1 =
      (((staleAliases v).foldl Index.unlink x).removeAll (aliases v ++ [])).1 := rfl
  have hplaces : (aliases v).filterMap ((staleAliases v).foldl Index.unlink x).places.get? =
      (aliases v).filterMap x.places.get? := by
    refine List.filterMap_congr fun k hk => ?_
    rw [places_unlinkAll, if_neg fun hstale => LawfulCacheable.stale_apart v v hstale hk]
  rw [hcommit, (h.unlinkAll _).removeAll_fst, List.append_nil, leadTo, hplaces]
  exact List.filterMap_congr fun n _ => valueOf?_unlinkAll x _ n

/-- Whether a key leads to an entry that a key of a value leads to as well. -/
def Shares (x : Index α) (v : α) (k : String) : Prop :=
  ∃ n e, x.entries.get? n = some e ∧ (∃ a ∈ aliases v, a ∈ e.aliases) ∧ k ∈ e.aliases

end Index

/-! ### Updates of the map -/

namespace EntityCache

section

variable {α : Type} [Cacheable α] {c u : EntityCache α}

/-- `u` is `c`, as a map, after a store of a value. -/
structure Updates (c u : EntityCache α) (v : α) : Prop where
  own : ∀ key : Key, key.encode ∈ aliases v → u.get? key = some v
  stale : ∀ key : Key, key.encode ∈ staleAliases v → u.get? key = none
  shared : ∀ key : Key, key.encode ∉ aliases v → c.index.Shares v key.encode → u.get? key = none
  others : ∀ key : Key, key.encode ∉ aliases v → key.encode ∉ staleAliases v →
    ¬ c.index.Shares v key.encode → u.get? key = c.get? key

theorem updates_of_commit [LawfulCacheable α] (hc : c.index.Sound) {v : α}
    (hu : u.index = (c.index.commit v).2) : Updates c u v := by
  have hfound : ∀ {key : Key} {w : α}, u.get? key = some w ↔
      (key.encode ∈ aliases v ∧ w = v) ∨ (key.encode ∉ aliases v ∧ key.encode ∉ staleAliases v ∧
        c.get? key = some w ∧ ∀ a ∈ aliases v,
          c.index.places.get? a ≠ c.index.places.get? key.encode) := by
    intro key w
    rw [get?, hu]
    exact hc.get?_commit
  constructor
  case own => exact fun key hown => hfound.2 (Or.inl ⟨hown, rfl⟩)
  case stale =>
    intro key hstale
    refine Option.eq_none_iff_forall_ne_some.2 fun w hw => ?_
    rcases hfound.1 hw with ⟨hown, -⟩ | ⟨-, hfresh, -⟩
    · exact LawfulCacheable.stale_apart v v hstale hown
    · exact hfresh hstale
  case shared =>
    rintro key hother ⟨n, e, he, ⟨a, ha, hae⟩, hke⟩
    refine Option.eq_none_iff_forall_ne_some.2 fun w hw => ?_
    rcases hfound.1 hw with ⟨hown, -⟩ | ⟨-, -, -, hapart⟩
    · exact hother hown
    · exact hapart a ha ((hc.placed he hae).trans (hc.placed he hke).symm)
  case others =>
    intro key hother hfresh hunshared
    ext w
    refine hfound.trans ⟨?_, fun hw => Or.inr ⟨hother, hfresh, hw, fun a ha hplace => ?_⟩⟩
    · rintro (⟨hown, -⟩ | ⟨-, -, hw, -⟩)
      · exact absurd hown hother
      · exact hw
    · -- A key of the value that leads to the same place is in the same entry.
      obtain ⟨n, e, hn, he, -⟩ := Index.get?_eq_some.1 hw
      obtain ⟨e', he', hae⟩ := hc.listed (hplace.trans hn)
      obtain ⟨e'', he'', hke⟩ := hc.listed hn
      rw [he'] at he''
      exact hunshared ⟨n, e', he', ⟨a, ha, hae⟩, Option.some.inj he'' ▸ hke⟩

omit [Cacheable α] in
theorem get?_of_index {key : Key} (places : u.index.places = c.index.places)
    (entries : u.index.entries = c.index.entries) : u.get? key = c.get? key := by
  simp only [get?, Index.get?, places, entries]

/-! ### What a use tells and announces -/

/-- What a flight that starts announces; a handle in use starts none. -/
def launched (c : EntityCache α) (h : Nat) (w : Work α) : List α :=
  if (c.flight? h).isSome then [] else (c.start h w).2.1

def actionAnnounces (c : EntityCache α) : Action α → List α
  | .load h key => c.launched h (.load key none)
  | .store h v => c.launched h (.store v none)
  | .poll h => (c.poll h).2.1
  | .invalidate key => (c.invalidate key).1
  | .answerLoad _ _ | .answerStore _ _ | .cancel _ => []

def announces (c : EntityCache α) : Use α → List α
  | .load _ _ => []
  | .store v answer => (c.store v (fun env => (answer, env)) ()).2.1
  | .invalidate key => (c.invalidate key).1
  | .act action => c.actionAnnounces action

/-- What a use answers its caller; an invalidation has no answer. -/
def answers (c : EntityCache α) : Use α → Progress α
  | .load key answer => .loaded (c.load key (fun env => (answer, env)) ()).1
  | .store v answer => .stored (c.store v (fun env => (answer, env)) ()).1
  | .invalidate _ => .pending
  | .act action => (c.act action).1

omit [Cacheable α] in
def storing? (c : EntityCache α) : Use α → Option α
  | .store v _ | .act (.store _ v) => some v
  | .act (.poll h) =>
    match c.flight? h with
    | some ⟨_, .store v _, _⟩ => some v
    | _ => none
  | _ => none

def Use.invalidates? : Use α → Option Key
  | .invalidate key | .act (.invalidate key) => some key
  | _ => none

theorem announced_of_advance {f : Flight α} (h : (c.advance f).1 ≠ .stored (.ok ())) :
    (c.advance f).2.1 = [] := by
  obtain ⟨handle, work, phase⟩ := f
  cases work with
  | load key answer => cases answer <;> rfl
  | store v answer =>
    match answer with
    | none => rfl
    | some (.error e) => rfl
    | some (.ok ()) => exact absurd rfl h

theorem announced_of_enter {f : Flight α} (h : (c.enter f).1 ≠ .stored (.ok ())) :
    (c.enter f).2.1 = [] := by
  unfold enter at h ⊢
  split at h
  · split at h
    · rfl
    · exact announced_of_advance h
  · exact announced_of_advance h

theorem announced_of_poll {i : Nat} (h : (c.poll i).1 ≠ .stored (.ok ())) : (c.poll i).2.1 = [] := by
  unfold poll at h ⊢
  split
  · rfl
  · split
    · rename_i hf _ hruns
      simp only [hf, hruns] at h
      exact announced_of_advance h
    · rename_i hf _ hwaits
      simp only [hf, hwaits] at h
      split at h
      · exact announced_of_enter h
      · rfl

theorem announced_of_take {i : Nat} {w : Work α} {key : String}
    (h : (c.take i w key).1 ≠ .stored (.ok ())) : (c.take i w key).2.1 = [] := by
  unfold take at h ⊢
  dsimp only at h ⊢
  split at h
  · exact announced_of_enter h
  · rfl
  · rfl

theorem announced_of_start {i : Nat} {w : Work α} (h : (c.start i w).1 ≠ .stored (.ok ())) :
    (c.start i w).2.1 = [] := by
  cases w with
  | load key answer =>
    cases hget : c.get? key with
    | some v => rw [start_hit hget]
    | none =>
      rw [start_miss hget] at h ⊢
      exact announced_of_take h
  | store v answer =>
    cases hkeys : (Work.store v answer).lockKey? with
    | none => simp [start, hkeys]
    | some key =>
      rw [start_store hkeys] at h ⊢
      exact announced_of_take h

theorem announced_of_launch {i : Nat} {w : Work α} (h : (c.launch i w).1 ≠ .stored (.ok ())) :
    c.launched i w = [] := by
  unfold launch at h
  unfold launched
  split
  · rfl
  · rename_i hfree
    rw [if_neg hfree] at h
    exact announced_of_start h

/-- What is announced otherwise is what an invalidation removes. -/
theorem announces_of_unsaved (hx : c.index.Sound) {a : Use α}
    (h : c.answers a ≠ .stored (.ok ())) :
    c.announces a = (a.invalidates?.bind c.get?).toList := by
  have hinvalidate : ∀ key : Key, (c.invalidate key).1 = (c.get? key).toList := fun key =>
    congrArg Option.toList (hx.linked.invalidate_fst key.encode)
  cases a with
  | load key answer => rfl
  | invalidate key => exact hinvalidate key
  | store v answer =>
    simp only [answers, announces, store] at h ⊢
    split
    · rfl
    · rename_i hkeys
      rw [if_neg hkeys] at h
      cases answer with
      | error e => rfl
      | ok _ => exact absurd rfl h
  | act action =>
    cases action with
    | load i key => exact announced_of_launch h
    | store i v => exact announced_of_launch h
    | poll i => exact announced_of_poll h
    | invalidate key => exact hinvalidate key
    | answerLoad i r => rfl
    | answerStore i r => rfl
    | cancel i => rfl

/-! ### What a use does to the map -/

theorem gripped_useAll (hc : c.Gripped) (uses : List (Use α)) : (c.useAll uses).Gripped := by
  induction uses generalizing c with
  | nil => exact hc
  | cons a uses ih => exact ih (gripped_use hc a)

/-- A store that a flight is told to have succeeded has been committed by a poll. -/
theorem Moves.committed_of_stored {a : Action α} (hm : Moves c a (.stored (.ok ())) u) :
    ∃ h v, a = .poll h ∧ c.flight? h = some ⟨h, .store v (some (.ok ())), .running⟩ ∧
      u.index = (c.index.commit v).2 := by
  cases hm with
  | idle hidle _ _ => cases hidle
  | committed hf hindex _ => exact ⟨_, _, rfl, hf, hindex⟩

theorem use_of_saved (hc : c.Gripped) {a : Use α} (h : c.answers a = .stored (.ok ())) :
    ∃ v, c.storing? a = some v ∧ (c.use a).index = (c.index.commit v).2 ∧
      c.announces a = (c.index.commit v).1 ++ [v] := by
  cases a with
  | load key answer => cases h
  | invalidate key => cases h
  | store v answer =>
    refine ⟨v, rfl, ?_⟩
    simp only [answers, announces, use, store] at h ⊢
    split at h
    · cases h
    · rename_i hkeys
      rw [if_neg hkeys]
      cases answer with
      | error e => cases h
      | ok _ => exact ⟨rfl, rfl⟩
  | act action =>
    -- Only a poll tells its caller that a store succeeded, and it is the one that commits.
    have hm := (hc.moves action).1
    rw [show (c.act action).1 = .stored (.ok ()) from h] at hm
    obtain ⟨i, v, rfl, hf, hindex⟩ := hm.committed_of_stored
    refine ⟨v, by simp only [storing?, hf], hindex, ?_⟩
    simp only [announces, actionAnnounces, poll, hf]
    rfl

/-- What is neither a load nor a store that succeeds, nor an invalidation, changes nothing that is
found. -/
theorem get?_use_of_idle (hc : c.Gripped) {a : Use α} (hstored : c.answers a ≠ .stored (.ok ()))
    (hloaded : ∀ w, c.answers a ≠ .loaded (.ok w)) (hinvalidates : a.invalidates? = none)
    (key : Key) : (c.use a).get? key = c.get? key := by
  have hended : ∀ {u : EntityCache α} {k : String} {value : Option α},
      u.index = (c.index.finishLoad k value).2 → u.get? key = c.get? key := by
    intro u k value hu
    have hended := c.index.ended_finishLoad k value
    exact get?_of_index (hu ▸ hended.places) (hu ▸ hended.entries)
  have hsame : ∀ {u : EntityCache α}, u.index = c.index → u.get? key = c.get? key := fun hu =>
    get?_of_index (hu ▸ rfl) (hu ▸ rfl)
  cases a with
  | load k answer =>
    simp only [answers, use, load] at hloaded ⊢
    cases hget : c.get? k with
    | some v => exact absurd (by rw [hget]) (hloaded v)
    | none =>
      rw [hget] at hloaded
      cases answer with
      | ok w => exact absurd rfl (hloaded w)
      | error e =>
        have hended := (c.index.beginLoad k.encode).ended_finishLoad (α := α) k.encode none
        exact get?_of_index hended.places hended.entries
  | invalidate k => cases hinvalidates
  | store v answer =>
    simp only [answers, use, store] at hstored ⊢
    split
    · rfl
    · rename_i hkeys
      rw [if_neg hkeys] at hstored
      cases answer with
      | error e => rfl
      | ok _ => exact absurd rfl hstored
  | act action =>
    have hm := (hc.moves action).1
    generalize hp : (c.act action).1 = p at hm
    have hp : c.answers (.act action) = p := hp
    rw [hp] at hstored hloaded
    show (c.act action).2.get? key = c.get? key
    -- One case for each way an action may go; those that the answers exclude are absurd.
    cases hm with
    | idle _ hindex _ => exact hsame hindex
    | queued _ _ _ hindex _ => exact hsame hindex
    | found _ _ _ _ => exact absurd rfl (hloaded _)
    | began _ _ _ hindex _ => exact get?_of_index (by rw [hindex]; rfl) (by rw [hindex]; rfl)
    | persists _ _ hindex _ => exact hsame hindex
    | answeredLoad _ hindex _ => exact hsame hindex
    | answeredStore _ hindex _ => exact hsame hindex
    | loaded _ _ _ => exact absurd rfl (hloaded _)
    | failed _ hindex _ => exact hended hindex
    | committed _ _ _ => exact absurd rfl hstored
    | rejected _ hindex _ => exact hsame hindex
    | abandoned _ hindex _ => exact hended hindex
    | withdrawn _ _ hindex _ => exact hsame hindex
    | invalidated _ _ => cases hinvalidates

end

/-! ### Runs -/

/-- However a status cache was used, a store that succeeds next updates the map by its status, and
announces what it displaces, in the order of the keys that lead there, and then the status.  Nothing
else announces anything, but an invalidation what it removes; and uses that fail, wait, are cancelled
or have begun and not ended leave the map as it was. -/
theorem use_announces (name : String) (frequency : UInt32) (uses : List (Use Status))
    (a : Use Status) :
    let c := (withGcFrequency name frequency).useAll uses
    (c.answers a = .stored (.ok ()) → ∃ v, c.storing? a = some v ∧ Updates c (c.use a) v ∧
      c.announces a = c.index.displacedBy v ++ [v]) ∧
    (c.answers a ≠ .stored (.ok ()) → c.announces a = (a.invalidates?.bind c.get?).toList) ∧
    (c.answers a ≠ .stored (.ok ()) → (∀ w, c.answers a ≠ .loaded (.ok w)) →
      a.invalidates? = none → ∀ key, (c.use a).get? key = c.get? key) := by
  intro c
  have hgripped : c.Gripped := gripped_useAll (.withGcFrequency name frequency) uses
  have hsound : c.index.Sound :=
    index_useAll (.withGcFrequency name frequency) Index.sound_empty uses
  refine ⟨fun hsaved => ?_, announces_of_unsaved hsound, get?_use_of_idle hgripped⟩
  obtain ⟨v, hstoring, hindex, hannounces⟩ := use_of_saved hgripped hsaved
  refine ⟨v, hstoring, updates_of_commit hsound hindex, ?_⟩
  rw [hannounces, hsound.linked.commit_fst]

/-- Statuses of which two have keys of a third one, which boosts what one of them does. -/
def overlapping (id uri : String) : Status := { (default : Status) with id, uri, boostOfId := some "X" }

/-- One is stored, and another is loaded by the key of its boost. -/
def overlappingUses : List (Use Status) := [
  .store (overlapping "A" "a") (.ok ()),
  .load (.ofLookup (.boost "X" "")) (.ok (overlapping "B" "b"))]

theorem use_announces_overlapping :
    let c := (withGcFrequency "statuses" 1).useAll overlappingUses
    let v := overlapping "A" "b"
    let u := c.use (.store v (.ok ()))
    (u.get? (.ofLookup (.id "A")) = some v ∧ u.get? (.ofLookup (.id "B")) = none ∧
      u.get? (.ofLookup (.boost "X" "")) = none) ∧
    c.announces (.store v (.ok ())) = [overlapping "A" "a", overlapping "B" "b", v] ∧
    c.announces (.invalidate (.ofLookup (.uri "b"))) = [overlapping "B" "b"] ∧
    (c.use (.store v (.error .notFound))).get? (.ofLookup (.id "A")) =
      some (overlapping "A" "a") := by
  intro c v u
  obtain ⟨hsaved, -, -⟩ :=
    use_announces "statuses" 1 overlappingUses (.store (overlapping "A" "b") (.ok ()))
  obtain ⟨-, hunsaved, -⟩ :=
    use_announces "statuses" 1 overlappingUses (.invalidate (.ofLookup (.uri "b")))
  obtain ⟨-, -, hidle⟩ :=
    use_announces "statuses" 1 overlappingUses (.store (overlapping "A" "b") (.error .notFound))
  obtain ⟨_, ⟨⟩, hupdates, hannounces⟩ := hsaved rfl
  refine ⟨⟨?_, ?_, ?_⟩, hannounces.trans rfl, (hunsaved nofun).trans rfl,
    (hidle nofun nofun rfl _).trans rfl⟩
  · exact hupdates.own _ (by decide +kernel)
  · exact hupdates.shared _ (by decide +kernel) ⟨2, _, rfl, ⟨(Key.ofLookup (.uri "b")).encode,
      by decide +kernel, by decide +kernel⟩, by decide +kernel⟩
  · exact hupdates.stale _ (by decide +kernel)

end EntityCache

end StatusStore.Cache
