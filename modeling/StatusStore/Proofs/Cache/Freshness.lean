/-
  StatusStore/Proofs/Cache/Freshness.lean
  =======================================
  **What was computed before a change is not seen after it.**  A change touches the
  aliases of what it stores, displaces or removes.  From then on whatever is found
  under one of these, and whatever a load of one returns that was called later, was
  stored at the change or since, or computed by a load that began since.

  The argument follows the loads that compute (`Since`).  Those that began since the
  change will come to fresh values; the others were called before it and are marked
  for the key, so that their values are never cached under it.

  Main statement: `run_fresh`, for values whose stale keys are keys of no value.
  `run_stale` shows that it takes this much.
-/
import StatusStore.Proofs.Cache.Aliases
import StatusStore.Proofs.Cache.History

namespace StatusStore.Cache

variable {α : Type}

/-! ### Fresh values -/

/-- A load that began in these events, which are told latest first, has computed the value. -/
def Computed (es : List (Event α)) (v : α) : Prop :=
  ∃ h, [Event.answered h (.ok v), .began h].Sublist es

/-- The value was stored in these events, or computed by a load that began in them. -/
def Fresh (es : List (Event α)) (v : α) : Prop := .stored v ∈ es ∨ Computed es v

/-- The loads of `key` that were called in these events have returned what was fresh by then. -/
def Honest (key : Key) (es : List (Event α)) : Prop :=
  ∀ newer older h v, es = newer ++ .returned h key (.ok v) :: older → .asked h ∈ older →
    Fresh older v

variable {es : List (Event α)} {v : α} {key : Key}

theorem Computed.append (hv : Computed es v) (newer : List (Event α)) :
    Computed (newer ++ es) v := by
  obtain ⟨h, hsub⟩ := hv
  exact ⟨h, hsub.trans (List.sublist_append_right newer es)⟩

theorem Fresh.append (hv : Fresh es v) (newer : List (Event α)) : Fresh (newer ++ es) v := by
  rcases hv with hstored | hcomputed
  · exact Or.inl (List.mem_append_right newer hstored)
  · exact Or.inr (hcomputed.append newer)

theorem Honest.cons {e : Event α} (hes : Honest key es)
    (he : ∀ h v, e = .returned h key (.ok v) → .asked h ∈ es → Fresh es v) :
    Honest key (e :: es) := by
  intro newer older h v hsplit hasked
  cases newer with
  | nil =>
    obtain ⟨rfl, rfl⟩ := List.cons.inj hsplit
    exact he h v rfl hasked
  | cons _ newer =>
    obtain ⟨-, rfl⟩ := List.cons.inj hsplit
    exact hes newer older h v rfl hasked

/-- New events keep up honesty if all values that they return are fresh already. -/
theorem Honest.append {newer : List (Event α)} (hes : Honest key es)
    (hnewer : ∀ h v, .returned h key (.ok v) ∈ newer → .asked h ∈ newer ++ es → Fresh es v) :
    Honest key (newer ++ es) := by
  induction newer with
  | nil => exact hes
  | cons e newer ih =>
    have hrest : Honest key (newer ++ es) := by
      apply ih
      intro h v hmem hasked
      exact hnewer h v (List.mem_cons_of_mem e hmem) (List.mem_cons_of_mem e hasked)
    refine hrest.cons fun h v he hasked => ?_
    exact (hnewer h v (he ▸ List.mem_cons_self) (List.mem_cons_of_mem e hasked)).append newer

namespace EntityCache

variable [Cacheable α] {c u : EntityCache α} {a : Action α} {p : Progress α}

/-! ### Since a change -/

/-- What holds after a change that touched `key` and these events, the change included. -/
structure Since (c : EntityCache α) (key : Key) (es : List (Event α)) : Prop where
  held : ∀ {v}, c.get? key = some v → Fresh es v
  /-- A load that computes began since the change, or was called before it and is marked. -/
  computing : ∀ {j i r}, c.flight? j = some ⟨j, .load i r, .running⟩ →
    (.began j ∈ es ∧ ∀ v, r = some (.ok v) → Computed es v) ∨
    (.asked j ∉ es ∧ c.index.Marked i.encode key.encode)
  honest : Honest key es

namespace Since

omit [Cacheable α] in
/-- What a load has computed that is not marked for the key is fresh. -/
theorem computed {j : Nat} {i : Key} (hs : Since c key es)
    (hf : c.flight? j = some ⟨j, .load i (some (.ok v)), .running⟩)
    (hunmarked : ¬ c.index.Marked i.encode key.encode) : Computed es v := by
  rcases hs.computing hf with ⟨-, hcomputed⟩ | ⟨-, hmarked⟩
  · exact hcomputed v rfl
  · exact absurd hmarked hunmarked

theorem of_moves (hc : c.Sound) (hs : Since c key es) (hm : Moves c a p u) :
    Since u key (c.told a p u ++ es) := by
  constructor
  case held =>
    intro v hv
    rcases hc.found_of_moves hm hv with hold | ⟨h, rfl, rfl, -, hf⟩ | ⟨h, i, -, hf, hfiles, hfresh⟩
    · exact (hs.held hold).append _
    · left
      simp [told_stored hf]
    · have hunmarked := (Index.finishLoad_fst.1 hfresh).2 _ hfiles
      exact Or.inr ((hs.computed hf hunmarked).append _)
  case computing =>
    intro j i r hf
    -- A load that computes on stays marked, and nobody is called under its handle.
    have hstays : ∀ {r'}, c.flight? j = some ⟨j, .load i r', .running⟩ →
        .asked j ∉ es ∧ c.index.Marked i.encode key.encode →
        .asked j ∉ c.told a p u ++ es ∧ u.index.Marked i.encode key.encode := by
      rintro r' hbefore ⟨hasked, hmarked⟩
      constructor
      · intro hmem
        rcases List.mem_append.1 hmem with hnew | hold
        · rw [hm.asked hnew] at hbefore
          cases hbefore
        · exact hasked hold
      · exact (hc.marked_of_moves hm ⟨_, hbefore⟩ ⟨_, hf⟩).2 (Or.inl hmarked)
    rcases hm.computing hf with hbefore | ⟨hbegan, rfl⟩ | ⟨hbefore, x, rfl, htold⟩
    · rcases hs.computing hbefore with ⟨hbegan, hcomputed⟩ | hold
      · exact Or.inl ⟨List.mem_append_right _ hbegan, fun v hv => (hcomputed v hv).append _⟩
      · exact Or.inr (hstays hbefore hold)
    · exact Or.inl ⟨List.mem_append_left _ hbegan, fun v hv => by cases hv⟩
    · rcases hs.computing hbefore with ⟨hbegan, -⟩ | hold
      · refine Or.inl ⟨List.mem_append_right _ hbegan, fun v hv => ⟨j, ?_⟩⟩
        obtain rfl := Option.some.inj hv
        rw [htold]
        exact List.Sublist.cons_cons _ (List.singleton_sublist.2 hbegan)
      · exact Or.inr (hstays hbefore hold)
  case honest =>
    refine hs.honest.append fun h v hreturned hasked => ?_
    rcases hm.returned hreturned with hv | hf
    · exact hs.held hv
    · rcases hs.computing hf with ⟨-, hcomputed⟩ | ⟨hnone, -⟩
      · exact Or.inr (hcomputed v rfl)
      · rcases List.mem_append.1 hasked with hnew | hold
        · rw [hm.asked hnew] at hf
          cases hf
        · exact absurd hold hnone

/-- A change leaves nothing old under a key that it touches, and marks the key for every load that
computes. -/
theorem of_change [LawfulCacheable α] (hc : c.Sound) (hx : c.index.Sound) (hm : Moves c a p u)
    (hkey : key.encode ∈ c.touches a) : Since u key (c.told a p u) := by
  have hmarked : ∀ {j i r}, c.flight? j = u.flight? j →
      u.flight? j = some ⟨j, .load i r, .running⟩ → u.index.Marked i.encode key.encode := by
    intro j i r hsame hf
    exact (hc.marked_of_moves hm ⟨r, hsame.trans hf⟩ ⟨r, hf⟩).2 (Or.inr hkey)
  rcases hm.touches with htouches | ⟨h, v, rfl, rfl, hindex, hflight, hsets, htouches⟩ |
      ⟨i, rfl, hindex, hsame, htouches⟩
  · rw [htouches] at hkey
    cases hkey
  · rw [told_stored hflight]
    rw [htouches] at hkey
    constructor
    case held =>
      intro w hw
      rw [get?, hindex] at hw
      obtain rfl := hx.get?_committed hkey hw
      exact Or.inl List.mem_cons_self
    case computing =>
      intro j i r hf
      have hother : j ≠ h := by
        rintro rfl
        rw [hsets.self] at hf
        cases hf
      exact Or.inr ⟨by simp, hmarked (hsets.other hother).symm hf⟩
    case honest =>
      refine Honest.cons (fun newer older h v hsplit => ?_) fun h v he => by cases he
      simp at hsplit
  · rw [htouches] at hkey
    constructor
    case held =>
      intro w hw
      rw [get?, hindex, hc.linked.get?_invalidated hkey] at hw
      cases hw
    case computing =>
      intro j i' r hf
      exact Or.inr ⟨List.not_mem_nil, hmarked (hsame j).symm hf⟩
    case honest =>
      intro newer older h v hsplit
      simp [told] at hsplit

theorem run (hc : c.Sound) (hs : Since c key es) (actions : List (Action α)) :
    Since (c.run actions) key (c.history actions ++ es) := by
  induction actions generalizing c es with
  | nil => exact hs
  | cons a actions ih =>
    have hnext := ih (hc.act a) (hs.of_moves hc (hc.moves a).1)
    rw [← List.append_assoc] at hnext
    exact hnext

end Since

/-- Whatever ran before, once a change has touched the alias of a key, the key never again leads to a
value that was computed by a load that began before the change, and no load of it that is called
after the change returns one: what they give was stored at the change or since, or computed by a load
that began since. -/
theorem run_fresh [LawfulCacheable α] (name : String) (frequency : UInt32)
    (before : List (Action α)) (change : Action α) (after : List (Action α)) {key : Key}
    (hkey : key.encode ∈ ((withGcFrequency name frequency).run before).touches change) :
    (∀ v, ((withGcFrequency name frequency).run (before ++ change :: after)).get? key = some v →
      Fresh (((withGcFrequency name frequency).run before).history (change :: after)) v) ∧
    Honest key (((withGcFrequency name frequency).run before).history (change :: after)) := by
  have hempty : (withGcFrequency name frequency : EntityCache α).Sound :=
    sound_withGcFrequency name frequency
  have hsound := hempty.run before
  have hindex := hempty.index_run Index.sound_empty before
  have hrun : (withGcFrequency name frequency : EntityCache α).run (before ++ change :: after) =
      (((withGcFrequency name frequency).run before).act change).2.run after := by
    simp [run, List.foldl_append]
  rw [hrun]
  generalize (withGcFrequency name frequency : EntityCache α).run before = c at hkey hsound hindex ⊢
  have hsince := (Since.of_change hsound hindex (hsound.moves change).1 hkey).run
    (hsound.act change) after
  exact ⟨fun v hv => hsince.held hv, hsince.honest⟩

/-! ### A load and an invalidation, and what stale keys can do -/

/-- After an invalidation of the list of "S": a load that was called before it comes to an old list,
one that was called since has waited for it and computes anew. -/
def relisting : List (Action IdList) :=
  [.load 1 (.ofTarget "S"), .answerLoad 0 (.ok ⟨"S", ["old"]⟩), .poll 0, .poll 1,
    .answerLoad 1 (.ok ⟨"S", []⟩), .poll 1]

theorem run_fresh_list :
    (Key.ofTarget "S").encode ∈ ((withGcFrequency "lists" 16).run
      [.load 0 (.ofTarget "S")]).touches (.invalidate (.ofTarget "S") : Action IdList) ∧
    (∀ v, ((withGcFrequency "lists" 16).run ([.load 0 (.ofTarget "S")] ++
        .invalidate (.ofTarget "S") :: relisting)).get? (.ofTarget "S") = some v →
      Fresh (((withGcFrequency "lists" 16).run [.load 0 (.ofTarget "S")]).history
        (.invalidate (.ofTarget "S") :: relisting)) v) ∧
    Honest (.ofTarget "S") (((withGcFrequency "lists" 16).run [.load 0 (.ofTarget "S")]).history
      (.invalidate (.ofTarget "S") :: relisting)) :=
  ⟨List.mem_cons_self, run_fresh "lists" 16 [.load 0 (.ofTarget "S")] (.invalidate (.ofTarget "S"))
    relisting List.mem_cons_self⟩

end EntityCache

/-- A value that brings its keys along, whichever they are. -/
structure Tagged where
  keys : List Key
  staleKeys : List Key := []
deriving DecidableEq, Repr

instance : Cacheable Tagged where
  keys := Tagged.keys
  staleKeys := Tagged.staleKeys

namespace Tagged

def id (name : String) : Key := ⟨"ID", [name]⟩

def uri : Key := ⟨"URI", ["u"]⟩

def first : Tagged := ⟨[id "a", uri], []⟩

def third : Tagged := ⟨[id "c", uri], []⟩

def last : Tagged := ⟨[id "a"], []⟩

/-- The first value is loaded, its uri made stale by a second one, and a third one loaded under the
uri; then the first is about to be replaced. -/
def replacement : List (Action Tagged) :=
  [.load 0 (id "a"), .answerLoad 0 (.ok first), .poll 0,
    .store 1 ⟨[id "b"], [uri]⟩, .answerStore 1 (.ok ()), .poll 1,
    .load 2 uri, .answerLoad 2 (.ok third), .poll 2,
    .store 3 last, .answerStore 3 (.ok ())]

end Tagged

namespace EntityCache

/-- Where a stale key of one value is a key of others, a store can touch the alias of a value that it
displaces while this leads to a third value, which was computed before and stays. -/
theorem run_stale :
    Computed ((withGcFrequency "test" 16 : EntityCache Tagged).history Tagged.replacement)
      Tagged.third ∧
    Tagged.uri.encode ∈ ((withGcFrequency "test" 16).run Tagged.replacement).touches (.poll 3) ∧
      ((withGcFrequency "test" 16).run (Tagged.replacement ++ [.poll 3])).get? Tagged.uri =
        some Tagged.third ∧
      ¬ Fresh (((withGcFrequency "test" 16).run Tagged.replacement).history [.poll 3])
        Tagged.third := by
  have hevents : ((withGcFrequency "test" 16).run Tagged.replacement).history [.poll 3] =
      [.stored Tagged.last] := rfl
  refine ⟨⟨2, ?_⟩, by decide, by decide, ?_⟩
  · exact .cons _ (.cons_cons _ (.cons_cons _ (List.nil_sublist _)))
  rw [hevents]
  rintro (hstored | ⟨h, hsub⟩)
  · have hsame : Tagged.third = Tagged.last := by simpa using hstored
    exact absurd hsame (by decide)
  · have hlength := hsub.length_le
    simp at hlength

end EntityCache

end StatusStore.Cache
