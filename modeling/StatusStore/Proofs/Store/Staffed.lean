/-
  StatusStore/Proofs/Store/Staffed.lean
  =====================================
  **Calls that may be dropped.**  However calls take their steps, and wherever they
  are dropped, every flight of the status cache belongs to a call that is still in
  progress, and the locks and the index are sound (`Staffed`).  It says nothing
  about what is cached, which a call that is dropped may leave out of date.

  Main statements: `Staffed.run` for all runs of calls, and `staffed_afterAll`, by
  which they may start from any store that one caller has used.
-/
import StatusStore.Proofs.Store.Listings
import StatusStore.Proofs.Store.Tended

namespace StatusStore

open Cache Database

/-! ### One caller at a time -/

theorem Cache.EntityCache.load_keeps {α σ : Type} [Cacheable α] (c : EntityCache α) (key : Key)
    (compute : σ → Except Error α × σ) (env : σ) :
    (c.load key compute env).2.1.locks = c.locks ∧
      (c.load key compute env).2.1.flights = c.flights := by
  unfold EntityCache.load
  split
  · exact ⟨rfl, rfl⟩
  · exact EntityCache.flights_settleLoad _ _ _

namespace Store

variable {p : Lookup → Prop} {s u v : Store}

/-- Nothing is in flight, and nobody has a lock. -/
structure Calm (s : Store) : Prop where
  flights : s.caches.statuses.flights = []
  locks : s.caches.statuses.locks.Sound
  grips : ∀ h, s.caches.statuses.locks.grip? h = none
  unlisted : s.caches.Unlisted

/-- What one caller does at a time takes no locks and leaves no flights. -/
structure Passes (s u : Store) : Prop where
  flights : u.caches.statuses.flights = s.caches.statuses.flights
  locks : u.caches.statuses.locks = s.caches.statuses.locks
  lists : ∀ kind, (u.caches.lists kind).flights = (s.caches.lists kind).flights

theorem Passes.refl (s : Store) : Passes s s := ⟨rfl, rfl, fun _ => rfl⟩

theorem Passes.trans (hsu : Passes s u) (huv : Passes u v) : Passes s v where
  flights := huv.flights.trans hsu.flights
  locks := huv.locks.trans hsu.locks
  lists kind := (huv.lists kind).trans (hsu.lists kind)

theorem Passes.of_caches (h : Passes s u) (caches : v.caches = u.caches) : Passes s v where
  flights := caches ▸ h.flights
  locks := caches ▸ h.locks
  lists kind := caches ▸ h.lists kind

theorem Calm.pass (h : s.Calm) (hpasses : Passes s u) : u.Calm where
  flights := hpasses.flights.trans h.flights
  locks := hpasses.locks ▸ h.locks
  grips := hpasses.locks ▸ h.grips
  unlisted kind := (hpasses.lists kind).trans (h.unlisted kind)

theorem passes_load (s : Store) (l : Lookup) : Passes s (s.load l).2 := by
  obtain ⟨hlocks, hflights⟩ :=
    EntityCache.load_keeps s.caches.statuses (.ofLookup l) (·.status l) s.database
  exact ⟨hflights, hlocks, fun kind => congrArg _ ((s.frame_load l).2.2 kind)⟩

theorem passes_loadList (s : Store) (kind : ListKind) (target : String) :
    Passes s (s.loadList kind target).2 := by
  obtain ⟨-, -, hstatuses, hothers⟩ := s.frame_loadList kind target
  refine ⟨congrArg _ hstatuses, congrArg _ hstatuses, fun other => ?_⟩
  by_cases hother : other = kind
  · subst hother
    rw [loadList_eq]
    simp only [Caches.loadList, Caches.lists_setLists, if_true]
    exact (EntityCache.load_keeps _ _ _ _).2
  · rw [hothers other hother]

theorem Fetches.passes (h : Fetches p s u) : Passes s u := by
  induction h with
  | refl => exact .refl s
  | @load u l _ _ ih => exact ih.trans (u.passes_load l)
  | @loadList u kind target _ ih => exact ih.trans (u.passes_loadList kind target)
  | queried _ _ _ ih => exact ih.trans ⟨rfl, rfl, fun _ => rfl⟩

theorem passes_announce (statuses : EntityCache Status) (vs : List Status)
    (flights : statuses.flights = s.caches.statuses.flights)
    (locks : statuses.locks = s.caches.statuses.locks)
    (caches : u.caches = { s.caches with statuses }.announce vs) : Passes s u := by
  refine ⟨?_, ?_, fun kind => ?_⟩
  · rw [caches, Caches.statuses_announce]
    exact flights
  · rw [caches, Caches.statuses_announce]
    exact locks
  · rw [caches, Caches.flights_announce]
    cases kind <;> rfl

theorem passes_save (s : Store) (status : Status) (write : Database → Except Error Unit × Database) :
    Passes s (s.save status write).2 := by
  rcases s.save_cases status write with ⟨e, -, started, hsave⟩ | ⟨-, hsave⟩
  · rw [hsave]
    exact ⟨rfl, rfl, fun kind => by cases kind <;> rfl⟩
  · rw [hsave]
    exact passes_announce
      ({ s.caches.statuses with started := s.caches.statuses.started + 1 }.commit status.barebones).2
      _ rfl rfl rfl

theorem passes_put (s : Store) (status : Status) (fresh : Thread) :
    Passes s (s.put status fresh).2.2 :=
  (s.passes_save _ _).of_caches (s.caches_put status fresh)

theorem passes_update (s : Store) (status : Status) (columns : List StatusColumn)
    (now : Timestamp) : Passes s (s.update status columns now).2.2 :=
  (s.passes_save _ _).of_caches (s.caches_update status columns now)

theorem passes_delete (s : Store) (id : String) : Passes s (s.delete id).2 := by
  have hloaded := s.passes_load (.id id)
  have hcaches := s.caches_delete id
  generalize (s.load (.id id)).2 = u at hloaded hcaches
  have hdropped : Passes u { u with caches := u.caches.invalidate (.ofLookup (.id id)) } :=
    passes_announce (u.caches.statuses.invalidate (.ofLookup (.id id))).2 _ rfl rfl rfl
  exact (hloaded.trans hdropped).of_caches hcaches

/-- Whatever one caller does, nothing stays in flight. -/
theorem Calm.perform (h : s.Calm) (operation : Operation) : (s.perform operation).Calm := by
  cases operation with
  | put status fresh => exact h.pass (s.passes_put status fresh)
  | update status columns now => exact h.pass (s.passes_update status columns now)
  | delete id => exact h.pass (s.passes_delete id)
  | read r mode =>
    have hfetches : Fetches (fun _ => True) s (s.read r mode).2 :=
      fetches_read (fun _ => trivial) (fun _ _ => trivial) s mode
    exact h.pass hfetches.passes
  | populate status =>
    have hfetches : Fetches (fun _ => True) s (s.populate status).store :=
      s.fetches_populate (fun _ => trivial) status
    exact h.pass hfetches.passes
  | restart =>
    have hlocks := Lock.Session.sound_withGcFrequency s.caches.statuses.locks.table.gcFrequency
    refine ⟨rfl, ⟨hlocks.handles, hlocks.table, hlocks.accounted, hlocks.attended⟩, fun _ => rfl, ?_⟩
    intro kind
    cases kind <;> rfl

theorem calm_afterAll {config : Config} {db : Database} (hstart : ofDatabase config db = .ok s)
    (events : List Event) : (s.afterAll events).Calm := by
  have hevents : ∀ u : Store, u.Calm → (u.afterAll events).Calm := by
    induction events with
    | nil => exact fun u h => h
    | cons event events ih =>
      intro u h
      apply ih
      cases event with
      | use operation => exact h.perform operation
      | outage isClosed dropped => exact h.pass ⟨rfl, rfl, fun _ => rfl⟩
  apply hevents
  obtain ⟨queue, rfl⟩ := ofDatabase_ok hstart
  exact ⟨rfl, Lock.Session.sound_withGcFrequency _, fun _ => rfl, Caches.unlisted_withGcFrequency _⟩

end Store

/-! ### Calls in progress -/

namespace Cache.Caches

variable {c : Caches}

theorem cancel_spec (h : c.Unlisted) (handle : Nat) :
    (c.cancel handle).2 = { c with statuses := (c.statuses.cancel handle).2 } := by
  have hreplies : c.replies.flight? handle = none := by
    rw [EntityCache.flight?, show c.replies.flights = [] from h .replies, List.find?_nil]
  have hboosts : c.boosts.flight? handle = none := by
    rw [EntityCache.flight?, show c.boosts.flights = [] from h .boosts, List.find?_nil]
  have hothers : (c.replies.cancel handle).2 = c.replies ∧ (c.boosts.cancel handle).2 = c.boosts := by
    simp [EntityCache.cancel, hreplies, hboosts]
  simp only [cancel, hothers]

end Cache.Caches

namespace Overlap

variable {o : Overlap} {i : Nat}

/-- Every flight belongs to a call in progress, whatever is cached. -/
def Staffed (o : Overlap) : Prop := o.Tended fun _ _ => True

theorem notion_any : Notion fun _ _ => True := ⟨fun _ _ => trivial, fun _ _ => trivial⟩

/-- The call under the handle is gone, and its flight with it. -/
theorem Staffed.forget {c : Caches} {a : Action Status} {p : Progress Status} (h : o.Staffed)
    (hm : EntityCache.Moves o.statuses a p c.statuses) (hgripped : c.statuses.Gripped)
    (hunlisted : c.Unlisted) (hown : ∀ j, a.handle? = some j → j = i)
    (hgone : c.statuses.flight? i = none) : ((o.setCaches c).forget i).Staffed where
  healthy := h.healthy
  sound := h.sound.of_moves hgripped hm
  index := EntityCache.Sound.index_of_moves h.index hm
  unlisted := hunlisted
  paired j := by
    have htask := task?_finish (o.setCaches c) i (.unit (.ok ())) j
    rw [show ((o.setCaches c).forget i).task? j = _ from htask]
    show Paired _ (c.statuses.flight? j)
    split
    · rename_i hj
      rw [hj, hgone]
      exact .idle (by simp)
    · rename_i hj
      rw [hm.others fun hhandle => hj (hown j hhandle)]
      exact h.paired j
  current := ⟨fun _ => Or.inl trivial, fun _ => Or.inl trivial, fun _ => Or.inl trivial⟩

theorem Staffed.cancel (h : o.Staffed) (i : Nat) : (o.cancel i).Staffed := by
  unfold Overlap.cancel
  split
  · exact h
  · rename_i id existing answer htask
    have hnone : o.statuses.flight? i = none := by
      refine Tended.flight?_eq_none h ?_
      rw [htask]
      rfl
    obtain ⟨hstatuses, hunlisted⟩ := Caches.invalidate_spec h.unlisted (.ofLookup (.id id))
    obtain ⟨hm, hgripped⟩ := h.sound.toGripped.moves (.invalidate (.ofLookup (.id id)))
    have hafter : (o.store.caches.invalidate (.ofLookup (.id id))).statuses =
        (o.statuses.act (.invalidate (.ofLookup (.id id)))).2 := hstatuses
    rw [← hafter] at hm hgripped
    refine Staffed.forget h hm hgripped hunlisted (by simp [Action.handle?]) ?_
    rw [hm.others (by simp [Action.handle?])]
    exact hnone
  · obtain ⟨hm, hgripped⟩ := h.sound.toGripped.moves (.cancel i)
    have hcancel := Caches.cancel_spec h.unlisted i
    rw [hcancel]
    refine Staffed.forget h (a := .cancel i) hm hgripped (h.unlisted.withStatuses _) ?_ hm.cancelled
    rintro j ⟨⟩
    rfl

theorem Staffed.step (h : o.Staffed) (s : OverlapStep) : (o.step s).Staffed := by
  cases s with
  | begin i request => exact Tended.begin h request
  | perform i => exact Tended.perform notion_any h fun _ _ _ _ _ => trivial
  | resume i => exact Tended.resume h fun _ _ _ _ _ _ _ _ => trivial
  | cancel i => exact h.cancel i

theorem Staffed.run (h : o.Staffed) (steps : List OverlapStep) : (o.run steps).Staffed := by
  induction steps generalizing o with
  | nil => exact h
  | cons s steps ih => exact ih (h.step s)

/-- Calls may overlap in any store that one caller has used. -/
theorem staffed_afterAll {config : Config} {db : Database} {start : Store}
    (hstart : Store.ofDatabase config db = .ok start) (intact : db.tables.Intact)
    (events : List Store.Event) (healthy : (start.afterAll events).database.Healthy) :
    Staffed { store := start.afterAll events } := by
  obtain ⟨htidy, -⟩ := Store.rooted_afterAll hstart intact events
  have hcalm := Store.calm_afterAll hstart events
  generalize start.afterAll events = s at htidy hcalm healthy ⊢
  have hflight : ∀ h, s.caches.statuses.flight? h = none := by
    intro h
    rw [EntityCache.flight?, hcalm.flights, List.find?_nil]
  constructor
  case healthy => exact healthy
  case sound =>
    refine ⟨⟨hcalm.locks, fun h => ?_, fun hf => ?_⟩, htidy.sound.linked,
      ⟨fun hk => ?_, fun hk => ?_⟩, ?_⟩
    · show s.caches.statuses.locks.grip? h = (s.caches.statuses.flight? h).map Flight.grip
      rw [hcalm.grips, hflight, Option.map_none]
    · cases (hflight _).symm.trans hf
    · cases (htidy.idle.loading _).symm.trans hk
    · cases (htidy.idle.touched _).symm.trans hk
    · rintro j key ⟨r, hf⟩
      cases (hflight j).symm.trans hf
  case index => exact htidy.sound
  case unlisted => exact hcalm.unlisted
  case paired =>
    intro i
    rw [show ({ store := s } : Overlap).statuses.flight? i = none from hflight i]
    exact .idle (by simp [task?])
  case current => exact ⟨fun _ => Or.inl trivial, fun _ => Or.inl trivial, fun _ => Or.inl trivial⟩

end Overlap

end StatusStore
