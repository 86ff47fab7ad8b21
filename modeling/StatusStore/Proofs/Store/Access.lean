/-
  StatusStore/Proofs/Store/Access.lean
  ====================================
  **How the store uses its caches.**  A read that is not to be populated is the load
  itself.  A write caches the status without its records if the transaction
  succeeds; if it fails, nothing that is cached has changed.

  Main statement: `save_cases`.
-/
import StatusStore.Proofs.Cache.Lists
import StatusStore.Store.Open
import StatusStore.Store.Write

namespace StatusStore

namespace Cache

def Caches.committed (c : Caches) (v : Status) : Caches :=
  { c with
    statuses := ({ c.statuses with started := c.statuses.started + 1 }.commit v).2 }.announce
    ({ c.statuses with started := c.statuses.started + 1 }.commit v).1

theorem Caches.index_committed (c : Caches) (v : Status) :
    (c.committed v).statuses.index = (c.statuses.index.commit v).2 := by
  rw [committed, statuses_announce]
  rfl

theorem Caches.index_invalidated (c : Caches) (key : Key) :
    (c.invalidate key).statuses.index = (c.statuses.index.invalidate key.encode).2 := by
  simp only [invalidate, statuses_announce]
  rfl

/-- All indexes are in order, whatever is cached. -/
structure Caches.Ordered (c : Caches) : Prop where
  sound : c.statuses.index.Sound
  idle : c.statuses.index.Idle
  listsSound : ∀ kind, (c.lists kind).index.Sound
  listsIdle : ∀ kind, (c.lists kind).index.Idle

namespace Caches.Ordered

variable {c : Caches} {v w : Status} {kind : ListKind} {k id : String} {l : IdList} {key : Key}

theorem congr {d : Caches} (h : c.Ordered) (statuses : d.statuses.index = c.statuses.index)
    (lists : ∀ kind, (d.lists kind).index = (c.lists kind).index) : d.Ordered where
  sound := statuses ▸ h.sound
  idle := statuses ▸ h.idle
  listsSound kind := lists kind ▸ h.listsSound kind
  listsIdle kind := lists kind ▸ h.listsIdle kind

theorem of_empty (statuses : c.statuses.index = {}) (lists : ∀ kind, (c.lists kind).index = {}) :
    c.Ordered where
  sound := statuses ▸ Index.sound_empty
  idle := statuses ▸ Index.idle_empty
  listsSound kind := lists kind ▸ Index.sound_empty
  listsIdle kind := lists kind ▸ Index.idle_empty

/-! ### After a commit -/

theorem fewer_committed (h : c.Ordered) (v : Status) :
    Fewer c (c.committed v) fun kind target =>
      ∃ w ∈ (c.statuses.index.commit v).1 ++ [v], Drops w kind target :=
  announce_fewer h.listsSound h.listsIdle _ _

theorem committed (h : c.Ordered) (v : Status) : (c.committed v).Ordered where
  sound := c.index_committed v ▸ h.sound.commit v
  idle := c.index_committed v ▸ h.idle.commit h.sound v
  listsSound := (h.fewer_committed v).sound
  listsIdle := (h.fewer_committed v).idle

/-- A status that is found after another was committed is that one, or was found before. -/
theorem found_committed (h : c.Ordered) (hw : (c.committed v).statuses.index.get? k = some w) :
    (k ∈ aliases v ∧ w = v) ∨ (k ∉ aliases v ∧ k ∉ staleAliases v ∧
      c.statuses.index.get? k = some w ∧ w.id ≠ v.id) := by
  rw [index_committed] at hw
  exact h.sound.found_of_commit hw

/-- A list that is found after a status was committed does not depend on it, nor on what it
displaced. -/
theorem list_committed (h : c.Ordered) (hl : ((c.committed v).lists kind).index.get? k = some l) :
    (c.lists kind).index.get? k = some l ∧ ¬ Drops v kind l.target ∧
      ∀ a ∈ aliases v, ∀ w, c.statuses.index.get? a = some w → ¬ Drops w kind l.target := by
  obtain ⟨hold, hnone⟩ := (h.fewer_committed v).found hl
  refine ⟨hold, fun hdrops => ?_, fun a ha w hw hdrops => ?_⟩
  · exact hnone ⟨v, List.mem_append_right _ (List.mem_singleton_self _), hdrops⟩
  · have hdisplaced := h.sound.linked.mem_commit_fst.2 ⟨a, ha, hw⟩
    exact hnone ⟨w, List.mem_append_left _ hdisplaced, hdrops⟩

/-! ### After an invalidation -/

theorem fewer_invalidated (h : c.Ordered) (key : Key) :
    Fewer c (c.invalidate key) fun kind target =>
      ∃ w ∈ (c.statuses.index.invalidate key.encode).1.toList, Drops w kind target :=
  announce_fewer h.listsSound h.listsIdle _ _

theorem invalidated (h : c.Ordered) (key : Key) : (c.invalidate key).Ordered where
  sound := c.index_invalidated key ▸ h.sound.invalidate _
  idle := c.index_invalidated key ▸ h.idle.invalidate h.sound _
  listsSound := (h.fewer_invalidated key).sound
  listsIdle := (h.fewer_invalidated key).idle

/-- What is found after a status was dropped by its id has another id. -/
theorem found_invalidated (h : c.Ordered)
    (hw : (c.invalidate (.ofLookup (.id id))).statuses.index.get? k = some w) :
    c.statuses.index.get? k = some w ∧ w.id ≠ id := by
  rw [index_invalidated] at hw
  exact h.sound.found_of_invalidate hw

/-- A list that is found after a status was dropped does not depend on it. -/
theorem list_invalidated (h : c.Ordered)
    (hl : ((c.invalidate key).lists kind).index.get? k = some l) :
    (c.lists kind).index.get? k = some l ∧
      ∀ w, c.statuses.index.get? key.encode = some w → ¬ Drops w kind l.target := by
  obtain ⟨hold, hnone⟩ := (h.fewer_invalidated key).found hl
  refine ⟨hold, fun w hw hdrops => hnone ⟨w, Option.mem_toList.2 ?_, hdrops⟩⟩
  exact (h.sound.linked.invalidate_fst _).trans hw

/-- The lists that do not depend on it stay. -/
theorem list_invalidated_iff (h : c.Ordered) (hfiled : c.Filed) :
    ((c.invalidate key).lists kind).index.get? k = some l ↔
      (c.lists kind).index.get? k = some l ∧
        ∀ w, c.statuses.index.get? key.encode = some w → ¬ Drops w kind l.target := by
  refine ⟨h.list_invalidated, fun ⟨hl, hstays⟩ => ?_⟩
  have hfewer := fewer_of_statuses h.listsSound h.listsIdle (c.statuses.invalidate key).2
  have hold : (({ c with statuses := (c.statuses.invalidate key).2 } : Caches).lists
      kind).index.get? k = some l := by
    cases kind <;> exact hl
  refine hfewer.kept_announce hfiled hold fun w hw => hstays w ?_
  exact (h.sound.linked.invalidate_fst _).symm.trans (Option.mem_toList.1 hw)

end Caches.Ordered

end Cache

namespace Store

variable {s u : Store}

theorem ofDatabase_ok {config : Config} {db : Database} (h : ofDatabase config db = .ok s) :
    ∃ queue, s = { database := db, caches := .withGcFrequency config.lockGcFrequency, queue } := by
  unfold ofDatabase at h
  cases hqueue : Queue.ofCapacity config.capacity.toNat with
  | error fault =>
    rw [hqueue] at h
    cases h
  | ok queue =>
    rw [hqueue] at h
    cases h
    exact ⟨queue, rfl⟩

theorem ordered_ofDatabase {config : Config} {db : Database} (h : ofDatabase config db = .ok s) :
    s.caches.Ordered := by
  obtain ⟨queue, rfl⟩ := ofDatabase_ok h
  exact .of_empty rfl fun kind => by cases kind <;> rfl

structure Readable (s : Store) : Prop where
  opened : s.database.isClosed = false
  there : s.database.tables.require .statuses = .ok ()

theorem complete_barebones (s : Store) (loaded : Except Error Status) :
    s.complete loaded .barebones = (loaded, s) := by
  cases loaded <;> rfl

theorem get_barebones (s : Store) (l : Lookup) : s.get l .barebones = s.load l :=
  complete_barebones (s.load l).2 (s.load l).1

theorem load_of_cached {l : Lookup} {v : Status}
    (h : s.caches.statuses.index.get? (Cache.Key.ofLookup l).encode = some v) :
    (s.load l).1 = .ok v := by
  have hcached : s.caches.statuses.get? (.ofLookup l) = some v := h
  simp [load, Cache.Caches.load, Cache.EntityCache.load, hcached]

theorem load_of_absent {l : Lookup}
    (h : s.caches.statuses.index.get? (Cache.Key.ofLookup l).encode = none) :
    (s.load l).1 = (s.database.status l).1 := by
  have habsent : s.caches.statuses.get? (.ofLookup l) = none := h
  simp [load, Cache.Caches.load, Cache.EntityCache.load, habsent]

/-- A write fails and leaves what is cached, or it succeeds and the status is cached. -/
theorem save_cases (s : Store) (status : Status) (write : Database → Except Error Unit × Database) :
    (∃ e, (write s.database).1 = .error e ∧ ∃ started,
      s.save status write = (.error e, { s with
        database := (write s.database).2
        caches := { s.caches with statuses := { s.caches.statuses with started } } })) ∨
    ((write s.database).1 = .ok () ∧
      s.save status write = (.ok (), { s with
        database := (write s.database).2
        caches := s.caches.committed status.barebones })) := by
  have hkeys : (Cache.Cacheable.keys status.barebones).isEmpty = false := by
    simp [Cache.Cacheable.keys]
  simp only [save, Cache.Caches.store, Cache.EntityCache.store, hkeys]
  cases hwrite : write s.database with
  | mk answer database =>
    cases answer with
    | error e => exact Or.inl ⟨e, rfl, s.caches.statuses.started + 1, rfl⟩
    | ok _ => exact Or.inr ⟨rfl, rfl⟩

theorem database_save (s : Store) (status : Status)
    (write : Database → Except Error Unit × Database) :
    (s.save status write).2.database = (write s.database).2 := by
  rcases s.save_cases status write with ⟨e, -, started, hsave⟩ | ⟨-, hsave⟩ <;> rw [hsave]

/-! ### Writes and deletions -/

/-- Telling of a write has no part in the caches and the database. -/
theorem frame_announced (saved : Except Error Unit × Store) (action : StatusAction)
    (status : Status) :
    let told : Except Error Unit × Status × Store := match saved with
      | (.ok (), s) => (.ok (), status, (s.publish action status).2)
      | (.error e, s) => (.error e, status, s)
    told.2.2.caches = saved.2.caches ∧ told.2.2.database = saved.2.database := by
  obtain ⟨_ | _, s⟩ := saved <;> exact ⟨rfl, rfl⟩

theorem caches_put (s : Store) (status : Status) (fresh : Thread) :
    let (thread, begun) := status.startThread fresh
    (s.put status fresh).2.2.caches = (s.save begun (·.putStatus begun thread)).2.caches :=
  (frame_announced _ .create _).1

theorem caches_update (s : Store) (status : Status) (columns : List StatusColumn)
    (now : Timestamp) :
    let stamped := { status with updatedAt := now }
    (s.update status columns now).2.2.caches =
      (s.save stamped (·.updateStatus stamped columns)).2.caches :=
  (frame_announced _ .update _).1

/-- A deletion drops what is cached of the status from what its load leaves. -/
theorem caches_delete (s : Store) (id : String) :
    (s.delete id).2.caches = (s.load (.id id)).2.caches.invalidate (.ofLookup (.id id)) := by
  unfold delete
  rw [get_barebones]
  dsimp only
  split <;> rfl

/-! ### Population -/

@[simp] theorem store_settle {α : Type} (p : Population) (part : Part)
    (attach : Status → α → Status) (answer : Except Error α) :
    (p.settle part attach answer).store = p.store := by
  cases answer <;> rfl

/-- A list of records is asked of the database, unless it is there already. -/
theorem store_many {α : Type} [Database.Persistent α] (p : Population) (part : Part)
    (relation : Relation α) (attach : Status → Relation α → Status) :
    (p.many part relation attach).store = p.store ∨
      (p.many part relation attach).store =
        { p.store with database := (p.store.database.fetchAll α relation.toIds).2 } := by
  unfold Population.many
  split
  · exact Or.inl rfl
  · dsimp only
    split
    · exact Or.inr rfl
    · split <;> exact Or.inr rfl

end Store

end StatusStore
