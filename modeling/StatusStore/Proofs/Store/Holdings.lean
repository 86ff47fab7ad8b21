/-
  StatusStore/Proofs/Store/Holdings.lean
  ======================================
  **Which parts of a status are granted.**  The database holds a record if its table
  and the connections are there, a row with its id is stored, and what is stored
  under the id reads.  A part is granted just if the records with all ids that it
  asks for are held; a parent or a boosted status may be cached instead.

  Main statements: `refusal?_eq_none`, and `fault?_eq_none`, which says which parts
  of a status fail when it is populated.
-/
import StatusStore.Proofs.Store.Repopulation

namespace StatusStore

open Cache Database

/-! ### What the database holds -/

namespace Database

variable {α : Type} [Persistent α] {db : Database} {id : String} {ids : List String}

structure Holds (α : Type) [Persistent α] (db : Database) (id : String) : Prop where
  isOpen : db.isClosed = false
  there : db.tables.require (Tables.tableOf α) = .ok ()
  stored : ∃ r : Stored α, r ∈ Persistent.rows db.tables ∧ Identified.id r.value = id
  reads : ∀ r : Stored α, r ∈ Persistent.rows db.tables → Identified.id r.value = id →
    r.value? = .ok r.value

theorem exists_fetch_iff (hids : db.tables.DistinctIds α) :
    (∃ a, (db.fetch α id).1 = .ok a) ↔ db.Holds α id := by
  constructor
  · rintro ⟨a, hfetch⟩
    obtain ⟨hopen, hthere, r, hr, hreads⟩ := fetch_eq_ok.1 hfetch
    have hstored := Tables.mem_of_row? hr
    refine ⟨hopen, hthere, ⟨r, hstored⟩, fun q hq hid => ?_⟩
    rw [hids q r hq hstored.1 (hid.trans hstored.2.symm), hreads, Stored.value?_eq_ok hreads]
  · rintro ⟨hopen, hthere, ⟨r, hr, rfl⟩, hreads⟩
    exact ⟨r.value, fetch_stored hopen hthere hids hr (hreads r hr rfl)⟩

/-- A list is found with a record for each id just if all these records are held. -/
theorem exists_fetchAll_iff (hne : ids ≠ []) :
    (∃ items, (db.fetchAll α ids).1 = .ok items ∧ ∀ id ∈ ids, ∃ a ∈ items, Identified.id a = id) ↔
      ∀ id ∈ ids, db.Holds α id := by
  constructor
  · rintro ⟨items, hfetch, hall⟩ id hid
    obtain ⟨hopen, hthere, hreads, rfl⟩ := (fetchAll_eq_ok hne).1 hfetch
    refine ⟨hopen, hthere, ?_, fun r hr heq => hreads r hr (heq ▸ hid)⟩
    obtain ⟨a, ha, heq⟩ := hall id hid
    obtain ⟨r, hr, rfl⟩ := List.mem_map.1 ha
    exact ⟨r, (List.mem_filter.1 (List.mem_mergeSort.1 hr)).1, heq⟩
  · intro hholds
    obtain ⟨first, hfirst⟩ := List.exists_mem_of_ne_nil ids hne
    have hreads (r : Stored α) (hr : r ∈ Persistent.rows db.tables)
        (hid : Identified.id r.value ∈ ids) : r.value? = .ok r.value :=
      (hholds _ hid).reads r hr rfl
    refine ⟨_, (fetchAll_eq_ok hne).2
      ⟨(hholds first hfirst).isOpen, (hholds first hfirst).there, hreads, rfl⟩, fun id hid => ?_⟩
    obtain ⟨r, hr, rfl⟩ := (hholds id hid).stored
    have hlisted : r ∈ (Persistent.rows db.tables).filter (ids.contains <| Identified.id ·.value) :=
      List.mem_filter.2 ⟨hr, List.contains_iff_mem.2 hid⟩
    exact ⟨r.value, List.mem_map_of_mem (List.mem_mergeSort.2 hlisted), rfl⟩

/-- A status is found by its id just if its row is. -/
theorem status_id (db : Database) (id : String) :
    (db.status (.id id)).1 = ((db.fetch StatusRow id).1).map Status.ofRow := by
  have hrow (t : Tables) : t.statusRow? (.id id) = t.row? StatusRow id := rfl
  unfold status fetch select
  cases db.requireOpen with
  | error e => rfl
  | ok isOpen =>
    cases hthere : db.tables.require (Tables.tableOf StatusRow) with
    | error e =>
      have hstatuses : db.tables.require .statuses = .error e := hthere
      rw [hstatuses]
      rfl
    | ok there =>
      have hstatuses : db.tables.require .statuses = .ok there := hthere
      simp only [hstatuses, Tables.status, hrow]
      cases db.tables.row? StatusRow id <;> rfl

end Database

/-! ### What is granted -/

theorem reason?_eq_none {α : Type} {answer : Except Error α} :
    reason? answer = none ↔ ∃ a, answer = .ok a := by
  cases answer <;> simp [reason?]

namespace Store

variable {α : Type} [Persistent α] {s : Store} {ids : List String} {part : Part}

theorem fetchRefusal?_eq_none (hids : s.database.tables.DistinctIds α) :
    s.fetchRefusal? α ids = none ↔ ∀ id ∈ ids, s.database.Holds α id := by
  simp only [fetchRefusal?, List.findSome?_eq_none_iff, reason?_eq_none]
  exact forall₂_congr fun id _ => exists_fetch_iff hids

theorem listRefusal?_eq_none :
    s.listRefusal? α ids = none ↔ ∀ id ∈ ids, s.database.Holds α id := by
  by_cases hne : ids = []
  · subst hne
    exact ⟨fun _ => nofun, fun _ => rfl⟩
  · rw [← exists_fetchAll_iff hne]
    unfold listRefusal?
    cases (s.database.fetchAll α ids).1 with
    | error e => simp
    | ok items => simp

theorem loadRefusal?_eq_none (hids : s.database.tables.DistinctIds StatusRow) :
    s.loadRefusal? ids = none ↔
      ∀ id ∈ ids, (∃ w, s.cached? (.id id) = some w) ∨ s.database.Holds StatusRow id := by
  simp only [loadRefusal?, List.findSome?_eq_none_iff, reason?_eq_none]
  refine forall₂_congr fun id _ => ?_
  cases hcached : s.cached? (.id id) with
  | some w => simp [load_of_cached hcached]
  | none =>
    rw [load_of_absent hcached, status_id, ← exists_fetch_iff hids]
    cases (s.database.fetch StatusRow id).1 <;> simp [Except.map]

/-- What the store needs to have so that a part is granted a record. -/
def Has (s : Store) (id : String) : Part → Prop
  | .author | .parentAuthor | .boostAuthor => s.database.Holds Account id
  | .parent | .boost => (∃ w, s.cached? (.id id) = some w) ∨ s.database.Holds StatusRow id
  | .poll => s.database.Holds Poll id
  | .attachments => s.database.Holds Attachment id
  | .tags => s.database.Holds Tag id
  | .mentions => s.database.Holds Mention id
  | .emojis => s.database.Holds Emoji id
  | .application => s.database.Holds Application id

end Store

/-- The ids of the records that a part asks for one by one are distinct. -/
def Database.Tables.Keyed (t : Tables) : Part → Prop
  | .author | .parentAuthor | .boostAuthor => t.DistinctIds Account
  | .parent | .boost => t.DistinctIds StatusRow
  | .poll => t.DistinctIds Poll
  | .application => t.DistinctIds Application
  | .attachments | .tags | .mentions | .emojis => True

namespace Store

variable {s : Store} {ids : List String} {part : Part}

theorem refusal?_eq_none (hkeyed : s.database.tables.Keyed part) :
    s.refusal? part ids = none ↔ ∀ id ∈ ids, s.Has id part := by
  cases part with
  | author | parentAuthor | boostAuthor | poll | application => exact fetchRefusal?_eq_none hkeyed
  | parent | boost => exact loadRefusal?_eq_none hkeyed
  | attachments | tags | mentions | emojis => exact listRefusal?_eq_none

/-- A part of a status does not fail just if the store has all that the part asks for. -/
theorem fault?_eq_none {status : Status} (hkeyed : s.database.tables.Keyed part) :
    s.fault? status part = none ↔
      ∀ ids, part.asked status = some ids → ∀ id ∈ ids, (s.seenBy status part).Has id part := by
  rw [← (s.frame_seenBy status part).1] at hkeyed
  unfold fault? faultAt?
  cases part.asked status with
  | none => simp
  | some ids => simp [refusal?_eq_none hkeyed]

end Store

end StatusStore
