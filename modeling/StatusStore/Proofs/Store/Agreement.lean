/-
  StatusStore/Proofs/Store/Agreement.lean
  =======================================
  **Caches that agree with the tables as far as walks look.**  A walk along replies
  looks up statuses by their ids and loads lists of replies.  If what is cached under
  an id or as a list of replies is what the tables answer, then so is what is read,
  populated or not, whatever else is cached; and reads by ids leave it so.

  Main statements: `AgreesWith.fetched` and `AgreesWith.get_cases`.
-/
import StatusStore.Proofs.Store.Fetches
import StatusStore.Proofs.Store.Population

namespace StatusStore

open Cache Database

def Lookup.IsId : Lookup → Prop
  | .id _ => True
  | _ => False

namespace Store

/-- The store is before the tables `t`, its statuses can be read, and what is cached under an id or
as a list of replies is what the tables answer. -/
structure AgreesWith (s : Store) (t : Tables) : Prop where
  tables : s.database.tables = t
  readable : s.Readable
  apart : t.Apart
  ordered : s.caches.Ordered
  faithful : ∀ {id w}, s.cached? (.id id) = some w → t.status (.id id) = .ok w
  listed : ∀ {target l}, s.cachedList? .replies target = some l → l.ids = t.listed .replies target

variable {s u : Store} {t : Tables} {mode : Retrieval}

/-- `x` has the row of a status, and a read by its id answers it, in full or not, in `s` or after
other reads by ids. -/
structure Yields (s : Store) (mode : Retrieval) (x : Status) : Prop where
  stored : ∃ r ∈ s.database.tables.statuses, r.value = x.toRow
  bare : mode = .barebones → x = x.barebones
  read : ∃ u, Fetches Lookup.IsId s u ∧ acceptIncomplete (u.get (.id x.id) mode).1 = .ok x

theorem Yields.of_fetches {x : Status} (hfetches : Fetches Lookup.IsId s u)
    (h : u.Yields mode x) : s.Yields mode x := by
  obtain ⟨v, hv, hget⟩ := h.read
  exact ⟨hfetches.frame.1 ▸ h.stored, h.bare, v, hfetches.trans hv, hget⟩

theorem fetches_getId (s : Store) (id : String) (mode : Retrieval) :
    Fetches Lookup.IsId s (s.get (.id id) mode).2 :=
  fetches_get (fun _ => trivial) trivial s mode

namespace AgreesWith

theorem status_eq (h : s.AgreesWith t) (l : Lookup) : (s.database.status l).1 = t.status l :=
  h.tables ▸ select_of_ready h.readable.opened h.readable.there _

theorem load_eq (h : s.AgreesWith t) (id : String) : (s.load (.id id)).1 = t.status (.id id) := by
  obtain ⟨-, hloads⟩ := loads_load h.ordered (.id id)
  generalize (s.load (.id id)).1 = answer at hloads ⊢
  cases hloads with
  | hit hcached _ => exact (h.faithful hcached).symm
  | failed _ hanswer _ => exact hanswer.symm.trans (h.status_eq _)
  | read _ hanswer _ => exact hanswer.symm.trans (h.status_eq _)

theorem loadList_eq (h : s.AgreesWith t) (target : String) :
    (s.loadList .replies target).1 = .ok (t.listed .replies target) := by
  have hquery : (listQuery .replies target s.database).1 = .ok (t.listed .replies target) :=
    h.tables ▸ select_of_ready h.readable.opened h.readable.there _
  obtain ⟨-, hloads⟩ := loads_loadList h.ordered .replies target
  generalize (s.loadList .replies target).1 = answer at hloads ⊢
  cases hloads with
  | hit hcached _ => rw [h.listed hcached]
  | failed _ hanswer _ =>
    rw [hquery] at hanswer
    cases hanswer
  | read _ _ => rw [h.tables]

/-! ### Reads by ids -/

theorem load (h : s.AgreesWith t) (id : String) : (s.load (.id id)).2.AgreesWith t := by
  obtain ⟨htables, hclosed, hlists⟩ := s.frame_load (.id id)
  obtain ⟨hordered, hloads⟩ := loads_load h.ordered (.id id)
  refine ⟨htables.trans h.tables, ⟨hclosed.trans h.readable.opened, htables ▸ h.readable.there⟩,
    h.apart, hordered, fun {id' w} hw => ?_, fun {target l} hl => ?_⟩
  · rcases hloads.found_id hw with hold | ⟨hanswer, hid⟩
    · exact h.faithful hold
    · rw [h.status_eq] at hanswer
      rwa [← hid, Tables.id_of_status hanswer]
  · rw [cachedList?, hlists] at hl
    exact h.listed hl

theorem loadList (h : s.AgreesWith t) (kind : ListKind) (target : String) :
    (s.loadList kind target).2.AgreesWith t := by
  obtain ⟨htables, hclosed, hstatuses, -⟩ := s.frame_loadList kind target
  obtain ⟨hordered, -⟩ := loads_loadList h.ordered kind target
  refine ⟨htables.trans h.tables, ⟨hclosed.trans h.readable.opened, htables ▸ h.readable.there⟩,
    h.apart, hordered, fun {id w} hw => ?_, fun {other l} hl => ?_⟩
  · rw [cached?, hstatuses] at hw
    exact h.faithful hw
  · rcases found_loadList h.ordered hl with hold | ⟨hkey, hids⟩
    · exact h.listed hold
    · rw [hids, h.tables, Key.encode_ofTarget_inj hkey]

theorem queried {db : Database} (h : s.AgreesWith t) (tables : db.tables = s.database.tables)
    (isClosed : db.isClosed = s.database.isClosed) : AgreesWith { s with database := db } t where
  tables := tables.trans h.tables
  readable := ⟨isClosed.trans h.readable.opened, tables ▸ h.readable.there⟩
  apart := h.apart
  ordered := h.ordered
  faithful := h.faithful
  listed := h.listed

theorem fetched (h : s.AgreesWith t) (hfetches : Fetches Lookup.IsId s u) : u.AgreesWith t := by
  induction hfetches with
  | refl => exact h
  | @load u l hl _ ih =>
    cases l with
    | id id => exact ih.load id
    | _ => cases hl
  | loadList kind target _ ih => exact ih.loadList kind target
  | queried tables isClosed _ ih => exact ih.queried tables isClosed

/-- A read by an id yields the status with the row, even if it cannot be populated in full, or the
tables have no answer and neither has the read. -/
theorem get_cases (h : s.AgreesWith t) (id : String) (mode : Retrieval) :
    (∃ e, t.status (.id id) = .error e ∧ acceptIncomplete (s.get (.id id) mode).1 = .error e) ∨
    (∃ x, x.id = id ∧ t.status (.id id) = .ok x.barebones ∧
      acceptIncomplete (s.get (.id id) mode).1 = .ok x ∧ s.Yields mode x) := by
  have hload := h.load_eq id
  cases hstatus : t.status (.id id) with
  | error e => exact Or.inl ⟨e, rfl, (get_of_load_error (hload.trans hstatus) mode).2⟩
  | ok w =>
    obtain ⟨r, hrow, -, rfl⟩ := Tables.row_of_status hstatus
    obtain ⟨x, hget, htoRow, hbare⟩ := get_of_load_ok (hload.trans hstatus) mode
    rw [Status.toRow_ofRow] at htoRow
    have hwhole : Status.ofRow r.value = x.barebones := htoRow ▸ rfl
    obtain rfl : x.id = id := (congrArg (·.id) hwhole).symm.trans (Tables.id_of_status hstatus)
    have hstored : r ∈ s.database.tables.statuses := h.tables ▸ Tables.mem_of_statusRow? hrow
    refine Or.inr ⟨x, rfl, congrArg _ hwhole, hget, ⟨r, hstored, htoRow.symm⟩, fun hmode => ?_, ?_⟩
    · exact (hbare hmode).trans hwhole
    · exact ⟨s, .refl, hget⟩

end AgreesWith

end Store

end StatusStore
