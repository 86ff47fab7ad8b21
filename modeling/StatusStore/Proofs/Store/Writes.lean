/-
  StatusStore/Proofs/Store/Writes.lean
  ====================================
  **Writes keep a store coherent.**  What a write changes in the tables it changes in
  the caches: the entry of the status is replaced or dropped with all its aliases, a
  new boost hides the older ones, and the lists that a status comes into or goes out
  of are dropped.

  Main statements: `Coherent.put`, `Coherent.update` and `Coherent.delete`.  An update
  has to be given a copy that agrees with the stored row in what it does not write,
  and that has the parent and the boosted status of that row.
-/
import StatusStore.Proofs.Store.Changes
import StatusStore.Proofs.Store.Coherent

namespace StatusStore

open Cache Database

/-- Whether a copy may be given to an update of `columns` of a row: it differs from the row in these
alone, and not in its parent or in what it boosts. -/
structure Status.Revises (status : Status) (columns : List StatusColumn) (row : StatusRow) :
    Prop where
  agrees : StatusRow.AgreesOutside (Statement.written columns) status.toRow row
  inReplyToId : status.inReplyToId = row.inReplyToId
  boostOfId : status.boostOfId = row.boostOfId

theorem Status.Revises.stamped {status : Status} {columns : List StatusColumn} {row : StatusRow}
    (h : status.Revises columns row) (now : Timestamp) :
    ({ status with updatedAt := now } : Status).Revises columns row where
  agrees :=
    ⟨⟨h.agrees.origin.id, h.agrees.origin.createdAt, h.agrees.origin.isLocal,
      h.agrees.origin.accountId, h.agrees.origin.accountUri⟩,
      fun c hc => by cases c <;> exact h.agrees.unlisted _ hc⟩
  inReplyToId := h.inReplyToId
  boostOfId := h.boostOfId

/-! ### What a write does to the rows -/

namespace Database

/-- `db` is `old` with a status written: its row is as the status is, the other rows are as they
were, and the lists that do not depend on it are. -/
structure Saved (old : Database) (v : Status) (db : Database) : Prop where
  healthy : db.Healthy
  own : ∃ r ∈ db.tables.statuses, r.value = v.toRow
  kept : ∀ r ∈ old.tables.statuses, r.value.id ≠ v.id → r ∈ db.tables.statuses
  new : ∀ r ∈ db.tables.statuses, r ∈ old.tables.statuses ∨ r.value = v.toRow
  same : ∀ kind target, ¬ Drops v kind target →
    db.tables.listed kind target = old.tables.listed kind target

variable {old : Database} {v : Status} {columns : List StatusColumn}

theorem Healthy.saved_put {newThread : Option Thread} (h : old.Healthy)
    (hput : (old.putStatus v newThread).1 = .ok ()) :
    Saved old v (old.putStatus v newThread).2 := by
  obtain ⟨hhealthy, hstatuses⟩ := h.put hput
  constructor
  case healthy => exact hhealthy
  case own => exact ⟨{ value := v.toRow }, by simp [hstatuses], rfl⟩
  case kept =>
    intro r hr _
    rw [hstatuses]
    exact List.mem_append_left _ hr
  case new =>
    intro r hr
    rw [hstatuses] at hr
    rcases List.mem_append.1 hr with hold | hlast
    · exact Or.inl hold
    · rw [List.mem_singleton.1 hlast]
      exact Or.inr rfl
  case same =>
    intro kind target hstays
    refine Tables.listed_append hstatuses (ListKind.selects_eq_false.2 fun hlink => ?_)
    exact hstays (drops_iff.2 (Or.inl hlink))

theorem Healthy.saved_update (h : old.Healthy)
    (hupdate : (old.updateStatus v columns).1 = .ok ())
    (hrevises : ∀ r ∈ old.tables.statuses, r.value.id = v.id → v.Revises columns r.value) :
    Saved old v (old.updateStatus v columns).2 := by
  obtain ⟨hhealthy, row, hrow, hid, hstatuses⟩ := h.update hupdate
  obtain ⟨hagrees, hparent, htarget⟩ := hrevises row hrow hid
  have hvalue : (updateRow v.toRow (Statement.written columns) row).value = v.toRow :=
    updateRow_eq_source_iff.2 hagrees
  constructor
  case healthy => exact hhealthy
  case own =>
    refine ⟨_, ?_, hvalue⟩
    rw [hstatuses]
    exact List.mem_map.2 ⟨row, hrow, by rw [if_pos hid]⟩
  case kept =>
    intro r hr hother
    rw [hstatuses]
    exact List.mem_map.2 ⟨r, hr, if_neg hother⟩
  case new =>
    intro r hr
    rw [hstatuses] at hr
    obtain ⟨q, hq, rfl⟩ := List.mem_map.1 hr
    split
    · exact Or.inr hvalue
    · exact Or.inl hq
  case same =>
    intro kind target _
    have hselects : kind.selects target v.toRow = kind.selects target row.value := by
      cases kind with
      | replies => exact ListKind.selects_congr hparent
      | boosts => exact ListKind.selects_congr htarget
    refine Tables.listed_replace h.intact hrow hid ?_ hstatuses ?_
    · rw [hvalue]
      rfl
    · rw [hvalue, hselects]

end Database

namespace Store

variable {s u : Store}

namespace Coherent

/-! ### Events and restarts -/

theorem publish (h : s.Coherent) (action : StatusAction) (status : Status) :
    (s.publish action status).2.Coherent :=
  h.congr rfl rfl rfl fun _ => rfl

theorem restarted (h : s.Coherent) : s.restarted.Coherent := by
  refine Coherent.of_empty h.healthy h.distinct rfl ?_
  intro kind
  cases kind <;> rfl

/-! ### Tables and caches that change together -/

/-- New tables and new caches go together if what is cached is what the tables answer, and the lists
are those that have not changed. -/
theorem changed (h : s.Coherent) (tidy : u.Tidy) (healthy : u.database.Healthy)
    (distinct : u.database.tables.Distinct)
    (faithful : ∀ {l : Lookup} {w : Status}, l.IsPlain →
      u.caches.statuses.index.get? (Key.ofLookup l).encode = some w →
      u.database.tables.status l = .ok w)
    (same : ∀ {kind : ListKind} {k : String} {l : IdList},
      (u.caches.lists kind).index.get? k = some l →
      (s.caches.lists kind).index.get? k = some l ∧
        u.database.tables.listed kind l.target = s.database.tables.listed kind l.target) :
    u.Coherent where
  healthy := healthy
  distinct := distinct
  sound := tidy.sound
  idle := tidy.idle
  listsSound := tidy.listsSound
  listsIdle := tidy.listsIdle
  faithful := faithful
  listed hl := by
    obtain ⟨hold, hsame⟩ := same hl
    obtain ⟨hkey, hids⟩ := h.listed hold
    exact ⟨hkey, hids.trans hsame.symm⟩

/-- A status that was written may be cached. -/
theorem committed {v : Status} (h : s.Coherent) (saved : Saved s.database v u.database)
    (distinct : u.database.tables.Distinct) (caches : u.caches = s.caches.committed v.barebones) :
    u.Coherent := by
  refine h.changed (h.tidy.committed saved.healthy.intact caches) saved.healthy distinct ?_ ?_
  · intro l w hl hw
    rcases h.tidy.found_committed caches hw with ⟨halias, rfl⟩ | ⟨-, hstale, hold, hother⟩
    · obtain ⟨r, hr, hrow⟩ := saved.own
      obtain ⟨hboost, hdescribes⟩ := (encode_mem_aliases hl).1 halias
      rw [Status.toRow_barebones, ← hrow] at hdescribes
      rw [saved.healthy.intact.status_of_describes distinct hr hboost hdescribes, hrow,
        Status.ofRow_toRow]
    · refine h.healthy.intact.status_of_kept saved.healthy.intact (h.tells l)
        (saved.healthy.intact.tells distinct l) (h.faithful hl hold) ?_ ?_
      · intro r hr hrid
        exact saved.kept r hr (hrid ▸ hother)
      · intro hboost q hq hdescribes
        rcases saved.new q hq with hold | hrow
        · exact ⟨q, hold, hdescribes, rfl⟩
        · rw [hrow, ← Status.toRow_barebones] at hdescribes
          exact absurd (mem_staleAliases.2 ⟨l, hboost, hdescribes, rfl⟩) hstale
  · intro kind k l hl
    obtain ⟨hold, hdrops, -⟩ := h.tidy.list_committed caches hl
    exact ⟨hold, saved.same kind l.target hdrops⟩

/-- A write that is one transaction keeps the store coherent, whether it fails or not. -/
theorem save {v : Status} {write : Database → Except Error Unit × Database} (h : s.Coherent)
    (failed : ∀ e, (write s.database).1 = .error e →
      (write s.database).2.tables = s.database.tables)
    (isClosed : (write s.database).2.isClosed = s.database.isClosed)
    (saved : (write s.database).1 = .ok () → Saved s.database v (write s.database).2)
    (distinct : (write s.database).2.tables.Distinct) : (s.save v write).2.Coherent := by
  rcases s.save_cases v write with ⟨e, hfailed, started, hsave⟩ | ⟨hwritten, hsave⟩
  · rw [hsave]
    refine h.congr (failed e hfailed) isClosed rfl ?_
    intro kind
    cases kind <;> rfl
  · rw [hsave]
    exact h.committed (saved hwritten) distinct rfl

/-! ### The three writes -/

theorem put {status : Status} {fresh : Thread} (h : s.Coherent)
    (hdistinct : (s.put status fresh).2.2.database.tables.Distinct) :
    (s.put status fresh).2.2.Coherent := by
  unfold Store.put at hdistinct ⊢
  generalize status.startThread fresh = begun at hdistinct ⊢
  obtain ⟨newThread, v⟩ := begun
  have hsaved : (s.save v (·.putStatus v newThread)).2.database.tables.Distinct →
      (s.save v (·.putStatus v newThread)).2.Coherent := by
    intro hdistinct
    rw [database_save] at hdistinct
    exact h.save (fun e he => tables_of_transact_error he) (isClosed_transact _ _)
      h.healthy.saved_put hdistinct
  dsimp only at hdistinct ⊢
  split at hdistinct <;>
    rename_i hsave <;>
    rw [hsave] at hsaved
  · exact (hsaved hdistinct).publish .create v
  · exact hsaved hdistinct

theorem update {status : Status} {columns : List StatusColumn} {now : Timestamp} (h : s.Coherent)
    (hrevises : ∀ r ∈ s.database.tables.statuses, r.value.id = status.id →
      status.Revises columns r.value)
    (hdistinct : (s.update status columns now).2.2.database.tables.Distinct) :
    (s.update status columns now).2.2.Coherent := by
  unfold Store.update at hdistinct ⊢
  have hsaved : ∀ v : Status, (∀ r ∈ s.database.tables.statuses, r.value.id = v.id →
      v.Revises columns r.value) →
      (s.save v (·.updateStatus v columns)).2.database.tables.Distinct →
      (s.save v (·.updateStatus v columns)).2.Coherent := by
    intro v hrevises hdistinct
    rw [database_save] at hdistinct
    exact h.save (fun e he => tables_of_transact_error he) (isClosed_transact _ _)
      (fun hupdate => h.healthy.saved_update hupdate hrevises) hdistinct
  have hsaved := hsaved { status with updatedAt := now } fun r hr hid =>
    (hrevises r hr hid).stamped now
  dsimp only at hdistinct ⊢
  split at hdistinct <;>
    rename_i hsave <;>
    rw [hsave] at hsaved
  · exact (hsaved hdistinct).publish .update _
  · exact hsaved hdistinct

/-- A status whose row was deleted may be dropped, if it was cached: only then is it announced. -/
theorem invalidated {id : String} (h : s.Coherent)
    (hcached : ∀ w, s.database.tables.status (.id id) = .ok w →
      s.caches.statuses.index.get? (Key.ofLookup (.id id)).encode = some w)
    (distinct : (s.database.deleteStatus id).2.tables.Distinct) :
    Coherent { s with
      database := (s.database.deleteStatus id).2
      caches := s.caches.invalidate (.ofLookup (.id id)) } := by
  obtain ⟨-, healthy, hstatuses⟩ := h.healthy.delete id
  refine h.changed (h.tidy.invalidated healthy.intact rfl) healthy distinct ?_ ?_
  · intro l w hl hw
    obtain ⟨hold, hother⟩ := h.tidy.found_invalidated rfl hw
    refine h.healthy.intact.status_of_kept healthy.intact (h.tells l)
      (healthy.intact.tells distinct l) (h.faithful hl hold) ?_ ?_
    · intro r hr hrid
      rw [hstatuses]
      exact List.mem_filter.2 ⟨hr, by simpa [hrid] using hother⟩
    · intro _ q hq hdescribes
      rw [hstatuses] at hq
      exact ⟨q, (List.mem_filter.1 hq).1, hdescribes, rfl⟩
  · intro kind k l hl
    obtain ⟨hold, hdrops⟩ := h.tidy.list_invalidated rfl hl
    refine ⟨hold, Tables.listed_filter hstatuses ?_⟩
    rintro r hr rfl
    refine ListKind.selects_eq_false.2 fun hlink => ?_
    exact hdrops _ (hcached _ (h.healthy.intact.status_id hr)) (drops_iff.2 (Or.inl hlink))

/-- A deletion loads the status first, so that the lists that it is in are dropped with it. -/
theorem delete (h : s.Coherent) (id : String)
    (hdistinct : (s.delete id).2.database.tables.Distinct) : (s.delete id).2.Coherent := by
  obtain ⟨-, hloaded, htables, hcached⟩ := h.load (l := .id id) trivial
  rw [← htables] at hcached
  have hdeleted := hloaded.invalidated hcached
  unfold Store.delete at hdistinct ⊢
  rw [get_barebones] at hdistinct ⊢
  dsimp only at hdistinct ⊢
  split at hdistinct
  · exact (hdeleted hdistinct).publish .delete _
  · exact hdeleted hdistinct

end Coherent

end Store

end StatusStore
