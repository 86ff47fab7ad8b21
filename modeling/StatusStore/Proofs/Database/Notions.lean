/-
  StatusStore/Proofs/Database/Notions.lean
  ========================================
  **What the tables say of one status.**  A copy of a status can be right in more
  ways than one: it may be what the tables answer to its id, or there may just be
  a row with its id.  Either way (`Notion`) it depends on the rows with that id
  alone, and what has been read is right.  A write changes the rows with one id,
  and so does a deletion.

  Main statements: `Healthy.written` and `Healthy.deleted`, and for the two notions
  `agrees_put`, `agrees_update` and `has_written`.
-/
import StatusStore.Proofs.Database.Rows

namespace StatusStore.Database

def Tables.rowsOf (t : Tables) (id : String) : List (Stored StatusRow) :=
  t.statuses.filter (·.value.id = id)

/-- A way in which a copy of a status can be right about the tables. -/
structure Notion (P : Tables → Status → Prop) : Prop where
  depends : ∀ {t u : Tables} {w : Status}, u.rowsOf w.id = t.rowsOf w.id → P t w → P u w
  read : ∀ {db : Database} {l : Lookup} {w : Status}, db.Healthy → db.tables.status l = .ok w →
    P db.tables w

/-- A status is what the tables answer to its id. -/
def Tables.Agrees (t : Tables) (w : Status) : Prop := t.status (.id w.id) = .ok w

def Tables.Has (t : Tables) (w : Status) : Prop := ∃ r ∈ t.statuses, r.value.id = w.id

inductive Writes (s : Status) : List Statement → Prop
  | put (newThread : Option Thread) : Writes s (Statement.put s newThread)
  | update (columns : List StatusColumn) : Writes s (Statement.update s columns)

variable {t u : Tables} {db : Database} {s w : Status} {id : String}

theorem Tables.mem_rowsOf {r : Stored StatusRow} :
    r ∈ t.rowsOf id ↔ r ∈ t.statuses ∧ r.value.id = id := by
  simp [rowsOf]

theorem Tables.statusRow?_id (t : Tables) (id : String) :
    t.statusRow? (.id id) = (t.rowsOf id).head? :=
  List.head?_filter.symm

theorem Tables.status_id_congr (h : u.rowsOf id = t.rowsOf id) :
    u.status (.id id) = t.status (.id id) := by
  simp only [status, statusRow?_id, h]

/-! ### The two notions -/

theorem Healthy.agrees_of_mem (h : db.Healthy) {r : Stored StatusRow}
    (hr : r ∈ db.tables.statuses) : db.tables.Agrees (.ofRow r.value) :=
  h.intact.status_id hr

theorem notion_agrees : Notion Tables.Agrees where
  depends hrows h := (Tables.status_id_congr hrows).trans h
  read hdb hread := by
    obtain ⟨r, hr, rfl⟩ := hdb.intact.status_eq_ok.1 hread
    exact hdb.agrees_of_mem (Tables.mem_of_statusRow? hr)

theorem notion_has : Notion Tables.Has where
  depends {t u w} hrows h := by
    obtain ⟨r, hr, hid⟩ := h
    have hmem : r ∈ u.rowsOf w.id := hrows ▸ Tables.mem_rowsOf.2 ⟨hr, hid⟩
    exact ⟨r, Tables.mem_rowsOf.1 hmem⟩
  read hdb hread := by
    obtain ⟨r, hr, rfl⟩ := hdb.intact.status_eq_ok.1 hread
    exact ⟨r, Tables.mem_of_statusRow? hr, rfl⟩

/-! ### Writes and deletions -/

theorem rowsOf_put {newThread : Option Thread} (h : db.Healthy)
    (hput : (db.putStatus s newThread).1 = .ok ()) (hother : id ≠ s.id) :
    (db.putStatus s newThread).2.tables.rowsOf id = db.tables.rowsOf id := by
  have hapart : ¬ s.toRow.id = id := fun hid => hother hid.symm
  simp [Tables.rowsOf, (h.put hput).2, List.filter_append, hapart]

theorem rowsOf_update {columns : List StatusColumn} (h : db.Healthy)
    (hupdate : (db.updateStatus s columns).1 = .ok ()) (hother : id ≠ s.id) :
    (db.updateStatus s columns).2.tables.rowsOf id = db.tables.rowsOf id := by
  obtain ⟨-, row, -, hid, hstatuses⟩ := h.update hupdate
  have hnewId : (updateRow s.toRow (Statement.written columns) row).value.id = s.id :=
    (sameOrigin_updateRow _ _ row).id.symm.trans hid
  rw [Tables.rowsOf, hstatuses, Tables.rowsOf]
  generalize db.tables.statuses = rows
  induction rows with
  | nil => rfl
  | cons r rows ih =>
    rw [List.map_cons, List.filter_cons, List.filter_cons, ih]
    by_cases hr : r.value.id = s.id
    · have hapart : ¬ s.id = id := fun hid => hother hid.symm
      rw [if_pos hr, hnewId, hr]
      simp [hapart]
    · rw [if_neg hr]

/-- A write changes the rows with the id of its status at most. -/
theorem Healthy.written {statements : List Statement} (h : db.Healthy)
    (hwrites : Writes s statements) :
    (db.transact statements).2.Healthy ∧
      ∀ id, id ≠ s.id → (db.transact statements).2.tables.rowsOf id = db.tables.rowsOf id := by
  cases hanswer : (db.transact statements).1 with
  | error e =>
    refine ⟨h.failed hanswer, fun id _ => ?_⟩
    rw [tables_of_transact_error hanswer]
  | ok _ =>
    cases hwrites with
    | put newThread => exact ⟨(h.put hanswer).1, fun id hother => rowsOf_put h hanswer hother⟩
    | update columns => exact ⟨(h.update hanswer).1, fun id hother => rowsOf_update h hanswer hother⟩

theorem Healthy.deleted (h : db.Healthy) {other : String} (hother : other ≠ id) :
    (db.deleteStatus id).2.tables.rowsOf other = db.tables.rowsOf other := by
  rw [Tables.rowsOf, (h.delete id).2.2, List.filter_filter, Tables.rowsOf]
  apply List.filter_congr
  intro r _
  by_cases hr : r.value.id = other
  · simp [hr, hother]
  · simp [hr]

theorem has_written {statements : List Statement} (h : db.Healthy)
    (hwrites : Writes s statements) (hok : (db.transact statements).1 = .ok ()) :
    (db.transact statements).2.tables.Has s := by
  cases hwrites with
  | put newThread =>
    refine ⟨{ value := s.toRow }, ?_, rfl⟩
    rw [show (db.transact (Statement.put s newThread)).2.tables.statuses = _ from (h.put hok).2]
    exact List.mem_append_right _ (List.mem_singleton_self _)
  | update columns =>
    obtain ⟨-, row, hrow, hid, hstatuses⟩ := h.update hok
    refine ⟨updateRow s.toRow (Statement.written columns) row, ?_, ?_⟩
    · rw [show (db.transact (Statement.update s columns)).2.tables.statuses = _ from hstatuses]
      exact List.mem_map.2 ⟨row, hrow, by rw [if_pos hid]⟩
    · exact (sameOrigin_updateRow _ _ row).id.symm.trans hid

theorem agrees_put {newThread : Option Thread} (h : db.Healthy)
    (hput : (db.putStatus s newThread).1 = .ok ()) :
    (db.putStatus s newThread).2.tables.Agrees s.barebones := by
  obtain ⟨hhealthy, hstatuses⟩ := h.put hput
  have hrow : ({ value := s.toRow } : Stored StatusRow) ∈
      (db.putStatus s newThread).2.tables.statuses := by
    rw [hstatuses]
    exact List.mem_append_right _ (List.mem_singleton_self _)
  exact hhealthy.agrees_of_mem hrow

/-- A row is as the status is that all columns were updated to, if their origins are the same. -/
theorem agrees_update (h : db.Healthy) (hupdate : (db.updateStatus s []).1 = .ok ())
    (horigin : ∀ r ∈ db.tables.statuses, r.value.id = s.id → StatusRow.SameOrigin s.toRow r.value) :
    (db.updateStatus s []).2.tables.Agrees s.barebones := by
  obtain ⟨hhealthy, row, hrow, hid, hstatuses⟩ := h.update hupdate
  have hvalue : (updateRow s.toRow (Statement.written []) row).value = s.toRow := by
    refine updateRow_eq_source_iff.2 ⟨horigin row hrow hid, fun c hc => absurd ?_ hc⟩
    cases c <;> decide
  have hwritten : updateRow s.toRow (Statement.written []) row ∈
      (db.updateStatus s []).2.tables.statuses := by
    rw [hstatuses]
    exact List.mem_map.2 ⟨row, hrow, by rw [if_pos hid]⟩
  have hagrees := hhealthy.agrees_of_mem hwritten
  rw [hvalue] at hagrees
  exact hagrees

end StatusStore.Database
