/-
  StatusStore/Proofs/Database/Reach.lean
  ======================================
  **What a write changes in the tables for those who have read them.**  A copy of a
  status depends on the row with its id, and the list of a target on which rows name
  the target.  A write changes one row.  So of all copies it makes those of that row
  out of date, if it changes the row, and of all lists those that the row comes into
  or goes out of.

  Main statements: `Tables.Intact.agrees_iff_of_agrees` for copies, and
  `Healthy.listed_written_iff` for lists.
-/
import StatusStore.Proofs.Database.Notions
import StatusStore.Proofs.Database.Replies

namespace StatusStore.Database

open Cache

variable {t u : Tables} {db : Database} {s w : Status} {id target : String} {kind : ListKind}

namespace Tables

def content? (t : Tables) (id : String) : Option StatusRow :=
  (t.statusRow? (.id id)).map (·.value)

def linkOf? (t : Tables) (kind : ListKind) (id : String) : Option String :=
  (t.content? id).bind kind.link

theorem content?_congr (h : u.rowsOf id = t.rowsOf id) : u.content? id = t.content? id := by
  simp only [content?, statusRow?_id, h]

namespace Intact

theorem content?_eq_some {row : StatusRow} (h : t.Intact) :
    t.content? id = some row ↔ ∃ r ∈ t.statuses, r.value.id = id ∧ r.value = row := by
  have hfound : ∀ r, t.statusRow? (.id id) = some r ↔ r ∈ t.statuses ∧ r.value.id = id := by
    intro r
    rw [statusRow?_eq_some (h.tells_id id), Lookup.describes_id]
    simp [Lookup.isBoost]
  simp only [content?, Option.map_eq_some_iff, hfound, and_assoc]

theorem content?_eq_none (h : t.Intact) :
    t.content? id = none ↔ ∀ r ∈ t.statuses, r.value.id ≠ id := by
  rw [Option.eq_none_iff_forall_ne_some]
  constructor
  · intro hnone r hr hid
    exact hnone r.value (h.content?_eq_some.2 ⟨r, hr, hid, rfl⟩)
  · intro hother row hrow
    obtain ⟨r, hr, hid, -⟩ := h.content?_eq_some.1 hrow
    exact hother r hr hid

theorem agrees_iff (h : t.Intact) :
    t.Agrees w ↔ ∃ row, t.content? w.id = some row ∧ .ofRow row = w := by
  rw [Agrees, h.status_eq_ok]
  simp [content?]

/-- A copy that was right stays right just when its row has not changed. -/
theorem agrees_iff_of_agrees (h : t.Intact) (hu : u.Intact) (hw : t.Agrees w) :
    u.Agrees w ↔ u.content? w.id = t.content? w.id := by
  obtain ⟨row, hrow, hsame⟩ := h.agrees_iff.1 hw
  rw [hu.agrees_iff, hrow]
  constructor
  · rintro ⟨row', hrow', hsame'⟩
    rw [hrow', ← Status.toRow_ofRow row', hsame', ← hsame, Status.toRow_ofRow]
  · intro hrow'
    exact ⟨row, hrow', hsame⟩

/-- A status is in the list of the target that its row names. -/
theorem mem_listed_iff (h : t.Intact) :
    id ∈ t.listed kind target ↔ t.linkOf? kind id = some target := by
  simp only [mem_listed, linkOf?, Option.bind_eq_some_iff, h.content?_eq_some, ListKind.selects_iff]
  constructor
  · rintro ⟨r, hr, hid, hlink⟩
    exact ⟨r.value, ⟨r, hr, hid, rfl⟩, hlink⟩
  · rintro ⟨_, ⟨r, hr, hid, rfl⟩, hlink⟩
    exact ⟨r, hr, hid, hlink⟩

end Intact

end Tables

/-! ### A write -/

namespace Healthy

theorem content?_written {statements : List Statement} (h : db.Healthy) (hwrites : Writes s statements)
    (hother : id ≠ s.id) : (db.transact statements).2.tables.content? id = db.tables.content? id :=
  Tables.content?_congr ((h.written hwrites).2 id hother)

/-- There was no row with the id of a status that was put. -/
theorem content?_before_put {newThread : Option Thread} (h : db.Healthy)
    (hput : (db.putStatus s newThread).1 = .ok ()) : db.tables.content? s.id = none := by
  obtain ⟨hnone, -, -⟩ := Statement.put_ok (transact_ok hput).2
  refine h.intact.content?_eq_none.2 fun r hr hid => ?_
  exact (conflict_eq_false.1 (hnone r hr)).1 hid.symm

/-- A write changes the list of a target just when it takes its row into the list or out of it. -/
theorem listed_written_iff {statements : List Statement} (h : db.Healthy)
    (hwrites : Writes s statements) (hok : (db.transact statements).1 = .ok ()) :
    (db.transact statements).2.tables.listed kind target = db.tables.listed kind target ↔
      ((db.transact statements).2.tables.linkOf? kind s.id = some target ↔
        db.tables.linkOf? kind s.id = some target) := by
  have hintact : (db.transact statements).2.tables.Intact := (h.written hwrites).1.intact
  constructor
  · intro hsame
    rw [← hintact.mem_listed_iff, ← h.intact.mem_listed_iff, hsame]
  · intro hlinks
    cases hwrites with
    | put newThread =>
      have hstatuses : (db.transact (Statement.put s newThread)).2.tables.statuses =
          db.tables.statuses ++ [{ value := s.toRow }] := (h.put hok).2
      have hnone : db.tables.content? s.id = none := h.content?_before_put hok
      have hnew : (db.transact (Statement.put s newThread)).2.tables.content? s.id = some s.toRow :=
        hintact.content?_eq_some.2 ⟨{ value := s.toRow }, by simp [hstatuses], rfl, rfl⟩
      apply Tables.listed_append hstatuses
      rw [ListKind.selects_eq_false]
      intro hlink
      simp [Tables.linkOf?, hnone, hnew, hlink] at hlinks
    | update columns =>
      obtain ⟨-, row, hrow, hid, hstatuses⟩ := h.update hok
      have hnewId : (updateRow s.toRow (Statement.written columns) row).value.id = s.id :=
        (sameOrigin_updateRow _ _ row).id.symm.trans hid
      have hold : db.tables.content? s.id = some row.value :=
        h.intact.content?_eq_some.2 ⟨row, hrow, hid, rfl⟩
      have hnew : (db.transact (Statement.update s columns)).2.tables.content? s.id =
          some (updateRow s.toRow (Statement.written columns) row).value := by
        refine hintact.content?_eq_some.2 ⟨_, ?_, hnewId, rfl⟩
        rw [show (db.transact (Statement.update s columns)).2.tables.statuses = _ from hstatuses]
        exact List.mem_map.2 ⟨row, hrow, if_pos hid⟩
      apply Tables.listed_replace h.intact hrow hid hnewId hstatuses
      rw [Bool.eq_iff_iff, ListKind.selects_iff, ListKind.selects_iff]
      simpa [Tables.linkOf?, hold, hnew] using hlinks

end Healthy

end StatusStore.Database
