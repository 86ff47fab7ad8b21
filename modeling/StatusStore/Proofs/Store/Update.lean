/-
  StatusStore/Proofs/Store/Update.lean
  ====================================
  **What is served after an update.**  The transaction of an update writes the
  column groups that are listed, and the cache takes the status as the caller has
  it.  So what is served afterwards is the caller's copy, in the groups that were
  not listed too, and it is the stored row only if the copy agreed with that row
  there.

  Main statements: `update_get` gives the exact condition, and `update_get_differs`
  an update after which the cache and the database differ.
-/
import StatusStore.Proofs.Database.Rows
import StatusStore.Proofs.Store.Access

namespace StatusStore

namespace Database

/-! ### Reading an updated row -/

theorem lookup_filter_not_contains (names : List String) (l : List (String × String)) (name : String) :
    (l.filter fun (column, _) => !names.contains column).lookup name =
      if name ∈ names then none else l.lookup name := by
  induction l with
  | nil => simp
  | cons b l ih =>
    obtain ⟨column, reason⟩ := b
    by_cases hcolumn : column ∈ names
    · rw [List.filter_cons_of_neg (by simpa using hcolumn), ih]
      by_cases hname : name ∈ names
      · simp [hname]
      · have hother : (name == column) = false := by
          simp only [beq_eq_false_iff_ne, ne_eq]
          rintro rfl
          exact hname hcolumn
        simp [hname, List.lookup_cons, hother]
    · rw [List.filter_cons_of_pos (by simpa using hcolumn), List.lookup_cons, List.lookup_cons, ih]
      by_cases hname : name ∈ names
      · have hother : (name == column) = false := by
          simp only [beq_eq_false_iff_ne, ne_eq]
          rintro rfl
          exact hcolumn hname
        simp [hname, hother]
      · simp [hname]

def writtenNames (columns : List StatusColumn) : List String :=
  "updated_at" :: (Statement.written columns).flatMap columnNames

/-- Whether every column of a row reads that an update does not write. -/
def ReadsOutside (columns : List StatusColumn) (row : Stored StatusRow) : Prop :=
  ∀ c ∈ Persistent.columns (α := StatusRow), c.name ∉ writtenNames columns →
    row.garbled.lookup c.name = none

theorem updateRow_value?_eq_ok {source v : StatusRow} {columns : List StatusColumn}
    {row : Stored StatusRow} :
    (updateRow source (Statement.written columns) row).value? = .ok v ↔
      ReadsOutside columns row ∧ (updateRow source (Statement.written columns) row).value = v := by
  have hgarbled : (updateRow source (Statement.written columns) row).garbled =
      row.garbled.filter fun (column, _) => !(writtenNames columns).contains column := rfl
  unfold Stored.value?
  rw [Stored.read_eq_ok, hgarbled]
  refine and_congr_left fun _ => forall_congr' fun c => imp_congr_right fun _ => ?_
  rw [lookup_filter_not_contains]
  by_cases hwritten : c.name ∈ writtenNames columns <;> simp [hwritten]

end Database

namespace Store

open Database StatusRow

variable {s u : Store} {status kept : Status} {columns : List StatusColumn} {now : Timestamp}

/-- A successful update has committed its transaction and cached the status as the caller keeps
it. -/
theorem update_committed (h : s.update status columns now = (.ok (), kept, u)) :
    kept = { status with updatedAt := now } ∧
      (s.database.updateStatus kept columns).1 = .ok () ∧
      u.database = (s.database.updateStatus kept columns).2 ∧
      u.caches = s.caches.committed kept.barebones := by
  simp only [update] at h
  rcases s.save_cases { status with updatedAt := now }
      (·.updateStatus { status with updatedAt := now } columns)
    with ⟨e, -, started, hsave⟩ | ⟨hwrite, hsave⟩
  · rw [hsave] at h
    cases h
  · rw [hsave] at h
    cases h
    exact ⟨rfl, hwrite, rfl, rfl⟩

/-- After a successful update the statuses can be read. -/
theorem readable_of_update (h : s.update status columns now = (.ok (), kept, u)) : u.Readable := by
  obtain ⟨-, hwrite, hdatabase, -⟩ := update_committed h
  obtain ⟨hopen, hrun⟩ := transact_ok hwrite
  obtain ⟨-, hthere, -, -, -, hdropped⟩ := Statement.update_ok hrun
  refine ⟨?_, ?_⟩
  · rw [hdatabase]
    exact (isClosed_transact _ _).trans hopen
  · unfold Tables.require at hthere ⊢
    rw [hdatabase]
    exact hdropped ▸ hthere

theorem status_of_update (h : s.update status columns now = (.ok (), kept, u)) :
    ∃ row, s.database.tables.row? StatusRow status.id = some row ∧
      (u.database.status (.id status.id)).1 =
        (updateRow kept.toRow (Statement.written columns) row).value?.map Status.ofRow := by
  obtain ⟨hkept, hwrite, hdatabase, -⟩ := update_committed h
  obtain ⟨-, hrun⟩ := transact_ok hwrite
  obtain ⟨row, -, hfind, -, hstatuses, -⟩ := Statement.update_ok hrun
  have hsame : kept.id = status.id := congrArg (·.id) hkept
  rw [hsame] at hfind hstatuses
  refine ⟨row, hfind, ?_⟩
  have hid : (updateRow kept.toRow (Statement.written columns) row).value.id = status.id := by
    have hrow : row.value.id = status.id := by simpa using List.find?_some hfind
    exact (sameOrigin_updateRow _ _ row).id.symm.trans hrow
  have hfound : u.database.tables.statusRow? (.id status.id) =
      some (updateRow kept.toRow (Statement.written columns) row) := by
    rw [hdatabase]
    exact (congrArg (List.find? (·.value.id = status.id)) hstatuses).trans (find?_replaced hfind hid)
  have hread := readable_of_update h
  rw [Database.status, select_of_ready hread.opened hread.there, Tables.status, hfound]

/-- After a successful update each lookup of the status that leads to it alone serves the caller's
copy.  That is what the database answers just when the copy agreed with the stored row in everything
that was not written, and what was not written reads. -/
theorem update_get (h : s.update status columns now = (.ok (), kept, u)) :
    ∃ row, s.database.tables.row? StatusRow status.id = some row ∧
      ∀ l : Lookup, l.isBoost = false → l.describes kept.toRow = true →
        (u.get l .barebones).1 = .ok kept.barebones ∧
        ((u.get l .barebones).1 = (u.database.status (.id status.id)).1 ↔
          AgreesOutside (Statement.written columns) kept.toRow row.value ∧
            ReadsOutside columns row) := by
  obtain ⟨row, hrow, hanswer⟩ := status_of_update h
  obtain ⟨-, -, -, hcaches⟩ := update_committed h
  refine ⟨row, hrow, fun l hl hdescribes => ?_⟩
  have hcached : u.caches.statuses.index.get? (Cache.Key.ofLookup l).encode =
      some kept.barebones := by
    rw [hcaches, Cache.Caches.index_committed]
    refine Cache.Index.get?_commit_of_alias _ (Cache.mem_aliases.2 ⟨l, hl, ?_, rfl⟩)
    rw [← Status.ofRow_toRow, Status.toRow_ofRow]
    exact hdescribes
  have hserved : (u.get l .barebones).1 = .ok kept.barebones := by
    rw [get_barebones]
    exact load_of_cached hcached
  refine ⟨hserved, ?_⟩
  rw [hserved, hanswer, ← updateRow_eq_source_iff]
  have hread : ∀ answer : Except Error StatusRow,
      Except.ok kept.barebones = answer.map Status.ofRow ↔ answer = .ok kept.toRow := by
    intro answer
    cases answer with
    | error e => simp [Except.map]
    | ok v =>
      constructor
      · intro hsame
        have hbare : kept.barebones = Status.ofRow v := Except.ok.inj hsame
        rw [← Status.ofRow_toRow] at hbare
        rw [← Status.toRow_ofRow v, ← hbare, Status.toRow_ofRow]
      · intro hsame
        cases hsame
        rfl
  rw [hread, updateRow_value?_eq_ok, and_comm]

/-! ### A copy that differs -/

def note : StatusRow :=
  { (default : StatusRow) with id := "01A", uri := "https://ex.test/01A", content := "before" }

def noteStore : Store := { database := { tables := { statuses := [{ value := note }] } } }

/-- What the caller makes of it: another content, and a language. -/
def editedNote : Status := { Status.ofRow note with content := "after", language := some "de" }

theorem update_get_note :
    (noteStore.update editedNote [.content] default).1 = .ok () ∧
      ∃ row, noteStore.database.tables.row? StatusRow editedNote.id = some row ∧
        ((noteStore.update editedNote [.content] default).2.2.get (.uri editedNote.uri)
          .barebones).1 = .ok (noteStore.update editedNote [.content] default).2.1.barebones := by
  have hsuccess : (noteStore.update editedNote [.content] default).1 = .ok () := rfl
  obtain ⟨row, hrow, hserved⟩ := update_get (Prod.ext hsuccess rfl)
  exact ⟨hsuccess, row, hrow, (hserved (.uri editedNote.uri) rfl (by decide)).1⟩

/-- If only the content is written, the language that the caller had is served and is not stored. -/
theorem update_get_differs :
    (noteStore.update editedNote [.content] default).1 = .ok () ∧
      ((noteStore.update editedNote [.content] default).2.2.get (.id "01A") .barebones).1 ≠
        ((noteStore.update editedNote [.content] default).2.2.database.status (.id "01A")).1 := by
  refine ⟨rfl, fun hsame => ?_⟩
  have hlanguage := congrArg (·.map (·.language)) hsame
  have hserved : (((noteStore.update editedNote [.content] default).2.2.get (.id "01A")
      .barebones).1.map (·.language)) = .ok (some "de") := rfl
  have hstored : ((noteStore.update editedNote [.content] default).2.2.database.status
      (.id "01A")).1.map (·.language) = .ok none := rfl
  rw [hserved, hstored] at hlanguage
  cases hlanguage

end Store

end StatusStore
