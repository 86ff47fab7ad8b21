/-
  StatusStore/Proofs/Database/Transactions.lean
  =============================================
  **What a transaction does to the status rows.**  Joins, threads and claimed
  attachments lie beside the table of statuses; each transaction has one statement
  that is about it, and that comes last.

  Main statements: `put_ok`, `update_ok` and `delete_ok`.
-/
import StatusStore.Database.Write

namespace StatusStore.Database

variable {t u : Tables} {s : Status}

/-! ### Conflicts of status rows -/

theorem conflict_statusRow (a b : StatusRow) :
    Tables.conflict a b = (decide (a.id = b.id) || decide (a.uri = b.uri)) := by
  simp [Tables.conflict, Identified.id, Persistent.unique]

theorem conflict_eq_false {a b : StatusRow} :
    Tables.conflict a b = false ↔ a.id ≠ b.id ∧ a.uri ≠ b.uri := by
  simp [conflict_statusRow]

/-- A record that is inserted comes last, and no other was in conflict with it. -/
theorem insert_ok {α : Type} [Persistent α] {a : α} (h : t.insert a = .ok u) :
    (∀ r ∈ (Persistent.rows t : List (Stored α)), Tables.conflict a r.value = false) ∧
      u = Persistent.setRows t (Persistent.rows t ++ [{ value := a }]) := by
  unfold Tables.insert at h
  cases hrequire : t.require (Tables.tableOf α) with
  | error e =>
    rw [hrequire] at h
    cases h
  | ok v =>
    rw [hrequire] at h
    simp only [bind, Except.bind] at h
    split at h
    · cases h
    · rename_i hnone
      cases h
      refine ⟨fun r hr => ?_, rfl⟩
      simp only [List.any_eq_true, not_exists, not_and, Bool.not_eq_true] at hnone
      exact hnone r hr

/-! ### One statement after the other -/

namespace Statement

def isBeside : Statement → Bool
  | insertStatus _ | updateStatus _ _ | deleteStatus _ => false
  | _ => true

theorem run_eq_ok {x : Statement} (h : x.run t = .ok u) :
    t.require x.query.table = .ok () ∧ x.apply t = .ok u := by
  unfold run at h
  cases hrequire : t.require x.query.table with
  | error e =>
    rw [hrequire] at h
    cases h
  | ok v =>
    rw [hrequire] at h
    exact ⟨rfl, h⟩

theorem runAll_append (t : Tables) (xs ys : List Statement) :
    runAll t (xs ++ ys) = match runAll t xs with
      | .ok u => runAll u ys
      | .error e => .error e := by
  induction xs generalizing t with
  | nil => rfl
  | cons x xs ih =>
    simp only [List.cons_append, runAll]
    cases x.run t with
    | ok u => exact ih u
    | error e => rfl

theorem apply_beside {x : Statement} (hbeside : x.isBeside = true) (h : x.apply t = .ok u) :
    u.statuses = t.statuses ∧ u.dropped = t.dropped := by
  cases x with
  | insertThread thread =>
    obtain ⟨-, rfl⟩ := insert_ok h
    exact ⟨rfl, rfl⟩
  | insertStatus row => cases hbeside
  | updateStatus source columns => cases hbeside
  | deleteStatus id => cases hbeside
  | _ =>
    cases h
    exact ⟨rfl, rfl⟩

theorem runAll_beside {xs : List Statement} (hbeside : ∀ x ∈ xs, x.isBeside = true)
    (h : runAll t xs = .ok u) : u.statuses = t.statuses ∧ u.dropped = t.dropped := by
  induction xs generalizing t with
  | nil =>
    cases h
    exact ⟨rfl, rfl⟩
  | cons x xs ih =>
    simp only [runAll] at h
    split at h
    · rename_i v hrun
      obtain ⟨hstatuses, hdropped⟩ :=
        apply_beside (hbeside x List.mem_cons_self) (run_eq_ok hrun).2
      obtain ⟨hstatuses', hdropped'⟩ := ih (fun y hy => hbeside y (List.mem_cons_of_mem x hy)) h
      exact ⟨hstatuses'.trans hstatuses, hdropped'.trans hdropped⟩
    · cases h

/-- A transaction whose statements but the last lie beside the statuses does to these what the last
one does. -/
theorem runAll_last {xs : List Statement} {x : Statement} (hbeside : ∀ y ∈ xs, y.isBeside = true)
    (h : runAll t (xs ++ [x]) = .ok u) :
    ∃ v : Tables, v.statuses = t.statuses ∧ v.dropped = t.dropped ∧
      v.require x.query.table = .ok () ∧ x.apply v = .ok u := by
  rw [runAll_append] at h
  split at h
  · rename_i v hfirst
    obtain ⟨hstatuses, hdropped⟩ := runAll_beside hbeside hfirst
    simp only [runAll] at h
    split at h
    · rename_i w hrun
      cases h
      exact ⟨v, hstatuses, hdropped, run_eq_ok hrun⟩
    · cases h
  · cases h

theorem isBeside_of_mem_joins {x : Statement} (h : x ∈ joins s) : x.isBeside = true := by
  simp only [joins, List.mem_append, List.mem_map, Option.mem_toList, Option.map_eq_some_iff] at h
  rcases h with ((⟨_, -, rfl⟩ | ⟨_, -, rfl⟩) | ⟨_, -, rfl⟩) | ⟨_, -, rfl⟩ <;> rfl

/-- Joining fails only where a table is not there. -/
theorem runAll_joins_succeeds {xs : List Statement} (hjoins : ∀ x ∈ xs, x ∈ joins s)
    (hthere : ∀ x ∈ xs, t.require x.query.table = .ok ()) : ∃ u, runAll t xs = .ok u := by
  induction xs generalizing t with
  | nil => exact ⟨t, rfl⟩
  | cons x xs ih =>
    have hbeside := isBeside_of_mem_joins (hjoins x List.mem_cons_self)
    obtain ⟨v, happly⟩ : ∃ v, x.apply t = .ok v := by
      have hx := hjoins x List.mem_cons_self
      simp only [joins, List.mem_append, List.mem_map, Option.mem_toList,
        Option.map_eq_some_iff] at hx
      rcases hx with ((⟨_, -, rfl⟩ | ⟨_, -, rfl⟩) | ⟨_, -, rfl⟩) | ⟨_, -, rfl⟩ <;> exact ⟨_, rfl⟩
    have hrun : x.run t = .ok v := by
      rw [run, hthere x List.mem_cons_self]
      exact happly
    have hdropped := (apply_beside hbeside happly).2
    obtain ⟨u, hall⟩ := ih (t := v) (fun y hy => hjoins y (List.mem_cons_of_mem x hy)) fun y hy => by
      have hy := hthere y (List.mem_cons_of_mem x hy)
      unfold Tables.require at hy ⊢
      rwa [hdropped]
    exact ⟨u, by simp only [runAll, hrun, hall]⟩

/-! ### The three transactions -/

/-- A status that is inserted comes last, and no row had its id or its uri. -/
theorem put_ok {newThread : Option Thread} (h : runAll t (put s newThread) = .ok u) :
    (∀ r ∈ t.statuses, Tables.conflict s.toRow r.value = false) ∧
      u.statuses = t.statuses ++ [{ value := s.toRow }] ∧ u.dropped = t.dropped := by
  have hbeside : ∀ x ∈ (newThread.map insertThread).toList ++ joins s, x.isBeside = true := by
    intro x hx
    rcases List.mem_append.1 hx with hthread | hjoin
    · simp only [Option.mem_toList, Option.map_eq_some_iff] at hthread
      obtain ⟨thread, -, rfl⟩ := hthread
      rfl
    · exact isBeside_of_mem_joins hjoin
  obtain ⟨v, hstatuses, hdropped, -, hinsert⟩ := runAll_last hbeside h
  obtain ⟨hnone, rfl⟩ := insert_ok hinsert
  have hrows : Persistent.rows (α := StatusRow) v = t.statuses := hstatuses
  rw [hrows] at hnone ⊢
  exact ⟨hnone, rfl, hdropped⟩

/-- The column groups that an update writes: the listed ones, and all if none is listed. -/
def written (columns : List StatusColumn) : List StatusColumn :=
  if columns.isEmpty then StatusColumn.all else columns

/-- An update changes the row with the id of the status, which must be there, and no other row has
its uri. -/
theorem update_ok {columns : List StatusColumn} (h : runAll t (update s columns) = .ok u) :
    ∃ row, t.require .statuses = .ok () ∧ t.statuses.find? (·.value.id = s.id) = some row ∧
      (∀ r ∈ t.statuses, r.value.id ≠ s.id →
        Tables.conflict (updateRow s.toRow (written columns) row).value r.value = false) ∧
      u.statuses = t.statuses.map (fun r =>
        if r.value.id = s.id then updateRow s.toRow (written columns) row else r) ∧
      u.dropped = t.dropped := by
  have h : runAll t (joins s ++ [updateStatus s.toRow (written columns)]) = .ok u := h
  obtain ⟨v, hstatuses, hdropped, hrequire, hupdate⟩ :=
    runAll_last (fun _ => isBeside_of_mem_joins) h
  have hthere : t.require .statuses = .ok () := by
    unfold Tables.require at hrequire ⊢
    rw [hdropped] at hrequire
    exact hrequire
  have hid : s.toRow.id = s.id := rfl
  simp only [apply, hstatuses, hid, List.partition_eq_filter_filter] at hupdate
  split at hupdate
  · cases hupdate
  · rename_i row rest hrows
    split at hupdate
    · cases hupdate
    · rename_i hnone
      cases hupdate
      have hfind : t.statuses.find? (·.value.id = s.id) = some row := by
        rw [← List.head?_filter, hrows]
        rfl
      refine ⟨row, hthere, hfind, fun r hr hother => ?_, rfl, hdropped⟩
      simp only [List.any_eq_true, not_exists, not_and, Bool.not_eq_true] at hnone
      exact hnone r (List.mem_filter.2 ⟨hr, by simpa using hother⟩)

/-- A deletion removes the rows with the id. -/
theorem delete_ok {id : String} (h : runAll t (delete id) = .ok u) :
    t.require .statuses = .ok () ∧ u.statuses = t.statuses.filter (·.value.id ≠ id) ∧
      u.dropped = t.dropped := by
  have h : runAll t ([leaveTags id, leaveEmojis id, leaveThreads id] ++ [deleteStatus id]) = .ok u := h
  obtain ⟨v, hstatuses, hdropped, hrequire, hdelete⟩ := runAll_last (by simp [isBeside]) h
  cases hdelete
  refine ⟨?_, by rw [hstatuses], hdropped⟩
  unfold Tables.require at hrequire ⊢
  rw [hdropped] at hrequire
  exact hrequire

/-- A deletion succeeds while its tables are there. -/
theorem delete_succeeds (hdropped : t.dropped = []) (id : String) :
    ∃ u, runAll t (delete id) = .ok u := by
  simp [delete, runAll, run, Tables.require, apply, hdropped, bind, Except.bind]

end Statement

/-! ### Committed and failed transactions -/

theorem foldl_observe_isClosed (db : Database) (statements : List Statement) :
    (statements.foldl (·.observe ·.query) db).isClosed = db.isClosed := by
  induction statements generalizing db with
  | nil => rfl
  | cons x xs ih => exact ih (db.observe x.query)

theorem isClosed_transact (db : Database) (statements : List Statement) :
    (db.transact statements).2.isClosed = db.isClosed := by
  unfold transact
  split
  · rfl
  · dsimp only
    split <;> exact foldl_observe_isClosed db _

/-- The counts of queries have no part in what a transaction does. -/
theorem transact_congr {db other : Database} (tables : other.tables = db.tables)
    (isClosed : other.isClosed = db.isClosed) (statements : List Statement) :
    (other.transact statements).1 = (db.transact statements).1 ∧
      (other.transact statements).2.tables = (db.transact statements).2.tables := by
  unfold transact requireOpen
  rw [isClosed]
  split
  · exact ⟨rfl, tables⟩
  · simp only [tables]
    split
    · simp [foldl_observe_tables, tables]
    · exact ⟨rfl, rfl⟩

theorem transact_ok {db : Database} {statements : List Statement}
    (h : (db.transact statements).1 = .ok ()) :
    db.isClosed = false ∧
      Statement.runAll db.tables statements = .ok (db.transact statements).2.tables := by
  unfold transact requireOpen at h ⊢
  split at h
  · cases h
  · rename_i hopen
    have hopen' : db.isClosed = false := by
      cases hclosed : db.isClosed with
      | false => rfl
      | true => simp [hclosed] at hopen
    refine ⟨hopen', ?_⟩
    dsimp only
    cases hrun : Statement.runAll db.tables statements with
    | error e => simp [hrun] at h
    | ok tables => rfl

theorem tables_of_transact_error {db : Database} {statements : List Statement} {e : Error}
    (h : (db.transact statements).1 = .error e) :
    (db.transact statements).2.tables = db.tables :=
  transact_error (Prod.ext h rfl)

end StatusStore.Database
