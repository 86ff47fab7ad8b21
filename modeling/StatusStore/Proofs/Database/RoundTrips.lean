/-
  StatusStore/Proofs/Database/RoundTrips.lean
  ===========================================
  **A status is inserted, read back and deleted.**  What is read is the status
  without anything fetched, and the deletion takes away all that the insertion
  added to the rows and to the joins: no join had the id before, because every join
  has its row.

  Main statements: `putStatus_eq_ok_iff` (when an insertion succeeds) and
  `put_roundTrip` (what is read after it, and that a deletion undoes it, after any
  calls whatever, of which some may have failed).
-/
import StatusStore.Proofs.Database.Joins

namespace StatusStore.Database

variable {t u : Tables} {s : Status} {newThread : Option Thread} {db : Database}

/-! ### When an insertion succeeds -/

theorem insert_of_free {α : Type} [Persistent α] {a : α}
    (hthere : t.require (Tables.tableOf α) = .ok ())
    (hfree : ∀ r ∈ (Persistent.rows t : List (Stored α)), Tables.conflict a r.value = false) :
    t.insert a = .ok (Persistent.setRows t (Persistent.rows t ++ [{ value := a }])) := by
  have hnone : ((Persistent.rows t : List (Stored α)).any fun r => Tables.conflict a r.value) =
      false := by
    simpa using hfree
  simp only [Tables.insert, hthere, bind, Except.bind, hnone]
  rfl

theorem conflict_thread {a b : Thread} : Tables.conflict a b = false ↔ b.id ≠ a.id := by
  simp [Tables.conflict, Identified.id, Persistent.unique, eq_comm]

theorem conflict_toRow {r : StatusRow} :
    Tables.conflict s.toRow r = false ↔ r.id ≠ s.id ∧ r.uri ≠ s.uri :=
  conflict_eq_false.trans (and_congr ne_comm ne_comm)

theorem Statement.put_succeeds_iff (hdropped : t.dropped = []) :
    (∃ u, runAll t (put s newThread) = .ok u) ↔
      (∀ r ∈ t.statuses, r.value.id ≠ s.id ∧ r.value.uri ≠ s.uri) ∧
        ∀ thread ∈ newThread, ∀ r ∈ t.threads, r.value.id ≠ thread.id := by
  have hthere : ∀ v : Tables, v.dropped = [] → ∀ name, v.require name = .ok () := by
    intro v hv name
    simp [Tables.require, hv]
  constructor
  · rintro ⟨u, hput⟩
    refine ⟨fun r hr => conflict_toRow.1 ((put_ok hput).1 r hr), ?_⟩
    rintro thread ⟨⟩ r hr
    obtain ⟨v, hthread, -⟩ := runAll_cons_ok hput
    exact conflict_thread.1 ((insert_ok hthread).1 r hr)
  · rintro ⟨hstatuses, hthreads⟩
    -- The tables after the thread, whether there is one or not.
    obtain ⟨v, hfirst, hkept, hv⟩ : ∃ v, runAll t (newThread.map insertThread).toList = .ok v ∧
        v.statuses = t.statuses ∧ v.dropped = [] := by
      cases newThread with
      | none => exact ⟨t, rfl, rfl, hdropped⟩
      | some thread =>
        have hinsert := insert_of_free (hthere t hdropped (Tables.tableOf Thread)) fun r hr =>
          conflict_thread.2 (hthreads thread rfl r hr)
        refine ⟨Persistent.setRows t (Persistent.rows t ++ [{ value := thread }]), ?_, rfl, hdropped⟩
        simp only [Option.map_some, Option.toList_some, runAll, run, query,
          hthere t hdropped .threads, apply, hinsert]
        rfl
    obtain ⟨w, hjoins⟩ := runAll_joins_succeeds (s := s) (fun _ => id) fun x _ => hthere v hv _
    obtain ⟨hrows, hw⟩ := runAll_beside (fun _ => isBeside_of_mem_joins) hjoins
    have hinsert : w.insert s.toRow = .ok _ := insert_of_free (hthere w (hw.trans hv) _) fun r hr =>
      conflict_toRow.2 (hstatuses r (hkept ▸ hrows ▸ hr))
    refine ⟨Persistent.setRows w (Persistent.rows w ++ [{ value := s.toRow }]), ?_⟩
    rw [put, runAll_append, runAll_append, hfirst]
    simp only [hjoins, runAll, run, query, hthere w (hw.trans hv) .statuses, apply, hinsert]
    rfl

theorem Healthy.transact_ok_iff (h : db.Healthy) {statements : List Statement} :
    (db.transact statements).1 = .ok () ↔ ∃ u, Statement.runAll db.tables statements = .ok u := by
  refine ⟨fun hok => ⟨_, (transact_ok hok).2⟩, fun ⟨u, hrun⟩ => ?_⟩
  simp [transact, requireOpen, h.isOpen, hrun]

/-- An insertion succeeds unless the id or the uri of the status or the id of its thread is taken. -/
theorem putStatus_eq_ok_iff (h : db.Healthy) : (db.putStatus s newThread).1 = .ok () ↔
    (∀ r ∈ db.tables.statuses, r.value.id ≠ s.id ∧ r.value.uri ≠ s.uri) ∧
      ∀ thread ∈ newThread, ∀ r ∈ db.tables.threads, r.value.id ≠ thread.id :=
  h.transact_ok_iff.trans (Statement.put_succeeds_iff h.dropped)

/-! ### What is read after an insertion -/

theorem Tables.status_of_inserted {l : Lookup}
    (hrows : u.statuses = t.statuses ++ [{ value := s.toRow }])
    (hl : l.isBoost = false) (hdescribes : l.describes s.toRow = true)
    (hothers : ∀ r ∈ t.statuses, l.describes r.value = false) : u.status l = .ok s.barebones := by
  have hrow : u.statusRow? l = some { value := s.toRow } := by
    have hfind : u.statuses.find? (l.describes ·.value) = some { value := s.toRow } := by
      rw [hrows, List.find?_append, List.find?_eq_none.2 (by simpa using hothers)]
      simp [hdescribes]
    cases l with
    | boost target account => cases hl
    | _ => exact hfind
  have hread : ({ value := s.toRow } : Stored StatusRow).value? = .ok s.toRow :=
    Stored.read_of_garbled_nil _ _ rfl
  simp only [status, hrow, hread]
  rfl

/-! ### What a deletion leaves -/

def Tables.without (t : Tables) (id : String) : Tables :=
  { t with
    statusTags := t.statusTags.filter (·.1 ≠ id)
    statusEmojis := t.statusEmojis.filter (·.1 ≠ id)
    threadStatuses := t.threadStatuses.filter (·.2 ≠ id)
    statuses := t.statuses.filter (·.value.id ≠ id) }

theorem Tables.without_without (t : Tables) (id : String) :
    (t.without id).without id = t.without id := by
  simp [without, List.filter_filter]

theorem Statement.runAll_delete (hdropped : t.dropped = []) (id : String) :
    runAll t (delete id) = .ok (t.without id) := by
  simp [delete, runAll, run, Tables.require, apply, Tables.without, hdropped, bind, Except.bind]

theorem Healthy.tables_delete (h : db.Healthy) (id : String) :
    (db.deleteStatus id).2.tables = db.tables.without id := by
  obtain ⟨-, hrun⟩ := transact_ok (h.delete id).1
  exact Except.ok.inj (hrun.symm.trans (Statement.runAll_delete h.dropped id))

/-- The pairs that a status is joined with are the ones that its deletion takes, if it had none
before. -/
theorem filter_foldl_join {joins : List (String × String)} {id : String} {names : List String}
    (hnone : ∀ p ∈ joins, p.1 ≠ id) :
    ((names.map (id, ·)).foldl join joins).filter (·.1 ≠ id) = joins := by
  have hkept : joins.filter (·.1 ≠ id) = joins := by
    simpa [List.filter_eq_self] using hnone
  suffices h : ∀ start : List (String × String),
      ((names.map (id, ·)).foldl join start).filter (·.1 ≠ id) = start.filter (·.1 ≠ id) from
    (h joins).trans hkept
  induction names with
  | nil => exact fun _ => rfl
  | cons name names ih =>
    intro start
    rw [List.map_cons, List.foldl_cons, ih]
    unfold join
    split <;> simp

/-- A deletion takes the joins that an insertion made, and nothing else, since no join is without its
row. -/
theorem Tables.Joined.joins_restored {v : Tables} (h : t.Joined)
    (hput : Statement.runAll t (Statement.put s newThread) = .ok u)
    (hdelete : Statement.runAll u (Statement.delete s.id) = .ok v) (kind : JoinKind) :
    v.joins kind = t.joins kind := by
  rw [Statement.joins_delete hdelete, Statement.joins_written (.put newThread) hput]
  refine filter_foldl_join fun p hp hid => ?_
  obtain ⟨r, hr, hrow⟩ := h.known kind p hp
  exact (conflict_toRow.1 ((Statement.put_ok hput).1 r hr)).1 (hrow.trans hid)

/-! ### The databases that calls lead to -/

/-- Whether a database has no statuses yet, whatever other records it has: connections and tables are
there, and nothing is joined. -/
structure Unposted (db : Database) : Prop where
  isOpen : db.isClosed = false
  dropped : db.tables.dropped = []
  statuses : db.tables.statuses = []
  joins : ∀ kind, db.tables.joins kind = []

theorem Unposted.healthy (h : db.Unposted) : db.Healthy where
  isOpen := h.isOpen
  dropped := h.dropped
  readable := by simp [h.statuses]
  apart := by simp [h.statuses]

theorem Unposted.joined (h : db.Unposted) : db.tables.Joined where
  known kind p hp := by simp [h.joins] at hp
  nodup kind := by simp [h.joins]
  named kind r hr := by simp [h.statuses] at hr

theorem isClosed_transactUnder (faults : Faults) (db : Database) (statements : List Statement) :
    (db.transactUnder faults statements).2.isClosed = db.isClosed := by
  cases hanswer : (db.transactUnder faults statements).1 with
  | error e =>
    obtain ⟨queries, hsame⟩ :=
      transactUnder_error (u := (db.transactUnder faults statements).2) (Prod.ext hanswer rfl)
    rw [hsame]
  | ok _ =>
    have hrun := Transaction.goneOn_executeAll faults ⟨db, db.tables⟩ 0 statements
    unfold transactUnder at hanswer ⊢
    split at hanswer
    · cases hanswer
    · cases hanswer
    generalize Transaction.executeAll faults ⟨db, db.tables⟩ 0 statements = run at hanswer hrun ⊢
    obtain ⟨e | _, x⟩ := run
    · cases hanswer
    · cases hcommit : faults.commit with
      | some e =>
        simp only [Transaction.commit, hcommit] at hanswer
        cases hanswer
      | none => exact hrun.isClosed

theorem Healthy.attempt (h : db.Healthy) (a : Attempt) : (db.attempt a).2.Healthy := by
  have hclosed : (db.attempt a).2.isClosed = db.isClosed := isClosed_transactUnder _ _ _
  cases hanswer : (db.attempt a).1 with
  | error e =>
    obtain ⟨queries, hsame⟩ := transactUnder_error (u := (db.attempt a).2) (Prod.ext hanswer rfl)
    exact h.of_eq (by rw [hsame]) hclosed
  | ok _ =>
    have hrun := transactUnder_ok a.honest hanswer
    have hintact := h.intact.runAll hrun
    exact ⟨hclosed.trans h.isOpen, (Statement.dropped_runAll hrun).trans h.dropped,
      hintact.readable, hintact.apart⟩

theorem Healthy.attemptAll (h : db.Healthy) (attempts : List Attempt) :
    (db.attemptAll attempts).Healthy := by
  induction attempts generalizing db with
  | nil => exact h
  | cons a attempts ih => exact ih (h.attempt a)

/-! ### The round trip -/

/-- After any calls, an insertion succeeds unless something is taken, and then the status is read back
without anything fetched, by its id and by its uri, and stands behind the other rows.  A deletion
brings back the rows and the joins as they were before, and another one changes nothing. -/
theorem put_roundTrip {start : Database} (hstart : start.Unposted) (attempts : List Attempt)
    (s : Status) (newThread : Option Thread) :
    let before := start.attemptAll attempts
    let put := before.putStatus s newThread
    let deleted := put.2.deleteStatus s.id
    let again := deleted.2.deleteStatus s.id
    (put.1 = .ok () ↔
      (∀ r ∈ before.tables.statuses, r.value.id ≠ s.id ∧ r.value.uri ≠ s.uri) ∧
        ∀ thread ∈ newThread, ∀ r ∈ before.tables.threads, r.value.id ≠ thread.id) ∧
    (put.1 = .ok () →
      ((put.2.status (.id s.id)).1 = .ok s.barebones ∧
        (put.2.status (.uri s.uri)).1 = .ok s.barebones ∧
        put.2.tables.statuses = before.tables.statuses ++ [{ value := s.toRow }]) ∧
      (deleted.1 = .ok () ∧ deleted.2.tables.statuses = before.tables.statuses ∧
        deleted.2.tables.statusTags = before.tables.statusTags ∧
        deleted.2.tables.statusEmojis = before.tables.statusEmojis ∧
        deleted.2.tables.threadStatuses = before.tables.threadStatuses) ∧
      (again.1 = .ok () ∧ again.2.tables = deleted.2.tables)) := by
  intro before put deleted again
  have hbefore : before.Healthy := hstart.healthy.attemptAll attempts
  have hjoined : before.tables.Joined := (attemptAll_joined attempts hstart.joined).2
  refine ⟨putStatus_eq_ok_iff hbefore, fun hput => ?_⟩
  obtain ⟨hhealthy, hrows⟩ := hbefore.put hput
  obtain ⟨-, hputRun⟩ := transact_ok hput
  obtain ⟨hdeleted, hhealthy', hrows'⟩ := hhealthy.delete s.id
  obtain ⟨-, hdeleteRun⟩ := transact_ok hdeleted
  have hfree := ((putStatus_eq_ok_iff hbefore).1 hput).1
  refine ⟨⟨?_, ?_, hrows⟩, ⟨hdeleted, ?_, ?_⟩, ?_⟩
  · rw [status, select_of_ready hhealthy.isOpen (hhealthy.require _)]
    exact Tables.status_of_inserted hrows rfl (Lookup.describes_id.2 rfl)
      fun r hr => by simpa [Lookup.describes] using (hfree r hr).1
  · rw [status, select_of_ready hhealthy.isOpen (hhealthy.require _)]
    exact Tables.status_of_inserted hrows rfl (Lookup.describes_uri.2 rfl)
      fun r hr => by simpa [Lookup.describes] using (hfree r hr).2
  · have hkept : before.tables.statuses.filter (·.value.id ≠ s.id) = before.tables.statuses := by
      simpa [List.filter_eq_self] using fun r hr => (hfree r hr).1
    rw [hrows', hrows, List.filter_append, hkept]
    simp [Status.toRow]
  · -- Nothing was joined with the id before, so what the deletion takes is what was inserted.
    have hrestored := hjoined.joins_restored hputRun hdeleteRun
    refine ⟨hrestored .tags, hrestored .emojis, ?_⟩
    exact List.map_injective_iff.2 Prod.swap_injective (hrestored .thread)
  · have hgone : deleted.2.tables = put.2.tables.without s.id := hhealthy.tables_delete s.id
    have hsame : again.2.tables = deleted.2.tables.without s.id := hhealthy'.tables_delete s.id
    exact ⟨(hhealthy'.delete s.id).1, by rw [hsame, hgone, Tables.without_without]⟩

theorem unposted_empty : ({} : Database).Unposted where
  isOpen := rfl
  dropped := rfl
  statuses := rfl
  joins kind := by cases kind <;> rfl

def threadStarter : Status :=
  { joining "C" [] ["E"] with
    threadId := some "T", attachments := .known [],
    tags := .hydrated [{ id := "G", name := "g", createdAt := default }] }

theorem put_roundTrip_threadStarter :
    let before := ({} : Database).attemptAll joinAttempts
    let put := before.putStatus threadStarter (some { id := "T", createdAt := default })
    put.1 = .ok () ∧ (put.2.status (.uri "C")).1 = .ok { joining "C" ["G"] ["E"] with
        threadId := some "T", attachments := .unset } ∧
      put.2.tables.statusTags = [("A", "G"), ("A", "H"), ("C", "G")] ∧
      (put.2.deleteStatus "C").2.tables.statusTags = [("A", "G"), ("A", "H")] := by
  intro before put
  obtain ⟨hsucceeds, hroundTrip⟩ := put_roundTrip unposted_empty joinAttempts threadStarter
    (some { id := "T", createdAt := default })
  have hput : put.1 = .ok () := hsucceeds.2 ⟨by decide +kernel, by rintro _ ⟨⟩ r hr; cases hr⟩
  obtain ⟨⟨-, huri, -⟩, ⟨-, -, htags, -⟩, -⟩ := hroundTrip hput
  exact ⟨hput, huri, by decide +kernel, htags.trans (by decide +kernel)⟩

end StatusStore.Database
