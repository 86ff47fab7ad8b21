/-
  StatusStore/Proofs/Database/PartialUpdates.lean
  ===============================================
  **Updates of a part of a row.**  The statement of an update is put together in a
  loop over the listed column groups, each of which adds its columns with the values
  that go into them, once however often it is listed.  What comes of it is told here
  column by column, from which groups are listed alone.

  Main statements: `updateRow_eq_setClause` (the statement as it is put together does
  what `updateRow` does) and `updateStatus_revises` (the listed groups and the
  time of update are written, into the row with the id of the status, and nothing
  else).
-/
import StatusStore.Proofs.Database.Joins

namespace StatusStore

/-! ### The statement as it is put together -/

namespace Database

inductive Bound
  | text (s : String)
  | text? (s : Option String)
  | flag (b : Bool)
  | time (t : Timestamp)
  | texts (l : List String)
deriving DecidableEq, Repr

/-- The columns of a group with the values that go into them. -/
def assignments (source : StatusRow) : StatusColumn → List (String × Bound)
  | .uri => [("uri", .text source.uri)]
  | .url => [("url", .text? source.url)]
  | .content => [("content", .text source.content)]
  | .contentWarning => [("content_warning", .text? source.contentWarning)]
  | .visibility => [("visibility", .text source.visibility)]
  | .language => [("language", .text? source.language)]
  | .sensitive => [("sensitive", .flag source.isSensitive)]
  | .inReplyTo => [
      ("in_reply_to_id", .text? source.inReplyToId),
      ("in_reply_to_uri", .text? source.inReplyToUri),
      ("in_reply_to_account_id", .text? source.inReplyToAccountId)]
  | .boostOf => [
      ("boost_of_id", .text? source.boostOfId),
      ("boost_of_account_id", .text? source.boostOfAccountId)]
  | .threadId => [("thread_id", .text? source.threadId)]
  | .pollId => [("poll_id", .text? source.pollId)]
  | .createdWithApplicationId =>
    [("created_with_application_id", .text? source.createdWithApplicationId)]
  | .attachmentIds => [("attachment_ids", .texts source.attachmentIds)]
  | .tagIds => [("tag_ids", .texts source.tagIds)]
  | .mentionIds => [("mention_ids", .texts source.mentionIds)]
  | .emojiIds => [("emoji_ids", .texts source.emojiIds)]

def assign (row : StatusRow) : String × Bound → StatusRow
  | ("updated_at", .time t) => { row with updatedAt := t }
  | ("uri", .text s) => { row with uri := s }
  | ("url", .text? s) => { row with url := s }
  | ("content", .text s) => { row with content := s }
  | ("content_warning", .text? s) => { row with contentWarning := s }
  | ("visibility", .text s) => { row with visibility := s }
  | ("language", .text? s) => { row with language := s }
  | ("sensitive", .flag b) => { row with isSensitive := b }
  | ("in_reply_to_id", .text? s) => { row with inReplyToId := s }
  | ("in_reply_to_uri", .text? s) => { row with inReplyToUri := s }
  | ("in_reply_to_account_id", .text? s) => { row with inReplyToAccountId := s }
  | ("boost_of_id", .text? s) => { row with boostOfId := s }
  | ("boost_of_account_id", .text? s) => { row with boostOfAccountId := s }
  | ("thread_id", .text? s) => { row with threadId := s }
  | ("poll_id", .text? s) => { row with pollId := s }
  | ("created_with_application_id", .text? s) => { row with createdWithApplicationId := s }
  | ("attachment_ids", .texts l) => { row with attachmentIds := l }
  | ("tag_ids", .texts l) => { row with tagIds := l }
  | ("mention_ids", .texts l) => { row with mentionIds := l }
  | ("emoji_ids", .texts l) => { row with emojiIds := l }
  | _ => row

/-- What an update sets: the time of update, and then the listed groups in their order, each where it
is listed first. -/
def setClause (source : StatusRow) (columns : List StatusColumn) : List (String × Bound) :=
  ("updated_at", .time source.updatedAt) :: columns.eraseDups.flatMap (assignments source)

theorem map_fst_assignments (source : StatusRow) (c : StatusColumn) :
    (assignments source c).map Prod.fst = columnNames c := by
  cases c <;> rfl

theorem foldl_assign_assignments (source row : StatusRow) (c : StatusColumn) :
    (assignments source c).foldl assign row = c.write source row := by
  cases c <;> rfl

theorem foldl_assign_flatMap (source row : StatusRow) (columns : List StatusColumn) :
    (columns.flatMap (assignments source)).foldl assign row =
      columns.foldl (fun row c => c.write source row) row := by
  induction columns generalizing row with
  | nil => rfl
  | cons c columns ih =>
    rw [List.flatMap_cons, List.foldl_append, foldl_assign_assignments, ih, List.foldl_cons]

/-! ### Lists of the same groups -/

variable {columns again : List StatusColumn}

/-- What is written depends on which groups are listed, not on their order or number. -/
theorem updateRow_congr (source : StatusRow) (row : Stored StatusRow)
    (hsame : ∀ c, c ∈ again ↔ c ∈ columns) :
    updateRow source again row = updateRow source columns row := by
  have hvalue : (updateRow source again row).value = (updateRow source columns row).value := by
    refine StatusColumn.eq_of_agrees
      ((sameOrigin_updateRow source again row).symm.trans (sameOrigin_updateRow source columns row))
      ((updatedAt_updateRow source again row).trans (updatedAt_updateRow source columns row).symm)
      fun c => ?_
    have hagain := agrees_updateRow source again row c
    simp only [hsame] at hagain
    exact hagain.symm.trans (agrees_updateRow source columns row c)
  have hgarbled : (updateRow source again row).garbled = (updateRow source columns row).garbled := by
    simp [updateRow, Stored.writeColumns, hsame]
  exact (Stored.mk.injEq ..).mpr ⟨hvalue, hgarbled⟩

/-- What the statement sets, one column after the other, is what `updateRow` writes at once. -/
theorem updateRow_eq_setClause (source : StatusRow) (columns : List StatusColumn)
    (row : Stored StatusRow) : updateRow source columns row =
      row.writeColumns ((setClause source columns).map Prod.fst)
        ((setClause source columns).foldl assign ·) := by
  have hnames : (setClause source columns).map Prod.fst =
      "updated_at" :: columns.eraseDups.flatMap columnNames := by
    simp [setClause, List.map_flatMap, map_fst_assignments]
  rw [← updateRow_congr source row fun c => List.mem_eraseDups, hnames]
  refine congrArg (row.writeColumns _) (funext fun row => ?_)
  rw [setClause, List.foldl_cons, foldl_assign_flatMap]
  rfl

end Database

/-! ### Rows column by column -/

theorem StatusColumn.mem_all (c : StatusColumn) : c ∈ StatusColumn.all := by
  cases c <;> decide

def StatusColumn.isWritten (columns : List StatusColumn) (c : StatusColumn) : Bool :=
  columns.isEmpty || columns.contains c

open StatusColumn in
/-- The row with its time of update and the listed groups taken from a status. -/
def StatusRow.revised (old : StatusRow) (s : Status) (columns : List StatusColumn) : StatusRow where
  id := old.id
  createdAt := old.createdAt
  updatedAt := s.updatedAt
  uri := if isWritten columns .uri then s.uri else old.uri
  url := if isWritten columns .url then s.url else old.url
  content := if isWritten columns .content then s.content else old.content
  contentWarning := if isWritten columns .contentWarning then s.contentWarning else old.contentWarning
  visibility := if isWritten columns .visibility then s.visibility else old.visibility
  language := if isWritten columns .language then s.language else old.language
  isSensitive := if isWritten columns .sensitive then s.isSensitive else old.isSensitive
  isLocal := old.isLocal
  accountId := old.accountId
  accountUri := old.accountUri
  inReplyToId := if isWritten columns .inReplyTo then s.inReplyToId else old.inReplyToId
  inReplyToUri := if isWritten columns .inReplyTo then s.inReplyToUri else old.inReplyToUri
  inReplyToAccountId :=
    if isWritten columns .inReplyTo then s.inReplyToAccountId else old.inReplyToAccountId
  boostOfId := if isWritten columns .boostOf then s.boostOfId else old.boostOfId
  boostOfAccountId :=
    if isWritten columns .boostOf then s.boostOfAccountId else old.boostOfAccountId
  threadId := if isWritten columns .threadId then s.threadId else old.threadId
  pollId := if isWritten columns .pollId then s.pollId else old.pollId
  createdWithApplicationId :=
    if isWritten columns .createdWithApplicationId then s.createdWithApplicationId
    else old.createdWithApplicationId
  attachmentIds := if isWritten columns .attachmentIds then s.attachments.toIds else old.attachmentIds
  tagIds := if isWritten columns .tagIds then s.tags.toIds else old.tagIds
  mentionIds := if isWritten columns .mentionIds then s.mentions.toIds else old.mentionIds
  emojiIds := if isWritten columns .emojiIds then s.emojis.toIds else old.emojiIds

namespace Database

variable {t u : Tables} {s : Status} {columns again : List StatusColumn}

theorem Statement.mem_written {c : StatusColumn} :
    c ∈ Statement.written columns ↔ c.isWritten columns = true := by
  cases columns with
  | nil => simp [Statement.written, StatusColumn.isWritten, StatusColumn.mem_all]
  | cons d columns => simp [Statement.written, StatusColumn.isWritten]

theorem updateRow_written (s : Status) (columns : List StatusColumn) (old : Stored StatusRow) :
    (updateRow s.toRow (Statement.written columns) old).value = old.value.revised s columns := by
  have horigin := sameOrigin_updateRow s.toRow (Statement.written columns) old
  refine StatusColumn.eq_of_agrees (horigin.symm.trans ⟨rfl, rfl, rfl, rfl, rfl⟩)
    (updatedAt_updateRow s.toRow _ old) fun c => ?_
  refine (agrees_updateRow s.toRow (Statement.written columns) old c).symm.trans ?_
  simp only [Statement.mem_written]
  cases c <;> cases hwritten : StatusColumn.isWritten columns _ <;>
    simp [StatusColumn.Agrees, StatusRow.revised, Status.toRow, hwritten]

/-! ### Transactions that differ in their last statement -/

variable {x y : Statement}

theorem Statement.runAll_last_congr (hrun : ∀ t, x.run t = y.run t) (t : Tables)
    (xs : List Statement) : runAll t (xs ++ [x]) = runAll t (xs ++ [y]) := by
  induction xs generalizing t with
  | nil => simp only [List.nil_append, runAll, hrun]
  | cons z xs ih =>
    simp only [List.cons_append, runAll]
    split
    · exact ih _
    · rfl

theorem foldl_observe_last_congr (hquery : x.query = y.query) (hrun : ∀ t, x.run t = y.run t)
    (db : Database) (t : Tables) (xs : List Statement) :
    (Statement.attempted t (xs ++ [x])).foldl (·.observe ·.query) db =
      (Statement.attempted t (xs ++ [y])).foldl (·.observe ·.query) db := by
  induction xs generalizing db t with
  | nil =>
    simp only [List.nil_append, Statement.attempted, hrun]
    split <;> simp only [List.foldl_cons, List.foldl_nil, hquery]
  | cons z xs ih =>
    simp only [List.cons_append, Statement.attempted]
    split
    · exact ih _ _
    · rfl

theorem transact_last_congr (hquery : x.query = y.query) (hrun : ∀ t, x.run t = y.run t)
    (db : Database) (xs : List Statement) : db.transact (xs ++ [x]) = db.transact (xs ++ [y]) := by
  simp only [transact, Statement.runAll_last_congr hrun, foldl_observe_last_congr hquery hrun]

/-- Only the last statement of an update knows which groups are listed, and it does the same for
lists of the same groups. -/
theorem updateStatus_congr (db : Database) (s : Status)
    (hsame : ∀ c, StatusColumn.isWritten again c = StatusColumn.isWritten columns c) :
    db.updateStatus s again = db.updateStatus s columns := by
  have hwritten : ∀ c, c ∈ Statement.written again ↔ c ∈ Statement.written columns := fun c => by
    rw [Statement.mem_written, Statement.mem_written, hsame]
  refine transact_last_congr (x := .updateStatus s.toRow (Statement.written again))
    (y := .updateStatus s.toRow (Statement.written columns)) rfl (fun t => ?_) db (Statement.joins s)
  simp only [Statement.run, Statement.query, Statement.apply, updateRow_congr s.toRow _ hwritten]

/-! ### Rows that are missing -/

/-- Without a row to write into, an update finds nothing, if all that it uses is there. -/
theorem Statement.update_missing (hnone : t.row? StatusRow s.id = none)
    (hthere : ∀ x ∈ update s columns, t.require x.query.table = .ok ()) :
    runAll t (update s columns) = .error .notFound := by
  have hupdate : update s columns = joins s ++ [updateStatus s.toRow (written columns)] := rfl
  rw [hupdate] at hthere ⊢
  -- The joins come first and succeed, so it is the last statement that finds no row.
  obtain ⟨u, hjoins⟩ := runAll_joins_succeeds (fun _ => id)
    fun x hx => hthere x (List.mem_append_left _ hx)
  obtain ⟨hstatuses, hdropped⟩ := runAll_beside (fun _ => isBeside_of_mem_joins) hjoins
  have hrequire : u.require .statuses = .ok () := by
    have hlast := hthere _ (List.mem_append_right _ (List.mem_singleton_self _))
    unfold Tables.require at hlast ⊢
    rwa [hdropped]
  have hrows : u.statuses.filter (·.value.id = s.toRow.id) = [] := by
    rw [hstatuses, List.filter_eq_nil_iff]
    exact List.find?_eq_none.1 hnone
  have hlast : (updateStatus s.toRow (written columns)).run u = .error .notFound := by
    simp only [run, query, hrequire, apply, List.partition_eq_filter_filter, hrows, bind,
      Except.bind]
  rw [runAll_append, hjoins]
  simp only [runAll, hlast]

/-! ### Updates -/

/-- An update that succeeds writes the time of update and the listed groups into the row with the id of
the status, and into no other; which groups are listed is all that matters of the list; and without
such a row nothing is found. -/
theorem updateStatus_revises (db : Database) (s : Status) (columns : List StatusColumn) :
    (∀ old, db.tables.row? StatusRow s.id = some old → (db.updateStatus s columns).1 = .ok () →
      let new := old.writeColumns ("updated_at" :: (Statement.written columns).flatMap columnNames)
        (·.revised s columns)
      (db.updateStatus s columns).2.tables.row? StatusRow s.id = some new ∧
        (db.updateStatus s columns).2.tables.statuses =
          db.tables.statuses.map fun r => if r.value.id = s.id then new else r) ∧
    (∀ again, (∀ c, StatusColumn.isWritten again c = StatusColumn.isWritten columns c) →
      db.updateStatus s again = db.updateStatus s columns) ∧
    (db.tables.row? StatusRow s.id = none →
      (db.updateStatus s columns).1 ≠ .ok () ∧
      (db.updateStatus s columns).2.tables = db.tables ∧
      (db.isClosed = false →
        (∀ x ∈ Statement.update s columns, db.tables.require x.query.table = .ok ()) →
        (db.updateStatus s columns).1 = .error .notFound)) := by
  refine ⟨fun old hold hok => ?_, fun again hsame => updateStatus_congr db s hsame, fun hnone => ?_⟩
  · obtain ⟨row, -, hfind, -, hstatuses, -⟩ := Statement.update_ok (transact_ok hok).2
    obtain rfl : row = old := Option.some.inj (hfind.symm.trans hold)
    have hnew : updateRow s.toRow (Statement.written columns) row =
        row.writeColumns ("updated_at" :: (Statement.written columns).flatMap columnNames)
          (·.revised s columns) :=
      (Stored.mk.injEq ..).mpr ⟨updateRow_written s columns row, rfl⟩
    rw [hnew] at hstatuses
    refine ⟨?_, hstatuses⟩
    have hrow : row.value.id = s.id := by simpa using List.find?_some hfind
    exact (congrArg (List.find? _) hstatuses).trans (find?_replaced hfind hrow)
  · have hfails : (db.updateStatus s columns).1 ≠ .ok () := by
      intro hok
      obtain ⟨row, -, hfind, -⟩ := Statement.update_ok (transact_ok hok).2
      cases hfind.symm.trans hnone
    refine ⟨hfails, ?_, fun hopen hthere => ?_⟩
    · cases hanswer : (db.updateStatus s columns).1 with
      | ok _ => exact absurd hanswer hfails
      | error e => exact tables_of_transact_error hanswer
    · simp only [updateStatus, transact, requireOpen, hopen, Statement.update_missing hnone hthere]
      rfl

def twoRows : Database :=
  { tables := { statuses := [
      { value := (joining "A" [] []).toRow, garbled := [("tag_ids", "no list"), ("url", "no text")] },
      { value := (joining "B" [] []).toRow }] } }

def replying (id : String) : Status :=
  { (joining id ["G"] ["E"]) with
    threadId := none, content := "again", inReplyToId := some "P", inReplyToUri := some "p" }

theorem updateStatus_revises_reply :
    (twoRows.updateStatus (replying "A") [.inReplyTo, .tagIds, .inReplyTo]).2.tables.statuses = [
        { value := { (joining "A" ["G"] []).toRow with
            inReplyToId := some "P", inReplyToUri := some "p" }
          garbled := [("url", "no text")] },
        { value := (joining "B" [] []).toRow }] ∧
      twoRows.updateStatus (replying "A") [.tagIds, .inReplyTo] =
        twoRows.updateStatus (replying "A") [.inReplyTo, .tagIds, .inReplyTo] ∧
      (twoRows.updateStatus (replying "C") [.tagIds]).1 = .error .notFound := by
  obtain ⟨hrevises, hcongr, -⟩ :=
    updateStatus_revises twoRows (replying "A") [.inReplyTo, .tagIds, .inReplyTo]
  obtain ⟨-, -, hmissing⟩ := updateStatus_revises twoRows (replying "C") [.tagIds]
  refine ⟨?_, hcongr _ (by rintro ⟨⟩ <;> rfl), ?_⟩
  · exact (hrevises _ rfl rfl).2.trans (by decide +kernel)
  · exact (hmissing rfl).2.2 rfl fun _ _ => rfl

end Database

end StatusStore
