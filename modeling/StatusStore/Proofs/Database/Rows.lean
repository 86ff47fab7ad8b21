/-
  StatusStore/Proofs/Database/Rows.lean
  =====================================
  **Which row a lookup finds.**  Tables are intact when every status row reads and no
  two rows have one id or one uri; a database is healthy when moreover its connections
  and tables are there.  Every transaction keeps that up.  In tables where urls and
  polls are not shared either, a lookup finds the row that it describes, and of several
  boosts the one with the greatest id.

  Main statements: `statusRow?_eq_some`, which says this of all lookups alike,
  `Tables.Intact.put`, `Tables.Intact.update` and `Tables.Intact.delete`, and the same
  for healthy databases.
-/
import Mathlib.Data.List.Pairwise
import StatusStore.Database.Read
import StatusStore.Proofs.Cache.Aliases
import StatusStore.Proofs.Database.Columns
import StatusStore.Proofs.Database.Transactions

namespace StatusStore.Database

/-! ### Answers of an open database -/

theorem select_of_ready {α : Type} {db : Database} {table : TableName} (hopen : db.isClosed = false)
    (hthere : db.tables.require table = .ok ()) (read : Tables → Except Error α) :
    (db.select table read).1 = read db.tables := by
  have hready : db.requireOpen = .ok () := by simp [requireOpen, hopen]
  simp only [select, hready, hthere]
  rfl

theorem find?_replaced {rows : List (Stored StatusRow)} {row new : Stored StatusRow} {id : String}
    (hfind : rows.find? (·.value.id = id) = some row) (hid : new.value.id = id) :
    (rows.map fun r => if r.value.id = id then new else r).find? (·.value.id = id) = some new := by
  induction rows with
  | nil => cases hfind
  | cons r rows ih =>
    by_cases hr : r.value.id = id
    · simp [hr, hid]
    · rw [List.find?_cons_of_neg (by simpa using hr)] at hfind
      rw [List.map_cons, if_neg hr, List.find?_cons_of_neg (by simpa using hr)]
      exact ih hfind

/-! ### The row that is meant -/

theorem Tables.mem_of_statusRow? {t : Tables} {l : Lookup} {r : Stored StatusRow}
    (h : t.statusRow? l = some r) : r ∈ t.statuses := by
  cases l with
  | boost target account =>
    exact (List.mem_filter.1 (List.mem_mergeSort.1 (List.mem_of_mem_head? h))).1
  | _ => exact List.mem_of_find?_eq_some h

theorem Tables.describes_of_statusRow? {t : Tables} {l : Lookup} {r : Stored StatusRow}
    (h : t.statusRow? l = some r) : l.describes r.value = true := by
  cases l with
  | boost target account =>
    exact (List.mem_filter.1 (List.mem_mergeSort.1 (List.mem_of_mem_head? h))).2
  | _ => exact List.find?_some (p := fun r : Stored StatusRow => Lookup.describes _ r.value) h

/-- A row is found if there is one that the lookup describes. -/
theorem Tables.statusRow?_eq_none {t : Tables} {l : Lookup} :
    t.statusRow? l = none ↔ ∀ r ∈ t.statuses, l.describes r.value = false := by
  cases l with
  | boost target account =>
    simp only [statusRow?, List.head?_eq_none_iff, List.eq_nil_iff_forall_not_mem,
      List.mem_mergeSort, List.mem_filter, not_and, Bool.not_eq_true]
  | _ => exact List.find?_eq_none.trans (by simp only [Bool.not_eq_true])

/-- A status that is answered is what its row reads as. -/
theorem Tables.row_of_status {t : Tables} {l : Lookup} {w : Status} (h : t.status l = .ok w) :
    ∃ r, t.statusRow? l = some r ∧ r.value? = .ok r.value ∧ Status.ofRow r.value = w := by
  unfold status at h
  cases hrow : t.statusRow? l with
  | none =>
    rw [hrow] at h
    cases h
  | some r =>
    rw [hrow] at h
    dsimp only at h
    cases hread : r.value? with
    | error e =>
      rw [hread] at h
      cases h
    | ok row =>
      rw [hread] at h
      obtain ⟨-, rfl⟩ := Stored.read_eq_ok.1 hread
      exact ⟨r, rfl, hread, Except.ok.inj h⟩

theorem Tables.id_of_status {t : Tables} {id : String} {w : Status}
    (h : t.status (.id id) = .ok w) : w.id = id := by
  obtain ⟨r, hrow, -, rfl⟩ := Tables.row_of_status h
  exact Lookup.describes_id.1 (Tables.describes_of_statusRow? hrow)

/-- What is not answered has no row, or a row that does not read. -/
theorem Tables.status_eq_error {t : Tables} {l : Lookup} {e : Error} (h : t.status l = .error e) :
    (t.statusRow? l = none ∧ e = .notFound) ∨
      ∃ r fault, t.statusRow? l = some r ∧ r.value? = .error (.database fault) ∧
        e = .database fault := by
  unfold status at h
  cases hrow : t.statusRow? l with
  | none =>
    rw [hrow] at h
    cases h
    exact Or.inl ⟨rfl, rfl⟩
  | some r =>
    rw [hrow] at h
    dsimp only at h
    cases hread : r.value? with
    | ok row =>
      rw [hread] at h
      cases h
    | error e' =>
      rw [hread] at h
      cases h
      obtain ⟨fault, rfl⟩ := Stored.read_eq_error hread
      exact Or.inr ⟨r, fault, rfl, hread, rfl⟩

theorem Tables.status_ne_internal {α : Type} {t : Tables} {l : Lookup} {e : Error}
    {fault : InternalFault} (h : t.status l = .error e) :
    (Except.error e : Except Error α) ≠ .error (.internal fault) := by
  rcases status_eq_error h with ⟨-, rfl⟩ | ⟨-, -, -, -, rfl⟩ <;> exact nofun

/-- What the tables answer is never a status that is not in full. -/
theorem Tables.acceptIncomplete_status (t : Tables) (l : Lookup) :
    acceptIncomplete (t.status l) = t.status l := by
  unfold status
  cases t.statusRow? l with
  | none => rfl
  | some r =>
    dsimp only [Stored.value?, Stored.read]
    split <;> rfl

theorem acceptIncomplete_status (db : Database) (l : Lookup) :
    acceptIncomplete (db.status l).1 = (db.status l).1 := by
  have htables := db.tables.acceptIncomplete_status l
  dsimp only [status, select]
  unfold requireOpen Tables.require
  split
  · rfl
  · split
    · rfl
    · exact htables

/-- Whether a lookup can tell the rows apart that it describes: it is for a boost and they have
different ids, or it describes one row at most. -/
def Tables.Tells (t : Tables) (l : Lookup) : Prop :=
  ∀ q ∈ t.statuses, ∀ r ∈ t.statuses, l.describes q.value = true → l.describes r.value = true →
    (l.isBoost = true → q.value.id = r.value.id) → q = r

def newerFirst (a b : Stored StatusRow) : Bool := b.value.id ≤ a.value.id

theorem newerFirst_sorted (rows : List (Stored StatusRow)) :
    (rows.mergeSort newerFirst).Pairwise fun a b => b.value.id ≤ a.value.id := by
  have hsorted := @List.pairwise_mergeSort _ newerFirst
    (fun a b c hab hbc => by
      simp only [newerFirst, decide_eq_true_eq] at hab hbc ⊢
      exact String.le_trans hbc hab)
    (fun a b => by simpa [newerFirst] using String.le_total b.value.id a.value.id) rows
  exact hsorted.imp fun hle => by simpa [newerFirst] using hle

theorem head?_newerFirst {rows : List (Stored StatusRow)} {r : Stored StatusRow}
    (hids : ∀ q ∈ rows, ∀ r ∈ rows, q.value.id = r.value.id → q = r) :
    (rows.mergeSort newerFirst).head? = some r ↔
      r ∈ rows ∧ ∀ q ∈ rows, q.value.id ≤ r.value.id := by
  have hmem : ∀ q, q ∈ rows.mergeSort newerFirst ↔ q ∈ rows := fun q => List.mem_mergeSort
  have hsorted := newerFirst_sorted rows
  generalize rows.mergeSort newerFirst = sorted at hmem hsorted
  cases sorted with
  | nil =>
    constructor
    · intro hnone
      cases hnone
    · rintro ⟨hr, -⟩
      cases (hmem r).2 hr
  | cons first rest =>
    have hgreatest : ∀ q ∈ rows, q.value.id ≤ first.value.id := by
      intro q hq
      rcases List.mem_cons.1 ((hmem q).2 hq) with rfl | hrest
      · exact String.le_refl _
      · exact (List.pairwise_cons.1 hsorted).1 q hrest
    have hfirst : first ∈ rows := (hmem first).1 List.mem_cons_self
    constructor
    · intro hhead
      cases hhead
      exact ⟨hfirst, hgreatest⟩
    · rintro ⟨hr, hmax⟩
      rw [hids first hfirst r hr (String.le_antisymm (hmax first hfirst) (hgreatest r hr))]
      rfl

/-- The row that a lookup finds is the one that it describes, and of several boosts the one with the
greatest id. -/
theorem statusRow?_eq_some {t : Tables} {l : Lookup} {r : Stored StatusRow} (h : t.Tells l) :
    t.statusRow? l = some r ↔ r ∈ t.statuses ∧ l.describes r.value = true ∧
      (l.isBoost = true → ∀ q ∈ t.statuses, l.describes q.value = true → q.value.id ≤ r.value.id) := by
  cases l with
  | boost target account =>
    have hids : ∀ q ∈ t.statuses.filter ((Lookup.boost target account).describes ·.value),
        ∀ r ∈ t.statuses.filter ((Lookup.boost target account).describes ·.value),
          q.value.id = r.value.id → q = r := by
      intro q hq r hr hid
      rw [List.mem_filter] at hq hr
      exact h q hq.1 r hr.1 hq.2 hr.2 fun _ => hid
    have hhead := head?_newerFirst (r := r) hids
    simp only [List.mem_filter] at hhead
    apply hhead.trans
    rw [and_assoc]
    refine and_congr_right fun _ => and_congr_right fun _ => ?_
    simp only [Lookup.isBoost, forall_const]
    exact ⟨fun hmax q hq hdescribes => hmax q ⟨hq, hdescribes⟩, fun hmax q hq => hmax q hq.1 hq.2⟩
  | _ =>
    refine (Stored.find?_eq_some_of_alone fun q hq r hr hqd hrd => ?_).trans
      (and_congr_right fun _ => ?_)
    · exact h q hq r hr hqd hrd (by simp [Lookup.isBoost])
    · simp [Lookup.isBoost]

/-! ### Intact tables -/

/-- No two rows share a url or a poll. -/
structure Tables.Distinct (t : Tables) : Prop where
  urls : ∀ q ∈ t.statuses, ∀ r ∈ t.statuses, ∀ url,
    q.value.url = some url → r.value.url = some url → q = r
  polls : ∀ q ∈ t.statuses, ∀ r ∈ t.statuses, ∀ pollId,
    q.value.pollId = some pollId → r.value.pollId = some pollId → q = r

def Tables.Apart (t : Tables) : Prop :=
  t.statuses.Pairwise fun a b => Tables.conflict a.value b.value = false

theorem Tables.Apart.eq_of_conflict {t : Tables} (h : t.Apart) {q r : Stored StatusRow}
    (hq : q ∈ t.statuses) (hr : r ∈ t.statuses)
    (hconflict : Tables.conflict q.value r.value = true) : q = r := by
  have hsymm : Std.Symm fun a b : Stored StatusRow => Tables.conflict a.value b.value = false := by
    constructor
    intro a b hab
    rw [conflict_eq_false] at hab ⊢
    exact ⟨Ne.symm hab.1, Ne.symm hab.2⟩
  rcases Classical.em (q = r) with hsame | hne
  · exact hsame
  · rw [List.Pairwise.forall h hq hr hne] at hconflict
    cases hconflict

theorem Tables.Apart.eq_of_id {t : Tables} (h : t.Apart) {q r : Stored StatusRow}
    (hq : q ∈ t.statuses) (hr : r ∈ t.statuses) (hid : q.value.id = r.value.id) : q = r :=
  h.eq_of_conflict hq hr (by simp [conflict_statusRow, hid])

theorem Tables.Apart.tells_id {t : Tables} (h : t.Apart) (id : String) : t.Tells (.id id) := by
  intro q hq r hr hqd hrd _
  rw [Lookup.describes_id] at hqd hrd
  exact h.eq_of_id hq hr (hqd.trans hrd.symm)

theorem Tables.Apart.statusRow?_id {t : Tables} (h : t.Apart) {r : Stored StatusRow}
    (hr : r ∈ t.statuses) : t.statusRow? (.id r.value.id) = some r := by
  refine (statusRow?_eq_some (h.tells_id _)).2 ⟨hr, Lookup.describes_id.2 rfl, fun hboost => ?_⟩
  cases hboost

/-- A row that reads is the answer to its id. -/
theorem Tables.Apart.status_id {t : Tables} (h : t.Apart) {r : Stored StatusRow}
    (hr : r ∈ t.statuses) (hread : r.value? = .ok r.value) :
    t.status (.id r.value.id) = .ok (.ofRow r.value) := by
  simp only [Tables.status, h.statusRow?_id hr, hread]
  rfl

/-- Every status row reads, and no two rows have one id or one uri. -/
structure Tables.Intact (t : Tables) : Prop where
  readable : ∀ r ∈ t.statuses, r.garbled = []
  apart : t.statuses.Pairwise fun a b => Tables.conflict a.value b.value = false

namespace Tables.Intact

variable {t u : Tables} {s : Status}

theorem of_eq (h : t.Intact) (statuses : u.statuses = t.statuses) : u.Intact where
  readable := statuses ▸ h.readable
  apart := statuses ▸ h.apart

theorem eq_of_conflict (h : t.Intact) {q r : Stored StatusRow} (hq : q ∈ t.statuses)
    (hr : r ∈ t.statuses) (hconflict : Tables.conflict q.value r.value = true) : q = r :=
  Tables.Apart.eq_of_conflict h.apart hq hr hconflict

theorem eq_of_id (h : t.Intact) {q r : Stored StatusRow} (hq : q ∈ t.statuses)
    (hr : r ∈ t.statuses) (hid : q.value.id = r.value.id) : q = r :=
  Tables.Apart.eq_of_id h.apart hq hr hid

theorem tells_id (h : t.Intact) (id : String) : t.Tells (.id id) :=
  Tables.Apart.tells_id h.apart id

/-- Rows with different ids are told apart by any lookup for a boost. -/
theorem tells_boost (h : t.Intact) (target account : String) :
    t.Tells (.boost target account) := by
  intro q hq r hr _ _ hboost
  exact h.eq_of_id hq hr (hboost rfl)

/-- Without shared urls and polls every lookup can tell its rows apart. -/
theorem tells (h : t.Intact) (hdistinct : t.Distinct) (l : Lookup) : t.Tells l := by
  intro q hq r hr hqd hrd hboost
  cases l with
  | id x => exact h.tells_id x q hq r hr hqd hrd hboost
  | uri x =>
    rw [Lookup.describes_uri] at hqd hrd
    exact h.eq_of_conflict hq hr (by simp [conflict_statusRow, hqd, hrd])
  | url x => exact hdistinct.urls q hq r hr x (Lookup.describes_url.1 hqd) (Lookup.describes_url.1 hrd)
  | pollId x =>
    exact hdistinct.polls q hq r hr x (Lookup.describes_pollId.1 hqd) (Lookup.describes_pollId.1 hrd)
  | boost target account => exact h.tells_boost target account q hq r hr hqd hrd hboost

theorem status_eq (h : t.Intact) (l : Lookup) :
    t.status l = match t.statusRow? l with
      | some row => .ok (.ofRow row.value)
      | none => .error .notFound := by
  unfold Tables.status
  cases hrow : t.statusRow? l with
  | none => rfl
  | some row =>
    have hread : row.value? = .ok row.value :=
      row.read_of_garbled_nil _ (h.readable row (Tables.mem_of_statusRow? hrow))
    simp only [hread]
    rfl

theorem status_eq_ok (h : t.Intact) {l : Lookup} {w : Status} :
    t.status l = .ok w ↔ ∃ r, t.statusRow? l = some r ∧ Status.ofRow r.value = w := by
  rw [h.status_eq]
  cases t.statusRow? l <;> simp

theorem status_id (h : t.Intact) {r : Stored StatusRow} (hr : r ∈ t.statuses) :
    t.status (.id r.value.id) = .ok (.ofRow r.value) :=
  Tables.Apart.status_id h.apart hr (r.read_of_garbled_nil _ (h.readable r hr))

/-- A stored row is the answer to every lookup that describes it and can mean no other. -/
theorem status_of_describes (h : t.Intact) (hdistinct : t.Distinct) {r : Stored StatusRow}
    {l : Lookup} (hr : r ∈ t.statuses) (hl : l.isBoost = false)
    (hdescribes : l.describes r.value = true) : t.status l = .ok (.ofRow r.value) := by
  refine h.status_eq_ok.2 ⟨r, (statusRow?_eq_some (h.tells hdistinct l)).2 ⟨hr, hdescribes, ?_⟩, rfl⟩
  intro hboost
  rw [hl] at hboost
  cases hboost

/-- A status stays the answer to a lookup if its row stays, and no boost is new. -/
theorem status_of_kept (h : t.Intact) (hu : u.Intact) {l : Lookup} {w : Status} (htells : t.Tells l)
    (htells' : u.Tells l) (hw : t.status l = .ok w)
    (hkept : ∀ r ∈ t.statuses, r.value.id = w.id → r ∈ u.statuses)
    (hnew : l.isBoost = true → ∀ q ∈ u.statuses, l.describes q.value = true →
      ∃ r ∈ t.statuses, l.describes r.value = true ∧ r.value.id = q.value.id) :
    u.status l = .ok w := by
  obtain ⟨r, hrow, rfl⟩ := h.status_eq_ok.1 hw
  obtain ⟨hr, hdescribes, hgreatest⟩ := (statusRow?_eq_some htells).1 hrow
  refine hu.status_eq_ok.2 ⟨r, (statusRow?_eq_some htells').2 ?_, rfl⟩
  refine ⟨hkept r hr rfl, hdescribes, fun hboost q hq hqd => ?_⟩
  obtain ⟨p, hp, hpd, hid⟩ := hnew hboost q hq hqd
  exact hid ▸ hgreatest hboost p hp hpd

/-! ### Intact tables stay so -/

theorem put {newThread : Option Thread} (h : t.Intact)
    (hput : Statement.runAll t (Statement.put s newThread) = .ok u) :
    u.Intact ∧ u.statuses = t.statuses ++ [{ value := s.toRow }] := by
  obtain ⟨hnone, hstatuses, -⟩ := Statement.put_ok hput
  refine ⟨⟨?_, ?_⟩, hstatuses⟩
  · intro r hr
    rcases List.mem_append.1 (hstatuses ▸ hr) with hr | hr
    · exact h.readable r hr
    · rw [List.mem_singleton.1 hr]
  · refine hstatuses ▸ List.pairwise_append.2 ⟨h.apart, List.pairwise_singleton _ _, ?_⟩
    intro q hq r hr
    rw [List.mem_singleton.1 hr]
    obtain ⟨hid, huri⟩ := conflict_eq_false.1 (hnone q hq)
    exact conflict_eq_false.2 ⟨Ne.symm hid, Ne.symm huri⟩

/-- A status that was updated was there, and is in the place where it was. -/
theorem update {columns : List StatusColumn} (h : t.Intact)
    (hupdate : Statement.runAll t (Statement.update s columns) = .ok u) :
    u.Intact ∧ ∃ row ∈ t.statuses, row.value.id = s.id ∧ u.statuses = t.statuses.map fun r =>
      if r.value.id = s.id then updateRow s.toRow (Statement.written columns) row else r := by
  obtain ⟨row, -, hfind, hnone, hstatuses, -⟩ := Statement.update_ok hupdate
  have hrow := List.mem_of_find?_eq_some hfind
  have hid : row.value.id = s.id := by simpa using List.find?_some hfind
  have hnewId : (updateRow s.toRow (Statement.written columns) row).value.id = s.id :=
    (sameOrigin_updateRow _ _ row).id.symm.trans hid
  refine ⟨⟨?_, ?_⟩, row, hrow, hid, hstatuses⟩
  · intro r hr
    obtain ⟨q, hq, rfl⟩ := List.mem_map.1 (hstatuses ▸ hr)
    split
    · simp [updateRow, Stored.writeColumns, h.readable row hrow]
    · exact h.readable q hq
  · refine hstatuses ▸ List.pairwise_map.2 (h.apart.imp_of_mem ?_)
    intro a b ha hb hab
    have hother := (conflict_eq_false.1 hab).1
    split <;> split
    · rename_i ha' hb'
      exact absurd (ha'.trans hb'.symm) hother
    · rename_i hb'
      exact hnone b hb hb'
    · rename_i ha' hb'
      obtain ⟨hid, huri⟩ := conflict_eq_false.1 (hnone a ha ha')
      exact conflict_eq_false.2 ⟨Ne.symm hid, Ne.symm huri⟩
    · exact hab

theorem delete {id : String} (h : t.Intact)
    (hdelete : Statement.runAll t (Statement.delete id) = .ok u) :
    u.Intact ∧ u.statuses = t.statuses.filter (·.value.id ≠ id) := by
  obtain ⟨-, hstatuses, -⟩ := Statement.delete_ok hdelete
  refine ⟨⟨?_, ?_⟩, hstatuses⟩
  · intro r hr
    rw [hstatuses] at hr
    exact h.readable r (List.mem_filter.1 hr).1
  · rw [hstatuses]
    exact h.apart.sublist List.filter_sublist

end Tables.Intact

/-! ### Healthy databases -/

/-- Connections and tables are there, every status row reads, and no two rows have one id or one
uri. -/
structure Healthy (db : Database) : Prop where
  isOpen : db.isClosed = false
  dropped : db.tables.dropped = []
  readable : ∀ r ∈ db.tables.statuses, r.garbled = []
  apart : db.tables.statuses.Pairwise fun a b => Tables.conflict a.value b.value = false

namespace Healthy

variable {db db' : Database}

theorem intact (h : db.Healthy) : db.tables.Intact := ⟨h.readable, h.apart⟩

theorem of_eq (h : db.Healthy) (tables : db'.tables = db.tables)
    (isClosed : db'.isClosed = db.isClosed) : db'.Healthy where
  isOpen := isClosed.trans h.isOpen
  dropped := tables ▸ h.dropped
  readable := tables ▸ h.readable
  apart := tables ▸ h.apart

/-- A transaction that keeps the tables intact and drops none keeps a database healthy. -/
theorem of_intact (h : db.Healthy) {statements : List Statement}
    (intact : (db.transact statements).2.tables.Intact)
    (dropped : (db.transact statements).2.tables.dropped = db.tables.dropped) :
    (db.transact statements).2.Healthy where
  isOpen := (isClosed_transact _ _).trans h.isOpen
  dropped := dropped.trans h.dropped
  readable := intact.readable
  apart := intact.apart

theorem require (h : db.Healthy) (table : TableName) : db.tables.require table = .ok () := by
  simp [Tables.require, h.dropped]

theorem failed (h : db.Healthy) {statements : List Statement} {e : Error}
    (hfailed : (db.transact statements).1 = .error e) : (db.transact statements).2.Healthy :=
  h.of_eq (tables_of_transact_error hfailed) (isClosed_transact db statements)

theorem put (h : db.Healthy) {s : Status} {newThread : Option Thread}
    (hput : (db.putStatus s newThread).1 = .ok ()) :
    (db.putStatus s newThread).2.Healthy ∧
      (db.putStatus s newThread).2.tables.statuses =
        db.tables.statuses ++ [{ value := s.toRow }] := by
  obtain ⟨-, hrun⟩ := transact_ok hput
  obtain ⟨hintact, hstatuses⟩ := h.intact.put hrun
  exact ⟨h.of_intact hintact (Statement.put_ok hrun).2.2, hstatuses⟩

/-- A status that was updated was there, and is in the place where it was. -/
theorem update (h : db.Healthy) {s : Status} {columns : List StatusColumn}
    (hupdate : (db.updateStatus s columns).1 = .ok ()) :
    (db.updateStatus s columns).2.Healthy ∧ ∃ row ∈ db.tables.statuses, row.value.id = s.id ∧
      (db.updateStatus s columns).2.tables.statuses = db.tables.statuses.map fun r =>
        if r.value.id = s.id then updateRow s.toRow (Statement.written columns) row else r := by
  obtain ⟨-, hrun⟩ := transact_ok hupdate
  obtain ⟨hintact, hrow⟩ := h.intact.update hrun
  obtain ⟨-, -, -, -, -, hdropped⟩ := Statement.update_ok hrun
  exact ⟨h.of_intact hintact hdropped, hrow⟩

theorem delete (h : db.Healthy) (id : String) :
    (db.deleteStatus id).1 = .ok () ∧ (db.deleteStatus id).2.Healthy ∧
      (db.deleteStatus id).2.tables.statuses = db.tables.statuses.filter (·.value.id ≠ id) := by
  obtain ⟨u, hrun⟩ := Statement.delete_succeeds h.dropped id
  have hopen : db.requireOpen = .ok () := by simp [requireOpen, h.isOpen]
  have hok : (db.deleteStatus id).1 = .ok () := by
    simp [deleteStatus, transact, hopen, hrun]
  obtain ⟨-, hrun⟩ := transact_ok hok
  obtain ⟨hintact, hstatuses⟩ := h.intact.delete hrun
  exact ⟨hok, h.of_intact hintact (Statement.delete_ok hrun).2.2, hstatuses⟩

end Healthy

end StatusStore.Database
