/-
  StatusStore/Database/Read.lean
  ==============================
  **What is read from the database**: records by id, statuses by every lookup,
  and the lists of ids that statuses, emojis, tags and threads have.  Every read
  is one query and leaves the tables as they are.

  Lists of ids are in the order of the ids, which is the order of their making:
  newest first for replies, boosts and the users of an emoji, oldest first else.

  Main statements: `fetch_stored` and `fetch_eq_ok` say which records are found, and
  `fetchAll_eq_ok` which lists of them.
-/
import StatusStore.Database.Basic
import StatusStore.Model.IdOrder
import StatusStore.Model.Lookup

namespace StatusStore

/-! ### Tables -/

namespace Database

/-- The value of a row, if all its columns read. -/
def Stored.value? {α : Type} [Persistent α] (r : Stored α) : Except Error α :=
  r.read Persistent.columns

namespace Tables

def row? (α : Type) [Persistent α] (t : Tables) (id : String) : Option (Stored α) :=
  (Persistent.rows t).find? (Identified.id ·.value = id)

def statusRow? (t : Tables) (l : Lookup) : Option (Stored StatusRow) :=
  match l with
  | .boost _ _ =>
    ((t.statuses.filter (l.describes ·.value)).mergeSort fun a b => b.value.id ≤ a.value.id).head?
  | _ => t.statuses.find? (l.describes ·.value)

def status (t : Tables) (l : Lookup) : Except Error Status :=
  match t.statusRow? l with
  | some row => row.value?.map Status.ofRow
  | none => .error .notFound

/-- The ids of the statuses whose rows satisfy `p`, newest first. -/
def statusIds (t : Tables) (p : StatusRow → Bool) : List String :=
  descending ((t.statuses.filter (p ·.value)).map (·.value.id))

end Tables

/-! ### Queries -/

def fetch (α : Type) [Persistent α] (db : Database) (id : String) : Except Error α × Database :=
  db.select (Tables.tableOf α) fun t =>
    match t.row? α id with
    | some row => row.value?
    | none => .error .notFound

/-- The records with some ids, in the order of their ids; a missing record is left out.  Without
ids there is nothing to ask. -/
def fetchAll (α : Type) [Persistent α] (db : Database) (ids : List String) :
    Except Error (List α) × Database :=
  if ids.isEmpty then (.ok [], db)
  else
    db.select (Tables.tableOf α) fun t =>
      let rows : List (Stored α) :=
        (Persistent.rows t).filter (ids.contains <| Identified.id ·.value)
      (rows.mergeSort fun a b => Identified.id a.value ≤ Identified.id b.value).mapM Stored.value?

def status (db : Database) (l : Lookup) : Except Error Status × Database :=
  db.select .statuses (·.status l)

def replyIds (db : Database) (id : String) : Except Error (List String) × Database :=
  db.select .statuses fun t => .ok (t.statusIds (·.inReplyToId = some id))

def boostIds (db : Database) (id : String) : Except Error (List String) × Database :=
  db.select .statuses fun t => .ok (t.statusIds (·.boostOfId = some id))

def emojiStatusIds (db : Database) (emojiId : String) : Except Error (List String) × Database :=
  db.select .statusEmojis fun t =>
    .ok (descending ((t.statusEmojis.filter (·.2 = emojiId)).map (·.1)))

def tagIds (db : Database) (statusId : String) : Except Error (List String) × Database :=
  db.select .statusTags fun t => .ok (ascending ((t.statusTags.filter (·.1 = statusId)).map (·.2)))

def emojiIds (db : Database) (statusId : String) : Except Error (List String) × Database :=
  db.select .statusEmojis fun t =>
    .ok (ascending ((t.statusEmojis.filter (·.1 = statusId)).map (·.2)))

def threadStatusIds (db : Database) (threadId : String) : Except Error (List String) × Database :=
  db.select .threadStatuses fun t =>
    .ok (ascending ((t.threadStatuses.filter (·.1 = threadId)).map (·.2)))

/-! ### Which records are found -/

section Found

variable {α : Type} [Persistent α] {t : Tables} {db : Database} {id : String} {a : α}

theorem Stored.value?_eq_ok {r : Stored α} (h : r.value? = .ok a) : r.value = a :=
  (read_eq_ok.1 h).2

/-- No two records of one kind have one id. -/
def Tables.DistinctIds (α : Type) [Persistent α] (t : Tables) : Prop :=
  ∀ q r : Stored α, q ∈ Persistent.rows t → r ∈ Persistent.rows t →
    Identified.id q.value = Identified.id r.value → q = r

theorem Tables.row?_eq_none :
    t.row? α id = none ↔ ∀ r : Stored α, r ∈ Persistent.rows t → Identified.id r.value ≠ id := by
  simp [row?]

theorem Tables.mem_of_row? {r : Stored α} (h : t.row? α id = some r) :
    r ∈ Persistent.rows t ∧ Identified.id r.value = id :=
  ⟨List.mem_of_find?_eq_some h, by simpa using List.find?_some h⟩

theorem Tables.DistinctIds.row?_eq_some (h : t.DistinctIds α) {r : Stored α} :
    t.row? α id = some r ↔ r ∈ Persistent.rows t ∧ Identified.id r.value = id := by
  have hfind := Stored.find?_eq_some_of_alone (p := fun a : α => Identified.id a = id) (r := r)
    fun q hq r hr hqid hrid =>
      h q r hq hr ((of_decide_eq_true hqid).trans (of_decide_eq_true hrid).symm)
  exact hfind.trans (and_congr_right fun _ => decide_eq_true_iff)

/-- A record is found just if its table and the connections are there, and its row is there and
reads. -/
theorem fetch_eq_ok :
    (db.fetch α id).1 = .ok a ↔
      db.isClosed = false ∧ db.tables.require (Tables.tableOf α) = .ok () ∧
        ∃ r, db.tables.row? α id = some r ∧ r.value? = .ok a := by
  refine select_eq_ok.trans (and_congr_right fun _ => and_congr_right fun _ => ?_)
  cases db.tables.row? α id with
  | none => exact ⟨nofun, nofun⟩
  | some r => exact ⟨fun h => ⟨r, rfl, h⟩, fun ⟨_, hr, h⟩ => Option.some.inj hr ▸ h⟩

theorem id_of_fetch (h : (db.fetch α id).1 = .ok a) : Identified.id a = id := by
  obtain ⟨-, -, r, hr, hreads⟩ := fetch_eq_ok.1 h
  exact Stored.value?_eq_ok hreads ▸ (Tables.mem_of_row? hr).2

/-- A stored record that reads is found under its id. -/
theorem fetch_stored (hopen : db.isClosed = false)
    (hthere : db.tables.require (Tables.tableOf α) = .ok ()) (hids : db.tables.DistinctIds α)
    {r : Stored α} (hr : r ∈ Persistent.rows db.tables) (hreads : r.value? = .ok a) :
    (db.fetch α (Identified.id a)).1 = .ok a := by
  obtain rfl := Stored.value?_eq_ok hreads
  exact fetch_eq_ok.2 ⟨hopen, hthere, r, hids.row?_eq_some.2 ⟨hr, rfl⟩, hreads⟩

theorem fetch_of_absent (hopen : db.isClosed = false)
    (hthere : db.tables.require (Tables.tableOf α) = .ok ())
    (habsent : ∀ r : Stored α, r ∈ Persistent.rows db.tables → Identified.id r.value ≠ id) :
    (db.fetch α id).1 = .error .notFound := by
  simp only [fetch, select, requireOpen, hopen, hthere, Tables.row?_eq_none.2 habsent]
  rfl

theorem mapM_value?_eq_ok {rows : List (Stored α)} {items : List α} :
    rows.mapM Stored.value? = .ok items ↔
      (∀ r ∈ rows, r.value? = .ok r.value) ∧ items = rows.map (·.value) := by
  induction rows generalizing items with
  | nil => exact ⟨fun h => ⟨nofun, (Except.ok.inj h).symm⟩, fun h => h.2 ▸ rfl⟩
  | cons r rest ih =>
    rw [List.mapM_cons, List.forall_mem_cons, List.map_cons]
    cases hread : r.value? with
    | error e => exact ⟨nofun, nofun⟩
    | ok a =>
      obtain rfl := Stored.value?_eq_ok hread
      cases hrest : rest.mapM Stored.value? with
      | error e =>
        refine ⟨nofun, fun h => ?_⟩
        cases hrest.symm.trans (ih.2 ⟨h.1.2, rfl⟩)
      | ok others =>
        obtain ⟨hreads, rfl⟩ := ih.1 hrest
        exact ⟨fun h => ⟨⟨rfl, hreads⟩, (Except.ok.inj h).symm⟩, fun h => h.2 ▸ rfl⟩

/-- A list of records is found just if the table and the connections are there, and all rows with
the ids read. -/
theorem fetchAll_eq_ok {ids : List String} {items : List α} (hids : ids ≠ []) :
    (db.fetchAll α ids).1 = .ok items ↔
      db.isClosed = false ∧ db.tables.require (Tables.tableOf α) = .ok () ∧
        (∀ r : Stored α, r ∈ Persistent.rows db.tables → Identified.id r.value ∈ ids →
          r.value? = .ok r.value) ∧
        items = (((Persistent.rows db.tables : List (Stored α)).filter
          (ids.contains <| Identified.id ·.value)).mergeSort fun a b =>
            Identified.id a.value ≤ Identified.id b.value).map (·.value) := by
  unfold fetchAll
  rw [if_neg (by simpa using hids)]
  refine select_eq_ok.trans (and_congr_right fun _ => and_congr_right fun _ => ?_)
  refine mapM_value?_eq_ok.trans (and_congr_left fun _ => ?_)
  simp only [List.mem_mergeSort, List.mem_filter, List.contains_iff_mem, and_imp]

end Found

end Database

end StatusStore
