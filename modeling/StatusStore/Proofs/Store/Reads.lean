/-
  StatusStore/Proofs/Store/Reads.lean
  ===================================
  **Reads of a coherent store.**  Whatever is read, populated or not, the store stays
  coherent and the tables stay as they are; and what is read barebones is what the
  tables answer, whichever part of it was cached.

  Main statements: `Fetches.keeps`, which is about all reads at once, and `Coherent.get`,
  `Coherent.list` and their like, which give the answers.  The answers of the walks
  along replies have a module of their own.
-/
import StatusStore.Proofs.Store.Coherent
import StatusStore.Proofs.Store.Fetches

namespace StatusStore

namespace Database

def Tables.statusesOf (t : Tables) (ids : List String) : List Status :=
  ids.filterMap fun id => (t.status (.id id)).toOption

def Tables.emojiUsers (t : Tables) (emojiId : String) : List String :=
  descending ((t.statusEmojis.filter (·.2 = emojiId)).map (·.1))

end Database

namespace Store

open Cache

/-- From a coherent store comes another one before the same tables. -/
def Keeps (s u : Store) : Prop :=
  s.Coherent → u.Coherent ∧ u.database.tables = s.database.tables

variable {s u v : Store}

theorem Keeps.refl (s : Store) : Keeps s s := fun h => ⟨h, rfl⟩

theorem Keeps.trans (hsu : Keeps s u) (huv : Keeps u v) : Keeps s v := by
  intro h
  obtain ⟨hu, htables⟩ := hsu h
  obtain ⟨hv, htables'⟩ := huv hu
  exact ⟨hv, htables'.trans htables⟩

/-! ### Single loads and queries -/

theorem keeps_load {l : Lookup} (hl : l.IsPlain) (s : Store) : Keeps s (s.load l).2 := by
  intro h
  obtain ⟨-, hcoherent, htables, -⟩ := h.load hl
  exact ⟨hcoherent, htables⟩

theorem keeps_loadList (kind : ListKind) (target : String) (s : Store) :
    Keeps s (s.loadList kind target).2 := by
  intro h
  obtain ⟨u, hload, hu⟩ := h.loadList kind target
  rw [hload]
  exact hu

theorem keeps_queried {db : Database} (s : Store) (tables : db.tables = s.database.tables)
    (isClosed : db.isClosed = s.database.isClosed) : Keeps s { s with database := db } :=
  fun h => ⟨h.queried tables isClosed, tables⟩

/-- What reads are made of keeps a store coherent, and so does every read. -/
theorem Fetches.keeps (h : Fetches Lookup.IsPlain s u) : Keeps s u := by
  induction h with
  | refl => exact .refl s
  | load hl _ ih => exact ih.trans (keeps_load hl _)
  | loadList kind target _ ih => exact ih.trans (keeps_loadList kind target _)
  | queried tables isClosed _ ih => exact ih.trans (keeps_queried _ tables isClosed)

/-! ### Answers -/

/-- A barebones read answers what the tables do. -/
theorem Coherent.get {l : Lookup} (h : s.Coherent) (hl : l.IsPlain) :
    ∃ u, s.get l .barebones = (s.database.tables.status l, u) ∧
      u.Coherent ∧ u.database.tables = s.database.tables := by
  obtain ⟨hanswer, hcoherent, htables, -⟩ := h.load hl
  rw [get_barebones]
  exact ⟨(s.load l).2, Prod.ext hanswer rfl, hcoherent, htables⟩

theorem Coherent.getMany (h : s.Coherent) (ids : List String) :
    (s.getMany .barebones ids).1 = s.database.tables.statusesOf ids := by
  induction ids generalizing s with
  | nil => rfl
  | cons id ids ih =>
    obtain ⟨u, hget, hu, htables⟩ := h.get (l := .id id) trivial
    have hrest := ih hu
    rw [htables] at hrest
    simp only [Store.getMany, hget, Database.Tables.acceptIncomplete_status, hrest]
    cases hstatus : s.database.tables.status (.id id) <;>
      simp [Database.Tables.statusesOf, hstatus, Except.toOption]

theorem Coherent.list (h : s.Coherent) (kind : ListKind) (id : String) :
    (s.listed kind id .barebones).1 =
      .ok (s.database.tables.statusesOf (s.database.tables.listed kind id)) := by
  obtain ⟨u, hload, hu, htables⟩ := h.loadList kind id
  have hmany := hu.getMany (s.database.tables.listed kind id)
  rw [htables] at hmany
  simp only [Store.listed, hload, hmany]

theorem Coherent.countListed (h : s.Coherent) (kind : ListKind) (id : String) :
    (s.countListed kind id).1 = .ok (s.database.tables.listed kind id).length := by
  obtain ⟨u, hload, -⟩ := h.loadList kind id
  simp only [Store.countListed, hload]
  rfl

theorem Coherent.isBoostedBy {id accountId : String} (h : s.Coherent)
    (hplain : (Lookup.boost id accountId).IsPlain) :
    (s.isBoostedBy id accountId).1 =
      .ok (s.database.tables.statusRow? (.boost id accountId)).isSome := by
  obtain ⟨u, hget, -⟩ := h.get hplain
  rw [h.healthy.intact.status_eq] at hget
  cases hrow : s.database.tables.statusRow? (.boost id accountId) <;>
    simp [Store.isBoostedBy, hget, hrow]

theorem Coherent.usingEmoji (h : s.Coherent) (emojiId : String) :
    (s.usingEmoji emojiId .barebones).1 =
      .ok (s.database.tables.statusesOf (s.database.tables.emojiUsers emojiId)) := by
  have hids : (s.database.emojiStatusIds emojiId).1 =
      .ok (s.database.tables.emojiUsers emojiId) :=
    Database.select_of_ready h.healthy.isOpen (h.healthy.require _) _
  have hqueried : Coherent { s with database := (s.database.emojiStatusIds emojiId).2 } :=
    h.queried rfl rfl
  have hmany := hqueried.getMany (s.database.tables.emojiUsers emojiId)
  have hquery : s.database.emojiStatusIds emojiId =
      (.ok (s.database.tables.emojiUsers emojiId), (s.database.emojiStatusIds emojiId).2) :=
    Prod.ext hids rfl
  unfold Store.usingEmoji
  rw [hquery]
  exact congrArg Except.ok hmany

end Store

end StatusStore
