/-
  StatusStore/Proofs/Store/Fetches.lean
  =====================================
  **What reads are made of.**  However much a read populates and however far it
  walks, it only loads statuses, loads lists and queries the database, one after
  the other.  What these three keep, every read keeps.

  Main statements: `fetches_populate`, `fetches_get` and their like for the other
  reads.
-/
import StatusStore.Proofs.Store.Loads
import StatusStore.Store.Traversal

namespace StatusStore.Store

open Cache

/-- `u` comes from `s` by loads of lists, queries, and loads of lookups that satisfy `p`. -/
inductive Fetches (p : Lookup → Prop) (s : Store) : Store → Prop
  | refl : Fetches p s s
  | load {u : Store} {l : Lookup} (hl : p l) (h : Fetches p s u) : Fetches p s (u.load l).2
  | loadList {u : Store} (kind : ListKind) (target : String) (h : Fetches p s u) :
      Fetches p s (u.loadList kind target).2
  | queried {u : Store} {db : Database} (tables : db.tables = u.database.tables)
      (isClosed : db.isClosed = u.database.isClosed) (h : Fetches p s u) :
      Fetches p s { u with database := db }

variable {p : Lookup → Prop} {s u v : Store}

theorem Fetches.trans (hsu : Fetches p s u) (huv : Fetches p u v) : Fetches p s v := by
  induction huv with
  | refl => exact hsu
  | load hl _ ih => exact ih.load hl
  | loadList kind target _ ih => exact ih.loadList kind target
  | queried tables isClosed _ ih => exact ih.queried tables isClosed

/-- The tables and the connections stay as they are. -/
theorem Fetches.frame (h : Fetches p s u) :
    u.database.tables = s.database.tables ∧ u.database.isClosed = s.database.isClosed := by
  induction h with
  | refl => exact ⟨rfl, rfl⟩
  | @load u l _ _ ih =>
    obtain ⟨htables, hclosed, -⟩ := u.frame_load l
    exact ⟨htables.trans ih.1, hclosed.trans ih.2⟩
  | @loadList u kind target _ ih =>
    obtain ⟨htables, hclosed, -⟩ := u.frame_loadList kind target
    exact ⟨htables.trans ih.1, hclosed.trans ih.2⟩
  | queried tables isClosed _ ih => exact ⟨tables.trans ih.1, isClosed.trans ih.2⟩

theorem fetches_load {l : Lookup} (hl : p l) (s : Store) : Fetches p s (s.load l).2 :=
  Fetches.refl.load hl

theorem fetches_loadList (kind : ListKind) (target : String) (s : Store) :
    Fetches p s (s.loadList kind target).2 :=
  Fetches.refl.loadList kind target

theorem fetches_fetch {α : Type} [Database.Persistent α] (s : Store) (id : String) :
    Fetches p s (s.fetch α id).2 :=
  Fetches.refl.queried rfl rfl

theorem fetches_fetchAll {α : Type} [Database.Persistent α] (s : Store) (ids : List String) :
    Fetches p s { s with database := (s.database.fetchAll α ids).2 } := by
  unfold Database.fetchAll
  split
  · exact .refl
  · exact Fetches.refl.queried rfl rfl

/-! ### Population -/

theorem fetches_one {α : Type} [Identified α] (q : Population) (part : Part)
    (wanted : Option String) (current : Option α) {fetch : Store → String → Except Error α × Store}
    (hfetch : ∀ s id, Fetches p s (fetch s id).2) (attach : Status → α → Status) :
    Fetches p q.store (q.one part wanted current fetch attach).store := by
  unfold Population.one
  split
  · exact .refl
  · rename_i id _
    rw [store_settle]
    exact hfetch q.store id

theorem fetches_many {α : Type} [Database.Persistent α] (q : Population) (part : Part)
    (relation : Relation α) (attach : Status → Relation α → Status) :
    Fetches p q.store (q.many part relation attach).store := by
  rcases store_many q part relation attach with hstore | hstore
  · rw [hstore]
    exact .refl
  · rw [hstore]
    exact q.store.fetches_fetchAll relation.toIds

/-! ### Reads

From here on statuses may be loaded by their ids. -/

variable (hids : ∀ id, p (.id id))
include hids

theorem fetches_fill (q : Population) (part : Part) : Fetches p q.store (q.fill part).store := by
  have hload : ∀ (s : Store) (id : String), Fetches p s (s.load (.id id)).2 := fun s id =>
    s.fetches_load (hids id)
  cases part with
  | author => exact fetches_one q _ _ _ fetches_fetch _
  | parent => exact fetches_one q _ _ _ hload _
  | parentAuthor => exact fetches_one q _ _ _ fetches_fetch _
  | boost => exact fetches_one q _ _ _ hload _
  | boostAuthor => exact fetches_one q _ _ _ fetches_fetch _
  | poll => exact fetches_one q _ _ _ fetches_fetch _
  | attachments => exact fetches_many q _ _ _
  | tags => exact fetches_many q _ _ _
  | mentions => exact fetches_many q _ _ _
  | emojis => exact fetches_many q _ _ _
  | application => exact fetches_one q _ _ _ fetches_fetch _

theorem fetches_foldl (q : Population) (parts : List Part) :
    Fetches p q.store (parts.foldl Population.fill q).store := by
  induction parts generalizing q with
  | nil => exact .refl
  | cons part parts ih => exact (fetches_fill hids q part).trans (ih (q.fill part))

theorem fetches_populate (s : Store) (status : Status) :
    Fetches p s (s.populate status).store :=
  fetches_foldl hids { store := s, status } Part.all

theorem fetches_complete (s : Store) (loaded : Except Error Status) (mode : Retrieval) :
    Fetches p s (s.complete loaded mode).2 := by
  unfold complete
  split
  · exact s.fetches_populate hids _
  · exact .refl

theorem fetches_get {l : Lookup} (hl : p l) (s : Store) (mode : Retrieval) :
    Fetches p s (s.get l mode).2 :=
  (s.fetches_load hl).trans ((s.load l).2.fetches_complete hids _ mode)

theorem fetches_getMany (s : Store) (mode : Retrieval) (ids : List String) :
    Fetches p s (s.getMany mode ids).2 := by
  induction ids generalizing s with
  | nil => exact .refl
  | cons id ids ih =>
    have hboth := (fetches_get hids (hids id) s mode).trans (ih (s.get (.id id) mode).2)
    simp only [getMany]
    split <;> exact hboth

theorem fetches_listed (s : Store) (kind : ListKind) (id : String) (mode : Retrieval) :
    Fetches p s (s.listed kind id mode).2 := by
  have hlist : Fetches p s (s.loadList kind id).2 := s.fetches_loadList kind id
  unfold listed
  split
  · rename_i hload
    rw [hload] at hlist
    exact hlist
  · rename_i ids u hload
    rw [hload] at hlist
    exact hlist.trans (u.fetches_getMany hids mode ids)

omit hids in
theorem fetches_countListed (s : Store) (kind : ListKind) (id : String) :
    Fetches p s (s.countListed kind id).2 :=
  s.fetches_loadList kind id

theorem fetches_isBoostedBy {id accountId : String} (hl : p (.boost id accountId)) (s : Store) :
    Fetches p s (s.isBoostedBy id accountId).2 := by
  have hget := fetches_get hids hl s .barebones
  unfold isBoostedBy
  split <;>
    rename_i hanswer <;>
    rw [hanswer] at hget <;>
    exact hget

theorem fetches_usingEmoji (s : Store) (emojiId : String) (mode : Retrieval) :
    Fetches p s (s.usingEmoji emojiId mode).2 := by
  have hquery : Fetches p s { s with database := (s.database.emojiStatusIds emojiId).2 } :=
    Fetches.refl.queried rfl rfl
  unfold usingEmoji
  split
  · rename_i hanswer
    rw [hanswer] at hquery
    exact hquery
  · rename_i ids db hanswer
    rw [hanswer] at hquery
    exact hquery.trans (fetches_getMany hids _ mode ids)

theorem fetches_climb (mode : Retrieval) (fuel : Nat) (s : Store) (next : Option String) :
    Fetches p s (climb mode fuel s next).2 := by
  induction fuel generalizing s next with
  | zero => cases next <;> exact .refl
  | succ fuel ih =>
    cases next with
    | none => exact .refl
    | some id =>
      have hget := fetches_get hids (hids id) s mode
      simp only [climb]
      split
      · exact hget
      · exact hget.trans (ih _ _)

theorem fetches_descend (mode : Retrieval) (fuel : Nat) (s : Store) (pending : List String) :
    Fetches p s (descend mode fuel s pending).2 := by
  induction fuel generalizing s pending with
  | zero => cases pending <;> exact .refl
  | succ fuel ih =>
    cases pending with
    | nil => exact .refl
    | cons id pending =>
      have hget := fetches_get hids (hids id) s mode
      simp only [descend]
      split
      · exact hget
      · rename_i reply _
        have hlist := hget.loadList .replies reply.id
        split
        · rename_i hload
          rw [hload] at hlist
          exact hlist
        · rename_i ids u hload
          rw [hload] at hlist
          exact hlist.trans (ih u (ids ++ pending))

theorem fetches_ancestors (s : Store) (status : Status) (mode : Retrieval) :
    Fetches p s (s.ancestors status mode).2 :=
  fetches_climb hids mode _ s _

theorem fetches_descendants (s : Store) (id : String) (mode : Retrieval) :
    Fetches p s (s.descendants id mode).2 := by
  have hlist : Fetches p s (s.loadList .replies id).2 := s.fetches_loadList .replies id
  unfold descendants
  split
  · rename_i hload
    rw [hload] at hlist
    exact hlist
  · rename_i ids u hload
    rw [hload] at hlist
    exact hlist.trans (fetches_descend hids mode _ u ids)

end StatusStore.Store
