/-
  StatusStore/Proofs/Store/Loads.lean
  ===================================
  **What a load does.**  It finds what it looks for in the cache, or it asks the
  database and caches the answer, or the database fails and nothing changes.  That
  takes indexes that are in order and nothing else: the rows and what is cached may
  be anything.

  Main statements: `loads_load` and `loads_loadList`.
-/
import StatusStore.Proofs.Database.Replies
import StatusStore.Proofs.Store.Access

namespace StatusStore

open Cache Database

namespace Database

/-- What a query answers depends on the tables and the connections only. -/
theorem select_congr {α : Type} {db db' : Database} (htables : db'.tables = db.tables)
    (hclosed : db'.isClosed = db.isClosed) (table : TableName) (read : Tables → Except Error α) :
    (db'.select table read).1 = (db.select table read).1 := by
  simp only [select, requireOpen, htables, hclosed]

end Database

namespace Store

variable {s u : Store}

/-- The rows and the indexes are in order, whatever is cached. -/
structure Tidy (s : Store) : Prop where
  intact : s.database.tables.Intact
  sound : s.caches.statuses.index.Sound
  idle : s.caches.statuses.index.Idle
  listsSound : ∀ kind, (s.caches.lists kind).index.Sound
  listsIdle : ∀ kind, (s.caches.lists kind).index.Idle

theorem Tidy.ordered (h : s.Tidy) : s.caches.Ordered :=
  ⟨h.sound, h.idle, h.listsSound, h.listsIdle⟩

theorem Tidy.of_ordered (intact : s.database.tables.Intact) (h : s.caches.Ordered) : s.Tidy :=
  ⟨intact, h.sound, h.idle, h.listsSound, h.listsIdle⟩

theorem Tidy.congr (h : s.Tidy) (statuses : u.database.tables.statuses = s.database.tables.statuses)
    (index : u.caches.statuses.index = s.caches.statuses.index)
    (lists : ∀ kind, (u.caches.lists kind).index = (s.caches.lists kind).index) : u.Tidy :=
  .of_ordered (h.intact.of_eq statuses) (h.ordered.congr index lists)

/-! ### Loads -/

def cached? (s : Store) (l : Lookup) : Option Status :=
  s.caches.statuses.index.get? (Key.ofLookup l).encode

/-- What a load does: it finds the status cached, or it asks the database and caches the answer. -/
inductive Loads (s : Store) (l : Lookup) (u : Store) : Except Error Status → Prop
  | hit {w : Status} (cached : s.cached? l = some w)
      (same : ∀ k, u.caches.statuses.index.get? k = s.caches.statuses.index.get? k) :
      Loads s l u (.ok w)
  | failed {e : Error} (absent : s.cached? l = none) (answer : (s.database.status l).1 = .error e)
      (same : ∀ k, u.caches.statuses.index.get? k = s.caches.statuses.index.get? k) :
      Loads s l u (.error e)
  | read {w : Status} (absent : s.cached? l = none) (answer : (s.database.status l).1 = .ok w)
      (found : ∀ {k x}, u.caches.statuses.index.get? k = some x ↔
        (Index.Files w (some (Key.ofLookup l).encode) k ∧ x = w) ∨
          (¬ Index.Files w (some (Key.ofLookup l).encode) k ∧
            s.caches.statuses.index.get? k = some x ∧
            ∀ j, Index.Files w (some (Key.ofLookup l).encode) j →
              s.caches.statuses.index.places.get? j ≠ s.caches.statuses.index.places.get? k)) :
      Loads s l u (.ok w)

/-- What is found after a load was found before, or is what the database answered. -/
theorem Loads.found {l : Lookup} {answer : Except Error Status} {k : String} {x : Status}
    (h : Loads s l u answer) (hx : u.caches.statuses.index.get? k = some x) :
    s.caches.statuses.index.get? k = some x ∨
      ((s.database.status l).1 = .ok x ∧ (k ∈ aliases x ∨ (Key.ofLookup l).encode = k)) := by
  cases h with
  | hit _ hsame => exact Or.inl ((hsame k).symm.trans hx)
  | failed _ _ hsame => exact Or.inl ((hsame k).symm.trans hx)
  | read _ hanswer hfound =>
    rcases hfound.1 hx with ⟨hfiles, rfl⟩ | ⟨-, hold, -⟩
    · exact Or.inr ⟨hanswer, hfiles.imp_right Option.some.inj⟩
    · exact Or.inl hold

/-- What is found under an id after a load was found under it before, or is what the database
answered and has that id. -/
theorem Loads.found_id {l : Lookup} {answer : Except Error Status} {id : String} {x : Status}
    (h : Loads s l u answer) (hx : u.cached? (.id id) = some x) :
    s.cached? (.id id) = some x ∨ ((s.database.status l).1 = .ok x ∧ x.id = id) := by
  rcases h.found hx with hold | ⟨hanswer, halias | hlookup⟩
  · exact Or.inl hold
  · exact Or.inr ⟨hanswer, eq_id_of_alias halias⟩
  · obtain rfl := Key.eq_of_encode (m := .id id) rfl hlookup
    exact Or.inr ⟨hanswer, Tables.id_of_status (select_eq_ok.1 hanswer).2.2⟩

/-- What is cached under a lookup after its load is what the load answered. -/
theorem Loads.cached?_eq {l : Lookup} {answer : Except Error Status} (h : Loads s l u answer) :
    u.cached? l = answer.toOption := by
  cases h with
  | hit hcached hsame => exact (hsame _).trans hcached
  | failed habsent _ hsame => exact (hsame _).trans habsent
  | read _ _ hfound => exact hfound.2 (Or.inl ⟨Or.inr rfl, rfl⟩)

/-- A status that the tables answer is cached once it has been loaded. -/
theorem Loads.cached {l : Lookup} {w : Status} {answer : Except Error Status}
    (h : Loads s l u answer) (hw : (s.database.status l).1 = .ok w) : ∃ x, u.cached? l = some x := by
  rw [h.cached?_eq]
  cases h with
  | failed _ hanswer _ =>
    rw [hw] at hanswer
    cases hanswer
  | _ => exact ⟨_, rfl⟩

/-- A load has no part in the tables and the lists. -/
theorem frame_load (s : Store) (l : Lookup) :
    (s.load l).2.database.tables = s.database.tables ∧
      (s.load l).2.database.isClosed = s.database.isClosed ∧
      ∀ kind, (s.load l).2.caches.lists kind = s.caches.lists kind := by
  simp only [load, Caches.load, EntityCache.load]
  cases s.caches.statuses.get? (.ofLookup l) with
  | some w => exact ⟨rfl, rfl, fun kind => by cases kind <;> rfl⟩
  | none => exact ⟨rfl, rfl, fun kind => by cases kind <;> rfl⟩

theorem loads_load (h : s.caches.Ordered) (l : Lookup) :
    (s.load l).2.caches.Ordered ∧ Loads s l (s.load l).2 (s.load l).1 := by
  obtain ⟨-, -, hlists⟩ := s.frame_load l
  have hordered : (s.load l).2.caches.statuses.index.Sound →
      (s.load l).2.caches.statuses.index.Idle → (s.load l).2.caches.Ordered := by
    intro hsound hidle
    refine ⟨hsound, hidle, fun kind => ?_, fun kind => ?_⟩
    · exact hlists kind ▸ h.listsSound kind
    · exact hlists kind ▸ h.listsIdle kind
  have hload : s.load l = ((s.caches.statuses.load (.ofLookup l) (·.status l) s.database).1,
      { s with
        caches := { s.caches with
          statuses := (s.caches.statuses.load (.ofLookup l) (·.status l) s.database).2.1 }
        database := (s.caches.statuses.load (.ofLookup l) (·.status l) s.database).2.2 }) := rfl
  rcases EntityCache.load_cases h.sound h.idle (.ofLookup l) (·.status l) s.database with
    ⟨w, hcached, hhit⟩ | ⟨habsent, c, hmiss, hsound, hidle, ⟨e, he, hsame⟩ | ⟨w, hw, hfound⟩⟩
  · rw [hhit] at hload
    rw [hload] at hordered ⊢
    exact ⟨hordered h.sound h.idle, .hit hcached fun _ => rfl⟩
  · rw [hmiss, he] at hload
    rw [hload] at hordered ⊢
    exact ⟨hordered hsound hidle, .failed habsent he hsame⟩
  · rw [hmiss, hw] at hload
    rw [hload] at hordered ⊢
    exact ⟨hordered hsound hidle, .read habsent hw hfound⟩

theorem Tidy.load (h : s.Tidy) (l : Lookup) :
    (s.load l).2.Tidy ∧ Loads s l (s.load l).2 (s.load l).1 := by
  obtain ⟨htables, -⟩ := s.frame_load l
  obtain ⟨hordered, hloads⟩ := loads_load h.ordered l
  exact ⟨.of_ordered (htables ▸ h.intact) hordered, hloads⟩

/-! ### Loads of lists -/

def listQuery (kind : ListKind) (target : String) (db : Database) :
    Except Error (List String) × Database :=
  db.select .statuses fun t => .ok (t.listed kind target)

theorem loadList_eq (s : Store) (kind : ListKind) (target : String) :
    s.loadList kind target =
      ((s.caches.loadList kind target (listQuery kind target) s.database).1,
        { s with
          caches := (s.caches.loadList kind target (listQuery kind target) s.database).2.1
          database := (s.caches.loadList kind target (listQuery kind target) s.database).2.2 }) := by
  cases kind <;> rfl

def cachedList? (s : Store) (kind : ListKind) (target : String) : Option IdList :=
  (s.caches.lists kind).index.get? (Key.ofTarget target).encode

inductive LoadsList (s : Store) (kind : ListKind) (target : String) (u : Store) :
    Except Error (List String) → Prop
  | hit {l : IdList} (cached : s.cachedList? kind target = some l)
      (same : ∀ k, (u.caches.lists kind).index.get? k = (s.caches.lists kind).index.get? k) :
      LoadsList s kind target u (.ok l.ids)
  | failed {e : Error} (absent : s.cachedList? kind target = none)
      (answer : (listQuery kind target s.database).1 = .error e)
      (same : ∀ k, (u.caches.lists kind).index.get? k = (s.caches.lists kind).index.get? k) :
      LoadsList s kind target u (.error e)
  | read (absent : s.cachedList? kind target = none)
      (found : ∀ {k l}, (u.caches.lists kind).index.get? k = some l →
        (k = (Key.ofTarget target).encode ∧ l = ⟨target, s.database.tables.listed kind target⟩) ∨
          (s.caches.lists kind).index.get? k = some l) :
      LoadsList s kind target u (.ok (s.database.tables.listed kind target))

/-- The load of a list has no part in the tables, the statuses and the other lists. -/
theorem frame_loadList (s : Store) (kind : ListKind) (target : String) :
    (s.loadList kind target).2.database.tables = s.database.tables ∧
      (s.loadList kind target).2.database.isClosed = s.database.isClosed ∧
      (s.loadList kind target).2.caches.statuses = s.caches.statuses ∧
      ∀ other, other ≠ kind →
        (s.loadList kind target).2.caches.lists other = s.caches.lists other := by
  rw [loadList_eq]
  simp only [Caches.loadList, EntityCache.load]
  cases (s.caches.lists kind).get? (.ofTarget target) with
  | some l =>
    refine ⟨rfl, rfl, Caches.statuses_setLists _ _ _, fun other hother => ?_⟩
    exact (Caches.lists_setLists _ _ _ _).trans (if_neg hother)
  | none =>
    refine ⟨rfl, rfl, Caches.statuses_setLists _ _ _, fun other hother => ?_⟩
    exact (Caches.lists_setLists _ _ _ _).trans (if_neg hother)

theorem loads_loadList (h : s.caches.Ordered) (kind : ListKind) (target : String) :
    (s.loadList kind target).2.caches.Ordered ∧
      LoadsList s kind target (s.loadList kind target).2 (s.loadList kind target).1 := by
  obtain ⟨-, -, hstatuses, hothers⟩ := s.frame_loadList kind target
  have hordered : ((s.loadList kind target).2.caches.lists kind).index.Sound →
      ((s.loadList kind target).2.caches.lists kind).index.Idle →
      (s.loadList kind target).2.caches.Ordered := by
    intro hsound hidle
    refine ⟨hstatuses ▸ h.sound, hstatuses ▸ h.idle, fun other => ?_, fun other => ?_⟩
    · by_cases hother : other = kind
      · exact hother ▸ hsound
      · exact hothers other hother ▸ h.listsSound other
    · by_cases hother : other = kind
      · exact hother ▸ hidle
      · exact hothers other hother ▸ h.listsIdle other
  have hself : ∀ c : EntityCache IdList, (s.caches.setLists kind c).lists kind = c := by
    intro c
    rw [Caches.lists_setLists, if_pos rfl]
  rw [loadList_eq] at hordered ⊢
  simp only [Caches.loadList, hself] at hordered ⊢
  generalize hcompute : (fun env : Database =>
    ((listQuery kind target env).1.map (IdList.mk target),
      (listQuery kind target env).2)) = compute at hordered ⊢
  have hanswer : (compute s.database).1 =
      (listQuery kind target s.database).1.map (IdList.mk target) := by
    rw [← hcompute]
  rcases EntityCache.load_cases (h.listsSound kind) (h.listsIdle kind) (.ofTarget target) compute
    s.database with
    ⟨l, hcached, hhit⟩ | ⟨habsent, c, hmiss, hsound, hidle, ⟨e, he, hsame⟩ | ⟨l, hl, hfound⟩⟩
  · rw [hhit] at hordered ⊢
    refine ⟨hordered (h.listsSound kind) (h.listsIdle kind), .hit hcached fun k => ?_⟩
    rw [hself]
    rfl
  · rw [hmiss, he] at hordered ⊢
    refine ⟨hordered hsound hidle, .failed habsent ?_ fun k => ?_⟩
    · rw [hanswer] at he
      cases hquery : (listQuery kind target s.database).1 with
      | error e' =>
        rw [hquery] at he
        cases he
        rfl
      | ok ids =>
        rw [hquery] at he
        cases he
    · rw [hself, hsame]
  · rw [hmiss, hl] at hordered ⊢
    have hlist : l = ⟨target, s.database.tables.listed kind target⟩ := by
      rw [hanswer] at hl
      cases hquery : (listQuery kind target s.database).1 with
      | error e =>
        rw [hquery] at hl
        cases hl
      | ok ids =>
        rw [hquery] at hl
        cases hl
        cases (select_eq_ok.1 hquery).2.2
        rfl
    subst hlist
    refine ⟨hordered hsound hidle, .read habsent fun {k l} hl => ?_⟩
    rw [hself] at hl
    rcases hfound.1 hl with ⟨hfiles, rfl⟩ | ⟨-, hold, -⟩
    · refine Or.inl ⟨?_, rfl⟩
      rcases hfiles with hown | hlookup
      · exact List.mem_singleton.1 hown
      · exact (Option.some.inj hlookup).symm
    · exact Or.inr hold

/-- A list that is found after the load of one was found before, or is as the rows have it. -/
theorem found_loadList {kind other : ListKind} {target k : String} {l : IdList}
    (h : s.caches.Ordered)
    (hl : ((s.loadList kind target).2.caches.lists other).index.get? k = some l) :
    (s.caches.lists other).index.get? k = some l ∨
      (k = (Key.ofTarget l.target).encode ∧ l.ids = s.database.tables.listed other l.target) := by
  obtain ⟨-, -, -, hothers⟩ := s.frame_loadList kind target
  obtain ⟨-, hloads⟩ := loads_loadList h kind target
  by_cases hother : other = kind
  · subst hother
    generalize (s.loadList other target).1 = answer at hloads
    cases hloads with
    | hit _ hsame => exact Or.inl ((hsame k).symm.trans hl)
    | failed _ _ hsame => exact Or.inl ((hsame k).symm.trans hl)
    | read _ hfound =>
      rcases hfound hl with ⟨rfl, rfl⟩ | hold
      · exact Or.inr ⟨rfl, rfl⟩
      · exact Or.inl hold
  · rw [hothers other hother] at hl
    exact Or.inl hl

theorem Tidy.loadList (h : s.Tidy) (kind : ListKind) (target : String) :
    (s.loadList kind target).2.Tidy ∧
      LoadsList s kind target (s.loadList kind target).2 (s.loadList kind target).1 := by
  obtain ⟨htables, -⟩ := s.frame_loadList kind target
  obtain ⟨hordered, hloads⟩ := loads_loadList h.ordered kind target
  exact ⟨.of_ordered (htables ▸ h.intact) hordered, hloads⟩

end Store

end StatusStore
