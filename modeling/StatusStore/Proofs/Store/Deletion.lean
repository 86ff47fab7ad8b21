/-
  StatusStore/Proofs/Store/Deletion.lean
  ======================================
  **What a deletion leaves.**  A status that is deleted is loaded first, and the lists
  that are dropped with it are those of what was loaded.  So the deleted status is
  never served again, whatever the load came to; but a cached list that has its id
  is dropped only if the load found the status and the list belongs to what this
  refers to.  Where the load failed, be it because the row did not read or because
  the database did not answer, every cached list that had the id still has it.

  That takes nothing of the database, which may at any time become another one
  behind the back of the caches.  Of the caches it takes that they are in order
  (`Labelled`), and every run leaves them so.

  Main statements: `labelled_befallAll` and `befallAll_delete_serves`.
-/
import StatusStore.Proofs.Store.Told

namespace StatusStore

open Cache Database

namespace Store

variable {s u : Store} {kind : ListKind} {target k id : String} {w x : Status} {l : IdList}
  {fault : Option Error}

/-! ### Labels -/

/-- What is cached under an id has that id, and a list is cached under its own target. -/
structure Labelled (s : Store) : Prop where
  ordered : s.caches.Ordered
  named : ∀ {id x}, s.cached? (.id id) = some x → x.id = id
  filed : s.caches.Filed

namespace Labelled

theorem congr (h : s.Labelled) (index : u.caches.statuses.index = s.caches.statuses.index)
    (lists : ∀ kind, (u.caches.lists kind).index = (s.caches.lists kind).index) :
    u.Labelled where
  ordered := h.ordered.congr index lists
  named {id x} hx := by
    rw [cached?, index] at hx
    exact h.named hx
  filed {kind k l} hl := by
    rw [lists kind] at hl
    exact h.filed hl

theorem of_caches (h : s.Labelled) (caches : u.caches = s.caches) : u.Labelled :=
  h.congr (congrArg (·.statuses.index) caches) fun kind => congrArg (·.lists kind |>.index) caches

theorem of_empty (index : s.caches.statuses.index = {})
    (lists : ∀ kind, (s.caches.lists kind).index = {}) : s.Labelled where
  ordered := .of_empty index lists
  named {id x} hx := by
    rw [cached?, index] at hx
    cases hx
  filed {kind k l} hl := by
    rw [lists kind] at hl
    cases hl

theorem load (h : s.Labelled) (l : Lookup) : (s.load l).2.Labelled := by
  obtain ⟨-, -, hlists⟩ := s.frame_load l
  obtain ⟨hordered, hloads⟩ := loads_load h.ordered l
  refine ⟨hordered, fun {id x} hx => ?_, fun {kind k l} hl => ?_⟩
  · exact (hloads.found_id hx).elim h.named (·.2)
  · rw [hlists kind] at hl
    exact h.filed hl

theorem loadList (h : s.Labelled) (kind : ListKind) (target : String) :
    (s.loadList kind target).2.Labelled := by
  obtain ⟨-, -, hstatuses, -⟩ := s.frame_loadList kind target
  obtain ⟨hordered, -⟩ := loads_loadList h.ordered kind target
  refine ⟨hordered, fun {id x} hx => ?_, fun {other k l} hl => ?_⟩
  · rw [cached?, hstatuses] at hx
    exact h.named hx
  · rcases found_loadList h.ordered hl with hold | ⟨hkey, -⟩
    · exact h.filed hold
    · exact hkey

theorem fetches {p : Lookup → Prop} (hfetches : Fetches p s u) (h : s.Labelled) : u.Labelled := by
  induction hfetches with
  | refl => exact h
  | load _ _ ih => exact ih.load _
  | loadList kind target _ ih => exact ih.loadList kind target
  | queried _ _ _ ih => exact ih.congr rfl fun _ => rfl

theorem committed (h : s.Labelled) (caches : u.caches = s.caches.committed w) : u.Labelled where
  ordered := caches ▸ h.ordered.committed w
  named {id x} hx := by
    rw [cached?, caches] at hx
    rcases h.ordered.found_committed hx with ⟨halias, rfl⟩ | ⟨-, -, hold, -⟩
    · exact eq_id_of_alias halias
    · exact h.named hold
  filed := caches ▸ (h.ordered.fewer_committed w).filed h.filed

theorem invalidated (h : s.Labelled)
    (caches : u.caches = s.caches.invalidate (.ofLookup (.id id))) : u.Labelled where
  ordered := caches ▸ h.ordered.invalidated _
  named {id x} hx := by
    rw [cached?, caches] at hx
    exact h.named (h.ordered.found_invalidated hx).1
  filed := caches ▸ (h.ordered.fewer_invalidated _).filed h.filed

theorem save (h : s.Labelled) (status : Status)
    (write : Database → Except Error Unit × Database) : (s.save status write).2.Labelled := by
  rcases s.save_cases status write with ⟨e, -, started, hsave⟩ | ⟨-, hsave⟩
  · rw [hsave]
    exact h.congr rfl fun kind => by cases kind <;> rfl
  · rw [hsave]
    exact h.committed rfl

end Labelled

/-! ### Runs before any database -/

/-- What befalls a store: it is used, or its database becomes another one. -/
inductive Incident
  | use (operation : Operation)
  | replaced (database : Database)

def befall (s : Store) : Incident → Store
  | .use operation => s.perform operation
  | .replaced database => { s with database }

def befallAll (s : Store) (incidents : List Incident) : Store := incidents.foldl befall s

theorem Labelled.perform (h : s.Labelled) (operation : Operation) :
    (s.perform operation).Labelled := by
  cases operation with
  | put status fresh =>
    exact (h.save _ _).of_caches (s.caches_put status fresh)
  | update status columns now =>
    exact (h.save _ _).of_caches (s.caches_update status columns now)
  | delete id => exact (h.load (.id id)).invalidated (s.caches_delete id)
  | read r mode =>
    exact Labelled.fetches (p := fun _ => True)
      (fetches_read (fun _ => trivial) (fun _ _ => trivial) s mode) h
  | populate status =>
    exact Labelled.fetches (p := fun _ => True) (s.fetches_populate (fun _ => trivial) status) h
  | restart => exact .of_empty rfl fun kind => by cases kind <;> rfl

theorem Labelled.befall (h : s.Labelled) (incident : Incident) : (s.befall incident).Labelled := by
  cases incident with
  | use operation => exact h.perform operation
  | replaced database => exact h.congr rfl fun _ => rfl

theorem labelled_ofDatabase {config : Config} {db : Database}
    (hstart : ofDatabase config db = .ok s) : s.Labelled := by
  obtain ⟨queue, rfl⟩ := ofDatabase_ok hstart
  exact .of_empty rfl fun kind => by cases kind <;> rfl

/-- In every run, whatever becomes of the database, the caches are in order. -/
theorem labelled_befallAll {config : Config} {db : Database} (hstart : ofDatabase config db = .ok s)
    (incidents : List Incident) : (s.befallAll incidents).Labelled := by
  have hbegun : s.Labelled := labelled_ofDatabase hstart
  clear hstart
  induction incidents generalizing s with
  | nil => exact hbegun
  | cons incident incidents ih => exact ih (hbegun.befall incident)

/-! ### Loads that a fault may strike -/

def loadUnder (fault : Option Error) (s : Store) (l : Lookup) : Except Error Status × Store :=
  let query (db : Database) := (fault.elim (db.status l).1 .error, (db.status l).2)
  let (answer, caches, database) := s.caches.load (.ofLookup l) query s.database
  (answer, { s with caches, database })

def deleteUnder (fault : Option Error) (s : Store) (id : String) : Except Error Unit × Store :=
  let (existing, s) := s.loadUnder fault (.id id)
  let (answer, database) := s.database.deleteStatus id
  let s := { s with database, caches := s.caches.invalidate (.ofLookup (.id id)) }
  match answer, existing with
  | .ok (), .ok status => (.ok (), (s.publish .delete status).2)
  | _, _ => (answer, s)

/-- A deletion that nothing strikes is the deletion itself. -/
theorem deleteUnder_none (s : Store) (id : String) : s.deleteUnder none id = s.delete id := by
  unfold delete
  rw [get_barebones]
  rfl

/-- A fault strikes only what is not cached, and then nothing comes into the cache. -/
theorem loadUnder_cases (s : Store) (fault : Option Error) (l : Lookup) :
    s.loadUnder fault l = s.load l ∨
      ∃ e u, s.loadUnder fault l = (.error e, u) ∧ s.cached? l = none ∧
        u.database.tables = s.database.tables ∧ u.database.isClosed = s.database.isClosed ∧
        (∀ kind, u.caches.lists kind = s.caches.lists kind) ∧
        (s.caches.Ordered → u.caches.Ordered ∧
          ∀ k, u.caches.statuses.index.get? k = s.caches.statuses.index.get? k) := by
  cases fault with
  | none => exact Or.inl rfl
  | some e =>
    cases hcached : s.caches.statuses.get? (.ofLookup l) with
    | some w =>
      have hhit : s.loadUnder (some e) l = s.load l := by
        simp only [loadUnder, load, Caches.load, EntityCache.load, hcached]
      exact Or.inl hhit
    | none =>
      let missed := (s.caches.statuses.beginLoad (Key.ofLookup l).encode).settleLoad
        (Key.ofLookup l).encode (.error e)
      have hlists : ∀ kind, ({ s.caches with statuses := missed } : Caches).lists kind =
          s.caches.lists kind := fun kind => by cases kind <;> rfl
      refine Or.inr ⟨e, { s with
        caches := { s.caches with statuses := missed }
        database := (s.database.status l).2 }, ?_, hcached, rfl, rfl, hlists, fun h => ?_⟩
      · simp only [loadUnder, Caches.load, EntityCache.load, hcached]
        rfl
      · rcases EntityCache.load_cases h.sound h.idle (.ofLookup l)
          (fun db : Database => (.error e, (db.status l).2)) s.database with
          ⟨w, hw, -⟩ | ⟨-, c, hmiss, hsound, hidle, ⟨_, -, hsame⟩ | ⟨w, hw, -⟩⟩
        · cases hcached.symm.trans hw
        · simp only [EntityCache.load, hcached] at hmiss
          obtain ⟨rfl, -⟩ := Prod.mk.inj (Prod.mk.inj hmiss).2
          refine ⟨⟨hsound, hidle, fun kind => ?_, fun kind => ?_⟩, hsame⟩
          · exact hlists kind ▸ h.listsSound kind
          · exact hlists kind ▸ h.listsIdle kind
        · cases hw

theorem frame_loadUnder (s : Store) (fault : Option Error) (l : Lookup) :
    (s.loadUnder fault l).2.database.tables = s.database.tables ∧
      (s.loadUnder fault l).2.database.isClosed = s.database.isClosed ∧
      ∀ kind, (s.loadUnder fault l).2.caches.lists kind = s.caches.lists kind := by
  rcases s.loadUnder_cases fault l with hsame | ⟨e, u, hload, -, htables, hclosed, hlists, -⟩
  · rw [hsame]
    exact s.frame_load l
  · rw [hload]
    exact ⟨htables, hclosed, hlists⟩

/-- What is cached under an id after its load is what the load answered, struck or not. -/
theorem Labelled.loadUnder (h : s.Labelled) (fault : Option Error) (id : String) :
    (s.loadUnder fault (.id id)).2.Labelled ∧
      (s.loadUnder fault (.id id)).2.cached? (.id id) =
        (s.loadUnder fault (.id id)).1.toOption := by
  rcases s.loadUnder_cases fault (.id id) with
    hsame | ⟨e, u, hload, habsent, -, -, hlists, hordered⟩
  · rw [hsame]
    exact ⟨h.load _, (loads_load h.ordered _).2.cached?_eq⟩
  · obtain ⟨hordered, hsame⟩ := hordered h.ordered
    rw [hload]
    refine ⟨⟨hordered, fun hx => h.named ((hsame _).symm.trans hx), fun {kind k l} hl => ?_⟩,
      (hsame _).trans habsent⟩
    rw [hlists kind] at hl
    exact h.filed hl

/-! ### What is left of a deleted status -/

/-- Statuses can be read, and none with the id is cached or stored. -/
structure Lacks (s : Store) (id : String) : Prop where
  labelled : s.Labelled
  readable : s.Readable
  uncached : ∀ {k x}, s.caches.statuses.index.get? k = some x → x.id ≠ id
  gone : ∀ r ∈ s.database.tables.statuses, r.value.id ≠ id

namespace Lacks

theorem status_ne {l : Lookup} (h : s.Lacks id) (hx : (s.database.status l).1 = .ok x) :
    x.id ≠ id := by
  obtain ⟨r, hrow, -, rfl⟩ := Tables.row_of_status (select_eq_ok.1 hx).2.2
  exact h.gone r (Tables.mem_of_statusRow? hrow)

theorem load_ne {l : Lookup} (h : s.Lacks id) (hx : (s.load l).1 = .ok x) : x.id ≠ id := by
  obtain ⟨-, hloads⟩ := loads_load h.labelled.ordered l
  rw [hx] at hloads
  cases hloads with
  | hit hcached _ => exact h.uncached hcached
  | read _ hanswer _ => exact h.status_ne hanswer

theorem load (h : s.Lacks id) (l : Lookup) : (s.load l).2.Lacks id := by
  obtain ⟨htables, hclosed, -⟩ := s.frame_load l
  obtain ⟨-, hloads⟩ := loads_load h.labelled.ordered l
  refine ⟨h.labelled.load l, ⟨hclosed.trans h.readable.opened, htables ▸ h.readable.there⟩,
    fun hx => ?_, htables ▸ h.gone⟩
  exact (hloads.found hx).elim h.uncached fun hread => h.status_ne hread.1

theorem loadList (h : s.Lacks id) (kind : ListKind) (target : String) :
    (s.loadList kind target).2.Lacks id := by
  obtain ⟨htables, hclosed, hstatuses, -⟩ := s.frame_loadList kind target
  refine ⟨h.labelled.loadList kind target,
    ⟨hclosed.trans h.readable.opened, htables ▸ h.readable.there⟩, fun hx => ?_, htables ▸ h.gone⟩
  rw [hstatuses] at hx
  exact h.uncached hx

theorem fetches {p : Lookup → Prop} (hfetches : Fetches p s u) (h : s.Lacks id) : u.Lacks id := by
  induction hfetches with
  | refl => exact h
  | load _ _ ih => exact ih.load _
  | loadList kind target _ ih => exact ih.loadList kind target
  | queried tables isClosed _ ih =>
    exact ⟨ih.labelled.congr rfl fun _ => rfl,
      ⟨isClosed.trans ih.readable.opened, tables ▸ ih.readable.there⟩, ih.uncached,
      tables ▸ ih.gone⟩

theorem get (h : s.Lacks id) (l : Lookup) (mode : Retrieval) : (s.get l mode).2.Lacks id :=
  .fetches (fetches_get (p := fun _ => True) (fun _ => trivial) trivial s mode) h

theorem get_ne {l : Lookup} {mode : Retrieval} (h : s.Lacks id)
    (hx : acceptIncomplete (s.get l mode).1 = .ok x) : x.id ≠ id := by
  cases hload : (s.load l).1 with
  | ok w =>
    obtain ⟨y, hget, hrow, -⟩ := get_of_load_ok hload mode
    rw [hx] at hget
    cases hget
    have hid : x.id = w.id := congrArg (·.id) hrow
    rw [hid]
    exact h.load_ne hload
  | error e =>
    rw [(get_of_load_error hload mode).2] at hx
    cases hx

theorem load_id (h : s.Lacks id) : (s.load (.id id)).1 = .error .notFound := by
  obtain ⟨-, hloads⟩ := loads_load h.labelled.ordered (.id id)
  have hread : (s.database.status (.id id)).1 = s.database.tables.status (.id id) :=
    select_of_ready h.readable.opened h.readable.there _
  have hrow : s.database.tables.statusRow? (.id id) = none := by
    rw [Tables.statusRow?_eq_none]
    exact fun r hr => decide_eq_false (h.gone r hr)
  have hanswer : (s.database.status (.id id)).1 = .error .notFound := by
    rw [hread, Tables.status, hrow]
  generalize (s.load (.id id)).1 = answer at hloads ⊢
  cases hloads with
  | hit hcached _ => exact absurd (h.labelled.named hcached) (h.uncached hcached)
  | failed _ hfailed _ =>
    rw [hanswer] at hfailed
    cases hfailed
    rfl
  | read _ hfound _ =>
    rw [hanswer] at hfound
    cases hfound

theorem getMany_ne (h : s.Lacks id) (mode : Retrieval) (ids : List String) :
    ∀ x ∈ (s.getMany mode ids).1, x.id ≠ id := by
  induction ids generalizing s with
  | nil => exact fun _ => nofun
  | cons first ids ih =>
    have hrest := ih (h.get (.id first) mode)
    cases hget : acceptIncomplete (s.get (.id first) mode).1 with
    | error e =>
      simp only [getMany, hget]
      exact hrest
    | ok y =>
      simp only [getMany, hget, List.forall_mem_cons]
      exact ⟨h.get_ne hget, hrest⟩

theorem loadList_ok (h : s.Lacks id) (kind : ListKind) (target : String) :
    ∃ ids, (s.loadList kind target).1 = .ok ids ∧
      (id ∈ ids ↔ ∃ l, s.cachedList? kind target = some l ∧ id ∈ l.ids) := by
  obtain ⟨-, hloads⟩ := loads_loadList h.labelled.ordered kind target
  have hquery : (listQuery kind target s.database).1 =
      .ok (s.database.tables.listed kind target) :=
    select_of_ready h.readable.opened h.readable.there _
  generalize (s.loadList kind target).1 = answer at hloads ⊢
  cases hloads with
  | @hit l hcached _ =>
    refine ⟨l.ids, rfl, fun hid => ⟨l, hcached, hid⟩, fun ⟨l', hcached', hid⟩ => ?_⟩
    cases hcached.symm.trans hcached'
    exact hid
  | failed _ hfailed _ =>
    rw [hquery] at hfailed
    cases hfailed
  | read habsent _ =>
    refine ⟨_, rfl, fun hid => ?_, fun ⟨l, hcached, _⟩ => ?_⟩
    · obtain ⟨r, hr, hrid, -⟩ := Tables.mem_listed.1 hid
      exact absurd hrid (h.gone r hr)
    · rw [habsent] at hcached
      cases hcached

theorem listed_ok (h : s.Lacks id) (kind : ListKind) (target : String) (mode : Retrieval) :
    ∃ served, (s.listed kind target mode).1 = .ok served ∧ ∀ x ∈ served, x.id ≠ id := by
  obtain ⟨ids, hload, -⟩ := h.loadList_ok kind target
  have hloaded := h.loadList kind target
  unfold listed
  generalize s.loadList kind target = loaded at hload hloaded ⊢
  obtain ⟨_, u⟩ := loaded
  cases hload
  exact ⟨_, rfl, hloaded.getMany_ne mode ids⟩

/-- A walk down that comes by the id fails. -/
theorem descend_ok {mode : Retrieval} {fuel : Nat} {pending : List String} {found : List Status}
    (h : s.Lacks id) (hok : (descend mode fuel s pending).1 = .ok found) :
    id ∉ pending ∧ ∀ x ∈ found, x.id ≠ id := by
  induction fuel generalizing s pending found with
  | zero =>
    cases pending with
    | nil =>
      cases hok
      exact ⟨nofun, fun _ => nofun⟩
    | cons => cases hok
  | succ fuel ih =>
    cases pending with
    | nil =>
      cases hok
      exact ⟨nofun, fun _ => nofun⟩
    | cons first pending =>
      have hlacks := h.get (.id first) mode
      cases hget : acceptIncomplete (s.get (.id first) mode).1 with
      | error e =>
        simp only [descend, hget] at hok
        cases hok
      | ok reply =>
        simp only [descend, hget] at hok
        have hlisted := hlacks.loadList .replies reply.id
        split at hok
        · cases hok
        · rename_i ids u hload
          rw [hload] at hlisted
          cases hrest : (descend mode fuel u (ids ++ pending)).1 with
          | error e =>
            rw [hrest] at hok
            cases hok
          | ok rest =>
            rw [hrest] at hok
            cases hok
            obtain ⟨hpending, hne⟩ := ih hlisted hrest
            have hfirst : id ≠ first := by
              rintro rfl
              rw [(get_of_load_error h.load_id mode).2] at hget
              cases hget
            refine ⟨?_, List.forall_mem_cons.2 ⟨h.get_ne hget, hne⟩⟩
            rw [List.mem_cons, not_or]
            exact ⟨hfirst, fun hid => hpending (List.mem_append_right _ hid)⟩

/-- A status below which the id is listed has no descendants to answer. -/
theorem descendants_ok {mode : Retrieval} {found : List Status} (h : s.Lacks id)
    (hok : (s.descendants target mode).1 = .ok found) :
    (∀ ids, (s.loadList .replies target).1 = .ok ids → id ∉ ids) ∧ ∀ x ∈ found, x.id ≠ id := by
  obtain ⟨ids, hload, -⟩ := h.loadList_ok .replies target
  have hloaded := h.loadList .replies target
  unfold descendants at hok
  generalize s.loadList .replies target = loaded at hload hloaded hok ⊢
  obtain ⟨_, u⟩ := loaded
  cases hload
  obtain ⟨hpending, hne⟩ := hloaded.descend_ok hok
  refine ⟨?_, hne⟩
  rintro _ ⟨⟩
  exact hpending

end Lacks

/-! ### What a deletion drops -/

theorem caches_deleteUnder (s : Store) (fault : Option Error) (id : String) :
    (s.deleteUnder fault id).2.caches =
      (s.loadUnder fault (.id id)).2.caches.invalidate (.ofLookup (.id id)) := by
  unfold deleteUnder
  dsimp only
  split <;> rfl

theorem deleteUnder_fst (s : Store) (fault : Option Error) (id : String) :
    (s.deleteUnder fault id).1 =
        ((s.loadUnder fault (.id id)).2.database.deleteStatus id).1 ∧
      (s.deleteUnder fault id).2.database =
        ((s.loadUnder fault (.id id)).2.database.deleteStatus id).2 := by
  unfold deleteUnder
  dsimp only
  split
  · rename_i hok _
    exact ⟨hok.symm, rfl⟩
  · exact ⟨rfl, rfl⟩

/-- After a deletion nothing has the id any more. -/
theorem Labelled.lacks_deleteUnder (h : s.Labelled)
    (hok : (s.deleteUnder fault id).1 = .ok ()) : (s.deleteUnder fault id).2.Lacks id := by
  obtain ⟨hloaded, -⟩ := h.loadUnder fault id
  have hcaches := s.caches_deleteUnder fault id
  obtain ⟨hanswer, hdatabase⟩ := s.deleteUnder_fst fault id
  generalize (s.loadUnder fault (.id id)).2 = u at hloaded hcaches hanswer hdatabase
  have hdelete : (u.database.deleteStatus id).1 = .ok () := hanswer.symm.trans hok
  obtain ⟨hopen, hrun⟩ := transact_ok hdelete
  obtain ⟨hthere, hrows, hkept⟩ := Statement.delete_ok hrun
  have hstatuses : (u.database.deleteStatus id).2.tables.statuses =
      u.database.tables.statuses.filter (·.value.id ≠ id) := hrows
  have hdropped : (u.database.deleteStatus id).2.tables.dropped = u.database.tables.dropped := hkept
  refine ⟨hloaded.invalidated hcaches, ⟨?_, ?_⟩, fun hx => ?_, fun r hr => ?_⟩
  · rw [hdatabase]
    exact (isClosed_transact _ _).trans hopen
  · rw [hdatabase, Tables.require, hdropped]
    exact hthere
  · rw [hcaches] at hx
    exact (hloaded.ordered.found_invalidated hx).2
  · rw [hdatabase, hstatuses] at hr
    simpa using (List.mem_filter.1 hr).2

/-- Of the cached lists those stay that do not depend on what the load found. -/
theorem Labelled.cachedList_deleteUnder (h : s.Labelled) :
    (s.deleteUnder fault id).2.cachedList? kind target = some l ↔
      s.cachedList? kind target = some l ∧
        ∀ w, (s.loadUnder fault (.id id)).1 = .ok w → ¬ Drops w kind target := by
  obtain ⟨hloaded, hcached⟩ := h.loadUnder fault id
  obtain ⟨-, -, hlists⟩ := s.frame_loadUnder fault (.id id)
  have hfound : ∀ w, (s.loadUnder fault (.id id)).1 = .ok w ↔
      (s.loadUnder fault (.id id)).2.cached? (.id id) = some w := by
    intro w
    rw [hcached]
    cases (s.loadUnder fault (.id id)).1 <;> simp [Except.toOption]
  rw [cachedList?, caches_deleteUnder, hloaded.ordered.list_invalidated_iff hloaded.filed, hlists]
  refine and_congr_right fun hl => forall_congr' fun w => ?_
  rw [hfound, Key.encode_ofTarget_inj (h.filed hl)]
  rfl

/-- Whatever was done with a store and became of its database: after a deletion that succeeds
nothing that is cached or served is the status with the id.  A list has the id still just if it was
cached with it and does not depend on what the load before the deletion found; then it counts it, and
the descendants that it is one of cannot be answered. -/
theorem befallAll_delete_serves {config : Config} {db : Database} {start : Store}
    (hstart : ofDatabase config db = .ok start) (incidents : List Incident)
    (hok : ((start.befallAll incidents).deleteUnder fault id).1 = .ok ()) :
    let s := start.befallAll incidents
    let u := (s.deleteUnder fault id).2
    s.deleteUnder none id = s.delete id ∧
    (∀ k x, u.caches.statuses.index.get? k = some x → x.id ≠ id) ∧
    (∀ mode, (u.get (.id id) mode).1 = .error .notFound) ∧
    (∀ kind target mode, ∃ served, (u.listed kind target mode).1 = .ok served ∧
      ∀ x ∈ served, x.id ≠ id) ∧
    (∀ target mode found, (u.descendants target mode).1 = .ok found →
      (∀ ids, (u.loadList .replies target).1 = .ok ids → id ∉ ids) ∧ ∀ x ∈ found, x.id ≠ id) ∧
    ∀ kind target, ∃ ids, (u.loadList kind target).1 = .ok ids ∧
      (u.countListed kind target).1 = .ok ids.length ∧
      (id ∈ ids ↔ ∃ l, s.cachedList? kind target = some l ∧ id ∈ l.ids ∧
        ∀ w, (s.loadUnder fault (.id id)).1 = .ok w → ¬ Drops w kind target) := by
  intro s u
  have hlabelled : s.Labelled := labelled_befallAll hstart incidents
  have hlacks : u.Lacks id := hlabelled.lacks_deleteUnder hok
  refine ⟨s.deleteUnder_none id, fun _ _ => hlacks.uncached, fun mode => ?_, hlacks.listed_ok,
    fun target mode found => hlacks.descendants_ok, fun kind target => ?_⟩
  · exact (get_of_load_error hlacks.load_id mode).1
  · obtain ⟨ids, hload, hlisted⟩ := hlacks.loadList_ok kind target
    have hcount : (u.countListed kind target).1 = .ok ids.length := by
      have hlength : (u.countListed kind target).1 =
          (u.loadList kind target).1.map List.length := rfl
      rw [hlength, hload]
      rfl
    refine ⟨ids, hload, hcount, hlisted.trans (exists_congr fun l => ?_)⟩
    rw [hlabelled.cachedList_deleteUnder, and_assoc]
    exact and_congr_right fun _ => and_comm

/-! ### A reply that is not read -/

/-- A status and a reply to it.  The replies are counted after a restart, so that their list is cached
and the reply is not. -/
def counted : List Incident := [
  .use (.put { (default : Status) with id := "01A", uri := "a" } ⟨"T", default⟩),
  .use (.put { (default : Status) with id := "01R", uri := "r", inReplyToId := some "01A" }
    ⟨"U", default⟩),
  .use .restart,
  .use (.read (.countReplies "01A") .barebones)]

/-- The load before the deletion gets no answer, and the reply stays in the list. -/
theorem befallAll_delete_serves_counted :
    let deleted := (beginning.befallAll counted).deleteUnder (some (.database .closedPool)) "01R"
    deleted.1 = .ok () ∧ ∃ ids, (deleted.2.loadList .replies "01A").1 = .ok ids ∧ "01R" ∈ ids := by
  have hok : ((beginning.befallAll counted).deleteUnder (some (.database .closedPool)) "01R").1 =
      .ok () := rfl
  have hcached : (beginning.befallAll counted).cachedList? .replies "01A" =
      some ⟨"01A", ["01R"]⟩ := by decide +kernel
  have hunanswered : ((beginning.befallAll counted).loadUnder (some (.database .closedPool))
      (.id "01R")).1 = .error (.database .closedPool) := rfl
  obtain ⟨-, -, -, -, -, hlists⟩ := befallAll_delete_serves ofDatabase_beginning counted hok
  obtain ⟨ids, hload, -, hlisted⟩ := hlists .replies "01A"
  refine ⟨hok, ids, hload, hlisted.2 ⟨_, hcached, List.mem_singleton_self _, fun w hw => ?_⟩⟩
  rw [hunanswered] at hw
  cases hw

/-- The reply's time of creation is overwritten with what is no time. -/
def garbled : Database :=
  ((beginning.befallAll counted).database.overwrite "statuses" "01R" "created_at"
    (some "soon")).toOption.elim {} (·.2)

/-- A reply whose row does not read is deleted, and is still counted. -/
theorem delete_keeps_counted_reply :
    let deleted := (beginning.befallAll (counted ++ [.replaced garbled])).delete "01R"
    deleted.1.toOption = some () ∧ deleted.2.database.tables.statuses.map (·.value.id) = ["01A"] ∧
      (deleted.2.countReplies "01A").1.toOption = some 1 := by
  decide +kernel

end Store

end StatusStore
