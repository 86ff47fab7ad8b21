/-
  StatusStore/Proofs/Store/Listings.lean
  ======================================
  **What is served of a list.**  The statuses in a list are looked up by the ids in
  it, one by one.  In a store whose cached statuses are rooted in rows of the same
  id, all those are found that have a row, populated or not, so that the list is
  served as it is cached.

  Main statements: `Rooted.of_change` and `Rooted.serves`.
-/
import StatusStore.Proofs.Store.Changes
import StatusStore.Proofs.Store.Population

namespace StatusStore

open Cache Database

namespace Store

variable {s u : Store} {kind : ListKind} {target id : String}

/-! ### Rooted stores -/

/-- What is cached has the id of a row, and that by which it is found. -/
structure Rooted (s : Store) : Prop where
  there : ∀ {k x}, s.caches.statuses.index.get? k = some x →
    ∃ r ∈ s.database.tables.statuses, r.value.id = x.id
  named : ∀ {id x}, s.cached? (.id id) = some x → x.id = id

theorem Rooted.of_change {T : Terms} (h : s.Rooted) (hs : s.Tidy) (change : Change T s u) :
    u.Rooted where
  there hx := by
    cases change.found hs hx with
    | kept hold hrows =>
      obtain ⟨r, hr, hid⟩ := h.there hold
      exact ⟨r, (hrows r hid).2 hr, hid⟩
    | read _ _ hr hsame _ =>
      subst hsame
      exact ⟨_, hr, rfl⟩
    | put hr hsame _ =>
      subst hsame
      exact ⟨_, hr, rfl⟩
    | updated _ _ hid hr hsame _ =>
      subst hsame
      exact ⟨_, hr, (sameOrigin_updateRow _ _ _).id.symm.trans hid⟩
  named {id x} hx := by
    cases change.found hs hx with
    | kept hold _ => exact h.named hold
    | read _ hrow _ hsame hfiles =>
      rcases hfiles with halias | hlookup
      · exact eq_id_of_alias halias
      · obtain rfl := Key.eq_of_encode (m := .id id) rfl hlookup
        subst hsame
        exact Lookup.describes_id.1 (Tables.describes_of_statusRow? hrow)
    | put _ _ halias => exact eq_id_of_alias halias
    | updated _ _ _ _ _ halias => exact eq_id_of_alias halias

theorem rooted_ofDatabase {config : Config} {db : Database} (hstart : ofDatabase config db = .ok s) :
    s.Rooted := by
  obtain ⟨queue, rfl⟩ := ofDatabase_ok hstart
  constructor
  · intro k x hx
    cases hx
  · intro id x hx
    cases hx

def anyTerms : Terms where
  loads _ := True
  ids _ := trivial
  updates _ _ _ := True

theorem along_anyTerms (s : Store) (events : List Event) : s.Along anyTerms.Admits events := by
  induction events generalizing s with
  | nil => trivial
  | cons event events ih =>
    refine ⟨fun operation _ => ?_, ih _⟩
    cases operation with
    | update status columns now => exact fun _ => trivial
    | read r mode => exact fun _ _ => trivial
    | _ => trivial

/-- In every run what is cached is rooted. -/
theorem rooted_afterAll {config : Config} {db : Database} (hstart : ofDatabase config db = .ok s)
    (intact : db.tables.Intact) (events : List Event) :
    (s.afterAll events).Tidy ∧ (s.afterAll events).Rooted := by
  have hbegun := tidy_ofDatabase hstart intact
  have hchanges : Changes anyTerms s (s.afterAll events) :=
    hbegun.changes_afterAll (s.along_anyTerms events)
  exact ⟨hchanges.tidy hbegun,
    hchanges.keeps (fun hs _ change h => h.of_change hs change) (rooted_ofDatabase hstart)⟩

/-! ### Lists that are served -/

/-- The list of `target` is counted and served as the rows say, its statuses populated or not. -/
def Serves (s : Store) (kind : ListKind) (target : String) : Prop :=
  (s.countListed kind target).1 = .ok (s.database.tables.listed kind target).length ∧
  ∀ mode, ∃ served, (s.listed kind target mode).1 = .ok served ∧
    served.map (·.id) = s.database.tables.listed kind target

/-- The terms of a reader, who makes no updates. -/
def readTerms : Terms where
  loads _ := True
  ids _ := trivial
  updates _ _ _ := False

/-- Reads keep a store tidy, rooted and readable. -/
theorem Fetches.rooted (h : Fetches readTerms.loads s u) (hs : s.Tidy) (hrooted : s.Rooted)
    (hread : s.Readable) :
    u.Tidy ∧ u.Rooted ∧ u.Readable ∧ u.database.tables = s.database.tables := by
  have hchanges : Changes readTerms s u := h.changes hs
  obtain ⟨htables, hclosed⟩ := h.frame
  refine ⟨hchanges.tidy hs, hchanges.keeps (fun hs _ change h => h.of_change hs change) hrooted,
    ⟨hclosed.trans hread.opened, htables ▸ hread.there⟩, htables⟩

namespace Rooted

/-- A status with a row is found by its id. -/
theorem load_id (h : s.Rooted) (hs : s.Tidy) (hread : s.Readable)
    (hrow : ∃ r ∈ s.database.tables.statuses, r.value.id = id) :
    ∃ w, (s.load (.id id)).1 = .ok w ∧ w.id = id := by
  obtain ⟨r, hr, rfl⟩ := hrow
  have hanswer : (s.database.status (.id r.value.id)).1 = .ok (.ofRow r.value) :=
    (select_of_ready hread.opened hread.there _).trans (hs.intact.status_id hr)
  obtain ⟨-, hloads⟩ := hs.load (.id r.value.id)
  generalize (s.load (.id r.value.id)).1 = answer at hloads ⊢
  cases hloads with
  | hit hcached _ => exact ⟨_, rfl, h.named hcached⟩
  | failed _ hfailed _ =>
    rw [hanswer] at hfailed
    cases hfailed
  | read _ hread _ =>
    rw [hanswer] at hread
    cases hread
    exact ⟨_, rfl, rfl⟩

theorem getMany_ids {ids : List String} (h : s.Rooted) (hs : s.Tidy) (hread : s.Readable)
    (mode : Retrieval)
    (hrows : ∀ id ∈ ids, ∃ r ∈ s.database.tables.statuses, r.value.id = id) :
    (s.getMany mode ids).1.map (·.id) = ids := by
  induction ids generalizing s with
  | nil => rfl
  | cons id ids ih =>
    obtain ⟨hfirst, hrest⟩ := List.forall_mem_cons.1 hrows
    obtain ⟨w, hload, rfl⟩ := h.load_id hs hread hfirst
    obtain ⟨x, hget, hrow, -⟩ := get_of_load_ok hload mode
    have hid : x.id = w.id := congrArg (·.id) hrow
    obtain ⟨hu, hrooted, hureadable, htables⟩ :=
      (fetches_get (p := readTerms.loads) (fun _ => trivial) trivial s mode).rooted hs h hread
    have hmany := ih (s := (s.get (.id w.id) mode).2) hrooted hu hureadable (htables ▸ hrest)
    simp only [getMany, hget, List.map_cons, hid, hmany]

/-- A list is served right if it is cached right or not at all. -/
theorem serves (h : s.Rooted) (hs : s.Tidy) (hread : s.Readable)
    (hcached : ∀ l, s.cachedList? kind target = some l →
      l.ids = s.database.tables.listed kind target) : s.Serves kind target := by
  have hquery : (listQuery kind target s.database).1 =
      .ok (s.database.tables.listed kind target) := select_of_ready hread.opened hread.there _
  obtain ⟨-, hloads⟩ := hs.loadList kind target
  have hload : (s.loadList kind target).1 = .ok (s.database.tables.listed kind target) := by
    generalize (s.loadList kind target).1 = answer at hloads ⊢
    cases hloads with
    | hit hfound _ => rw [hcached _ hfound]
    | failed _ hfailed _ =>
      rw [hquery] at hfailed
      cases hfailed
    | read _ _ => rfl
  obtain ⟨hu, hrooted, hureadable, htables⟩ :=
    (s.fetches_loadList (p := readTerms.loads) kind target).rooted hs h hread
  unfold Serves countListed listed
  generalize s.loadList kind target = loaded at hload hu hrooted hureadable htables ⊢
  obtain ⟨_, u⟩ := loaded
  cases hload
  refine ⟨rfl, fun mode => ⟨_, rfl, hrooted.getMany_ids hu hureadable mode ?_⟩⟩
  intro id hid
  obtain ⟨r, hr, hrid, -⟩ := Tables.mem_listed.1 hid
  exact ⟨r, htables ▸ hr, hrid⟩

end Rooted

/-- The length of a cached list is served as it is. -/
theorem Tidy.countListed_cached {l : IdList} (hs : s.Tidy)
    (hcached : s.cachedList? kind target = some l) :
    (s.countListed kind target).1 = .ok l.ids.length := by
  obtain ⟨-, hloads⟩ := hs.loadList kind target
  have hcount : (s.countListed kind target).1 =
      (s.loadList kind target).1.map List.length := rfl
  rw [hcount]
  generalize (s.loadList kind target).1 = answer at hloads ⊢
  cases hloads with
  | hit hfound _ =>
    rw [hcached] at hfound
    cases hfound
    rfl
  | failed habsent _ _ =>
    rw [hcached] at habsent
    cases habsent
  | read habsent _ =>
    rw [hcached] at habsent
    cases habsent

end Store

end StatusStore
