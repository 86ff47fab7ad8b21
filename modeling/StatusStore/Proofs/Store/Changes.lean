/-
  StatusStore/Proofs/Store/Changes.lean
  =====================================
  **What can happen to a store.**  Whatever is done with a store, its rows and what
  it caches change in few ways: a status or a list is loaded, a write is committed
  and its status cached, a row is deleted and its status dropped, or all caches are
  emptied.  `Change` has a case for each of these.  It holds of any store with tidy
  rows and indexes, whatever is cached in it, and needs neither open connections nor
  that all tables are there.

  Main statements: `changes_afterAll`, that a run is made of changes, `Changes.keeps`,
  that what each change keeps is kept, and `Change.found`, which says where all that is
  found after a change comes from.
-/
import StatusStore.Proofs.Store.Loads
import StatusStore.Proofs.Store.Runs

namespace StatusStore.Store

open Cache Database

variable {s u v : Store} {kind : ListKind} {k id : String} {w : Status} {l : IdList}

/-- The same rows, and the same found in the caches. -/
structure Unchanged (s u : Store) : Prop where
  statuses : u.database.tables.statuses = s.database.tables.statuses
  index : u.caches.statuses.index = s.caches.statuses.index
  lists : ∀ kind, (u.caches.lists kind).index = (s.caches.lists kind).index

/-- Which lookups may be loaded, those of ids among them, and which updates may be made in which
store. -/
structure Terms where
  loads : Lookup → Prop
  ids : ∀ id, loads (.id id)
  updates : Store → Status → List StatusColumn → Prop

inductive Change (T : Terms) (s u : Store) : Prop
  | unchanged (h : Unchanged s u)
  | loaded {l : Lookup} {answer : Except Error Status} (hl : T.loads l)
      (statuses : u.database.tables.statuses = s.database.tables.statuses)
      (lists : ∀ kind, u.caches.lists kind = s.caches.lists kind) (h : Loads s l u answer)
  | listed {kind : ListKind} {target : String} {answer : Except Error (List String)}
      (statuses : u.database.tables.statuses = s.database.tables.statuses)
      (cached : u.caches.statuses = s.caches.statuses)
      (others : ∀ other, other ≠ kind → u.caches.lists other = s.caches.lists other)
      (h : LoadsList s kind target u answer)
  | put {w : Status}
      (statuses : u.database.tables.statuses = s.database.tables.statuses ++ [{ value := w.toRow }])
      (caches : u.caches = s.caches.committed w.barebones)
  | updated {w : Status} {columns : List StatusColumn} {row : Stored StatusRow}
      (allowed : T.updates s w columns) (hrow : row ∈ s.database.tables.statuses)
      (hid : row.value.id = w.id)
      (statuses : u.database.tables.statuses = s.database.tables.statuses.map fun r =>
        if r.value.id = w.id then updateRow w.toRow (Statement.written columns) row else r)
      (caches : u.caches = s.caches.committed w.barebones)
  /-- The status was loaded just before, if its row was there. -/
  | deleted {id : String}
      (statuses : u.database.tables.statuses =
        s.database.tables.statuses.filter (·.value.id ≠ id))
      (known : ∀ r ∈ s.database.tables.statuses, r.value.id = id → ∃ w, s.cached? (.id id) = some w)
      (caches : u.caches = s.caches.invalidate (.ofLookup (.id id)))
  /-- The deletion failed. -/
  | dropped {id : String} (statuses : u.database.tables.statuses = s.database.tables.statuses)
      (caches : u.caches = s.caches.invalidate (.ofLookup (.id id)))
  | emptied (statuses : u.database.tables.statuses = s.database.tables.statuses)
      (index : u.caches.statuses.index = {}) (lists : ∀ kind, (u.caches.lists kind).index = {})

/-- `v` comes from `s` by changes between tidy stores. -/
inductive Changes (T : Terms) (s : Store) : Store → Prop
  | refl : Changes T s s
  | step {u v : Store} (h : Changes T s u) (hu : u.Tidy) (hv : v.Tidy) (change : Change T u v) :
      Changes T s v

namespace Changes

variable {T : Terms}

theorem single (hs : s.Tidy) (hu : u.Tidy) (change : Change T s u) : Changes T s u :=
  Changes.refl.step hs hu change

theorem trans (hsu : Changes T s u) (huv : Changes T u v) : Changes T s v := by
  induction huv with
  | refl => exact hsu
  | step _ hu hv change ih => exact ih.step hu hv change

theorem tidy (h : Changes T s u) (hs : s.Tidy) : u.Tidy := by
  cases h with
  | refl => exact hs
  | step _ _ hu _ => exact hu

/-- What every change keeps is kept. -/
theorem keeps {P : Store → Prop}
    (hkeeps : ∀ {s u}, s.Tidy → u.Tidy → Change T s u → P s → P u) (h : Changes T s u)
    (hs : P s) : P u := by
  induction h with
  | refl => exact hs
  | step _ hu hv change ih => exact hkeeps hu hv change ih

end Changes

variable {T : Terms}

/-! ### Loads and queries -/

theorem Tidy.unchanged (h : s.Tidy) (hsame : Unchanged s u) : Changes T s u :=
  .single h (h.congr hsame.statuses hsame.index hsame.lists) (.unchanged hsame)

theorem Tidy.changes_load (h : s.Tidy) {l : Lookup} (hl : T.loads l) :
    Changes T s (s.load l).2 := by
  obtain ⟨htidy, hloads⟩ := h.load l
  obtain ⟨htables, -, hlists⟩ := s.frame_load l
  exact .single h htidy (.loaded hl (congrArg (·.statuses) htables) hlists hloads)

theorem Tidy.changes_loadList (h : s.Tidy) (kind : ListKind) (target : String) :
    Changes T s (s.loadList kind target).2 := by
  obtain ⟨htidy, hloads⟩ := h.loadList kind target
  obtain ⟨htables, -, hcached, hothers⟩ := s.frame_loadList kind target
  exact .single h htidy (.listed (congrArg (·.statuses) htables) hcached hothers hloads)

/-- What reads are made of is made of changes. -/
theorem Fetches.changes (h : Fetches T.loads s u) (hs : s.Tidy) : Changes T s u := by
  induction h with
  | refl => exact .refl
  | load hl _ ih => exact ih.trans ((ih.tidy hs).changes_load hl)
  | loadList kind target _ ih => exact ih.trans ((ih.tidy hs).changes_loadList kind target)
  | queried tables _ _ ih =>
    exact ih.trans ((ih.tidy hs).unchanged ⟨congrArg (·.statuses) tables, rfl, fun _ => rfl⟩)

/-! ### Writes -/

theorem Tidy.committed {w : Status} (h : s.Tidy) (intact : u.database.tables.Intact)
    (caches : u.caches = s.caches.committed w) : u.Tidy :=
  .of_ordered intact (caches ▸ h.ordered.committed w)

/-- A status that is found after another was committed is that one, or was found before. -/
theorem Tidy.found_committed {w x : Status} {k : String} (h : s.Tidy)
    (caches : u.caches = s.caches.committed w) (hx : u.caches.statuses.index.get? k = some x) :
    (k ∈ aliases w ∧ x = w) ∨ (k ∉ aliases w ∧ k ∉ staleAliases w ∧
      s.caches.statuses.index.get? k = some x ∧ x.id ≠ w.id) :=
  h.ordered.found_committed (caches ▸ hx)

/-- A list that is found after a status was committed does not depend on it, nor on what it
displaced. -/
theorem Tidy.list_committed (hs : s.Tidy) (caches : u.caches = s.caches.committed w.barebones)
    (hl : (u.caches.lists kind).index.get? k = some l) :
    (s.caches.lists kind).index.get? k = some l ∧ ¬ Drops w kind l.target ∧
      ∀ a ∈ aliases w, ∀ v, s.caches.statuses.index.get? a = some v → ¬ Drops v kind l.target :=
  hs.ordered.list_committed (v := w.barebones) (caches ▸ hl)

/-- A write that is one transaction fails and changes nothing, or it is committed. -/
theorem Tidy.save {w : Status} {statements : List Statement} (h : s.Tidy)
    (committed : ∀ u : Store, (s.database.transact statements).1 = .ok () →
      u.database = (s.database.transact statements).2 →
      u.caches = s.caches.committed w.barebones → Changes T s u) :
    Changes T s (s.save w (·.transact statements)).2 := by
  rcases s.save_cases w (·.transact statements) with ⟨e, hfailed, started, hsave⟩ | ⟨hok, hsave⟩
  · rw [hsave]
    refine h.unchanged ⟨?_, rfl, fun kind => by cases kind <;> rfl⟩
    exact congrArg (·.statuses) (tables_of_transact_error hfailed)
  · rw [hsave]
    exact committed _ hok rfl rfl

theorem Tidy.changes_put (h : s.Tidy) (status : Status) (fresh : Thread) :
    Changes T s (s.put status fresh).2.2 := by
  unfold Store.put
  generalize status.startThread fresh = begun
  obtain ⟨newThread, w⟩ := begun
  have hsaved : Changes T s (s.save w (·.transact (Statement.put w newThread))).2 := by
    apply h.save
    intro u hok hdatabase hcaches
    obtain ⟨hintact, hstatuses⟩ := h.intact.put (transact_ok hok).2
    rw [← hdatabase] at hintact hstatuses
    exact .single h (h.committed hintact hcaches) (.put hstatuses hcaches)
  dsimp only
  split <;>
    rename_i u hsave <;>
    rw [show s.save w (·.transact (Statement.put w newThread)) = _ from hsave] at hsaved
  · exact hsaved.trans ((hsaved.tidy h).unchanged ⟨rfl, rfl, fun _ => rfl⟩)
  · exact hsaved

theorem Tidy.changes_update (h : s.Tidy) {status : Status} {columns : List StatusColumn}
    {now : Timestamp}
    (hallowed : (s.database.updateStatus { status with updatedAt := now } columns).1 = .ok () →
      T.updates s { status with updatedAt := now } columns) :
    Changes T s (s.update status columns now).2.2 := by
  unfold Store.update
  generalize ({ status with updatedAt := now } : Status) = w at hallowed ⊢
  have hsaved : Changes T s (s.save w (·.transact (Statement.update w columns))).2 := by
    apply h.save
    intro u hok hdatabase hcaches
    obtain ⟨hintact, row, hrow, hid, hstatuses⟩ := h.intact.update (transact_ok hok).2
    rw [← hdatabase] at hintact hstatuses
    exact .single h (h.committed hintact hcaches) (.updated (hallowed hok) hrow hid hstatuses hcaches)
  dsimp only
  split <;>
    rename_i u hsave <;>
    rw [show s.save w (·.transact (Statement.update w columns)) = _ from hsave] at hsaved
  · exact hsaved.trans ((hsaved.tidy h).unchanged ⟨rfl, rfl, fun _ => rfl⟩)
  · exact hsaved

/-! ### Deletions -/

theorem Tidy.found_invalidated {x : Status} {k id : String} (h : s.Tidy)
    (caches : u.caches = s.caches.invalidate (.ofLookup (.id id)))
    (hx : u.caches.statuses.index.get? k = some x) :
    s.caches.statuses.index.get? k = some x ∧ x.id ≠ id :=
  h.ordered.found_invalidated (caches ▸ hx)

/-- A list that is found after a status was dropped does not depend on it. -/
theorem Tidy.list_invalidated (hs : s.Tidy)
    (caches : u.caches = s.caches.invalidate (.ofLookup (.id id)))
    (hl : (u.caches.lists kind).index.get? k = some l) :
    (s.caches.lists kind).index.get? k = some l ∧
      ∀ v, s.cached? (.id id) = some v → ¬ Drops v kind l.target :=
  hs.ordered.list_invalidated (caches ▸ hl)

theorem Tidy.invalidated {key : Key} (h : s.Tidy) (intact : u.database.tables.Intact)
    (caches : u.caches = s.caches.invalidate key) : u.Tidy :=
  .of_ordered intact (caches ▸ h.ordered.invalidated key)

theorem Tidy.changes_delete (h : s.Tidy) (id : String) : Changes T s (s.delete id).2 := by
  obtain ⟨htidy, hloads⟩ := h.load (.id id)
  obtain ⟨htables, hclosed, -⟩ := s.frame_load (.id id)
  have hloaded : Changes T s (s.load (.id id)).2 := h.changes_load (T.ids id)
  unfold Store.delete
  rw [get_barebones]
  dsimp only
  generalize (s.load (.id id)).1 = existing at hloads ⊢
  generalize (s.load (.id id)).2 = u at htidy hloads hloaded htables hclosed ⊢
  have hdeleted : Changes T u { u with
      database := (u.database.deleteStatus id).2
      caches := u.caches.invalidate (.ofLookup (.id id)) } := by
    cases hanswer : (u.database.deleteStatus id).1 with
    | error e =>
      have hsame := congrArg (·.statuses) (tables_of_transact_error hanswer)
      exact .single htidy (htidy.invalidated (htidy.intact.of_eq hsame) rfl) (.dropped hsame rfl)
    | ok _ =>
      obtain ⟨hopen, hrun⟩ := transact_ok hanswer
      obtain ⟨hintact, hstatuses⟩ := htidy.intact.delete hrun
      have hready := (Statement.delete_ok hrun).1
      rw [htables] at hready
      refine .single htidy (htidy.invalidated hintact rfl) (.deleted hstatuses ?_ rfl)
      rintro r hr rfl
      rw [htables] at hr
      have hstatus := h.intact.status_id hr
      exact hloads.cached ((select_of_ready (hclosed.symm.trans hopen) hready _).trans hstatus)
  split
  · exact (hloaded.trans hdeleted).trans
      ((hdeleted.tidy htidy).unchanged ⟨rfl, rfl, fun _ => rfl⟩)
  · exact hloaded.trans hdeleted

/-! ### What is found after a change -/

/-- Where a status that is found after a change comes from. -/
inductive Found (T : Terms) (s u : Store) (k : String) (x : Status) : Prop
  /-- It was found before, and the rows with its id are as they were. -/
  | kept (old : s.caches.statuses.index.get? k = some x)
      (rows : ∀ r : Stored StatusRow, r.value.id = x.id →
        (r ∈ u.database.tables.statuses ↔ r ∈ s.database.tables.statuses))
  | read {l : Lookup} {r : Stored StatusRow} (hl : T.loads l)
      (row : s.database.tables.statusRow? l = some r) (hr : r ∈ u.database.tables.statuses)
      (same : x = .ofRow r.value) (files : k ∈ aliases x ∨ (Key.ofLookup l).encode = k)
  | put {w : Status} (hr : { value := w.toRow } ∈ u.database.tables.statuses)
      (same : x = w.barebones) (named : k ∈ aliases x)
  | updated {w : Status} {columns : List StatusColumn} {row : Stored StatusRow}
      (allowed : T.updates s w columns) (hrow : row ∈ s.database.tables.statuses)
      (hid : row.value.id = w.id)
      (hr : updateRow w.toRow (Statement.written columns) row ∈ u.database.tables.statuses)
      (same : x = w.barebones) (named : k ∈ aliases x)

theorem Change.found {x : Status} (change : Change T s u) (hs : s.Tidy)
    (hx : u.caches.statuses.index.get? k = some x) : Found T s u k x := by
  have hstill : u.database.tables.statuses = s.database.tables.statuses →
      s.caches.statuses.index.get? k = some x → Found T s u k x :=
    fun hrows hold => .kept hold fun _ _ => by rw [hrows]
  cases change with
  | unchanged hsame => exact hstill hsame.statuses (hsame.index ▸ hx)
  | loaded hl statuses _ hloads =>
    cases hloads with
    | hit _ hsame => exact hstill statuses ((hsame k).symm.trans hx)
    | failed _ _ hsame => exact hstill statuses ((hsame k).symm.trans hx)
    | read _ hanswer hfound =>
      rcases hfound.1 hx with ⟨hfiles, rfl⟩ | ⟨-, hold, -⟩
      · obtain ⟨r, hrow, hsame⟩ := hs.intact.status_eq_ok.1 (select_eq_ok.1 hanswer).2.2
        have hr := statuses ▸ Tables.mem_of_statusRow? hrow
        exact .read hl hrow hr hsame.symm (hfiles.imp_right Option.some.inj)
      · exact hstill statuses hold
  | listed statuses cached _ _ => exact hstill statuses (cached ▸ hx)
  | @put w statuses caches =>
    rcases hs.found_committed caches hx with ⟨halias, hsame⟩ | ⟨-, -, hold, hother⟩
    · refine .put (w := w) ?_ hsame (hsame ▸ halias)
      rw [statuses]
      exact List.mem_append_right _ (List.mem_singleton_self _)
    · refine .kept hold fun r hid => ?_
      rw [statuses, List.mem_append, List.mem_singleton]
      refine ⟨fun hr => hr.resolve_right ?_, Or.inl⟩
      rintro rfl
      exact hother hid.symm
  | @updated w columns row hallowed hrow hid statuses caches =>
    rcases hs.found_committed caches hx with ⟨halias, hsame⟩ | ⟨-, -, hold, hother⟩
    · refine .updated hallowed hrow hid ?_ hsame (hsame ▸ halias)
      rw [statuses]
      exact List.mem_map.2 ⟨row, hrow, if_pos hid⟩
    · refine .kept hold fun r hrid => ?_
      rw [statuses, List.mem_map]
      constructor
      · rintro ⟨q, hq, rfl⟩
        split at hrid
        · have hnewId := (sameOrigin_updateRow w.toRow (Statement.written columns) row).id
          exact absurd (hrid.symm.trans (hnewId.symm.trans hid)) hother
        · rename_i hqid
          rw [if_neg hqid]
          exact hq
      · intro hr
        exact ⟨r, hr, if_neg (hrid ▸ hother)⟩
  | @deleted id statuses _ caches =>
    obtain ⟨hold, hother⟩ := hs.found_invalidated caches hx
    refine .kept hold fun r hid => ?_
    rw [statuses, List.mem_filter, hid]
    simp [hother]
  | dropped statuses caches => exact hstill statuses (hs.found_invalidated caches hx).1
  | emptied _ index _ =>
    rw [index] at hx
    cases hx

/-! ### Runs -/

theorem tidy_ofDatabase {config : Config} {db : Database} (hstart : ofDatabase config db = .ok s)
    (intact : db.tables.Intact) : s.Tidy := by
  have hordered := ordered_ofDatabase hstart
  obtain ⟨queue, rfl⟩ := ofDatabase_ok hstart
  exact .of_ordered intact hordered

/-- Whether an operation keeps to the terms, which an update that fails always does. -/
def Terms.Admits (T : Terms) (s : Store) : Operation → Prop
  | .read r _ => ∀ l, r.lookup? = some l → T.loads l
  | .update status columns now =>
    (s.database.updateStatus { status with updatedAt := now } columns).1 = .ok () →
      T.updates s { status with updatedAt := now } columns
  | _ => True

theorem Tidy.changes_perform {operation : Operation} (h : s.Tidy)
    (hadmits : T.Admits s operation) : Changes T s (s.perform operation) := by
  cases operation with
  | put status fresh => exact h.changes_put status fresh
  | update status columns now => exact h.changes_update hadmits
  | delete id => exact h.changes_delete id
  | read r mode => exact (fetches_read T.ids hadmits s mode).changes h
  | populate status => exact (s.fetches_populate T.ids status).changes h
  | restart =>
    have hlists : ∀ kind, (s.restarted.caches.lists kind).index = {} := fun kind => by
      cases kind <;> rfl
    exact .single h (.of_ordered h.intact (.of_empty rfl hlists)) (.emptied rfl rfl hlists)

/-- A run that keeps to the terms is made of changes. -/
theorem Tidy.changes_afterAll {events : List Event} (h : s.Tidy)
    (hadmits : s.Along T.Admits events) : Changes T s (s.afterAll events) := by
  induction events generalizing s with
  | nil => exact .refl
  | cons event events ih =>
    obtain ⟨hfirst, hrest⟩ := hadmits
    have hevent : Changes T s (s.after event) := by
      cases event with
      | use operation => exact h.changes_perform (hfirst operation rfl)
      | outage isClosed dropped => exact h.unchanged ⟨rfl, rfl, fun _ => rfl⟩
    exact hevent.trans (ih (hevent.tidy h) hrest)

end StatusStore.Store
