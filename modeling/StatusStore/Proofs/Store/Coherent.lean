/-
  StatusStore/Proofs/Store/Coherent.lean
  ======================================
  **Caches that agree with the tables.**  In a coherent store whatever is cached
  under a lookup is what the tables answer to it, and a cached list is the list of
  the rows that it is made of.  Then a load answers what the tables do, whether it
  hits or misses, and leaves a coherent store.

  Main statements: `Coherent.load` and `Coherent.loadList`.
-/
import StatusStore.Proofs.Store.Loads

namespace StatusStore

open Cache

namespace Store

/-- The database is healthy, its rows share no url and no poll, and what is cached is what the
tables answer. -/
structure Coherent (s : Store) : Prop where
  healthy : s.database.Healthy
  distinct : s.database.tables.Distinct
  sound : s.caches.statuses.index.Sound
  idle : s.caches.statuses.index.Idle
  listsSound : ∀ kind, (s.caches.lists kind).index.Sound
  listsIdle : ∀ kind, (s.caches.lists kind).index.Idle
  faithful : ∀ {l : Lookup} {w : Status}, l.IsPlain →
    s.caches.statuses.index.get? (Key.ofLookup l).encode = some w →
    s.database.tables.status l = .ok w
  listed : ∀ {kind : ListKind} {k : String} {l : IdList},
    (s.caches.lists kind).index.get? k = some l →
    k = (Key.ofTarget l.target).encode ∧ l.ids = s.database.tables.listed kind l.target

namespace Coherent

variable {s u : Store} {db : Database}

theorem of_empty (healthy : s.database.Healthy) (distinct : s.database.tables.Distinct)
    (statuses : s.caches.statuses.index = {}) (lists : ∀ kind, (s.caches.lists kind).index = {}) :
    s.Coherent where
  healthy := healthy
  distinct := distinct
  sound := statuses ▸ Index.sound_empty
  idle := statuses ▸ Index.idle_empty
  listsSound kind := lists kind ▸ Index.sound_empty
  listsIdle kind := lists kind ▸ Index.idle_empty
  faithful _ hw := by
    rw [statuses] at hw
    cases hw
  listed {kind _ _} hl := by
    rw [lists kind] at hl
    cases hl

theorem tells (h : s.Coherent) (l : Lookup) : s.database.tables.Tells l :=
  h.healthy.intact.tells h.distinct l

theorem tidy (h : s.Coherent) : s.Tidy :=
  ⟨h.healthy.intact, h.sound, h.idle, h.listsSound, h.listsIdle⟩

/-- What is cached may change as long as it is what the tables answer. -/
theorem recached (h : s.Coherent) (tidy : u.Tidy) (tables : u.database.tables = s.database.tables)
    (isClosed : u.database.isClosed = s.database.isClosed)
    (faithful : ∀ {l : Lookup} {w : Status}, l.IsPlain →
      u.caches.statuses.index.get? (Key.ofLookup l).encode = some w →
      s.database.tables.status l = .ok w)
    (listed : ∀ {kind : ListKind} {k : String} {l : IdList},
      (u.caches.lists kind).index.get? k = some l →
      k = (Key.ofTarget l.target).encode ∧ l.ids = s.database.tables.listed kind l.target) :
    u.Coherent where
  healthy := h.healthy.of_eq tables isClosed
  distinct := tables ▸ h.distinct
  sound := tidy.sound
  idle := tidy.idle
  listsSound := tidy.listsSound
  listsIdle := tidy.listsIdle
  faithful hl hw := tables ▸ faithful hl hw
  listed hl := tables ▸ listed hl

/-- Only the rows, the connections and what is cached have a part in coherence. -/
theorem congr (h : s.Coherent) (tables : u.database.tables = s.database.tables)
    (isClosed : u.database.isClosed = s.database.isClosed)
    (statuses : u.caches.statuses.index = s.caches.statuses.index)
    (lists : ∀ kind, (u.caches.lists kind).index = (s.caches.lists kind).index) : u.Coherent :=
  h.recached (h.tidy.congr (congrArg _ tables) statuses lists) tables isClosed
    (fun hl hw => h.faithful hl (statuses ▸ hw)) (fun {kind _ _} hl => h.listed (lists kind ▸ hl))

theorem queried (h : s.Coherent) (tables : db.tables = s.database.tables)
    (isClosed : db.isClosed = s.database.isClosed) : Coherent { s with database := db } :=
  h.congr tables isClosed rfl fun _ => rfl

/-- A load answers what the tables do, and caches it. -/
theorem load {l : Lookup} (h : s.Coherent) (hl : l.IsPlain) :
    (s.load l).1 = s.database.tables.status l ∧ (s.load l).2.Coherent ∧
      (s.load l).2.database.tables = s.database.tables ∧
      ∀ w, s.database.tables.status l = .ok w →
        (s.load l).2.caches.statuses.index.get? (Key.ofLookup l).encode = some w := by
  have hcompute : (s.database.status l).1 = s.database.tables.status l :=
    Database.select_of_ready h.healthy.isOpen (h.healthy.require _) _
  obtain ⟨htidy, hloads⟩ := h.tidy.load l
  obtain ⟨htables, hclosed, hlists⟩ := s.frame_load l
  have hcoherent := fun faithful => h.recached htidy htables hclosed faithful
    fun {kind _ _} hl => h.listed (hlists kind ▸ hl)
  generalize (s.load l).1 = answer at hloads ⊢
  cases hloads with
  | hit hcached hsame =>
    have hread := h.faithful hl hcached
    refine ⟨hread.symm, hcoherent fun hm hw => h.faithful hm (hsame _ ▸ hw), htables, fun w hw => ?_⟩
    rw [hread] at hw
    cases hw
    rw [hsame]
    exact hcached
  | failed _ hanswer hsame =>
    rw [hcompute] at hanswer
    refine ⟨hanswer.symm, hcoherent fun hm hw => h.faithful hm (hsame _ ▸ hw), htables, fun w hw => ?_⟩
    rw [hanswer] at hw
    cases hw
  | read _ hanswer hfound =>
    rw [hcompute] at hanswer
    refine ⟨hanswer.symm, hcoherent fun {m w} hm hw => ?_, htables, fun w hw => ?_⟩
    · rcases hfound.1 hw with ⟨hfiles, rfl⟩ | ⟨-, hold, -⟩
      · rcases hfiles with hown | hlookup
        · obtain ⟨r, hrow, rfl⟩ := h.healthy.intact.status_eq_ok.1 hanswer
          obtain ⟨hboost, hdescribes⟩ := (encode_mem_aliases hm).1 hown
          rw [Status.toRow_ofRow] at hdescribes
          exact h.healthy.intact.status_of_describes h.distinct
            (Database.Tables.mem_of_statusRow? hrow) hboost hdescribes
        · obtain rfl := Key.encode_ofLookup_inj hl hm (Option.some.inj hlookup)
          exact hanswer
      · exact h.faithful hm hold
    · rw [hanswer] at hw
      cases hw
      exact hfound.2 (Or.inl ⟨Or.inr rfl, rfl⟩)

/-- The load of a list answers what the rows have, and caches it. -/
theorem loadList (h : s.Coherent) (kind : ListKind) (target : String) :
    ∃ u, s.loadList kind target = (.ok (s.database.tables.listed kind target), u) ∧
      u.Coherent ∧ u.database.tables = s.database.tables := by
  have hquery : (listQuery kind target s.database).1 =
      .ok (s.database.tables.listed kind target) :=
    Database.select_of_ready h.healthy.isOpen (h.healthy.require _) _
  obtain ⟨htidy, hloads⟩ := h.tidy.loadList kind target
  obtain ⟨htables, hclosed, hstatuses, -⟩ := s.frame_loadList kind target
  have hcoherent : (s.loadList kind target).2.Coherent := by
    refine h.recached htidy htables hclosed (fun hm hw => h.faithful hm (hstatuses ▸ hw)) ?_
    intro other k l hl
    exact (found_loadList h.tidy.ordered hl).elim h.listed id
  refine ⟨(s.loadList kind target).2, Prod.ext ?_ rfl, hcoherent, htables⟩
  change (s.loadList kind target).1 = .ok (s.database.tables.listed kind target)
  generalize (s.loadList kind target).1 = answer at hloads ⊢
  cases hloads with
  | hit hcached _ =>
    obtain ⟨hkey, hids⟩ := h.listed hcached
    rw [hids, Key.encode_ofTarget_inj hkey]
  | failed _ hanswer _ =>
    rw [hquery] at hanswer
    cases hanswer
  | read _ _ => rfl

end Coherent

end Store

end StatusStore
