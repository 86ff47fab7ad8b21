/-
  StatusStore/Proofs/Store/Reparenting.lean
  =========================================
  **Statuses that move from one list to another.**  An update may give a status
  another parent, or make it the boost of another status.  The list that it enters
  is dropped, since the status that is stored names its target.  The list that it
  leaves is dropped only if a status that was cached names that, as the old version
  of the status does; where nothing of the kind is cached, the list stays and is
  served although it is out of date.

  Main statements: `Aligned.of_change` and `afterAll_update_serves`, which says after
  which updates all lists are right.
-/
import StatusStore.Proofs.Store.Listings
import StatusStore.Proofs.Store.Update

namespace StatusStore

open Cache Database

/-! ### Links -/

namespace Cache.ListKind

def column : ListKind → StatusColumn
  | .replies => .inReplyTo
  | .boosts => .boostOf

theorem link_of_agrees {kind : ListKind} {a b : StatusRow} (h : kind.column.Agrees a b) :
    kind.link a = kind.link b := by
  cases kind with
  | replies => exact h.1
  | boosts => exact h.1

theorem link_updateRow (kind : ListKind) (source : StatusRow) (columns : List StatusColumn)
    (row : Stored StatusRow) :
    kind.link (updateRow source columns row).value =
      if kind.column ∈ columns then kind.link source else kind.link row.value := by
  rw [← link_of_agrees (agrees_updateRow source columns row kind.column)]
  exact apply_ite kind.link _ _ _

end Cache.ListKind

namespace Store

variable {s u : Store} {w : Status} {columns : List StatusColumn} {row : Stored StatusRow}
  {kind : ListKind} {target k id : String} {l : IdList}

/-- Whether an update takes its row out of the list of `target`. -/
def Leaves (s : Store) (w : Status) (columns : List StatusColumn) (kind : ListKind)
    (target : String) : Prop :=
  kind.column ∈ Statement.written columns ∧ kind.link w.toRow ≠ some target ∧
    ∃ r ∈ s.database.tables.statuses, r.value.id = w.id ∧ kind.link r.value = some target

/-- Whether no list of `target` is left once the status is stored: none was cached, or it depends
on the status or on one that was cached under an alias of the status. -/
def Clears (s : Store) (w : Status) (kind : ListKind) (target : String) : Prop :=
  s.cachedList? kind target = none ∨ Drops w kind target ∨
    ∃ a ∈ aliases w, ∃ v, s.caches.statuses.index.get? a = some v ∧ Drops v kind target

/-- An update that leaves nothing behind that is out of date in its links: the copy has the links of
the row where these are not written, and no list stays that the row leaves. -/
structure Careful (s : Store) (w : Status) (columns : List StatusColumn) : Prop where
  carries : ∀ r ∈ s.database.tables.statuses, r.value.id = w.id →
    ∀ kind : ListKind, kind.column ∉ Statement.written columns →
      kind.link w.toRow = kind.link r.value
  clears : ∀ kind target, s.Leaves w columns kind target → s.Clears w kind target

def linkTerms : Terms where
  loads _ := True
  ids _ := trivial
  updates := Careful

/-! ### What an update drops -/

theorem Tidy.list_kept (hs : s.Tidy) (hfiled : s.caches.Filed)
    (caches : u.caches = s.caches.committed w.barebones)
    (hl : (s.caches.lists kind).index.get? k = some l) (hstays : ¬ s.Clears w kind l.target) :
    (u.caches.lists kind).index.get? k = some l := by
  have hsame := Caches.fewer_of_statuses hs.listsSound hs.listsIdle
    ({ s.caches.statuses with started := s.caches.statuses.started + 1 }.commit w.barebones).2
  rw [caches]
  refine hsame.kept_announce hfiled (by cases kind <;> exact hl) ?_
  intro v hv hdrops
  rcases List.mem_append.1 hv with hv | hv
  · obtain ⟨a, ha, hfound⟩ := hs.sound.linked.mem_commit_fst.1 hv
    exact hstays (Or.inr (Or.inr ⟨a, ha, v, hfound, hdrops⟩))
  · rw [List.mem_singleton.1 hv] at hdrops
    exact hstays (Or.inr (Or.inl hdrops))

/-! ### Aligned stores -/

/-- What is cached has the links of its row, and cached lists are what the rows say. -/
structure Aligned (s : Store) : Prop extends Rooted s where
  links : ∀ {k x}, s.caches.statuses.index.get? k = some x →
    ∀ r ∈ s.database.tables.statuses, r.value.id = x.id →
      ∀ kind : ListKind, kind.link x.toRow = kind.link r.value
  filed : s.caches.Filed
  lists : ∀ {kind : ListKind} {k l}, (s.caches.lists kind).index.get? k = some l →
    l.ids = s.database.tables.listed kind l.target

/-- A list that an update does not take its row out of, and that does not depend on the status, is as
it was. -/
theorem listed_updated (hs : s.Tidy) (hrow : row ∈ s.database.tables.statuses)
    (hid : row.value.id = w.id)
    (statuses : u.database.tables.statuses = s.database.tables.statuses.map fun r =>
      if r.value.id = w.id then updateRow w.toRow (Statement.written columns) row else r)
    (hdrops : ¬ Drops w kind target) (hstays : ¬ s.Leaves w columns kind target) :
    u.database.tables.listed kind target = s.database.tables.listed kind target := by
  have hnewId : (updateRow w.toRow (Statement.written columns) row).value.id = w.id :=
    (sameOrigin_updateRow _ _ row).id.symm.trans hid
  apply Tables.listed_replace hs.intact hrow hid hnewId statuses
  by_cases hlisted : kind.column ∈ Statement.written columns
  · -- The row is in the list neither before nor after.
    have hout : kind.link w.toRow ≠ some target := fun hlink => hdrops (drops_iff.2 (Or.inl hlink))
    have hnone : kind.link row.value ≠ some target := fun hlink =>
      hstays ⟨hlisted, hout, row, hrow, hid, hlink⟩
    rw [Bool.eq_iff_iff, ListKind.selects_iff, ListKind.selects_iff, ListKind.link_updateRow,
      if_pos hlisted]
    exact ⟨fun hlink => absurd hlink hout, fun hlink => absurd hlink hnone⟩
  · apply ListKind.selects_congr
    rw [ListKind.link_updateRow, if_neg hlisted]

namespace Aligned

/-- A list that is cached after an update is what the rows say, unless it is one that the row leaves
and nothing dropped. -/
theorem list_updated (h : s.Aligned) (hs : s.Tidy) (hrow : row ∈ s.database.tables.statuses)
    (hid : row.value.id = w.id)
    (statuses : u.database.tables.statuses = s.database.tables.statuses.map fun r =>
      if r.value.id = w.id then updateRow w.toRow (Statement.written columns) row else r)
    (caches : u.caches = s.caches.committed w.barebones)
    (hl : (u.caches.lists kind).index.get? k = some l)
    (hclears : s.Leaves w columns kind l.target → s.Clears w kind l.target) :
    k = (Key.ofTarget l.target).encode ∧ l.ids = u.database.tables.listed kind l.target := by
  obtain ⟨hold, hdrops, hnone⟩ := hs.list_committed caches hl
  obtain rfl := h.filed hold
  refine ⟨rfl, ?_⟩
  rw [listed_updated hs hrow hid statuses hdrops, h.lists hold]
  intro hleaves
  rcases hclears hleaves with habsent | hown | ⟨a, ha, v, hv, hdropped⟩
  · rw [cachedList?, hold] at habsent
    cases habsent
  · exact hdrops hown
  · exact hnone a ha v hv hdropped

theorem lists_of_change (h : s.Aligned) (hs : s.Tidy) (change : Change linkTerms s u)
    (hl : (u.caches.lists kind).index.get? k = some l) :
    k = (Key.ofTarget l.target).encode ∧ l.ids = u.database.tables.listed kind l.target := by
  have hstill : u.database.tables.statuses = s.database.tables.statuses →
      (s.caches.lists kind).index.get? k = some l →
      k = (Key.ofTarget l.target).encode ∧ l.ids = u.database.tables.listed kind l.target :=
    fun hrows hold => ⟨h.filed hold, (h.lists hold).trans (Tables.listed_congr hrows).symm⟩
  cases change with
  | unchanged hsame => exact hstill hsame.statuses (hsame.lists kind ▸ hl)
  | loaded _ statuses lists _ => exact hstill statuses (lists kind ▸ hl)
  | @listed other target _ statuses _ others hloads =>
    by_cases hkind : kind = other
    · subst hkind
      cases hloads with
      | hit _ hsame => exact hstill statuses ((hsame k).symm.trans hl)
      | failed _ _ hsame => exact hstill statuses ((hsame k).symm.trans hl)
      | read _ hfound =>
        rcases hfound hl with ⟨rfl, rfl⟩ | hold
        · exact ⟨rfl, (Tables.listed_congr statuses).symm⟩
        · exact hstill statuses hold
    · exact hstill statuses (others kind hkind ▸ hl)
  | @put w statuses caches =>
    obtain ⟨hold, hdrops, -⟩ := hs.list_committed caches hl
    refine ⟨h.filed hold, (h.lists hold).trans (Tables.listed_append statuses ?_).symm⟩
    exact ListKind.selects_eq_false.2 fun hlink => hdrops (drops_iff.2 (Or.inl hlink))
  | updated hcareful hrow hid statuses caches =>
    exact h.list_updated hs hrow hid statuses caches hl (hcareful.clears kind l.target)
  | @deleted id statuses known caches =>
    obtain ⟨hold, hdrops⟩ := hs.list_invalidated caches hl
    refine ⟨h.filed hold, (h.lists hold).trans (Tables.listed_filter statuses ?_).symm⟩
    refine fun r hr hrid => ListKind.selects_eq_false.2 fun hlink => ?_
    -- The status was cached when it was deleted, and named the target as its row does.
    obtain ⟨v, hv⟩ := known r hr hrid
    refine hdrops v hv (drops_iff.2 (Or.inl ?_))
    exact (h.links hv r hr (hrid.trans (h.named hv).symm) kind).trans hlink
  | dropped statuses caches => exact hstill statuses (hs.list_invalidated caches hl).1
  | emptied _ _ lists =>
    rw [lists kind] at hl
    cases hl

theorem links_of_change {x : Status} (h : s.Aligned) (hs : s.Tidy) (hu : u.Tidy)
    (change : Change linkTerms s u) (hx : u.caches.statuses.index.get? k = some x)
    {r : Stored StatusRow} (hr : r ∈ u.database.tables.statuses) (hrid : r.value.id = x.id)
    (kind : ListKind) : kind.link x.toRow = kind.link r.value := by
  cases change.found hs hx with
  | kept hold hrows => exact h.links hold r ((hrows r hrid).1 hr) hrid kind
  | read _ _ hq hsame _ =>
    subst hsame
    rw [hu.intact.eq_of_id hr hq hrid, Status.toRow_ofRow]
  | put hq hsame _ =>
    subst hsame
    rw [hu.intact.eq_of_id hr hq hrid]
    rfl
  | @updated w columns row hcareful hrow hid hq hsame _ =>
    subst hsame
    have hnewId : (updateRow w.toRow (Statement.written columns) row).value.id = w.id :=
      (sameOrigin_updateRow _ _ row).id.symm.trans hid
    rw [hu.intact.eq_of_id hr hq (hrid.trans hnewId.symm), ListKind.link_updateRow]
    split
    · rfl
    · rename_i hunlisted
      exact hcareful.carries row hrow hid kind hunlisted

/-- Every change keeps a store aligned, as long as updates are careful. -/
theorem of_change (h : s.Aligned) (hs : s.Tidy) (hu : u.Tidy) (change : Change linkTerms s u) :
    u.Aligned where
  toRooted := h.toRooted.of_change hs change
  links hx _ hr hid kind := h.links_of_change hs hu change hx hr hid kind
  filed hl := (h.lists_of_change hs change hl).1
  lists hl := (h.lists_of_change hs change hl).2

end Aligned

/-! ### Successful updates -/

variable {status kept : Status} {now : Timestamp}

/-- After a successful update all lists are served right just when those are dropped that its row
leaves. -/
theorem Aligned.update_serves (h : s.Aligned) (hs : s.Tidy)
    (hupdate : s.update status columns now = (.ok (), kept, u)) :
    (∀ kind target, u.Serves kind target) ↔
      ∀ kind target, s.Leaves kept columns kind target → s.Clears kept kind target := by
  obtain ⟨-, hwrite, hdatabase, hcaches⟩ := update_committed hupdate
  obtain ⟨hintact, row, hrow, hid, hstatuses⟩ := hs.intact.update (transact_ok hwrite).2
  rw [← Database.updateStatus, ← hdatabase] at hintact hstatuses
  have hu : u.Tidy := hs.committed hintact hcaches
  constructor
  · intro hserves kind target hleaves
    by_contra hkept
    cases hcached : s.cachedList? kind target with
    | none => exact hkept (Or.inl hcached)
    | some l =>
      obtain rfl := Key.encode_ofTarget_inj (h.filed hcached)
      have hstill : u.cachedList? kind l.target = some l :=
        hs.list_kept h.filed hcaches hcached hkept
      obtain ⟨hlisted, hout, r, hr, hrid, hlink⟩ := hleaves
      obtain rfl := hs.intact.eq_of_id hr hrow (hrid.trans hid.symm)
      have hgone : kind.link (updateRow kept.toRow (Statement.written columns) r).value ≠
          some l.target := by
        rw [ListKind.link_updateRow, if_pos hlisted]
        exact hout
      have hshorter := Tables.length_listed_lt hrow hid hstatuses (ListKind.selects_iff.2 hlink)
        (ListKind.selects_eq_false.2 hgone)
      -- The count that is served is that of the list as it was.
      have hcount := (hserves kind l.target).1
      rw [hu.countListed_cached hstill, h.lists hcached] at hcount
      exact absurd (Except.ok.inj hcount) (Nat.ne_of_gt hshorter)
  · intro hclears kind target
    have hchange : Change anyTerms s u := .updated trivial hrow hid hstatuses hcaches
    refine (h.toRooted.of_change hs hchange).serves hu (readable_of_update hupdate) fun l hl => ?_
    obtain ⟨hkey, hids⟩ := h.list_updated hs hrow hid hstatuses hcaches hl (hclears kind l.target)
    rw [hids, Key.encode_ofTarget_inj hkey]

/-- What is cached of a status names all lists that its row leaves. -/
theorem Aligned.clears_of_cached {v : Status} (h : s.Aligned)
    (hv : s.cached? (.id w.id) = some v) (hleaves : s.Leaves w columns kind target) :
    s.Clears w kind target := by
  obtain ⟨-, -, r, hr, hrid, hlink⟩ := hleaves
  refine Or.inr (Or.inr ⟨_, mem_aliases_id w, v, hv, drops_iff.2 (Or.inl ?_)⟩)
  exact (h.links hv r hr (hrid.trans (h.named hv).symm) kind).trans hlink

theorem aligned_ofDatabase {config : Config} {db : Database}
    (hstart : ofDatabase config db = .ok s) : s.Aligned := by
  have hrooted := rooted_ofDatabase hstart
  obtain ⟨queue, rfl⟩ := ofDatabase_ok hstart
  have hlists : ∀ kind k, ((Caches.withGcFrequency config.lockGcFrequency).lists kind).index.get? k =
      none := by
    intro kind k
    cases kind <;> rfl
  refine ⟨hrooted, fun hx => ?_, fun hl => ?_, fun hl => ?_⟩
  · cases hx
  · cases (hlists _ _).symm.trans hl
  · cases (hlists _ _).symm.trans hl

/-- Where earlier updates were careful, all replies and boosts are served as the rows have them after
an update just when no list stays cached that its row leaves.  That is so if the status was cached
before. -/
theorem afterAll_update_serves {config : Config} {db : Database} {start : Store}
    {events : List Event} (hstart : ofDatabase config db = .ok start) (intact : db.tables.Intact)
    (hadmits : start.Along linkTerms.Admits events)
    (hupdate : (start.afterAll events).update status columns now = (.ok (), kept, u)) :
    let s := start.afterAll events
    ((∀ kind target, u.Serves kind target) ↔
      ∀ kind target, s.Leaves kept columns kind target → s.Clears kept kind target) ∧
    ((s.cached? (.id kept.id)).isSome = true → ∀ kind target, u.Serves kind target) := by
  intro s
  have hbegun := tidy_ofDatabase hstart intact
  have hchanges : Changes linkTerms start s := hbegun.changes_afterAll hadmits
  have haligned : s.Aligned := hchanges.keeps
    (fun hs hu change h => h.of_change hs hu change) (aligned_ofDatabase hstart)
  have hserves := haligned.update_serves (hchanges.tidy hbegun) hupdate
  refine ⟨hserves, fun hcached => hserves.2 fun kind target hleaves => ?_⟩
  obtain ⟨v, hv⟩ := Option.isSome_iff_exists.1 hcached
  exact haligned.clears_of_cached hv hleaves

/-! ### A reply that moves -/

def remark (id : String) (parent : Option String) : Status :=
  { (default : Status) with id, uri := id, inReplyToId := parent, accountId := "ACC" }

/-- A reply is there, and after a restart the list of its parent is cached but the reply is not. -/
def remarking : List Event := [
  .use (.put (remark "A" none) ⟨"T", default⟩),
  .use (.put (remark "B" none) ⟨"U", default⟩),
  .use (.put (remark "R" (some "A")) ⟨"V", default⟩),
  .use (.update (remark "R" (some "A")) [.content] default),
  .use .restart,
  .use (.read (.countReplies "A") .barebones)]

/-- If the reply is read before it moves, all lists are right after it has moved. -/
theorem afterAll_update_serves_remark :
    let events := remarking ++ [.use (.read (.get (.id "R")) .barebones)]
    beginning.Along linkTerms.Admits events ∧
      ∃ kept u, (beginning.afterAll events).update (remark "R" (some "B")) [.inReplyTo] default =
        (.ok (), kept, u) ∧ ∀ kind target, u.Serves kind target := by
  intro events
  have hadmits : beginning.Along linkTerms.Admits events := by
    refine ⟨?_, ?_, ?_, ?_, ?_, ?_, ?_, trivial⟩ <;> rintro _ ⟨⟩
    · trivial
    · trivial
    · trivial
    · intro _
      constructor
      · have hrows : ∀ r ∈ (beginning.afterAll (remarking.take 3)).database.tables.statuses,
            r.value.id = "R" → r.value.inReplyToId = some "A" ∧ r.value.boostOfId = none := by
          decide +kernel
        intro r hr hid kind _
        obtain ⟨hparent, hboosted⟩ := hrows r hr hid
        cases kind
        · exact hparent.symm
        · exact hboosted.symm
      · rintro kind target ⟨hlisted, -⟩
        cases kind <;> simp [ListKind.column, Statement.written] at hlisted
    · trivial
    · rintro _ ⟨⟩
    · exact fun _ _ => trivial
  have hempty : Tables.Intact {} := ⟨by simp, by simp⟩
  have hcached : ((beginning.afterAll events).cached? (.id "R")).isSome = true := by decide +kernel
  have hok : ((beginning.afterAll events).update (remark "R" (some "B")) [.inReplyTo]
      default).1.toOption = some () := by decide +kernel
  have hkept : ((beginning.afterAll events).update (remark "R" (some "B")) [.inReplyTo]
      default).2.1.id = "R" := rfl
  generalize hupdate : (beginning.afterAll events).update (remark "R" (some "B")) [.inReplyTo]
    default = updated at hok hkept
  obtain ⟨_ | _, kept, u⟩ := updated
  · cases hok
  · refine ⟨hadmits, kept, u, rfl, ?_⟩
    apply (afterAll_update_serves ofDatabase_beginning hempty hadmits hupdate).2
    rw [hkept]
    exact hcached

/-- If it is not, its old parent still counts it. -/
theorem update_miscounts :
    let moved := (beginning.afterAll remarking).update (remark "R" (some "B")) [.inReplyTo] default
    moved.1.toOption = some () ∧ (moved.2.2.countReplies "A").1.toOption = some 1 ∧
      moved.2.2.database.tables.listed .replies "A" = [] ∧
      moved.2.2.database.tables.listed .replies "B" = ["R"] := by
  decide +kernel

end Store

end StatusStore
