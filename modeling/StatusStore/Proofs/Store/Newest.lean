/-
  StatusStore/Proofs/Store/Newest.lean
  ====================================
  **The newest boost is served.**  An account may boost a status more than once, and
  what is cached under the lookup of a boost may be outdated by a newer boost, by the
  deletion of the cached one, or by an update that moves a boost from one status to
  another.  Still a store that is used by one caller at a time serves the boost that
  the tables answer: of all rows that boost the status for the account the one whose
  id has the greatest bytes.

  Main statement: `afterAll_newest`.
-/
import StatusStore.Proofs.Model.ByteOrder
import StatusStore.Proofs.Store.Changes

namespace StatusStore

open Cache Database

namespace Database.Tables

variable {t u : Tables}

theorem status_congr (hrows : u.statuses = t.statuses) (l : Lookup) : u.status l = t.status l := by
  cases l <;> simp only [status, statusRow?, hrows]

def IsBoost (target account : String) (r : Stored StatusRow) : Prop :=
  r.value.boostOfId = some target ∧ r.value.accountId = account

instance (target account : String) : DecidablePred (IsBoost target account) :=
  fun _ => inferInstanceAs (Decidable (_ ∧ _))

/-- The answer to the lookup of a boost is the row of such a boost with the greatest id. -/
theorem Intact.status_boost (h : t.Intact) (target account : String) :
    (∃ r ∈ t.statuses, IsBoost target account r ∧
      (∀ q ∈ t.statuses, IsBoost target account q → Text.bytes q.value.id ≤ Text.bytes r.value.id) ∧
      t.status (.boost target account) = .ok (.ofRow r.value)) ∨
    ((∀ q ∈ t.statuses, ¬ IsBoost target account q) ∧
      t.status (.boost target account) = .error .notFound) := by
  have hfound := fun r => statusRow?_eq_some (r := r) (h.tells_boost target account)
  rw [h.status_eq]
  cases hrow : t.statusRow? (.boost target account) with
  | some r =>
    obtain ⟨hr, hdescribes, hgreatest⟩ := (hfound r).1 hrow
    refine Or.inl ⟨r, hr, Lookup.describes_boost.1 hdescribes, fun q hq hboost => ?_, rfl⟩
    exact Text.le_iff_bytes_le.1 (hgreatest rfl q hq (Lookup.describes_boost.2 hboost))
  | none =>
    refine Or.inr ⟨fun q hq hboost => ?_, rfl⟩
    -- Sorted rows have a first one unless there are none.
    have hempty : (t.statuses.filter ((Lookup.boost target account).describes ·.value)).mergeSort
        newerFirst = [] := List.head?_eq_none_iff.1 hrow
    have hmem : q ∈ (t.statuses.filter ((Lookup.boost target account).describes ·.value)).mergeSort
        newerFirst :=
      List.mem_mergeSort.2 (List.mem_filter.2 ⟨hq, Lookup.describes_boost.2 hboost⟩)
    rw [hempty] at hmem
    cases hmem

end Database.Tables

namespace Store

variable {s u : Store} {target account : String}

/-- In runs about boosts, a boost is looked up by ids that can be told apart when they are joined,
and an update carries the account of the row that it changes. -/
def boostTerms : Terms where
  loads := Lookup.IsPlain
  ids _ := trivial
  updates s w _ := ∀ r ∈ s.database.tables.statuses, r.value.id = w.id →
    w.accountId = r.value.accountId

/-- A cached boost is what the tables answer. -/
def Newest (s : Store) : Prop :=
  ∀ (target account : String) (x : Status), (Lookup.boost target account).IsPlain →
    s.cached? (.boost target account) = some x →
    s.database.tables.status (.boost target account) = .ok x

theorem boost_not_mem_aliases (hplain : (Lookup.boost target account).IsPlain) (w : Status) :
    (Key.ofLookup (.boost target account)).encode ∉ aliases w := by
  intro halias
  cases ((encode_mem_aliases hplain).1 halias).1

namespace Newest

/-- A boost stays what the tables answer if its row stays, and no other row comes to be a boost of the
same status by the same account. -/
theorem of_kept {x : Status} (h : s.Newest) (hs : s.Tidy) (hu : u.Tidy)
    (hplain : (Lookup.boost target account).IsPlain)
    (hx : s.cached? (.boost target account) = some x)
    (hkept : ∀ r ∈ s.database.tables.statuses, r.value.id = x.id → r ∈ u.database.tables.statuses)
    (hnew : ∀ q ∈ u.database.tables.statuses, Tables.IsBoost target account q →
      ∃ r ∈ s.database.tables.statuses, Tables.IsBoost target account r ∧ r.value.id = q.value.id) :
    u.database.tables.status (.boost target account) = .ok x := by
  refine hs.intact.status_of_kept hu.intact (hs.intact.tells_boost _ _) (hu.intact.tells_boost _ _)
    (h _ _ _ hplain hx) hkept fun _ q hq hdescribes => ?_
  obtain ⟨r, hr, hboost, hid⟩ := hnew q hq (Lookup.describes_boost.1 hdescribes)
  exact ⟨r, hr, Lookup.describes_boost.2 hboost, hid⟩

theorem of_put {w : Status} (h : s.Newest) (hs : s.Tidy) (hu : u.Tidy)
    (statuses : u.database.tables.statuses = s.database.tables.statuses ++ [{ value := w.toRow }])
    (caches : u.caches = s.caches.committed w.barebones) : u.Newest := by
  intro target account x hplain hx
  rcases hs.found_committed caches hx with ⟨halias, -⟩ | ⟨-, hstale, hold, -⟩
  · exact absurd halias (boost_not_mem_aliases hplain _)
  · apply h.of_kept hs hu hplain hold
    · intro r hr _
      rw [statuses]
      exact List.mem_append_left _ hr
    · intro q hq hboost
      rw [statuses] at hq
      rcases List.mem_append.1 hq with hq | hq
      · exact ⟨q, hq, hboost, rfl⟩
      · -- A new boost of the same status by the same account has unlinked the older one.
        rw [List.mem_singleton.1 hq] at hboost
        exact absurd (mem_staleAliases.2 ⟨_, rfl, Lookup.describes_boost.2 hboost, rfl⟩) hstale

theorem of_updated {w : Status} {columns : List StatusColumn} {row : Stored StatusRow}
    (h : s.Newest) (hs : s.Tidy) (hu : u.Tidy) (hallowed : boostTerms.updates s w columns)
    (hrow : row ∈ s.database.tables.statuses) (hid : row.value.id = w.id)
    (statuses : u.database.tables.statuses = s.database.tables.statuses.map fun r =>
      if r.value.id = w.id then updateRow w.toRow (Statement.written columns) row else r)
    (caches : u.caches = s.caches.committed w.barebones) : u.Newest := by
  intro target account x hplain hx
  rcases hs.found_committed caches hx with ⟨halias, -⟩ | ⟨-, hstale, hold, hother⟩
  · exact absurd halias (boost_not_mem_aliases hplain _)
  · apply h.of_kept hs hu hplain hold
    · intro r hr hrid
      rw [statuses]
      refine List.mem_map.2 ⟨r, hr, if_neg ?_⟩
      exact hrid ▸ hother
    · intro q hq hboost
      rw [statuses] at hq
      obtain ⟨r, hr, rfl⟩ := List.mem_map.1 hq
      split at hboost
      · rename_i hrid
        rw [if_pos hrid]
        obtain ⟨htarget, haccount⟩ := hboost
        have horigin := sameOrigin_updateRow w.toRow (Statement.written columns) row
        have haccount : row.value.accountId = account := horigin.accountId.trans haccount
        have hwritten := agrees_updateRow w.toRow (Statement.written columns) row .boostOf
        refine ⟨row, hrow, ⟨?_, haccount⟩, horigin.id⟩
        split at hwritten
        · -- The boosted status was written from the copy, whose boost was unlinked.
          refine absurd (mem_staleAliases.2 ⟨.boost target account, rfl, ?_, rfl⟩) hstale
          refine Lookup.describes_boost.2 ⟨hwritten.1.trans htarget, ?_⟩
          exact (hallowed row hrow hid).trans haccount
        · exact hwritten.1.trans htarget
      · rename_i hrid
        rw [if_neg hrid]
        exact ⟨r, hr, hboost, rfl⟩

theorem of_change (h : s.Newest) (hs : s.Tidy) (hu : u.Tidy) (change : Change boostTerms s u) :
    u.Newest := by
  have hstill : u.database.tables.statuses = s.database.tables.statuses →
      (∀ {l x}, u.cached? l = some x → s.cached? l = some x) → u.Newest := by
    intro hrows hcached target account x hplain hx
    rw [Tables.status_congr hrows]
    exact h _ _ _ hplain (hcached hx)
  cases change with
  | unchanged hsame =>
    refine hstill hsame.statuses fun hx => ?_
    rw [cached?, hsame.index] at hx
    exact hx
  | @loaded l _ hl statuses _ hloads =>
    cases hloads with
    | hit _ hsame => exact hstill statuses fun hx => (hsame _).symm.trans hx
    | failed _ _ hsame => exact hstill statuses fun hx => (hsame _).symm.trans hx
    | read _ hanswer hfound =>
      intro target account x hplain hx
      rw [Tables.status_congr statuses]
      rcases hfound.1 hx with ⟨halias | hlookup, rfl⟩ | ⟨-, hold, -⟩
      · exact absurd halias (boost_not_mem_aliases hplain _)
      · obtain rfl := Key.encode_ofLookup_inj hl hplain (Option.some.inj hlookup)
        exact (select_eq_ok.1 hanswer).2.2
      · exact h _ _ _ hplain hold
  | listed statuses cached _ _ =>
    refine hstill statuses fun hx => ?_
    rw [cached?, cached] at hx
    exact hx
  | put statuses caches => exact h.of_put hs hu statuses caches
  | updated hallowed hrow hid statuses caches =>
    exact h.of_updated hs hu hallowed hrow hid statuses caches
  | @deleted id statuses _ caches =>
    intro target account x hplain hx
    obtain ⟨hold, hother⟩ := hs.found_invalidated caches hx
    apply h.of_kept hs hu hplain hold
    · intro r hr hrid
      rw [statuses]
      exact List.mem_filter.2 ⟨hr, by simpa [hrid] using hother⟩
    · intro q hq hboost
      rw [statuses] at hq
      exact ⟨q, (List.mem_filter.1 hq).1, hboost, rfl⟩
  | dropped statuses caches => exact hstill statuses fun hx => (hs.found_invalidated caches hx).1
  | emptied _ index _ =>
    intro target account x _ hx
    rw [cached?, index] at hx
    cases hx

theorem get (h : s.Newest) (hs : s.Tidy) (hplain : (Lookup.boost target account).IsPlain)
    (hopen : s.database.isClosed = false) (hthere : s.database.tables.require .statuses = .ok ()) :
    (s.get (.boost target account) .barebones).1 =
      s.database.tables.status (.boost target account) := by
  have hanswers : (s.database.status (.boost target account)).1 =
      s.database.tables.status (.boost target account) := select_of_ready hopen hthere _
  obtain ⟨-, hloads⟩ := hs.load (.boost target account)
  rw [get_barebones]
  generalize (s.load (.boost target account)).1 = answer at hloads ⊢
  cases hloads with
  | hit hcached _ => exact (h _ _ _ hplain hcached).symm
  | failed _ hanswer _ => exact hanswer.symm.trans hanswers
  | read _ hanswer _ => exact hanswer.symm.trans hanswers

end Newest

/-! ### Runs -/

/-- Whatever was done with a store, and whatever failed in between, as long as its updates carried the
accounts of the rows: it serves of all boosts of a status by an account the one whose id has the
greatest bytes, and tells whether there is one. -/
theorem afterAll_newest {config : Config} {db : Database} {start : Store} {events : List Event}
    (hstart : ofDatabase config db = .ok start) (intact : db.tables.Intact)
    (hadmits : start.Along boostTerms.Admits events)
    (hplain : (Lookup.boost target account).IsPlain)
    (hopen : (start.afterAll events).database.isClosed = false)
    (hthere : (start.afterAll events).database.tables.require .statuses = .ok ()) :
    let u := start.afterAll events
    (∃ r ∈ u.database.tables.statuses, Tables.IsBoost target account r ∧
      (∀ q ∈ u.database.tables.statuses, Tables.IsBoost target account q →
        Text.bytes q.value.id ≤ Text.bytes r.value.id) ∧
      (u.get (.boost target account) .barebones).1 = .ok (.ofRow r.value) ∧
      (u.isBoostedBy target account).1 = .ok true) ∨
    ((∀ q ∈ u.database.tables.statuses, ¬ Tables.IsBoost target account q) ∧
      (u.get (.boost target account) .barebones).1 = .error .notFound ∧
      (u.isBoostedBy target account).1 = .ok false) := by
  intro u
  have hbegun := tidy_ofDatabase hstart intact
  have hchanges : Changes boostTerms start u := hbegun.changes_afterAll hadmits
  have hempty : start.Newest := by
    obtain ⟨queue, rfl⟩ := ofDatabase_ok hstart
    intro target account x _ hx
    cases hx
  have hnewest : u.Newest :=
    hchanges.keeps (fun hs hu change h => h.of_change hs hu change) hempty
  have htidy := hchanges.tidy hbegun
  have hget := hnewest.get htidy hplain hopen hthere
  unfold isBoostedBy
  generalize u.get (.boost target account) .barebones = served at hget ⊢
  obtain ⟨answer, v⟩ := served
  obtain rfl : answer = u.database.tables.status (.boost target account) := hget
  rcases htidy.intact.status_boost target account with
    ⟨r, hr, hboost, hgreatest, hstatus⟩ | ⟨hnone, hstatus⟩
  · refine Or.inl ⟨r, hr, hboost, hgreatest, hstatus, ?_⟩
    rw [hstatus]
  · refine Or.inr ⟨hnone, hstatus, ?_⟩
    rw [hstatus]

/-! ### Boosts that come and go -/

def reboost (id target : String) : Status :=
  { (default : Status) with id, uri := id, boostOfId := some target, accountId := "ACC" }

/-- A boost is cached under its lookup before an older one is inserted late, one more fails to be
inserted while the connections are closed, another is moved here from a different status, and the
cached one is deleted. -/
def reboosting : List Event := [
  .use (.put (reboost "04" "S") ⟨"T", default⟩),
  .use (.read (.get (.boost "S" "ACC")) .barebones),
  .use (.put (reboost "02" "S") ⟨"U", default⟩),
  .outage true [],
  .use (.put (reboost "06" "S") ⟨"V", default⟩),
  .outage false [],
  .use (.put (reboost "05" "Q") ⟨"V", default⟩),
  .use (.update (reboost "05" "S") [.boostOf] default),
  .use (.delete "04")]

theorem afterAll_newest_reboosting :
    beginning.Along boostTerms.Admits reboosting ∧
      ∃ r ∈ (beginning.afterAll reboosting).database.tables.statuses, r.value.id = "05" ∧
        ((beginning.afterAll reboosting).get (.boost "S" "ACC") .barebones).1 =
          .ok (.ofRow r.value) := by
  have hadmits : beginning.Along boostTerms.Admits reboosting := by
    refine ⟨?_, ?_, ?_, ?_, ?_, ?_, ?_, ?_, ?_, trivial⟩ <;> rintro _ ⟨⟩
    · trivial
    · rintro _ ⟨⟩
      simp [boostTerms, Lookup.IsPlain, Key.separator]
    · trivial
    · trivial
    · trivial
    · intro _
      change ∀ r ∈ _, _
      decide +kernel
    · trivial
  have hempty : Tables.Intact {} := ⟨by simp, by simp⟩
  have hthere : (beginning.afterAll reboosting).database.tables.dropped = [] := by decide +kernel
  have hserved := @afterAll_newest "S" "ACC" _ _ _ _ ofDatabase_beginning hempty
    hadmits (by simp [Lookup.IsPlain, Key.separator]) (by decide +kernel)
    (by simp [Tables.require, hthere])
  have hmoved : ∃ q ∈ (beginning.afterAll reboosting).database.tables.statuses,
      q.value.id = "05" ∧ Tables.IsBoost "S" "ACC" q := by decide +kernel
  have hlast : ∀ r ∈ (beginning.afterAll reboosting).database.tables.statuses,
      Text.bytes "05" ≤ Text.bytes r.value.id → r.value.id = "05" := by decide +kernel
  obtain ⟨q, hq, hid, hboost⟩ := hmoved
  rcases hserved with ⟨r, hr, -, hgreatest, hget, -⟩ | ⟨hnone, -⟩
  · exact ⟨hadmits, r, hr, hlast r hr (hid ▸ hgreatest q hq hboost), hget⟩
  · exact absurd hboost (hnone q hq)

end Store

end StatusStore
