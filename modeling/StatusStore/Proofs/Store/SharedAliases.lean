/-
  StatusStore/Proofs/Store/SharedAliases.lean
  ===========================================
  **Urls and polls that statuses share.**  The tables let any number of statuses have
  one url or one poll, and answer the one that was inserted first.  The cache knows
  one of them under that lookup, which the last one to be stored or loaded takes over.
  What is cached holds the same as some row in all that updates write, so the two
  answers differ just when they are about different rows or differ in their origin.

  Main statements: `Mirrored.of_change`, `Mirrored.get_emptied_iff` and
  `afterAll_get_emptied`.
-/
import StatusStore.Proofs.Store.Listings
import StatusStore.Proofs.Store.Transparency

namespace StatusStore

open Cache Database

/-! ### Rows that mirror each other -/

/-- Whether two rows have one id and hold the same in all that updates write. -/
structure StatusRow.Mirrors (a b : StatusRow) : Prop where
  id : a.id = b.id
  updatedAt : a.updatedAt = b.updatedAt
  columns : ∀ c : StatusColumn, c.Agrees a b

namespace StatusRow.Mirrors

variable {a b : StatusRow} {l : Lookup}

theorem refl (a : StatusRow) : Mirrors a a := ⟨rfl, rfl, fun c => .refl c a⟩

theorem eq_iff (h : Mirrors a b) : a = b ↔ SameOrigin a b :=
  ⟨fun hsame => hsame ▸ .refl a, fun horigin =>
    StatusColumn.eq_of_agrees horigin h.updatedAt h.columns⟩

theorem describes (h : Mirrors a b) (hl : l.isBoost = false) : l.describes a = l.describes b := by
  have huri : a.uri = b.uri := h.columns .uri
  have hurl : a.url = b.url := h.columns .url
  have hpoll : a.pollId = b.pollId := h.columns .pollId
  cases l with
  | boost target account => cases hl
  | _ => simp only [Lookup.describes, h.id, huri, hurl, hpoll]

/-- An update of all columns makes a row mirror the source. -/
theorem updateRow {source : StatusRow} {columns : List StatusColumn} {row : Stored StatusRow}
    (hid : row.value.id = source.id) (hall : ∀ c, c ∈ columns) :
    Mirrors source (Database.updateRow source columns row).value where
  id := hid.symm.trans (sameOrigin_updateRow source columns row).id
  updatedAt := (updatedAt_updateRow source columns row).symm
  columns c := by
    have hwritten := agrees_updateRow source columns row c
    rw [if_pos (hall c)] at hwritten
    exact hwritten

end StatusRow.Mirrors

namespace Store

variable {s u : Store} {l : Lookup}

/-! ### Stores whose caches mirror the rows -/

def fullTerms : Terms where
  loads _ := True
  ids _ := trivial
  updates _ _ columns := ∀ c, c ∈ Statement.written columns

/-- What is cached is barebones, mirrors a row, and is described by that under which it is
cached. -/
structure Mirrored (s : Store) : Prop where
  bare : ∀ {k x}, s.caches.statuses.index.get? k = some x → x.barebones = x
  rows : ∀ {k x}, s.caches.statuses.index.get? k = some x →
    ∃ r ∈ s.database.tables.statuses, x.toRow.Mirrors r.value
  described : ∀ {l x}, l.isBoost = false → s.cached? l = some x → l.describes x.toRow = true

namespace Mirrored

theorem of_change (h : s.Mirrored) (hs : s.Tidy) (change : Change fullTerms s u) :
    u.Mirrored where
  bare hx := by
    cases change.found hs hx with
    | kept hold _ => exact h.bare hold
    | read _ _ _ hsame _ => rw [hsame, Status.barebones_ofRow]
    | put _ hsame _ => rw [hsame, Status.barebones_barebones]
    | updated _ _ _ _ hsame _ => rw [hsame, Status.barebones_barebones]
  rows hx := by
    cases change.found hs hx with
    | kept hold hrows =>
      obtain ⟨r, hr, hmirrors⟩ := h.rows hold
      exact ⟨r, (hrows r hmirrors.id.symm).2 hr, hmirrors⟩
    | read _ _ hr hsame _ =>
      refine ⟨_, hr, ?_⟩
      rw [hsame, Status.toRow_ofRow]
      exact .refl _
    | put hr hsame _ =>
      refine ⟨_, hr, ?_⟩
      rw [hsame, Status.toRow_barebones]
      exact .refl _
    | updated hall _ hid hr hsame _ =>
      refine ⟨_, hr, ?_⟩
      rw [hsame, Status.toRow_barebones]
      exact .updateRow hid hall
  described {l x} hl hx := by
    have hdescribes : (Key.ofLookup l).encode ∈ aliases x → l.describes x.toRow = true :=
      fun halias => ((encode_mem_aliases (.of_not_isBoost hl)).1 halias).2
    cases change.found hs hx with
    | kept hold _ => exact h.described hl hold
    | read _ hrow _ hsame hfiles =>
      rcases hfiles with halias | hlookup
      · exact hdescribes halias
      · obtain rfl := Key.eq_of_encode hl hlookup
        rw [hsame, Status.toRow_ofRow]
        exact Tables.describes_of_statusRow? hrow
    | put _ _ halias => exact hdescribes halias
    | updated _ _ _ _ _ halias => exact hdescribes halias

/-! ### What is served -/

/-- What is cached under a lookup mirrors a row that the lookup describes. -/
theorem row_of_cached {x : Status} (h : s.Mirrored) (hl : l.isBoost = false)
    (hx : s.cached? l = some x) :
    ∃ r ∈ s.database.tables.statuses, l.describes r.value = true ∧ x.toRow.Mirrors r.value := by
  obtain ⟨r, hr, hmirrors⟩ := h.rows hx
  exact ⟨r, hr, (hmirrors.describes hl).symm.trans (h.described hl hx), hmirrors⟩

/-- A row that a lookup describes is served, or what mirrors it is, if there is such a row. -/
theorem get_cases (h : s.Mirrored) (hs : s.Tidy) (hread : s.Readable) (hl : l.isBoost = false) :
    (∃ r ∈ s.database.tables.statuses, l.describes r.value = true ∧
      ∃ x, (s.get l .barebones).1 = .ok x ∧ x.toRow.Mirrors r.value) ∨
    ((∀ r ∈ s.database.tables.statuses, l.describes r.value = false) ∧
      (s.get l .barebones).1 = .error .notFound) := by
  rw [get_barebones]
  cases hcached : s.cached? l with
  | some x =>
    obtain ⟨r, hr, hdescribes, hmirrors⟩ := h.row_of_cached hl hcached
    exact Or.inl ⟨r, hr, hdescribes, x, load_of_cached hcached, hmirrors⟩
  | none =>
    have hstatus : (s.load l).1 = s.database.tables.status l :=
      (load_of_absent hcached).trans (select_of_ready hread.opened hread.there _)
    rw [hstatus, hs.intact.status_eq]
    cases hrow : s.database.tables.statusRow? l with
    | some r =>
      refine Or.inl ⟨r, Tables.mem_of_statusRow? hrow, Tables.describes_of_statusRow? hrow, _, rfl, ?_⟩
      rw [Status.toRow_ofRow]
      exact .refl _
    | none => exact Or.inr ⟨Tables.statusRow?_eq_none.1 hrow, rfl⟩

/-- The answer is that of the tables just when what is cached under the lookup, if anything is, has
the origin of the row that the tables answer. -/
theorem get_emptied_iff (h : s.Mirrored) (hs : s.Tidy) (hread : s.Readable)
    (hl : l.isBoost = false) :
    (s.get l .barebones).1 = (s.emptied.get l .barebones).1 ↔
      ∀ x, s.cached? l = some x → ∀ r, s.database.tables.statusRow? l = some r →
        x.toRow.SameOrigin r.value := by
  have hstatus : (s.database.status l).1 = s.database.tables.status l :=
    select_of_ready hread.opened hread.there _
  have hemptied : (s.emptied.load l).1 = s.database.tables.status l :=
    (load_of_absent (s := s.emptied) rfl).trans hstatus
  rw [get_barebones, get_barebones, hemptied]
  cases hcached : s.cached? l with
  | none =>
    rw [load_of_absent hcached, hstatus]
    exact ⟨fun _ => nofun, fun _ => rfl⟩
  | some x =>
    rw [load_of_cached hcached, hs.intact.status_eq]
    obtain ⟨q, hq, hdescribes, hmirrors⟩ := h.row_of_cached hl hcached
    cases hrow : s.database.tables.statusRow? l with
    | none => simp [Tables.statusRow?_eq_none.1 hrow q hq] at hdescribes
    | some r =>
      constructor
      · rintro hsame _ ⟨⟩ _ ⟨⟩
        obtain rfl := Except.ok.inj hsame
        rw [Status.toRow_ofRow]
        exact .refl _
      · intro horigin
        have hsame := horigin x rfl r rfl
        obtain rfl := hs.intact.eq_of_id (Tables.mem_of_statusRow? hrow) hq
          (hsame.id.symm.trans hmirrors.id)
        have hvalue : x.toRow = r.value := hmirrors.eq_iff.2 hsame
        have hbare : Status.ofRow r.value = x := by
          rw [← hvalue, Status.ofRow_toRow, h.bare hcached]
        exact congrArg Except.ok hbare.symm

end Mirrored

/-! ### Runs -/

/-- Whatever was done with a store, as long as its updates wrote all columns: under a lookup by id,
uri, url or poll a status is served that holds the same as some row that the lookup describes, if
there is one.  It is what is served with empty caches just when what is cached has the origin of the
row that was inserted first. -/
theorem afterAll_get_emptied {config : Config} {db : Database} {start : Store}
    {events : List Event} (hstart : ofDatabase config db = .ok start) (intact : db.tables.Intact)
    (hadmits : start.Along fullTerms.Admits events)
    (hread : (start.afterAll events).Readable) (hl : l.isBoost = false) :
    let s := start.afterAll events
    ((s.get l .barebones).1 = (s.emptied.get l .barebones).1 ↔
      ∀ x, s.cached? l = some x →
        ∀ r, s.database.tables.statuses.find? (l.describes ·.value) = some r →
          x.toRow.SameOrigin r.value) ∧
    ((∃ r ∈ s.database.tables.statuses, l.describes r.value = true ∧
      ∃ x, (s.get l .barebones).1 = .ok x ∧ x.toRow.Mirrors r.value) ∨
    ((∀ r ∈ s.database.tables.statuses, l.describes r.value = false) ∧
      (s.get l .barebones).1 = .error .notFound)) := by
  intro s
  have hbegun := tidy_ofDatabase hstart intact
  have hchanges : Changes fullTerms start s := hbegun.changes_afterAll hadmits
  have hempty : start.Mirrored := by
    obtain ⟨queue, rfl⟩ := ofDatabase_ok hstart
    constructor
    · intro k x hx
      cases hx
    · intro k x hx
      cases hx
    · intro l x _ hx
      cases hx
  have hmirrored : s.Mirrored := hchanges.keeps (fun hs _ change h => h.of_change hs change) hempty
  have htidy := hchanges.tidy hbegun
  refine ⟨?_, hmirrored.get_cases htidy hread hl⟩
  have hfirst : s.database.tables.statuses.find? (l.describes ·.value) =
      s.database.tables.statusRow? l := by
    cases l with
    | boost target account => cases hl
    | _ => rfl
  rw [hfirst]
  exact hmirrored.get_emptied_iff htidy hread hl

/-! ### Two statuses at one url -/

def page (id url pollId : String) : Status :=
  { (default : Status) with id, uri := id, url := some url, pollId := some pollId }

/-- Two statuses are put at one url and with one poll; after a restart the first is read, and then the
second moves away. -/
def sharing : List Event := [
  .use (.put (page "A" "u" "p") ⟨"T", default⟩),
  .use (.put (page "B" "u" "p") ⟨"U", default⟩),
  .use .restart,
  .use (.read (.get (.url "u")) .full),
  .use (.update (page "B" "v" "q") [] default)]

theorem afterAll_get_emptied_sharing :
    beginning.Along fullTerms.Admits sharing ∧ (beginning.afterAll sharing).Readable ∧
      ((beginning.afterAll sharing).cached? (.pollId "p")).map (·.id) = some "A" ∧
      ((beginning.afterAll sharing).get (.pollId "p") .barebones).1 =
        ((beginning.afterAll sharing).emptied.get (.pollId "p") .barebones).1 := by
  have hempty : Tables.Intact {} := ⟨by simp, by simp⟩
  have hadmits : beginning.Along fullTerms.Admits sharing := by
    refine ⟨?_, ?_, ?_, ?_, ?_, trivial⟩ <;> rintro _ ⟨⟩
    · trivial
    · trivial
    · trivial
    · exact fun _ _ => trivial
    · intro _ c
      cases c <;> decide
  have hdropped : (beginning.afterAll sharing).database.tables.dropped = [] := by decide +kernel
  have hread : (beginning.afterAll sharing).Readable :=
    ⟨by decide +kernel, by simp [Tables.require, hdropped]⟩
  have horigin : ∀ x ∈ (beginning.afterAll sharing).cached? (.pollId "p"),
      ∀ r ∈ (beginning.afterAll sharing).database.tables.statuses.find?
        ((Lookup.pollId "p").describes ·.value), x.toRow.SameOrigin r.value := by decide +kernel
  refine ⟨hadmits, hread, by decide +kernel, ?_⟩
  exact (afterAll_get_emptied ofDatabase_beginning hempty hadmits hread rfl).1.2 horigin

/-- The status that was stored last is served while it is cached, and the first one after that. -/
theorem get_url_follows_cache :
    let s := beginning.afterAll (sharing.take 2)
    (s.get (.url "u") .barebones).1.toOption.map (·.id) = some "B" ∧
      (s.emptied.get (.url "u") .barebones).1.toOption.map (·.id) = some "A" ∧
      (s.get (.pollId "p") .barebones).1.toOption.map (·.id) = some "B" ∧
      (s.emptied.get (.pollId "p") .barebones).1.toOption.map (·.id) = some "A" := by
  decide +kernel

end Store

end StatusStore
