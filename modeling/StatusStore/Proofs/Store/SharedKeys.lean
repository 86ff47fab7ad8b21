/-
  StatusStore/Proofs/Store/SharedKeys.lean
  ========================================
  **Which lookups share a key.**  Only boost lookups do: if the separator stands in an
  account id, what is before it there can be moved to the end of the id of the boosted
  status, and the two pairs are written alike (`encode_eq_iff`).

  So a status is served for the lookup that found it, or for one of another pair that
  is written like it.  The second takes that the other pair was looked up before in
  the same run; in all other cases what a get answers is described by its lookup.

  Main statements: `encode_eq_iff`, `Fits.befall` and `befallAll_get_describes`.
-/
import StatusStore.Proofs.Store.Deletion

namespace StatusStore

open Cache Database

/-! ### Keys that are written alike -/

/-- `m` is the boost lookup `l` with the beginning of its account id moved to the id of the boosted
status, up to a separator. -/
def Lookup.Rejoins : Lookup → Lookup → Prop
  | .boost target account, .boost target' account' =>
    ∃ moved : String, target' = target.push Key.separator ++ moved ∧
      account = moved.push Key.separator ++ account'
  | _, _ => False

theorem Lookup.not_rejoins_self (l : Lookup) : ¬ l.Rejoins l := by
  cases l with
  | boost target account =>
    rintro ⟨moved, htarget, -⟩
    have hlength := congrArg String.length htarget
    simp at hlength
    omega
  | _ => exact fun h => h

namespace Cache.Key

theorem rejoins_of_toList {a b c d : String} {xs : List Char}
    (hc : c.toList = a.toList ++ separator :: xs) (hb : b.toList = xs ++ separator :: d.toList) :
    (Lookup.boost a b).Rejoins (.boost c d) :=
  ⟨String.ofList xs, String.toList_inj.1 (by simp [hc]), String.toList_inj.1 (by simp [hb])⟩

theorem encode_of_rejoins {l m : Lookup} (h : l.Rejoins m) :
    (ofLookup l).encode = (ofLookup m).encode := by
  cases l with
  | boost a b =>
    cases m with
    | boost c d =>
      obtain ⟨moved, rfl, rfl⟩ := h
      refine String.toList_inj.1 ?_
      simp [toList_encode_ofLookup, tail, Lookup.name]
    | _ => cases h
  | _ => cases h

/-- Lookups are written alike if they are the same, or for boosts whose ids can be parted at another
separator. -/
theorem encode_eq_iff {l m : Lookup} :
    (ofLookup l).encode = (ofLookup m).encode ↔ l = m ∨ l.Rejoins m ∨ m.Rejoins l := by
  constructor
  · intro h
    obtain ⟨-, htails⟩ := parts_of_encode h
    cases m with
    | boost c d =>
      cases l with
      | boost a b =>
        rcases append_separator_iff.1 htails with
          ⟨hac, hbd⟩ | ⟨xs, hc, hb⟩ | ⟨xs, ha, hd⟩
        · rw [String.toList_inj.1 hac, String.toList_inj.1 hbd]
          exact Or.inl rfl
        · exact Or.inr (Or.inl (rejoins_of_toList hc hb))
        · exact Or.inr (Or.inr (rejoins_of_toList ha hd))
      | _ => exact Or.inl (eq_of_encode rfl h.symm).symm
    | _ => exact Or.inl (eq_of_encode rfl h)
  · rintro (rfl | h | h)
    · rfl
    · exact encode_of_rejoins h
    · exact (encode_of_rejoins h).symm

end Cache.Key

theorem Database.describes_of_status {db : Database} {l : Lookup} {w : Status}
    (h : (db.status l).1 = .ok w) : l.describes w.toRow = true := by
  obtain ⟨r, hrow, -, rfl⟩ := Tables.row_of_status (select_eq_ok.1 h).2.2
  rw [Status.toRow_ofRow]
  exact Tables.describes_of_statusRow? hrow

namespace Store

variable {p : Lookup → Prop} {s u : Store} {l : Lookup} {w x : Status}

/-! ### What is cached under a key -/

/-- Whatever is cached is so under the key of a lookup that describes it, and if that is for a
boost, it is one of those that `p` is true of. -/
def Fits (p : Lookup → Prop) (s : Store) : Prop :=
  ∀ k w, s.caches.statuses.index.get? k = some w →
    ∃ m : Lookup, (Key.ofLookup m).encode = k ∧ m.describes w.toRow = true ∧
      (m.isBoost = true → p m)

/-- A status fits each of its aliases. -/
theorem fits_alias {k : String} (h : k ∈ aliases w) :
    ∃ m : Lookup, (Key.ofLookup m).encode = k ∧ m.describes w.toRow = true ∧
      (m.isBoost = true → p m) := by
  obtain ⟨m, hboost, hdescribes, hkey⟩ := mem_aliases.1 h
  exact ⟨m, hkey, hdescribes, fun hm => absurd (hboost.symm.trans hm) Bool.false_ne_true⟩

namespace Fits

theorem congr (h : s.Fits p) (index : u.caches.statuses.index = s.caches.statuses.index) :
    u.Fits p := by
  intro k w hw
  rw [index] at hw
  exact h k w hw

theorem of_caches (h : s.Fits p) (caches : u.caches = s.caches) : u.Fits p :=
  h.congr (congrArg (·.statuses.index) caches)

theorem load (h : s.Fits p) (hs : s.caches.Ordered) (hl : l.isBoost = true → p l) :
    (s.load l).2.Fits p := by
  obtain ⟨-, hloads⟩ := loads_load hs l
  intro k w hw
  rcases hloads.found hw with hold | ⟨hanswer, halias | hkey⟩
  · exact h k w hold
  · exact fits_alias halias
  · exact ⟨l, hkey, describes_of_status hanswer, hl⟩

/-- What a load answers is described by its lookup, or by another one of the same key that `p` is
true of. -/
theorem load_ok (h : s.Fits p) (hs : s.caches.Ordered) (hw : (s.load l).1 = .ok w) :
    ∃ m : Lookup, (m = l ∨ p m) ∧ (Key.ofLookup m).encode = (Key.ofLookup l).encode ∧
      m.describes w.toRow = true := by
  obtain ⟨-, hloads⟩ := loads_load hs l
  rw [hw] at hloads
  cases hloads with
  | hit hcached _ =>
    obtain ⟨m, hkey, hdescribes, hboost⟩ := h _ w hcached
    cases hm : m.isBoost with
    | true => exact ⟨m, Or.inr (hboost hm), hkey, hdescribes⟩
    | false => exact ⟨m, Or.inl (Key.eq_of_encode hm hkey.symm).symm, hkey, hdescribes⟩
  | read _ hanswer _ => exact ⟨l, Or.inl rfl, rfl, describes_of_status hanswer⟩

theorem get_ok {mode : Retrieval} (h : s.Fits p) (hs : s.caches.Ordered)
    (hx : acceptIncomplete (s.get l mode).1 = .ok x) :
    ∃ m : Lookup, (m = l ∨ p m) ∧ (Key.ofLookup m).encode = (Key.ofLookup l).encode ∧
      m.describes x.toRow = true := by
  cases hload : (s.load l).1 with
  | ok w =>
    obtain ⟨y, hy, hrow, -⟩ := get_of_load_ok hload mode
    obtain rfl := Except.ok.inj (hx.symm.trans hy)
    rw [hrow]
    exact h.load_ok hs hload
  | error e =>
    rw [(get_of_load_error hload mode).2] at hx
    cases hx

/-! ### Runs -/

theorem fetches (hfetches : Fetches (fun m => m.isBoost = true → p m) s u) (h : s.Fits p)
    (hs : s.Labelled) : u.Fits p := by
  induction hfetches with
  | refl => exact h
  | load hl hbefore ih => exact ih.load (hs.fetches hbefore).ordered hl
  | @loadList v kind target _ ih =>
    obtain ⟨-, -, hstatuses, -⟩ := v.frame_loadList kind target
    exact ih.congr (congrArg (·.index) hstatuses)
  | queried _ _ _ ih => exact ih.congr rfl

theorem committed (h : s.Fits p) (hs : s.caches.Ordered)
    (caches : u.caches = s.caches.committed w) : u.Fits p := by
  intro k x hx
  rw [caches] at hx
  rcases hs.found_committed hx with ⟨halias, rfl⟩ | ⟨-, -, hold, -⟩
  · exact fits_alias halias
  · exact h k x hold

theorem invalidated {id : String} (h : s.Fits p) (hs : s.caches.Ordered)
    (caches : u.caches = s.caches.invalidate (.ofLookup (.id id))) : u.Fits p := by
  intro k x hx
  rw [caches] at hx
  exact h k x (hs.found_invalidated hx).1

theorem save (h : s.Fits p) (hs : s.caches.Ordered) (status : Status)
    (write : Database → Except Error Unit × Database) : (s.save status write).2.Fits p := by
  rcases s.save_cases status write with ⟨e, -, started, hsave⟩ | ⟨-, hsave⟩
  · rw [hsave]
    exact h.congr rfl
  · rw [hsave]
    exact h.committed hs rfl

end Fits

def Incident.lookup? : Incident → Option Lookup
  | .use (.read r _) => r.lookup?
  | _ => none

def asked (incidents : List Incident) : List Lookup := incidents.filterMap Incident.lookup?

theorem Fits.befall (h : s.Fits p) (hs : s.Labelled) {incident : Incident}
    (hasked : ∀ m, incident.lookup? = some m → p m) : (s.befall incident).Fits p := by
  have hids : ∀ id, (Lookup.id id).isBoost = true → p (.id id) := by
    intro id hboost
    cases hboost
  cases incident with
  | replaced database => exact h.congr rfl
  | use operation =>
    cases operation with
    | put status fresh =>
      exact (h.save hs.ordered _ _).of_caches (s.caches_put status fresh)
    | update status columns now =>
      exact (h.save hs.ordered _ _).of_caches (s.caches_update status columns now)
    | delete id =>
      have hloaded := h.load hs.ordered (hids id)
      exact hloaded.invalidated (hs.load (.id id)).ordered (s.caches_delete id)
    | read r mode =>
      have hread := fetches_read (p := fun m => m.isBoost = true → p m) hids
        (fun m hm _ => hasked m hm) s mode
      exact h.fetches hread hs
    | populate status => exact h.fetches (s.fetches_populate hids status) hs
    | restart =>
      intro k w hw
      cases hw

/-- What is cached after incidents fits if it did before and `p` is true of what they ask for. -/
theorem Fits.befallAll {incidents : List Incident} (h : s.Fits p) (hs : s.Labelled)
    (hasked : ∀ m ∈ asked incidents, p m) : (s.befallAll incidents).Fits p := by
  induction incidents generalizing s with
  | nil => exact h
  | cons incident incidents ih =>
    have hfirst : ∀ m, incident.lookup? = some m → p m := fun m hm =>
      hasked m (List.mem_filterMap.2 ⟨incident, List.mem_cons_self, hm⟩)
    refine ih (h.befall hs hfirst) (hs.befall incident) fun m hm => hasked m ?_
    obtain ⟨later, hlater, hm⟩ := List.mem_filterMap.1 hm
    exact List.mem_filterMap.2 ⟨later, List.mem_cons_of_mem incident hlater, hm⟩

/-- In every run what is cached fits the boosts that were asked for. -/
theorem fits_befallAll {config : Config} {db : Database} (hstart : ofDatabase config db = .ok s)
    (incidents : List Incident) : (s.befallAll incidents).Fits (· ∈ asked incidents) := by
  have hbegun : s.Fits (· ∈ asked incidents) := by
    obtain ⟨queue, rfl⟩ := ofDatabase_ok hstart
    intro k w hw
    cases hw
  exact hbegun.befallAll (labelled_ofDatabase hstart) fun _ hm => hm

/-! ### Gets after a run -/

/-- A get right after one of a lookup with the same key answers the same status. -/
theorem get_after_load {m : Lookup} (hs : s.caches.Ordered)
    (hkey : (Key.ofLookup m).encode = (Key.ofLookup l).encode) (hw : (s.load m).1 = .ok w)
    (mode : Retrieval) :
    ∃ x, acceptIncomplete ((s.load m).2.get l mode).1 = .ok x ∧ x.toRow = w.toRow := by
  have hcached : (s.load m).2.cached? m = some w := by
    rw [(loads_load hs m).2.cached?_eq, hw]
    rfl
  rw [cached?, hkey] at hcached
  obtain ⟨x, hx, hrow, -⟩ := get_of_load_ok (load_of_cached hcached) mode
  exact ⟨x, hx, hrow⟩

/-- Whatever was done with a store and became of its database: two lookups share a key just if one
is the other, or has its ids parted at another separator.  A get answers a status that its lookup
describes, or one that another lookup of the same key does, which was asked for before; so if none
was, the status is one that was looked for.  If one was just now, the get answers the same. -/
theorem befallAll_get_describes {config : Config} {db : Database} {start : Store}
    (hstart : ofDatabase config db = .ok start) (incidents : List Incident) :
    let s := start.befallAll incidents
    (∀ l m : Lookup, (Key.ofLookup l).encode = (Key.ofLookup m).encode ↔
      l = m ∨ l.Rejoins m ∨ m.Rejoins l) ∧
    (∀ l mode x, acceptIncomplete (s.get l mode).1 = .ok x →
      ∃ m : Lookup, (m = l ∨ m ∈ asked incidents ∧ (m.Rejoins l ∨ l.Rejoins m)) ∧
        m.describes x.toRow = true) ∧
    (∀ l mode x, (∀ m ∈ asked incidents, ¬ m.Rejoins l ∧ ¬ l.Rejoins m) →
      acceptIncomplete (s.get l mode).1 = .ok x → l.describes x.toRow = true) ∧
    ∀ l m w, m.Rejoins l ∨ l.Rejoins m → (s.get m .barebones).1 = .ok w →
      ∀ mode, ∃ x, acceptIncomplete ((s.get m .barebones).2.get l mode).1 = .ok x ∧
        x.toRow = w.toRow := by
  intro s
  have hordered : s.caches.Ordered := (labelled_befallAll hstart incidents).ordered
  have hanswers : ∀ l mode x, acceptIncomplete (s.get l mode).1 = .ok x →
      ∃ m : Lookup, (m = l ∨ m ∈ asked incidents ∧ (m.Rejoins l ∨ l.Rejoins m)) ∧
        m.describes x.toRow = true := by
    intro l mode x hx
    obtain ⟨m, hm, hkey, hdescribes⟩ := (fits_befallAll hstart incidents).get_ok hordered hx
    refine ⟨m, ?_, hdescribes⟩
    rcases Key.encode_eq_iff.1 hkey with hsame | hrejoins
    · exact Or.inl hsame
    · exact hm.imp_right fun hasked => ⟨hasked, hrejoins⟩
  refine ⟨fun l m => Key.encode_eq_iff, hanswers, fun l mode x hnone hx => ?_,
    fun l m w hrejoins hw => ?_⟩
  · obtain ⟨m, rfl | ⟨hasked, hrejoins⟩, hdescribes⟩ := hanswers l mode x hx
    · exact hdescribes
    · exact absurd hrejoins (not_or.2 (hnone m hasked))
  · rw [get_barebones] at hw ⊢
    exact get_after_load hordered (Key.encode_eq_iff.2 (Or.inr hrejoins)) hw

/-! ### A pair whose account id has a separator -/

def rejoined : List Incident :=
  let boost := { (default : Status) with
    id := "01R", uri := "r", boostOfId := some "a\x1fb", accountId := "c" }
  [.use (.put boost ⟨"T", default⟩), .use (.read (.get (.boost "a\x1fb" "c")) .barebones)]

/-- The boost is answered where it was looked for, and then under the other pair as well. -/
theorem befallAll_get_describes_rejoined :
    ∃ w x, ((beginning.befallAll rejoined).get (.boost "a\x1fb" "c") .barebones).1 = .ok w ∧
      (Lookup.boost "a\x1fb" "c").describes w.toRow = true ∧
      acceptIncomplete (((beginning.befallAll rejoined).get (.boost "a\x1fb" "c") .barebones).2.get
        (.boost "a" "b\x1fc") .full).1 = .ok x ∧ x.toRow = w.toRow := by
  obtain ⟨-, -, hdescribes, hsame⟩ := befallAll_get_describes ofDatabase_beginning rejoined
  have hfound : ((beginning.befallAll rejoined).get
      (.boost "a\x1fb" "c") .barebones).1.toOption.isSome = true := by decide +kernel
  have hnone : ∀ m ∈ asked rejoined, ¬ m.Rejoins (.boost "a\x1fb" "c") ∧
      ¬ (Lookup.boost "a\x1fb" "c").Rejoins m := by
    intro m hm
    obtain rfl := List.mem_singleton.1 hm
    exact ⟨Lookup.not_rejoins_self _, Lookup.not_rejoins_self _⟩
  have hrejoins : (Lookup.boost "a" "b\x1fc").Rejoins (.boost "a\x1fb" "c") :=
    ⟨"b", by decide, by decide⟩
  generalize beginning.befallAll rejoined = s at *
  cases hw : (s.get (.boost "a\x1fb" "c") .barebones).1 with
  | error e =>
    rw [hw] at hfound
    cases hfound
  | ok w =>
    have hdescribed := hdescribes _ .barebones w hnone (congrArg acceptIncomplete hw)
    obtain ⟨x, hx, hrow⟩ := hsame _ _ w (Or.inr hrejoins) hw .full
    exact ⟨w, x, rfl, hdescribed, hx, hrow⟩

/-- Two keys are written alike, and under the one the boost of the other is answered, though the
database knows no boost by that pair. -/
theorem get_boost_rejoined :
    (Key.ofLookup (.boost "a" "b\x1fc")).encode = (Key.ofLookup (.boost "a\x1fb" "c")).encode ∧
      Key.ofLookup (.boost "a" "b\x1fc") ≠ Key.ofLookup (.boost "a\x1fb" "c") ∧
      ((beginning.befallAll rejoined).get (.boost "a" "b\x1fc") .barebones).1.toOption.map
        (fun x => (x.id, x.boostOfId, x.accountId)) = some ("01R", some "a\x1fb", "c") ∧
      ((beginning.befallAll rejoined).database.tables.statusRow? (.boost "a" "b\x1fc")).isNone =
        true := by
  decide +kernel

end Store

end StatusStore
