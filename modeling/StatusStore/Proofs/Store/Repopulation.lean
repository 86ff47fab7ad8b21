/-
  StatusStore/Proofs/Store/Repopulation.lean
  ==========================================
  **Population, complete and repeatable.**  All parts of a status are filled in one
  order.  Which of them fail, and why, is told from the store before: filling one
  part changes nothing that another is asked of, except that a parent which was
  loaded is in the cache when the boosted status is looked for.

  What was refused is refused by every later store of the same database, for the same
  reason (`Later`): what comes into the cache by a load of an id is what the database
  answers for that id.  So a population after the first finds the parts that were
  granted with nothing to ask for, and fails in the others as the first did.

  Main statements: `foreseen_foldl`, `Later.faultAt?` and `populate_parts`.
-/
import StatusStore.Proofs.Store.Agreement
import StatusStore.Proofs.Store.Parts

namespace StatusStore

open Cache Database

/-! ### Later stores of one database -/

/-- Whether an operation leaves the tables alone and looks statuses up by their ids only. -/
def Store.Operation.Rereads : Operation → Prop
  | .read r _ => ∀ l, r.lookup? = some l → l.IsId
  | .populate _ | .restart => True
  | _ => False

namespace Store

variable {s u v : Store} {part : Part}

/-- `u` is before the same tables as `s`, and what is cached under an id in `u` was cached under it
in `s`, or is what the database answers for it. -/
structure Later (s u : Store) : Prop where
  tables : u.database.tables = s.database.tables
  isClosed : u.database.isClosed = s.database.isClosed
  found : ∀ {id x}, u.cached? (.id id) = some x →
    s.cached? (.id id) = some x ∨ (s.database.status (.id id)).1 = .ok x

theorem Later.trans (hsu : Later s u) (huv : Later u v) : Later s v where
  tables := huv.tables.trans hsu.tables
  isClosed := huv.isClosed.trans hsu.isClosed
  found {id x} hx := by
    rcases huv.found hx with hcached | hanswer
    · exact hsu.found hcached
    · exact Or.inr ((select_congr hsu.tables hsu.isClosed _ _).symm.trans hanswer)

theorem Labelled.later (h : s.Labelled) (hfetches : Fetches Lookup.IsId s u) : Later s u := by
  induction hfetches with
  | refl => exact ⟨rfl, rfl, Or.inl⟩
  | @load u l hl hu ih =>
    obtain ⟨htables, hclosed, -⟩ := u.frame_load l
    obtain ⟨-, hloads⟩ := loads_load (h.fetches hu).ordered l
    refine ih.trans ⟨htables, hclosed, fun {id x} hx => ?_⟩
    refine (hloads.found_id hx).imp_right fun ⟨hanswer, hid⟩ => ?_
    cases l with
    | id l =>
      obtain rfl : x.id = l := Tables.id_of_status (select_eq_ok.1 hanswer).2.2
      exact hid ▸ hanswer
    | _ => cases hl
  | @loadList u kind target _ ih =>
    obtain ⟨htables, hclosed, hstatuses, -⟩ := u.frame_loadList kind target
    refine ih.trans ⟨htables, hclosed, fun {id x} hx => Or.inl ?_⟩
    rwa [cached?, hstatuses] at hx
  | queried tables isClosed _ ih => exact ih.trans ⟨tables, isClosed, Or.inl⟩

theorem Labelled.later_perform (h : s.Labelled) {operation : Operation}
    (hrereads : operation.Rereads) : Later s (s.perform operation) := by
  cases operation with
  | read r mode => exact h.later (fetches_read (fun _ => trivial) hrereads s mode)
  | populate status => exact h.later (s.fetches_populate (fun _ => trivial) status)
  | restart => exact ⟨rfl, rfl, nofun⟩
  | _ => cases hrereads

theorem Labelled.later_run (h : s.Labelled) {operations : List Operation}
    (hrereads : ∀ operation ∈ operations, operation.Rereads) :
    (s.run operations).Labelled ∧ Later s (s.run operations) := by
  induction operations generalizing s with
  | nil => exact ⟨h, rfl, rfl, Or.inl⟩
  | cons operation operations ih =>
    obtain ⟨hfirst, hrest⟩ := List.forall_mem_cons.1 hrereads
    obtain ⟨hlabelled, hlater⟩ := ih (h.perform operation) hrest
    exact ⟨hlabelled, (h.later_perform hfirst).trans hlater⟩

theorem Later.load_error (h : Later s u) {id : String} {e : Error}
    (hload : (s.load (.id id)).1 = .error e) : (u.load (.id id)).1 = .error e := by
  have habsent : s.cached? (.id id) = none := by
    refine Option.eq_none_iff_forall_ne_some.2 fun x hx => ?_
    rw [load_of_cached hx] at hload
    cases hload
  have hanswer : (s.database.status (.id id)).1 = .error e := load_of_absent habsent ▸ hload
  have hstill : u.cached? (.id id) = none := by
    refine Option.eq_none_iff_forall_ne_some.2 fun x hx => ?_
    rcases h.found hx with hcached | hfound
    · cases habsent.symm.trans hcached
    · cases hanswer.symm.trans hfound
  rw [load_of_absent hstill]
  exact (select_congr h.tables h.isClosed _ _).trans hanswer

theorem faultAt?_congr {status : Status}
    (h : ∀ ids, u.refusal? part ids = s.refusal? part ids) :
    u.faultAt? status part = s.faultAt? status part :=
  congrArg (Option.bind _) (funext h)

/-- A part that does not come through the cache is refused by the tables and the connections. -/
theorem refusal?_of_frame (htables : u.database.tables = s.database.tables)
    (hclosed : u.database.isClosed = s.database.isClosed) (hparent : part ≠ .parent)
    (hboost : part ≠ .boost) (ids : List String) : u.refusal? part ids = s.refusal? part ids := by
  have hone : ∀ (α : Type) [Persistent α], u.fetchRefusal? α ids = s.fetchRefusal? α ids := by
    intro α _
    simp only [fetchRefusal?, fetch, Database.fetch, select_congr htables hclosed]
  have hlist : ∀ (α : Type) [Persistent α], u.listRefusal? α ids = s.listRefusal? α ids := by
    intro α _
    have hanswer : (u.database.fetchAll α ids).1 = (s.database.fetchAll α ids).1 := by
      unfold fetchAll
      split
      · rfl
      · exact select_congr htables hclosed _ _
    simp only [listRefusal?, hanswer]
  cases part with
  | parent => exact absurd rfl hparent
  | boost => exact absurd rfl hboost
  | attachments | tags | mentions | emojis => exact hlist _
  | _ => exact hone _

/-- What fails, fails in a later store too, and for the same reason. -/
theorem Later.faultAt? (h : Later s u) {status : Status} {reason : String}
    (hfault : s.faultAt? status part = some reason) : u.faultAt? status part = some reason := by
  have hone : ∀ {wanted : Option String} {current : Option Status},
      ((Part.askedOne wanted current).bind s.loadRefusal?) = some reason →
      ((Part.askedOne wanted current).bind u.loadRefusal?) = some reason := by
    intro wanted current hrefused
    unfold Part.askedOne at hrefused ⊢
    cases hstale : Population.stale? wanted current with
    | none =>
      rw [hstale] at hrefused
      cases hrefused
    | some id =>
      rw [hstale, Option.map_some, Option.bind_some, loadRefusal?_singleton] at hrefused
      rw [Option.map_some, Option.bind_some, loadRefusal?_singleton]
      cases hload : (s.load (.id id)).1 with
      | ok w =>
        rw [hload] at hrefused
        cases hrefused
      | error e => rwa [h.load_error hload, ← hload]
  by_cases hparent : part = .parent
  · subst hparent
    exact hone hfault
  · by_cases hboost : part = .boost
    · subst hboost
      exact hone hfault
    · rwa [faultAt?_congr (refusal?_of_frame h.tables h.isClosed hparent hboost)]

end Store

/-! ### All parts -/

theorem Store.Labelled.fill {p : Population} (h : p.store.Labelled) (part : Part) :
    (p.fill part).store.Labelled :=
  Labelled.fetches (p := fun _ => True) (fetches_fill (fun _ => trivial) p part) h

namespace Population

variable {p q : Population} {part : Part} {parts rest : List Part} {see : Part → Store}

namespace Filled

theorem messages (h : Filled p part q) :
    q.failures.messages = p.failures.messages ++
      ((p.store.faultAt? p.status part).map part.failure).toList := by
  cases h with
  | settled hasked hsame => simp [hsame, Store.faultAt?, hasked]
  | refused hasked hrefusal _ hfailures =>
    simp [hfailures, PopulateError.push, Store.faultAt?, hasked, hrefusal]
  | granted hasked hrefusal hfailures => simp [hfailures, Store.faultAt?, hasked, hrefusal]

theorem others (h : Filled p part q) {other : Part} (hother : other ≠ part) :
    other.Same q.status p.status := by
  cases h with
  | settled _ hsame => exact hsame ▸ .refl _ _
  | refused _ _ hstatus => exact hstatus ▸ .refl _ _
  | granted _ _ _ _ hothers => exact hothers other hother

theorem status_eq (h : Filled p part q)
    (hkept : part.asked p.status ≠ none → p.store.faultAt? p.status part ≠ none) :
    q.status = p.status := by
  cases h with
  | settled _ hsame => rw [hsame]
  | refused _ _ hstatus => exact hstatus
  | granted hasked hrefusal =>
    refine absurd ?_ (hkept (by simp [hasked]))
    simp [Store.faultAt?, hasked, hrefusal]

theorem asked_eq_none (h : Filled p part q) (hnone : p.store.faultAt? p.status part = none) :
    part.asked q.status = none := by
  cases h with
  | settled hasked hsame => rw [hsame, hasked]
  | refused hasked hrefusal =>
    rw [Store.faultAt?, hasked, Option.bind_some, hrefusal] at hnone
    cases hnone
  | granted _ _ _ hdone => exact hdone

end Filled

/-- In the population of `parts`, each part fails as it does at the store that `see` names. -/
def Sees (see : Part → Store) : Population → List Part → Prop
  | _, [] => True
  | p, part :: rest =>
    p.store.faultAt? p.status part = (see part).faultAt? p.status part ∧
      Sees see (p.fill part) rest

/-- What comes of filling `parts`, told from the stores that `see` names. -/
structure Foreseen (see : Part → Store) (p : Population) (parts : List Part) (q : Population) :
    Prop where
  row : q.status.toRow = p.status.toRow
  messages : q.failures.messages = p.failures.messages ++
    parts.filterMap fun part => ((see part).faultAt? p.status part).map part.failure
  others : ∀ part ∉ parts, part.Same q.status p.status
  kept : ∀ part ∈ parts,
    (part.asked p.status ≠ none → (see part).faultAt? p.status part ≠ none) →
      part.Same q.status p.status
  done : ∀ part ∈ parts, (see part).faultAt? p.status part = none → part.asked q.status = none
  again : ∀ part ∈ parts, q.store.faultAt? q.status part = (see part).faultAt? p.status part

theorem foreseen_foldl (h : p.store.Labelled) (hnodup : parts.Nodup) (hsees : Sees see p parts) :
    Foreseen see p parts (parts.foldl fill p) := by
  induction parts generalizing p with
  | nil => exact ⟨rfl, (List.append_nil _).symm, fun _ _ => .refl _ _, nofun, nofun, nofun⟩
  | cons part rest ih =>
    obtain ⟨hnew, hnodup⟩ := List.nodup_cons.1 hnodup
    obtain ⟨hsee, hsees⟩ := hsees
    have hfilled := filled_fill h part
    have hrest := ih (h.fill part) hnodup hsees
    have hrow := hrest.row.trans (p.toRow_fill part)
    have hne : ∀ other ∈ rest, other ≠ part := fun other hother heq => hnew (heq ▸ hother)
    -- The parts that follow ask for the same before and after this one.
    have hasked : ∀ other ∈ rest, other.asked (p.fill part).status = other.asked p.status :=
      fun other hother => (hfilled.others (hne other hother)).asked_eq (p.toRow_fill part)
    have hfault : ∀ other ∈ rest,
        (see other).faultAt? (p.fill part).status other = (see other).faultAt? p.status other :=
      fun other hother => by rw [Store.faultAt?, hasked other hother, Store.faultAt?]
    -- This one is not filled again, so what comes of it now stays to the end.
    have hdone : (see part).faultAt? p.status part = none →
        part.asked (rest.foldl fill (p.fill part)).status = none := fun hnone =>
      ((hrest.others part hnew).asked_eq hrest.row).trans (hfilled.asked_eq_none (hsee ▸ hnone))
    have hkept : (part.asked p.status ≠ none → (see part).faultAt? p.status part ≠ none) →
        part.Same (rest.foldl fill (p.fill part)).status p.status := fun hkept =>
      hfilled.status_eq (hsee ▸ hkept) ▸ hrest.others part hnew
    constructor
    case row => exact hrow
    case messages =>
      have htail : (rest.filterMap fun other =>
          ((see other).faultAt? (p.fill part).status other).map other.failure) =
          rest.filterMap fun other => ((see other).faultAt? p.status other).map other.failure :=
        List.filterMap_congr fun other hother => by rw [hfault other hother]
      rw [List.foldl_cons, hrest.messages, hfilled.messages, htail, hsee, List.append_assoc,
        List.filterMap_cons]
      cases (see part).faultAt? p.status part <;> rfl
    case others =>
      intro other hother
      obtain ⟨hother, hlast⟩ := not_or.1 (List.mem_cons.not.1 hother)
      exact (hrest.others other hlast).trans (hfilled.others hother)
    case kept =>
      refine List.forall_mem_cons.2 ⟨hkept, fun other hother hsettled => ?_⟩
      have hsame := hrest.kept other hother (by rwa [hasked other hother, hfault other hother])
      exact hsame.trans (hfilled.others (hne other hother))
    case done =>
      refine List.forall_mem_cons.2 ⟨hdone, fun other hother hnone => ?_⟩
      exact hrest.done other hother ((hfault other hother).trans hnone)
    case again =>
      refine List.forall_mem_cons.2 ⟨?_, fun other hother => ?_⟩
      · cases hcase : (see part).faultAt? p.status part with
        | none => rw [Store.faultAt?, List.foldl_cons, hdone hcase, Option.bind_none]
        | some reason =>
          have hsame := (hkept fun _ => by simp [hcase]).asked_eq hrow
          have hlater := h.later (Store.fetches_foldl (fun _ => trivial) p (part :: rest))
          rw [List.foldl_cons, Store.faultAt?, hsame]
          exact hlater.faultAt? (hsee.trans hcase)
      · exact (hrest.again other hother).trans (hfault other hother)

end Population

/-! ### Which parts fail -/

namespace Store

variable {s u : Store}

/-- Two stores before the same database, with the same statuses in their caches. -/
structure Alike (s u : Store) : Prop where
  tables : u.database.tables = s.database.tables
  isClosed : u.database.isClosed = s.database.isClosed
  index : u.caches.statuses.index = s.caches.statuses.index

namespace Alike

theorem trans {v : Store} (hsu : Alike s u) (huv : Alike u v) : Alike s v :=
  ⟨huv.tables.trans hsu.tables, huv.isClosed.trans hsu.isClosed, huv.index.trans hsu.index⟩

theorem load (h : Alike s u) (l : Lookup) :
    (u.load l).1 = (s.load l).1 ∧ Alike (s.load l).2 (u.load l).2 := by
  have hanswer : (u.database.status l).1 = (s.database.status l).1 :=
    select_congr h.tables h.isClosed _ _
  have hcached : u.caches.statuses.get? (.ofLookup l) = s.caches.statuses.get? (.ofLookup l) := by
    rw [EntityCache.get?, h.index, EntityCache.get?]
  obtain ⟨htables, hclosed, -⟩ := s.frame_load l
  obtain ⟨htables', hclosed', -⟩ := u.frame_load l
  have hload : (u.load l).1 = (s.load l).1 ∧
      (u.load l).2.caches.statuses.index = (s.load l).2.caches.statuses.index := by
    simp only [Store.load, Caches.load, EntityCache.load, hcached]
    cases s.caches.statuses.get? (.ofLookup l) with
    | some w => exact ⟨rfl, h.index⟩
    | none =>
      refine ⟨hanswer, ?_⟩
      dsimp only
      rw [hanswer]
      cases (s.database.status l).1 with
      | error e =>
        simp only [EntityCache.settleLoad, EntityCache.abandonLoad, EntityCache.beginLoad, h.index]
      | ok w =>
        simp only [EntityCache.settleLoad, EntityCache.beginLoad, h.index]
        split <;> rfl
  exact ⟨hload.1, htables'.trans (h.tables.trans htables.symm),
    hclosed'.trans (h.isClosed.trans hclosed.symm), hload.2⟩

theorem refusal?_eq (h : Alike s u) (part : Part) (ids : List String) :
    u.refusal? part ids = s.refusal? part ids := by
  have hloads : u.loadRefusal? ids = s.loadRefusal? ids := by
    simp only [loadRefusal?, (h.load _).1]
  by_cases hparent : part = .parent
  · exact hparent ▸ hloads
  · by_cases hboost : part = .boost
    · exact hboost ▸ hloads
    · exact refusal?_of_frame h.tables h.isClosed hparent hboost ids

theorem afterParent (h : Alike s u) {status status' : Status}
    (hasked : Part.asked status' .parent = Part.asked status .parent) :
    Alike (s.afterParent status) (u.afterParent status') := by
  have hstale : Population.stale? status'.inReplyToId status'.inReplyTo =
      Population.stale? status.inReplyToId status.inReplyTo :=
    Option.map_injective List.singleton_injective hasked
  unfold Store.afterParent
  rw [hstale]
  split
  · exact (h.load _).2
  · exact h

end Alike

theorem frame_seenBy (s : Store) (status : Status) (part : Part) :
    (s.seenBy status part).database.tables = s.database.tables ∧
      (s.seenBy status part).database.isClosed = s.database.isClosed := by
  cases part with
  | boost =>
    simp only [seenBy, afterParent]
    split
    · obtain ⟨htables, hclosed, -⟩ := s.frame_load (.id _)
      exact ⟨htables, hclosed⟩
    · exact ⟨rfl, rfl⟩
  | _ => exact ⟨rfl, rfl⟩

end Store

namespace Population

variable {p : Population} {part : Part} {parts : List Part} {see : Part → Store}

theorem frame_fill (p : Population) (part : Part) :
    (p.fill part).store.database.tables = p.store.database.tables ∧
      (p.fill part).store.database.isClosed = p.store.database.isClosed :=
  (Store.fetches_fill (p := fun _ => True) (fun _ => trivial) p part).frame

theorem caches_one {α : Type} [Persistent α] (p : Population) (part : Part)
    (wanted : Option String) (current : Option α) (attach : Status → α → Status) :
    (p.one part wanted current (Store.fetch α) attach).store.caches = p.store.caches := by
  unfold one
  split
  · rfl
  · dsimp only
    rw [Store.store_settle]
    rfl

theorem caches_many {α : Type} [Persistent α] (p : Population) (part : Part) (relation : Relation α)
    (attach : Status → Relation α → Status) :
    (p.many part relation attach).store.caches = p.store.caches := by
  rcases Store.store_many p part relation attach with hstore | hstore <;> rw [hstore]

/-- Only a part that comes through the cache changes what is cached. -/
theorem alike_fill (p : Population) (hparent : part ≠ .parent) (hboost : part ≠ .boost) :
    p.store.Alike (p.fill part).store := by
  obtain ⟨htables, hclosed⟩ := p.frame_fill part
  have hcaches : (p.fill part).store.caches = p.store.caches := by
    cases part with
    | parent => exact absurd rfl hparent
    | boost => exact absurd rfl hboost
    | attachments | tags | mentions | emojis => exact p.caches_many _ _ _
    | _ => exact p.caches_one _ _ _ _
  exact ⟨htables, hclosed, by rw [hcaches]⟩

theorem store_fill_parent (p : Population) :
    (p.fill .parent).store = p.store.afterParent p.status := by
  simp only [fill, one, Store.afterParent]
  cases stale? p.status.inReplyToId p.status.inReplyTo with
  | none => rfl
  | some id => exact Store.store_settle _ _ _ _

theorem sees_of_frame (hparent : .parent ∉ parts) (hboost : .boost ∉ parts)
    (htables : ∀ part, p.store.database.tables = (see part).database.tables)
    (hclosed : ∀ part, p.store.database.isClosed = (see part).database.isClosed) :
    Sees see p parts := by
  induction parts generalizing p with
  | nil => trivial
  | cons part rest ih =>
    rw [List.mem_cons, not_or] at hparent hboost
    refine ⟨Store.faultAt?_congr fun ids => ?_,
      ih hparent.2 hboost.2 (fun other => ?_) fun other => ?_⟩
    · exact Store.refusal?_of_frame (htables part) (hclosed part) (Ne.symm hparent.1)
        (Ne.symm hboost.1) ids
    · exact (p.frame_fill part).1.trans (htables other)
    · exact (p.frame_fill part).2.trans (hclosed other)

/-- In a population, every part fails as `Store.fault?` says of the store before. -/
theorem sees_all (h : p.store.Labelled) : Sees (p.store.seenBy p.status) p Part.all := by
  let author := p.fill .author
  let parent := author.fill .parent
  let parentAuthor := parent.fill .parentAuthor
  have hauthor : p.store.Alike author.store := p.alike_fill nofun nofun
  have hasked : Part.asked author.status .parent = Part.asked p.status .parent :=
    ((filled_fill h .author).others (by decide)).asked_eq (p.toRow_fill .author)
  have hparent : (p.store.afterParent p.status).Alike parent.store :=
    author.store_fill_parent ▸ hauthor.afterParent hasked
  have hparentAuthor : (p.store.afterParent p.status).Alike parentAuthor.store :=
    hparent.trans (parent.alike_fill nofun nofun)
  have hframe := p.store.frame_seenBy p.status
  refine ⟨rfl, Store.faultAt?_congr (hauthor.refusal?_eq .parent),
    Store.faultAt?_congr fun ids => ?_, Store.faultAt?_congr (hparentAuthor.refusal?_eq .boost),
    sees_of_frame (by decide) (by decide) (fun part => ?_) fun part => ?_⟩
  · obtain ⟨htables, hclosed⟩ := hframe .boost
    exact Store.refusal?_of_frame (hparent.tables.trans htables) (hparent.isClosed.trans hclosed)
      (by decide) (by decide) ids
  · calc (parentAuthor.fill .boost).store.database.tables
      _ = parentAuthor.store.database.tables := (parentAuthor.frame_fill .boost).1
      _ = p.store.database.tables := hparentAuthor.tables.trans (hframe .boost).1
      _ = (p.store.seenBy p.status part).database.tables := (hframe part).1.symm
  · calc (parentAuthor.fill .boost).store.database.isClosed
      _ = parentAuthor.store.database.isClosed := (parentAuthor.frame_fill .boost).2
      _ = p.store.database.isClosed := hparentAuthor.isClosed.trans (hframe .boost).2
      _ = (p.store.seenBy p.status part).database.isClosed := (hframe part).2.symm

/-- A status of which every part has nothing to ask for or fails, stays in a later store, and its
parts fail as before. -/
theorem sees_of_later {u : Store} (h : p.store.Labelled) (hlater : u.Later p.store)
    (hstuck : ∀ part ∈ parts, part.asked p.status ≠ none → u.faultAt? p.status part ≠ none) :
    Sees (fun _ => u) p parts ∧ (parts.foldl fill p).status = p.status := by
  induction parts generalizing p with
  | nil => exact ⟨trivial, rfl⟩
  | cons part rest ih =>
    obtain ⟨hpart, hrest⟩ := List.forall_mem_cons.1 hstuck
    have hsame : p.store.faultAt? p.status part = u.faultAt? p.status part := by
      cases hfault : u.faultAt? p.status part with
      | some reason => exact hlater.faultAt? hfault
      | none =>
        have hnone : part.asked p.status = none := by
          by_contra hasked
          exact hpart hasked hfault
        rw [Store.faultAt?, hnone, Option.bind_none]
    have hstatus := (filled_fill h part).status_eq (hsame ▸ hpart)
    have hstore : p.store.Later (p.fill part).store :=
      h.later (Store.fetches_fill (fun _ => trivial) p part)
    rw [← hstatus] at hrest
    obtain ⟨hsees, hfinal⟩ := ih (h.fill part) (hlater.trans hstore) hrest
    exact ⟨⟨hsame, hsees⟩, hfinal.trans hstatus⟩

end Population

theorem PopulateError.toResult_eq_ok {e : PopulateError} :
    e.toResult = .ok () ↔ e.messages = [] := by
  simp [toResult, isEmpty]

namespace Store

variable {s : Store}

/-- A population of a status, in any run and before any database, adds one message for each part
that fails, in the order of the parts, and is fine if there is none.  Every part that does not fail
has the records of the ids that it refers to, in their order; a part that fails or has nothing to
ask for keeps the records it has; and the row stays.  A second population, after other reads or a
restart, changes nothing and fails as the first. -/
theorem populate_parts {config : Config} {db : Database} (hstart : ofDatabase config db = .ok s)
    (incidents : List Incident) (status : Status) (between : List Operation)
    (hbetween : ∀ operation ∈ between, operation.Rereads) :
    let store := s.befallAll incidents
    let first := store.populate status
    let again := (first.store.run between).populate first.status
    first.failures.messages =
        Part.all.filterMap (fun part => (store.fault? status part).map part.failure) ∧
      (first.failures.toResult = .ok () ↔ ∀ part, store.fault? status part = none) ∧
      (∀ part, store.fault? status part = none → part.wanted status.toRow ≠ [] →
        part.attached first.status = part.wanted status.toRow) ∧
      (∀ part, part.asked status = none ∨ store.fault? status part ≠ none →
        part.Same first.status status) ∧
      first.status.barebones = status.barebones ∧
      again.status = first.status ∧ again.failures = first.failures := by
  intro store first again
  have hall : ∀ part, part ∈ Part.all := fun part => by cases part <;> decide
  have hlabelled : store.Labelled := labelled_befallAll hstart incidents
  have hfirst : Population.Foreseen (store.seenBy status) { store, status } Part.all first :=
    Population.foreseen_foldl hlabelled (by decide) (Population.sees_all hlabelled)
  have hfault : ∀ part, first.store.faultAt? first.status part = store.fault? status part :=
    fun part => hfirst.again part (hall part)
  -- The second population begins in a later store, where only parts that failed still ask.
  have hpopulated : first.store.Labelled :=
    hlabelled.fetches (store.fetches_populate (p := fun _ => True) (fun _ => trivial) status)
  obtain ⟨hlater, hbefore⟩ := hpopulated.later_run hbetween
  obtain ⟨hsees, hstatus⟩ := Population.sees_of_later
    (p := { store := first.store.run between, status := first.status }) hlater hbefore
    fun part hpart hasked hnone => hasked (hfirst.done part hpart ((hfault part).symm.trans hnone))
  have hagain : Population.Foreseen (fun _ => first.store)
      { store := first.store.run between, status := first.status } Part.all again :=
    Population.foreseen_foldl hlater (by decide) hsees
  have hmessages : first.failures.messages =
      Part.all.filterMap fun part => (store.fault? status part).map part.failure := hfirst.messages
  refine ⟨hmessages, ?_, fun part hnone hwanted => ?_, fun part hkept => ?_, ?_, hstatus, ?_⟩
  · rw [PopulateError.toResult_eq_ok, hmessages, List.filterMap_eq_nil_iff]
    simp [hall]
  · have hdone := hfirst.done part (hall part) hnone
    rw [← hfirst.row] at hwanted ⊢
    exact Part.attached_of_settled hdone hwanted
  · exact hfirst.kept part (hall part) fun hasked => hkept.resolve_left hasked
  · exact congrArg Status.ofRow hfirst.row
  · have hsame : again.failures.messages = first.failures.messages := by
      refine hagain.messages.trans (Eq.trans ?_ hmessages.symm)
      exact List.filterMap_congr fun part _ => by rw [hfault part]
    exact congrArg PopulateError.mk hsame

def understocked : Database where
  tables := {
    tags := [⟨⟨"01T", "tag", default⟩, []⟩]
    statuses := [⟨{ (default : StatusRow) with id := "01A", uri := "a" }, []⟩]
    dropped := [.emojis] }

/-- A reply of an account that is not stored, with a poll that is not its own and a tag too many. -/
def orphaned : Status := { (default : Status) with
  id := "01R"
  uri := "r"
  accountId := "01GHOST"
  inReplyToId := some "01A"
  pollId := some "01P"
  poll := some ⟨"01Q", "01A", [], false, none, default⟩
  tags := .known ["01T", "01S"]
  emojis := .known ["01E"] }

/-- Four parts fail, the parent is fetched and the poll stays.  After a restart it is the same. -/
theorem populate_parts_orphaned :
    let first := (beginning.befallAll [.replaced understocked]).populate orphaned
    let again := (first.store.run [.restart]).populate first.status
    first.failures.messages = [
        "error populating status author: Resource not found",
        "error populating status poll: Resource not found",
        "error populating status tags: missing 01S",
        "error populating status emojis: Database error: error returned from database: " ++
          "(code: 1) no such table: emojis"] ∧
      Part.parent.attached first.status = ["01A"] ∧ first.status.poll = orphaned.poll ∧
      again.status = first.status ∧ again.failures = first.failures := by
  obtain ⟨hmessages, -, hattached, hkept, -, hstatus, hfailures⟩ :=
    populate_parts ofDatabase_beginning [.replaced understocked] orphaned [.restart]
      (by simp [Operation.Rereads])
  refine ⟨hmessages.trans (by decide +kernel), hattached .parent (by decide +kernel) nofun, ?_,
    hstatus, hfailures⟩
  exact hkept .poll (Or.inr (by decide +kernel))

end Store

end StatusStore
