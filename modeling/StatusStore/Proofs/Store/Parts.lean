/-
  StatusStore/Proofs/Store/Parts.lean
  ===================================
  **The parts of a status, one by one.**  A part refers to some ids, has some records
  attached, and may have ids to ask for.  To fill a part that has none does nothing.
  Else its ids are asked of the store, which refuses them for one reason or grants
  them: a refusal adds one message and leaves the status as it is, and after a grant
  the part has nothing to ask for any more.  The records of the other parts stay in
  any case.

  Main statements: `attached_of_settled`, and `filled_fill`, which says what comes of
  filling any part.
-/
import StatusStore.Proofs.Model.Hydration
import StatusStore.Proofs.Store.Deletion

namespace StatusStore

open Cache Database

/-! ### What a part refers to, has and asks for -/

namespace Part

def wanted (row : StatusRow) : Part → List String
  | .author => [row.accountId]
  | .parent => row.inReplyToId.toList
  | .parentAuthor => row.inReplyToAccountId.toList
  | .boost => row.boostOfId.toList
  | .boostAuthor => row.boostOfAccountId.toList
  | .poll => row.pollId.toList
  | .attachments => row.attachmentIds
  | .tags => row.tagIds
  | .mentions => row.mentionIds
  | .emojis => row.emojiIds
  | .application => row.createdWithApplicationId.toList

def attached (s : Status) : Part → List String
  | .author => (s.account.map Identified.id).toList
  | .parent => (s.inReplyTo.map Identified.id).toList
  | .parentAuthor => (s.inReplyToAccount.map Identified.id).toList
  | .boost => (s.boostOf.map Identified.id).toList
  | .boostAuthor => (s.boostOfAccount.map Identified.id).toList
  | .poll => (s.poll.map Identified.id).toList
  | .attachments => s.attachments.items.map Identified.id
  | .tags => s.tags.items.map Identified.id
  | .mentions => s.mentions.items.map Identified.id
  | .emojis => s.emojis.items.map Identified.id
  | .application => (s.createdWithApplication.map Identified.id).toList

/-- The id to ask for, unless the record that is there carries it. -/
def askedOne {α : Type} [Identified α] (wanted : Option String) (current : Option α) :
    Option (List String) :=
  (Population.stale? wanted current).map ([·])

def askedMany {α : Type} [Identified α] (r : Relation α) : Option (List String) :=
  if r.isPopulated then none else some r.toIds

def asked (s : Status) : Part → Option (List String)
  | .author => askedOne (some s.accountId) s.account
  | .parent => askedOne s.inReplyToId s.inReplyTo
  | .parentAuthor => askedOne s.inReplyToAccountId s.inReplyToAccount
  | .boost => askedOne s.boostOfId s.boostOf
  | .boostAuthor => askedOne s.boostOfAccountId s.boostOfAccount
  | .poll => askedOne s.pollId s.poll
  | .attachments => askedMany s.attachments
  | .tags => askedMany s.tags
  | .mentions => askedMany s.mentions
  | .emojis => askedMany s.emojis
  | .application => askedOne s.createdWithApplicationId s.createdWithApplication

/-- Whether a part has the same records in two statuses. -/
def Same (s t : Status) : Part → Prop
  | .author => s.account = t.account
  | .parent => s.inReplyTo = t.inReplyTo
  | .parentAuthor => s.inReplyToAccount = t.inReplyToAccount
  | .boost => s.boostOf = t.boostOf
  | .boostAuthor => s.boostOfAccount = t.boostOfAccount
  | .poll => s.poll = t.poll
  | .attachments => s.attachments = t.attachments
  | .tags => s.tags = t.tags
  | .mentions => s.mentions = t.mentions
  | .emojis => s.emojis = t.emojis
  | .application => s.createdWithApplication = t.createdWithApplication

theorem Same.refl (s : Status) (part : Part) : part.Same s s := by
  cases part <;> rfl

theorem Same.trans {s t u : Status} {part : Part} (hst : part.Same s t) (htu : part.Same t u) :
    part.Same s u := by
  cases part <;> exact Eq.trans hst htu

theorem Same.asked_eq {s t : Status} {part : Part} (h : part.Same s t) (hrow : s.toRow = t.toRow) :
    part.asked s = part.asked t := by
  have hfields : s.toStatusFields = t.toStatusFields := congrArg (·.toStatusFields) hrow
  cases part <;> simp only [Same] at h <;> simp only [asked, h, hfields]

theorem askedOne_eq_none {α : Type} [Identified α] {wanted : Option String} {current : Option α} :
    askedOne wanted current = none ↔
      ∀ id, wanted = some id → current.map Identified.id = some id := by
  simp [askedOne, Population.stale?, Option.filter_eq_none_iff]

theorem askedOne_settled {α : Type} [Identified α] {wanted : Option String} {current : Option α}
    (h : askedOne wanted current = none) (hwanted : wanted.toList ≠ []) :
    (current.map Identified.id).toList = wanted.toList := by
  cases wanted with
  | none => exact absurd rfl hwanted
  | some id => rw [askedOne_eq_none.1 h id rfl]

theorem askedMany_settled {α : Type} [Identified α] {r : Relation α} (h : askedMany r = none)
    (hwanted : r.toIds ≠ []) : r.items.map Identified.id = r.toIds := by
  cases r with
  | unset => exact absurd rfl hwanted
  | known ids => cases h
  | hydrated items => rfl

/-- A part that refers to something and has nothing to ask for has what it refers to. -/
theorem attached_of_settled {s : Status} {part : Part} (h : part.asked s = none)
    (hwanted : part.wanted s.toRow ≠ []) : part.attached s = part.wanted s.toRow := by
  cases part with
  | attachments | tags | mentions | emojis => exact askedMany_settled h hwanted
  | author =>
    have hasked : askedOne (some s.accountId) s.account = none := h
    exact askedOne_settled hasked hwanted
  | _ => exact askedOne_settled h hwanted

end Part

/-! ### Why a part is refused -/

def reason? {α : Type} : Except Error α → Option String
  | .ok _ => none
  | .error e => some e.message

namespace Store

def fetchRefusal? (α : Type) [Persistent α] (s : Store) (ids : List String) : Option String :=
  ids.findSome? fun id => reason? (s.fetch α id).1

def loadRefusal? (s : Store) (ids : List String) : Option String :=
  ids.findSome? fun id => reason? (s.load (.id id)).1

theorem fetchRefusal?_singleton {α : Type} [Persistent α] (s : Store) (id : String) :
    s.fetchRefusal? α [id] = reason? (s.fetch α id).1 := by
  simp [fetchRefusal?]

theorem loadRefusal?_singleton (s : Store) (id : String) :
    s.loadRefusal? [id] = reason? (s.load (.id id)).1 := by
  simp [loadRefusal?]

/-- Why the records with some ids are not fetched: the query fails, or some of them are missing. -/
def listRefusal? (α : Type) [Persistent α] (s : Store) (ids : List String) : Option String :=
  match (s.database.fetchAll α ids).1 with
  | .error e => some e.message
  | .ok items =>
    let missing := ids.filter fun id => !items.any (Identified.id · = id)
    if missing.isEmpty then none else some ("missing " ++ ", ".intercalate missing)

def refusal? (s : Store) (part : Part) (ids : List String) : Option String :=
  match part with
  | .author | .parentAuthor | .boostAuthor => s.fetchRefusal? Account ids
  | .parent | .boost => s.loadRefusal? ids
  | .poll => s.fetchRefusal? Poll ids
  | .attachments => s.listRefusal? Attachment ids
  | .tags => s.listRefusal? Tag ids
  | .mentions => s.listRefusal? Mention ids
  | .emojis => s.listRefusal? Emoji ids
  | .application => s.fetchRefusal? Application ids

def faultAt? (s : Store) (status : Status) (part : Part) : Option String :=
  (part.asked status).bind (s.refusal? part)

/-- The store after the parent of a status was loaded, if that is asked for. -/
def afterParent (s : Store) (status : Status) : Store :=
  match Population.stale? status.inReplyToId status.inReplyTo with
  | some id => (s.load (.id id)).2
  | none => s

/-- The store that a part of a status comes to be asked of.  Statuses come through the cache, so the
parent may have come into it, or have displaced others there, before the boosted status is asked
for; all other parts are asked of the database. -/
def seenBy (s : Store) (status : Status) : Part → Store
  | .boost => s.afterParent status
  | _ => s

/-- Why a part of a status fails when the status is populated, if it does. -/
def fault? (s : Store) (status : Status) (part : Part) : Option String :=
  (s.seenBy status part).faultAt? status part

end Store

/-! ### One part -/

theorem Store.Labelled.id_of_load {s : Store} (h : s.Labelled) {id : String} {w : Status}
    (hload : (s.load (.id id)).1 = .ok w) : w.id = id := by
  obtain ⟨-, hloads⟩ := loads_load h.ordered (.id id)
  rw [hload] at hloads
  cases hloads with
  | hit hcached _ => exact h.named hcached
  | read _ hanswer _ => exact Tables.id_of_status (select_eq_ok.1 hanswer).2.2

/-- Records for all ids make a list that is populated; else the list stays as it is, and the ids
without a record are told. -/
theorem Relation.hydrate_cases {α : Type} [Identified α] {r : Relation α}
    (hunfetched : r.isPopulated = false) (items : List α) :
    let missing := r.toIds.filter fun id => !items.any (Identified.id · = id)
    (missing = [] ∧ ∃ r', r.hydrate items = (.ok (), r') ∧ r'.isPopulated = true) ∨
      (missing ≠ [] ∧ r.hydrate items = (.error missing, r)) := by
  intro missing
  have hmissing : missing = r.toIds.filter fun id => ¬ Carried items id := by
    refine congrArg (List.filter · r.toIds) (funext fun id => ?_)
    rw [Bool.eq_iff_iff]
    simp [Carried]
  have houtcome := r.hydrates_hydrate items
  have hok := houtcome.ok_iff
  generalize r.hydrate items = outcome at houtcome hok ⊢
  cases houtcome with
  | nothing hnone => exact Or.inl ⟨by rw [hmissing, hnone]; rfl, _, rfl, rfl⟩
  | complete =>
    have hcarried := hok.1 rfl
    refine Or.inl ⟨?_, _, rfl, rfl⟩
    rw [hmissing, List.filter_eq_nil_iff]
    simpa using hcarried
  | incomplete hlacking hsome =>
    rw [hlacking, ← hmissing] at hsome ⊢
    refine Or.inr ⟨hsome, ?_⟩
    cases r with
    | known ids => rfl
    | _ => cases hunfetched

namespace Population

variable {p q : Population} {part : Part}

inductive Filled (p : Population) (part : Part) (q : Population) : Prop
  /-- There is nothing to ask for. -/
  | settled (asked : part.asked p.status = none) (same : q = p)
  | refused {ids : List String} {reason : String} (asked : part.asked p.status = some ids)
      (refusal : p.store.refusal? part ids = some reason) (status : q.status = p.status)
      (failures : q.failures = p.failures.push (part.failure reason))
  | granted {ids : List String} (asked : part.asked p.status = some ids)
      (refusal : p.store.refusal? part ids = none) (failures : q.failures = p.failures)
      (done : part.asked q.status = none) (others : ∀ other ≠ part, other.Same q.status p.status)

theorem filled_one {α : Type} [Identified α] {wanted : Option String} {current : Option α}
    {fetch : Store → String → Except Error α × Store} {attach : Status → α → Status}
    (hasked : part.asked p.status = Part.askedOne wanted current)
    (hrefusal : ∀ id, p.store.refusal? part [id] = reason? (fetch p.store id).1)
    (hid : ∀ {id a}, (fetch p.store id).1 = .ok a → Identified.id a = id)
    (hdone : ∀ a, part.asked (attach p.status a) = Part.askedOne wanted (some a))
    (hothers : ∀ a, ∀ other ≠ part, other.Same (attach p.status a) p.status) :
    Filled p part (p.one part wanted current fetch attach) := by
  unfold one
  cases hstale : stale? wanted current with
  | none => exact .settled (by rw [hasked, Part.askedOne, hstale, Option.map_none]) rfl
  | some id =>
    have hasked : part.asked p.status = some [id] := by
      rw [hasked, Part.askedOne, hstale, Option.map_some]
    have hwanted : wanted = some id := (Option.filter_eq_some_iff.1 hstale).1
    specialize hrefusal id
    dsimp only
    cases hfetch : fetch p.store id with
    | mk answer u =>
      rw [hfetch] at hrefusal
      cases answer with
      | error e => exact .refused hasked hrefusal rfl rfl
      | ok a =>
        refine .granted hasked hrefusal rfl ((hdone a).trans ?_) (hothers a)
        -- The record that was fetched carries the id that was asked for.
        refine Part.askedOne_eq_none.2 fun id' hid' => ?_
        rw [hwanted] at hid'
        rw [← Option.some.inj hid', Option.map_some, hid (by rw [hfetch])]

theorem filled_many {α : Type} [Persistent α] {relation : Relation α}
    {attach : Status → Relation α → Status}
    (hasked : part.asked p.status = Part.askedMany relation)
    (hrefusal : ∀ ids, p.store.refusal? part ids = p.store.listRefusal? α ids)
    (hdone : ∀ r, part.asked (attach p.status r) = Part.askedMany r)
    (hsame : attach p.status relation = p.status)
    (hothers : ∀ r, ∀ other ≠ part, other.Same (attach p.status r) p.status) :
    Filled p part (p.many part relation attach) := by
  unfold many
  cases hpopulated : relation.isPopulated with
  | true => exact .settled (by rw [hasked, Part.askedMany, if_pos hpopulated]) rfl
  | false =>
    have hasked : part.asked p.status = some relation.toIds := by
      rw [hasked, Part.askedMany, hpopulated]
      rfl
    specialize hrefusal relation.toIds
    unfold Store.listRefusal? at hrefusal
    rw [if_neg nofun]
    generalize p.store.database.fetchAll α relation.toIds = fetched at hrefusal ⊢
    obtain ⟨answer, database⟩ := fetched
    cases answer with
    | error e => exact .refused hasked hrefusal rfl rfl
    | ok items =>
      dsimp only at hrefusal ⊢
      rcases relation.hydrate_cases hpopulated items with
        ⟨hnone, r, hhydrate, hr⟩ | ⟨hmissing, hhydrate⟩
      · rw [hnone] at hrefusal
        rw [hhydrate]
        refine .granted hasked hrefusal rfl ((hdone r).trans ?_) (hothers r)
        rw [Part.askedMany, if_pos hr]
      · rw [if_neg (by simpa using hmissing)] at hrefusal
        rw [hhydrate]
        exact .refused hasked hrefusal hsame rfl

/-- A part is filled, is refused or has nothing to ask for, and the other parts stay. -/
theorem filled_fill (h : p.store.Labelled) (part : Part) : Filled p part (p.fill part) := by
  unfold fill
  cases part with
  | parent | boost =>
    refine filled_one rfl p.store.loadRefusal?_singleton h.id_of_load (fun _ => rfl)
      fun a other hne => ?_
    cases other <;> first | rfl | exact absurd rfl hne
  | attachments | tags | mentions | emojis =>
    refine filled_many rfl (fun _ => rfl) (fun _ => rfl) (by cases p.status; rfl)
      fun r other hne => ?_
    cases other <;> first | rfl | exact absurd rfl hne
  | _ =>
    refine filled_one rfl p.store.fetchRefusal?_singleton id_of_fetch (fun _ => rfl)
      fun a other hne => ?_
    cases other <;> first | rfl | exact absurd rfl hne

end Population

end StatusStore
