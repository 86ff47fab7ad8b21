/-
  StatusStore/Proofs/Store/Barebones.lean
  =======================================
  **What is cached is barebones, and what is fetched is one level deep.**  A status is
  stripped of its records before it is cached, and what the database answers has none.
  A population attaches a parent and a boosted status that came through the cache; so
  these have no records, and a status that had none itself before is populated one
  level deep.

  Main statements: `Bare.perform` and `Bare.read` for one caller at a time, and
  `deepens_populate`, which is about any copy of a status in a caller's hands.
-/
import StatusStore.Proofs.Cache.Contents
import StatusStore.Proofs.Store.Deletion
import StatusStore.Proofs.Store.Served

namespace StatusStore

open Cache Database

/-! ### Statuses without records -/

namespace Status

variable {s t u : Status}

/-- Nothing is fetched for the status; see `barebones_eq_self_iff`. -/
def IsBare (s : Status) : Prop := s.barebones = s

/-- Nothing is fetched for the parent of the status and for what it boosts. -/
structure IsShallow (s : Status) : Prop where
  parent : ∀ p, s.inReplyTo = some p → p.IsBare
  boosted : ∀ b, s.boostOf = some b → b.IsBare

/-- `t` is `s` after parts of it were fetched: it has the parent of `s` or one for which nothing is
fetched, and as to what it boosts likewise. -/
structure Deepens (s t : Status) : Prop where
  parent : t.inReplyTo = s.inReplyTo ∨ ∃ p, t.inReplyTo = some p ∧ p.IsBare
  boosted : t.boostOf = s.boostOf ∨ ∃ b, t.boostOf = some b ∧ b.IsBare

theorem isBare_barebones (s : Status) : s.barebones.IsBare := s.barebones_barebones

theorem IsBare.hasNoRecords (h : s.IsBare) : s.HasNoRecords := (barebones_eq_self_iff.1 h).1

theorem IsBare.isShallow (h : s.IsBare) : s.IsShallow where
  parent p hp := by
    cases h.hasNoRecords.inReplyTo.symm.trans hp
  boosted b hb := by
    cases h.hasNoRecords.boostOf.symm.trans hb

theorem Deepens.refl (s : Status) : Deepens s s := ⟨Or.inl rfl, Or.inl rfl⟩

theorem Deepens.trans (hst : Deepens s t) (htu : Deepens t u) : Deepens s u where
  parent := by
    rcases htu.parent with hsame | hbare
    · exact hsame ▸ hst.parent
    · exact Or.inr hbare
  boosted := by
    rcases htu.boosted with hsame | hbare
    · exact hsame ▸ hst.boosted
    · exact Or.inr hbare

theorem IsShallow.deepen (h : s.IsShallow) (hst : Deepens s t) : t.IsShallow where
  parent p hp := by
    rcases hst.parent with hsame | ⟨q, hq, hbare⟩
    · exact h.parent p (hsame ▸ hp)
    · exact Option.some.inj (hq.symm.trans hp) ▸ hbare
  boosted b hb := by
    rcases hst.boosted with hsame | ⟨q, hq, hbare⟩
    · exact h.boosted b (hsame ▸ hb)
    · exact Option.some.inj (hq.symm.trans hb) ▸ hbare

end Status

def AnswersBare (answer : Except Error Status) : Prop :=
  ∀ w, acceptIncomplete answer = .ok w → w.IsBare

theorem answersBare_ok {w : Status} : AnswersBare (.ok w) ↔ w.IsBare := by
  simp [AnswersBare, acceptIncomplete]

/-- A stored row has no records. -/
theorem Database.answersBare_status (db : Database) (l : Lookup) : AnswersBare (db.status l).1 := by
  intro w hw
  rw [db.acceptIncomplete_status] at hw
  obtain ⟨r, -, -, rfl⟩ := Tables.row_of_status (select_eq_ok.1 hw).2.2
  exact Status.barebones_ofRow r.value

variable {s u : Store} {mode : Retrieval} {x : Status} {p : Population} {part : Part}

namespace Store

/-- Whatever is cached, or may yet come of a flight, is barebones. -/
def Bare (s : Store) : Prop := s.caches.statuses.Only AnswersBare

/-! ### Loads -/

theorem Bare.load (h : s.Bare) (l : Lookup) : (s.load l).2.Bare ∧ AnswersBare (s.load l).1 := by
  have hanswer := s.database.answersBare_status l
  exact EntityCache.Only.load h (.ofLookup l) (fun db : Database => db.status l) s.database hanswer

theorem Bare.fetches {p : Lookup → Prop} (hfetches : Fetches p s u) (h : s.Bare) : u.Bare := by
  induction hfetches with
  | refl => exact h
  | load _ _ ih => exact (ih.load _).1
  | @loadList v kind target _ ih =>
    obtain ⟨-, -, hstatuses, -⟩ := v.frame_loadList kind target
    rw [Bare, hstatuses]
    exact ih
  | queried _ _ _ ih => exact ih

end Store

/-! ### Population -/

namespace Population

open Status

theorem deepens_settle {α : Type} {attach : Status → α → Status} {answer : Except Error α}
    (hattach : ∀ a, answer = .ok a → Deepens p.status (attach p.status a)) :
    Deepens p.status (p.settle part attach answer).status := by
  cases answer with
  | error e => exact .refl p.status
  | ok a => exact hattach a rfl

theorem deepens_one {α : Type} [Identified α] {wanted : Option String} {current : Option α}
    {fetch : Store → String → Except Error α × Store} {attach : Status → α → Status}
    (hattach : ∀ id a, (fetch p.store id).1 = .ok a → Deepens p.status (attach p.status a)) :
    Deepens p.status (p.one part wanted current fetch attach).status := by
  unfold one
  split
  · exact .refl p.status
  · rename_i id _
    exact deepens_settle (p := { p with store := (fetch p.store id).2 }) (hattach id)

theorem deepens_many {α : Type} [Persistent α] {relation : Relation α}
    {attach : Status → Relation α → Status}
    (hattach : ∀ r, Deepens p.status (attach p.status r)) :
    Deepens p.status (p.many part relation attach).status := by
  unfold many
  split
  · exact .refl p.status
  · dsimp only
    split
    · exact .refl p.status
    · split <;> exact hattach _

/-- A barebones status becomes the parent of another, or what this boosts. -/
theorem deepens_attach {answer : Except Error Status} {w : Status} (h : AnswersBare answer)
    (hw : answer = .ok w) (s : Status) :
    Deepens s (attachParent s w) ∧ Deepens s (attachBoosted s w) := by
  rw [hw, answersBare_ok] at h
  exact ⟨⟨Or.inr ⟨w, rfl, h⟩, Or.inl rfl⟩, ⟨Or.inl rfl, Or.inr ⟨w, rfl, h⟩⟩⟩

theorem deepens_fill (h : p.store.Bare) (part : Part) : Deepens p.status (p.fill part).status := by
  have hload := fun id => (h.load (.id id)).2
  cases part with
  | parent => exact deepens_one fun id w hw => (deepens_attach (hload id) hw p.status).1
  | boost => exact deepens_one fun id w hw => (deepens_attach (hload id) hw p.status).2
  | attachments | tags | mentions | emojis =>
    exact deepens_many fun _ => ⟨Or.inl rfl, Or.inl rfl⟩
  | _ => exact deepens_one fun _ _ _ => ⟨Or.inl rfl, Or.inl rfl⟩

/-- What comes through the cache for a part is barebones, and so is then attached. -/
theorem deepens_receive {answer : Except Error Status} (h : AnswersBare answer) (part : Part) :
    Deepens p.status (p.receive part answer).status := by
  cases part with
  | parent => exact deepens_settle fun w hw => (deepens_attach h hw p.status).1
  | boost => exact deepens_settle fun w hw => (deepens_attach h hw p.status).2
  | _ => exact .refl p.status

theorem isShallow_fill (h : p.store.Bare) (hp : p.status.IsShallow) (part : Part) :
    (p.fill part).status.IsShallow :=
  hp.deepen (deepens_fill h part)

theorem isShallow_receive {answer : Except Error Status} (h : AnswersBare answer)
    (hp : p.status.IsShallow) (part : Part) : (p.receive part answer).status.IsShallow :=
  hp.deepen (deepens_receive h part)

theorem deepens_foldl (h : p.store.Bare) (parts : List Part) :
    Deepens p.status (parts.foldl fill p).status := by
  induction parts generalizing p with
  | nil => exact .refl p.status
  | cons part parts ih =>
    have hfilled : (p.fill part).store.Bare :=
      h.fetches (Store.fetches_fill (p := fun _ => True) (fun _ => trivial) p part)
    exact (deepens_fill h part).trans (ih hfilled)

end Population

namespace Store

/-- A population fetches nothing for the parent that it attaches, nor for what the status boosts. -/
theorem deepens_populate (h : s.Bare) (status : Status) :
    Status.Deepens status (s.populate status).status :=
  Population.deepens_foldl (p := { store := s, status }) h Part.all

/-! ### Reads -/

theorem Bare.get {l : Lookup} (h : s.Bare) (hx : acceptIncomplete (s.get l mode).1 = .ok x) :
    x.IsShallow ∧ (mode = .barebones → x.IsBare) := by
  obtain ⟨hloaded, hanswer⟩ := h.load l
  cases mode with
  | barebones =>
    rw [get_barebones] at hx
    have hbare := hanswer x hx
    exact ⟨hbare.isShallow, fun _ => hbare⟩
  | full =>
    refine ⟨?_, nofun⟩
    cases hload : (s.load l).1 with
    | error e =>
      rw [(get_of_load_error hload .full).2] at hx
      cases hx
    | ok w =>
      rw [hload, answersBare_ok] at hanswer
      have hpopulated : x = ((s.load l).2.populate w).status := by
        simp only [Store.get, complete, hload, Population.result] at hx
        split at hx <;> exact (Except.ok.inj hx).symm
      rw [hpopulated]
      exact hanswer.isShallow.deepen (deepens_populate hloaded w)

/-- Whatever a read shows is one level deep, and barebones if that is asked for. -/
theorem Bare.read {r : Read} (h : s.Bare) (hx : (s.read r mode).1.Shows x) :
    x.IsShallow ∧ (mode = .barebones → x.IsBare) := by
  obtain ⟨u, l, hfetches, hget⟩ := served_read hx
  exact (h.fetches hfetches).get hget

/-! ### Runs -/

theorem Bare.save (h : s.Bare) (status : Status) (write : Database → Except Error Unit × Database) :
    (s.save status write).2.Bare := by
  have hstored :=
    EntityCache.Only.store h (answersBare_ok.2 status.isBare_barebones) write s.database
  rw [Bare]
  simp only [Store.save, Caches.store, Caches.statuses_announce]
  exact hstored

theorem Bare.perform (h : s.Bare) (operation : Operation) : (s.perform operation).Bare := by
  cases operation with
  | put status fresh =>
    rw [Bare, Store.perform, caches_put]
    exact h.save _ _
  | update status columns now =>
    rw [Bare, Store.perform, caches_update]
    exact h.save _ _
  | delete id =>
    have hinvalidated := (h.load (.id id)).1.invalidate (.ofLookup (.id id))
    rw [Bare, Store.perform, caches_delete]
    simp only [Caches.invalidate, Caches.statuses_announce]
    exact hinvalidated
  | read r mode =>
    have hread : Fetches (fun _ => True) s (s.read r mode).2 :=
      fetches_read (fun _ => trivial) (fun _ _ => trivial) s mode
    exact h.fetches hread
  | populate status =>
    exact h.fetches (s.fetches_populate (p := fun _ => True) (fun _ => trivial) status)
  | restart => exact EntityCache.only_restarted _

theorem Bare.befall (h : s.Bare) (incident : Incident) : (s.befall incident).Bare := by
  cases incident with
  | use operation => exact h.perform operation
  | replaced database => exact h

theorem bare_ofDatabase {config : Config} {db : Database} (hstart : ofDatabase config db = .ok s) :
    s.Bare := by
  obtain ⟨queue, rfl⟩ := ofDatabase_ok hstart
  exact EntityCache.only_withGcFrequency "status" config.lockGcFrequency

end Store

end StatusStore
