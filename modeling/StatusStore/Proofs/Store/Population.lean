/-
  StatusStore/Proofs/Store/Population.lean
  ========================================
  **What population leaves as it is.**  Records are attached to a status in the place
  of their ids, and an incomplete list of records keeps its ids.  So a status that is
  populated, in full or not, still has the row that it was loaded with, and a read
  that accepts what is incomplete fails only where the load does.

  Main statements: `toRow_populate`, `get_of_load_ok` and `get_of_load_error`.
-/
import StatusStore.Proofs.Database.Rows
import StatusStore.Proofs.Store.Access

namespace StatusStore

open Cache Database

namespace Population

variable {p : Population} {part : Part}

theorem toRow_settle {α : Type} {attach : Status → α → Status}
    (hattach : ∀ s a, (attach s a).toRow = s.toRow) (answer : Except Error α) :
    (p.settle part attach answer).status.toRow = p.status.toRow := by
  cases answer with
  | error e => rfl
  | ok a => exact hattach p.status a

theorem toRow_one {α : Type} [Identified α] {wanted : Option String} {current : Option α}
    {fetch : Store → String → Except Error α × Store} {attach : Status → α → Status}
    (hattach : ∀ s a, (attach s a).toRow = s.toRow) :
    (p.one part wanted current fetch attach).status.toRow = p.status.toRow := by
  unfold one
  split
  · rfl
  · exact toRow_settle hattach _

theorem toRow_many {α : Type} [Persistent α] {relation : Relation α}
    {attach : Status → Relation α → Status}
    (hattach : ∀ r : Relation α, r.toIds = relation.toIds →
      (attach p.status r).toRow = p.status.toRow) :
    (p.many part relation attach).status.toRow = p.status.toRow := by
  unfold many
  split
  · rfl
  · dsimp only
    split
    · rfl
    · split <;> exact hattach _ (relation.toIds_hydrate _)

theorem toRow_fill (p : Population) (part : Part) :
    (p.fill part).status.toRow = p.status.toRow := by
  cases part with
  | attachments | tags | mentions | emojis =>
    exact toRow_many fun r hids => by simp only [Status.toRow, hids]
  | _ => exact toRow_one fun _ _ => rfl

end Population

namespace Store

theorem toRow_populate (s : Store) (status : Status) :
    (s.populate status).status.toRow = status.toRow := by
  have hparts : ∀ (parts : List Part) (p : Population),
      (parts.foldl Population.fill p).status.toRow = p.status.toRow := by
    intro parts
    induction parts with
    | nil => exact fun _ => rfl
    | cons part parts ih => exact fun p => (ih (p.fill part)).trans (p.toRow_fill part)
  exact hparts Part.all _

/-- A status that was loaded is answered with its row, even if it could not be populated in full. -/
theorem complete_ok (s : Store) (w : Status) (mode : Retrieval) :
    ∃ x, acceptIncomplete (s.complete (.ok w) mode).1 = .ok x ∧ x.toRow = w.toRow ∧
      (mode = .barebones → x = w) := by
  cases mode with
  | barebones => exact ⟨w, rfl, rfl, fun _ => rfl⟩
  | full =>
    refine ⟨(s.populate w).status, ?_, s.toRow_populate w, nofun⟩
    simp only [complete, Population.result]
    cases (s.populate w).failures.toResult <;> rfl

theorem acceptIncomplete_load (s : Store) (l : Lookup) :
    acceptIncomplete (s.load l).1 = (s.load l).1 := by
  simp only [load, Caches.load, EntityCache.load]
  cases s.caches.statuses.get? (.ofLookup l) with
  | some w => rfl
  | none => exact s.database.acceptIncomplete_status l

variable {s : Store} {l : Lookup}

theorem get_of_load_ok {w : Status} (hload : (s.load l).1 = .ok w) (mode : Retrieval) :
    ∃ x, acceptIncomplete (s.get l mode).1 = .ok x ∧ x.toRow = w.toRow ∧
      (mode = .barebones → x = w) := by
  have hcomplete := (s.load l).2.complete_ok w mode
  rw [← hload] at hcomplete
  exact hcomplete

theorem get_of_load_error {e : Error} (hload : (s.load l).1 = .error e) (mode : Retrieval) :
    (s.get l mode).1 = .error e ∧ acceptIncomplete (s.get l mode).1 = .error e := by
  have hfinal := s.acceptIncomplete_load l
  rw [hload] at hfinal
  have hget : (s.get l mode).1 = .error e := by
    unfold get
    cases mode <;> simp only [complete, hload]
  rw [hget]
  exact ⟨rfl, hfinal⟩

end Store

end StatusStore
