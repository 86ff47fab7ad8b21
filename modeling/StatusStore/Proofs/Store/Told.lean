/-
  StatusStore/Proofs/Store/Told.lean
  ==================================
  **What is told is what is committed.**  An operation that writes or deletes is one
  call of the database, and answers what that call answers.  If the call commits
  there is one event to tell, but for a deletion of a status that has no row; if it
  fails there is none.  The operation tells just that, whatever the state of the
  queue, and the rest of what can be done with a store tells nothing.

  Whether a deleted status had a row is known to the store only through the load
  before the deletion, which may be answered from the cache.  What is cached is
  rooted in a row, and a row that is there is loaded, so the load knows it.

  Main statements: `answer?_eq`, `queue_after` and `id_of_event?`.
-/
import StatusStore.Proofs.Queue
import StatusStore.Proofs.Store.Joins

namespace StatusStore

open Cache Database

def Database.Call.id : Call → String
  | put status _ => status.id
  | update status _ => status.id
  | delete id => id

namespace Store

variable {s u : Store}

/-! ### What there is to tell -/

/-- The event of a call that commits.  There is none if a status is deleted that has no row. -/
def event? (s : Store) : Call → Option StatusEvent
  | .put status _ => some ⟨.create, status⟩
  | .update status _ => some ⟨.update, status⟩
  | .delete id => (s.database.tables.statusRow? (.id id)).map fun row =>
      ⟨.delete, (s.cached? (.id id)).getD (.ofRow row.value)⟩

def commit? (s : Store) (c : Call) : Option StatusEvent :=
  match (s.database.call c).1 with
  | .ok () => s.event? c
  | .error _ => none

def told? (s : Store) : Event → Option StatusEvent
  | .use operation => operation.call?.bind s.commit?
  | .outage _ _ => none

def answer? (s : Store) : Operation → Option (Except Error Unit)
  | .put status fresh => some (s.put status fresh).1
  | .update status columns now => some (s.update status columns now).1
  | .delete id => some (s.delete id).1
  | _ => none

/-! ### Writes -/

/-- A write answers what its call answers, and tells of it if that commits. -/
theorem saved_announced (s : Store) (status : Status)
    (write : Database → Except Error Unit × Database) (action : StatusAction) :
    let written := match s.save status write with
      | (.ok (), s) =>
        ((.ok (), status, (s.publish action status).2) : Except Error Unit × Status × Store)
      | (.error e, s) => (.error e, status, s)
    written.1 = (write s.database).1 ∧
      written.2.2.queue = s.queue.tell (match (write s.database).1 with
        | .ok () => some ⟨action, status⟩
        | .error _ => none) := by
  rcases s.save_cases status write with ⟨e, hfailed, started, hsave⟩ | ⟨hok, hsave⟩
  · rw [hsave, hfailed]
    exact ⟨rfl, rfl⟩
  · rw [hsave, hok]
    exact ⟨rfl, rfl⟩

/-! ### Deletions -/

theorem Rooted.statusRow?_of_cached {w : Status} {id : String} (h : s.Rooted)
    (hcached : s.cached? (.id id) = some w) :
    ∃ row, s.database.tables.statusRow? (.id id) = some row := by
  apply Option.ne_none_iff_exists'.1
  intro hnone
  obtain ⟨r, hr, hid⟩ := h.there hcached
  rw [h.named hcached] at hid
  have hmeant := Tables.statusRow?_eq_none.1 hnone r hr
  rw [Lookup.describes_id.2 hid] at hmeant
  cases hmeant

/-- While statuses can be read, a load by id finds one just if there is a row. -/
theorem Rooted.load_toOption (h : s.Rooted) (hs : s.Tidy) (hread : s.Readable) (id : String) :
    (s.load (.id id)).1.toOption = (s.database.tables.statusRow? (.id id)).map fun row =>
      (s.cached? (.id id)).getD (.ofRow row.value) := by
  have hanswer : (s.database.status (.id id)).1 = s.database.tables.status (.id id) :=
    select_of_ready hread.opened hread.there _
  rw [hs.intact.status_eq] at hanswer
  obtain ⟨-, hloads⟩ := hs.load (.id id)
  generalize (s.load (.id id)).1 = loaded at hloads ⊢
  cases hloads with
  | hit hcached _ =>
    -- Nothing is cached of a status that is gone, so the cache knows of no other rows.
    obtain ⟨row, hrow⟩ := h.statusRow?_of_cached hcached
    rw [hrow, hcached]
    rfl
  | failed habsent hfailed _ =>
    cases hrow : s.database.tables.statusRow? (.id id) with
    | none => rfl
    | some row =>
      rw [hrow, hfailed] at hanswer
      cases hanswer
  | read habsent hfound _ =>
    cases hrow : s.database.tables.statusRow? (.id id) with
    | none =>
      rw [hrow, hfound] at hanswer
      cases hanswer
    | some row =>
      rw [hrow, hfound] at hanswer
      cases hanswer
      rw [habsent]
      rfl

theorem readable_of_delete {id : String} (h : (s.database.deleteStatus id).1 = .ok ()) :
    s.Readable := by
  obtain ⟨hopen, hrun⟩ := transact_ok h
  exact ⟨hopen, (Statement.delete_ok hrun).1⟩

theorem delete_fst (s : Store) (id : String) :
    (s.delete id).1 = (s.database.deleteStatus id).1 := by
  obtain ⟨htables, hclosed, -⟩ := s.frame_load (.id id)
  have hanswer := (transact_congr htables hclosed (Statement.delete id)).1
  unfold delete
  rw [get_barebones]
  dsimp only
  split
  · rename_i hok _
    exact hok.symm.trans hanswer
  · exact hanswer

/-- The event of a call is about the status that the call is about. -/
theorem Rooted.id_of_event? {c : Call} {e : StatusEvent} (h : s.Rooted)
    (hevent : s.event? c = some e) : e.status.id = c.id := by
  cases c with
  | put status newThread =>
    cases hevent
    rfl
  | update status columns =>
    cases hevent
    rfl
  | delete id =>
    obtain ⟨row, hrow, rfl⟩ := Option.map_eq_some_iff.1 hevent
    cases hcached : s.cached? (.id id) with
    | some w => exact h.named hcached
    | none => exact Lookup.describes_id.1 (Tables.describes_of_statusRow? hrow)

/-- A deletion tells of the status if it commits and there was a row, else nothing. -/
theorem Rooted.queue_delete (h : s.Rooted) (hs : s.Tidy) (id : String) :
    (s.delete id).2.queue = s.queue.tell (s.commit? (.delete id)) := by
  obtain ⟨htables, hclosed, -⟩ := s.frame_load (.id id)
  have hanswer : ((s.load (.id id)).2.database.deleteStatus id).1 =
      (s.database.deleteStatus id).1 := (transact_congr htables hclosed _).1
  have hqueue : (s.load (.id id)).2.queue = s.queue := rfl
  unfold delete commit?
  rw [get_barebones]
  dsimp only [call]
  rw [hanswer]
  cases hcall : (s.database.deleteStatus id).1 with
  | error e => rfl
  | ok _ =>
    -- What could be deleted could be read, so the load failed only if there was no row.
    have hloaded := h.load_toOption hs (readable_of_delete hcall) id
    have hevent : s.event? (.delete id) =
        (s.load (.id id)).1.toOption.map (StatusEvent.mk .delete) := by
      rw [hloaded, Option.map_map]
      rfl
    dsimp only
    rw [hevent]
    cases (s.load (.id id)).1 with
    | error e => rfl
    | ok w => rfl

/-! ### Everything else -/

theorem Fetches.queue {p : Lookup → Prop} (h : Fetches p s u) : u.queue = s.queue := by
  induction h with
  | refl => rfl
  | load _ _ ih => exact ih
  | loadList kind target _ ih =>
    rw [loadList_eq]
    exact ih
  | queried _ _ _ ih => exact ih

/-- What an operation answers is what its call answers, whatever is cached and queued. -/
theorem answer?_eq (s : Store) (operation : Operation) :
    s.answer? operation = operation.call?.map fun c => (s.database.call c).1 := by
  cases operation with
  | put status fresh => exact congrArg some (s.saved_announced _ _ .create).1
  | update status columns now => exact congrArg some (s.saved_announced _ _ .update).1
  | delete id => exact congrArg some (s.delete_fst id)
  | _ => rfl

/-- What happens to a store that is not restarted tells what it commits, and nothing else. -/
theorem Rooted.queue_after {event : Event} (h : s.Rooted) (hs : s.Tidy)
    (hstays : event ≠ .use .restart) : (s.after event).queue = s.queue.tell (s.told? event) := by
  cases event with
  | outage isClosed dropped => rfl
  | use operation =>
    cases operation with
    | put status fresh => exact (s.saved_announced _ _ .create).2
    | update status columns now => exact (s.saved_announced _ _ .update).2
    | delete id => exact h.queue_delete hs id
    | read r mode =>
      exact (fetches_read (p := fun _ => True) (fun _ => trivial) (fun _ _ => trivial) s mode).queue
    | populate status =>
      exact (s.fetches_populate (p := fun _ => True) (fun _ => trivial) status).queue
    | restart => exact absurd rfl hstays

end Store

end StatusStore
