/-
  StatusStore/Proofs/Store/Calls.lean
  ===================================
  **Calls in progress.**  A call has one task at a time.  A call that writes a
  status does so to its end, and a deletion stays one (`Task.subject?`); no other
  call comes to write or delete anything.

  Main statements: `subject?_step`, which says that only the beginning of a call adds
  a write or deletion to those in progress, and the facts `Caches.start_spec` and
  `Caches.poll_spec` about the status cache under the calls.
-/
import StatusStore.Proofs.Cache.Current
import StatusStore.Proofs.Cache.Lists
import StatusStore.Proofs.Database.Notions
import StatusStore.Store.Overlap

namespace StatusStore

open Cache Database

/-! ### The caches under the calls -/

namespace Cache.Caches

variable {c : Caches}

theorem flights_invalidateList (c : Caches) (kind other : ListKind) (target : String) :
    ((c.invalidateList kind target).lists other).flights = (c.lists other).flights := by
  rw [invalidateList, lists_setLists]
  split
  · rename_i hsame
    rw [hsame]
    rfl
  · rfl

theorem flights_dropLists (c : Caches) (v : Status) (kind : ListKind) :
    ((c.dropLists v).lists kind).flights = (c.lists kind).flights := by
  simp only [dropLists, flights_invalidateList]
  cases v.inReplyToId <;> cases v.boostOfId <;> simp [flights_invalidateList]

theorem flights_announce (c : Caches) (vs : List Status) (kind : ListKind) :
    ((c.announce vs).lists kind).flights = (c.lists kind).flights := by
  induction vs generalizing c with
  | nil => rfl
  | cons v vs ih => exact (ih (c.dropLists v)).trans (c.flights_dropLists v kind)

def Unlisted (c : Caches) : Prop := ∀ kind, (c.lists kind).flights = []

theorem unlisted_withGcFrequency (frequency : UInt32) : (withGcFrequency frequency).Unlisted := by
  intro kind
  cases kind <;> rfl

theorem Unlisted.withStatuses (h : c.Unlisted) (statuses : EntityCache Status) :
    Unlisted { c with statuses } := by
  intro kind
  cases kind
  · exact h .replies
  · exact h .boosts

theorem Unlisted.announce (h : c.Unlisted) (statuses : EntityCache Status) (vs : List Status) :
    ({ c with statuses }.announce vs).Unlisted := by
  intro kind
  rw [flights_announce]
  exact h.withStatuses statuses kind

theorem start_spec (h : c.Unlisted) (handle : Nat) (work : Work Status) :
    (c.start handle work).1 = .status (c.statuses.start handle work).1 ∧
      (c.start handle work).2.statuses = (c.statuses.start handle work).2.2 ∧
      (c.start handle work).2.Unlisted :=
  ⟨rfl, statuses_announce _ _, h.announce _ _⟩

theorem poll_eq (h : c.Unlisted) (handle : Nat) :
    c.poll handle = c.afterStep (c.statuses.poll handle) := by
  have hreplies : c.replies.flight? handle = none := by
    rw [EntityCache.flight?, show c.replies.flights = [] from h .replies, List.find?_nil]
  have hboosts : c.boosts.flight? handle = none := by
    rw [EntityCache.flight?, show c.boosts.flights = [] from h .boosts, List.find?_nil]
  simp [poll, hreplies, hboosts]

theorem poll_spec (h : c.Unlisted) (handle : Nat) :
    (c.poll handle).1 = .status (c.statuses.poll handle).1 ∧
      (c.poll handle).2.statuses = (c.statuses.poll handle).2.2 ∧ (c.poll handle).2.Unlisted := by
  rw [poll_eq h]
  exact ⟨rfl, statuses_announce _ _, h.announce _ _⟩

theorem invalidate_spec (h : c.Unlisted) (key : Key) :
    (c.invalidate key).statuses = (c.statuses.invalidate key).2 ∧ (c.invalidate key).Unlisted :=
  ⟨statuses_announce _ _, h.announce _ _⟩

end Cache.Caches

namespace Overlap

/-! ### Tasks -/

theorem task?_setTask (o : Overlap) (i : Nat) (task : Task) (j : Nat) :
    (o.setTask i task).task? j = if j = i then (o.task? i).map fun _ => task else o.task? j := by
  have hfind : (o.setTask i task).task? j = ((o.calls.find? (·.handle = j)).map fun c =>
      if c.handle = i then { c with task } else c).map Call.task := by
    have hsame : ∀ c : Call, (if c.handle = i then { c with task } else c).handle = c.handle := by
      intro c
      split <;> rfl
    simp only [task?, setTask, List.find?_map, Function.comp_def, hsame]
  have hhandle : ∀ {k c}, o.calls.find? (·.handle = k) = some c → c.handle = k := by
    intro k c hc
    simpa using List.find?_some hc
  rw [hfind]
  split
  · rename_i hj
    subst hj
    cases hown : o.calls.find? (·.handle = j) with
    | none => simp [task?, hown]
    | some c => simp [task?, hown, hhandle hown]
  · rename_i hj
    cases hother : o.calls.find? (·.handle = j) with
    | none => simp [task?, hother]
    | some c =>
      have hapart : ¬ c.handle = i := fun hsame => hj ((hhandle hother).symm.trans hsame)
      simp [task?, hother, hapart]

theorem task?_finish (o : Overlap) (i : Nat) (result : Returned) (j : Nat) :
    (o.finish i result).task? j = if j = i then none else o.task? j := by
  simp only [task?, finish, forget, List.find?_filter]
  split
  · rename_i hj
    subst hj
    simp
  · rename_i hj
    congr 2
    funext c
    by_cases hc : c.handle = j
    · simp [hc, hj]
    · simp [hc]

theorem task?_append {o : Overlap} {i : Nat} (h : o.task? i = none) (task : Task) (j : Nat) :
    ({ o with calls := o.calls ++ [⟨i, task⟩] } : Overlap).task? j =
      if j = i then some task else o.task? j := by
  have hnone : o.calls.find? (·.handle = i) = none := by simpa [task?] using h
  simp only [task?, List.find?_append]
  split
  · rename_i hj
    subst hj
    simp [hnone]
  · rename_i hj
    simp [Ne.symm hj]

/-! ### Writes and deletions in progress -/

inductive Subject
  | write (action : StatusAction) (status : Status) (statements : List Statement)
  | deletion (id : String)

end Overlap

def Task.subject? : Task → Option Overlap.Subject
  | .save action status statements => some (.write action status statements)
  | .preload id | .remove id _ _ => some (.deletion id)
  | _ => none

def Request.subject? : Request → Option Overlap.Subject
  | .get _ _ => none
  | .put status fresh =>
    let (newThread, status) := status.startThread fresh
    some (.write .create status (Statement.put status newThread))
  | .update status columns now =>
    let status := { status with updatedAt := now }
    some (.write .update status (Statement.update status columns))
  | .delete id => some (.deletion id)

namespace Overlap

variable {o u : Overlap} {i j : Nat} {task t : Task} {x : Subject} {p : CallProgress}

def subject? (o : Overlap) (i : Nat) : Option Subject := (o.task? i).bind Task.subject?

theorem subject?_setTask (h : (o.setTask i t).subject? j = some x)
    (hsame : t.subject? = o.subject? i) : o.subject? j = some x := by
  rw [subject?, task?_setTask] at h
  split at h
  · rename_i hj
    subst hj
    cases htask : o.task? j with
    | none => simp [htask] at h
    | some old =>
      rw [htask] at h
      exact hsame.symm.trans h
  · exact h

theorem subject?_finish {r : Returned} (h : (o.finish i r).subject? j = some x) :
    o.subject? j = some x := by
  rw [subject?, task?_finish] at h
  split at h
  · cases h
  · exact h

theorem subject?_populate {status : Status} {failures : PopulateError} {parts : List Part}
    (h : (o.populate i status failures parts).subject? j = some x)
    (hnone : o.subject? i = none) : o.subject? j = some x := by
  induction parts generalizing o status failures with
  | nil => exact subject?_finish h
  | cons part parts ih =>
    unfold populate at h
    split at h
    · dsimp only at h
      split at h
      · have hrest := ih h hnone
        exact hrest
      · have hrest := subject?_setTask h hnone.symm
        exact hrest
    · split at h
      · exact subject?_setTask (t := .fill ..) h hnone.symm
      · exact ih h hnone

theorem subject?_afterFlight (h : (o.afterFlight i task p).subject? j = some x)
    (htask : o.subject? i = task.subject?) : o.subject? j = some x := by
  unfold afterFlight at h
  split at h
  · split at h
    · exact subject?_setTask (t := .remove ..) h htask.symm
    · exact subject?_populate h htask
    · exact subject?_populate h htask
    · exact subject?_finish h
  · dsimp only at h
    split at h
    · have hrest := subject?_finish h
      exact hrest
    · exact subject?_finish h
  · exact h

theorem subject?_launch {work : Work Status} (h : (o.launch i task work).subject? j = some x) :
    o.subject? j = some x ∨ j = i ∧ task.subject? = some x := by
  unfold launch at h
  split at h
  · exact Or.inl h
  · rename_i hfree
    have hnone : o.task? i = none := by simpa using hfree
    have hbegun : ∀ k, ({ o with calls := o.calls ++ [⟨i, task⟩] } : Overlap).subject? k =
        if k = i then task.subject? else o.subject? k := by
      intro k
      rw [subject?, task?_append hnone]
      split <;> rfl
    have hafter : ({ o with calls := o.calls ++ [⟨i, task⟩] } : Overlap).subject? j = some x := by
      have hrest := subject?_afterFlight h ((hbegun i).trans (if_pos rfl))
      exact hrest
    rw [hbegun] at hafter
    split at hafter
    · rename_i hj
      exact Or.inr ⟨hj, hafter⟩
    · exact Or.inl hafter

/-- Only the beginning of a call adds a write or deletion to those in progress. -/
theorem subject?_step {s : OverlapStep} (h : (o.step s).subject? j = some x) :
    o.subject? j = some x ∨ ∃ request, s = .begin j request ∧ request.subject? = some x := by
  have hown : ∀ {i : Nat} {task : Task}, o.task? i = some task → o.subject? i = task.subject? := by
    intro i task htask
    rw [subject?, htask, Option.bind_some]
  cases s with
  | begin i request =>
    have hlaunch : ∀ {task : Task} {work : Work Status}, (o.launch i task work).subject? j = some x →
        task.subject? = request.subject? →
        o.subject? j = some x ∨
          ∃ r, .begin i request = OverlapStep.begin j r ∧ r.subject? = some x := by
      intro task work h hsame
      rcases subject?_launch h with hold | ⟨rfl, hx⟩
      · exact Or.inl hold
      · exact Or.inr ⟨request, rfl, hsame ▸ hx⟩
    cases request <;> exact hlaunch h rfl
  | perform i =>
    left
    have hload : ∀ {l}, (o.performLoad i l).subject? j = some x → o.subject? j = some x := by
      intro l h
      unfold performLoad at h
      split at h <;> exact h
    have h : (o.perform i).subject? j = some x := h
    unfold perform at h
    split at h
    · exact h
    · exact hload h
    · rename_i htask
      split at h
      · exact hload h
      · have hrest := subject?_setTask h (hown htask).symm
        exact hrest
    · exact hload h
    · split at h <;> exact h
    · rename_i htask
      have hrest := subject?_setTask h (hown htask).symm
      exact hrest
    all_goals exact h
  | resume i =>
    left
    have h : (o.resume i).subject? j = some x := h
    unfold resume at h
    split at h
    · exact h
    · exact h
    · have hrest := subject?_finish h
      split at hrest <;> exact hrest
    · rename_i htask
      exact subject?_populate h (hown htask)
    · rename_i htask
      have hrest := subject?_afterFlight h (hown htask)
      exact hrest
  | cancel i =>
    left
    have hforget : ∀ {u : Overlap}, (u.forget i).subject? j = some x → u.subject? j = some x :=
      fun {u} h => subject?_finish (o := u) (r := .unit (.ok ())) h
    have h : (o.cancel i).subject? j = some x := h
    unfold cancel at h
    split at h
    · exact h
    · exact hforget h
    · exact hforget h

end Overlap

end StatusStore
