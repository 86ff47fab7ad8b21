/-
  StatusStore/Proofs/Store/Interrupted.lean
  =========================================
  **Writes that are dropped.**  Until a put or an update returns it changes nothing
  that is cached, wherever it stands: it waits for its lock, its transaction is
  open, or it has been committed.  When it is dropped it gives back its lock and
  leaves the caches as they are.

  So a write that is dropped before it was committed leaves no trace.  One that was
  committed leaves its row behind caches that do not know of it: what was cached of
  the row before, and the lists that the row has come into or gone out of, are then
  out of date (`cancel_leaves_stale`).  Nothing else is: `run_interrupted` gives the
  exact condition for each status and list.
-/
import StatusStore.Proofs.Cache.Announcements
import StatusStore.Proofs.Database.Reach
import StatusStore.Proofs.Store.Staffed

namespace StatusStore

open Cache Database

/-! ### A flight that goes on -/

namespace Cache.EntityCache

variable {α : Type} [Cacheable α] {c : EntityCache α}

/-- A store that goes on waiting, or begins to persist, changes nothing that is cached. -/
theorem Moves.index_of_store {u : EntityCache α} {i : Nat} {v : α} {r : Option (Except Error Unit)}
    {phase : Phase} (hm : Moves c (.poll i) .pending u)
    (hf : c.flight? i = some ⟨i, .store v r, phase⟩) : u.index = c.index := by
  generalize ha : Action.poll i = a at hm
  generalize hp : (Progress.pending : Progress α) = p at hm
  cases hm with
  | idle _ hindex _ => exact hindex
  | queued _ _ _ hindex _ => exact hindex
  | began hadmits _ _ _ _ =>
    cases hadmits with
    | atOnce _ => cases ha
    | later hg =>
      cases ha
      rw [hf] at hg
      cases hg
  | persists _ _ hindex _ => exact hindex
  | answeredLoad _ hindex _ => exact hindex
  | answeredStore _ hindex _ => exact hindex
  | abandoned _ _ _ => cases ha
  | withdrawn _ _ hindex _ => exact hindex
  | invalidated _ _ => cases ha
  | _ => cases hp

end Cache.EntityCache

namespace Overlap

variable {o u : Overlap} {i : Nat} {action : StatusAction} {status : Status}
  {statements : List Statement} {steps : List OverlapStep}

/-- The step of a call itself, once it has begun and until it is dropped. -/
def Own (i : Nat) (s : OverlapStep) : Prop := s = .perform i ∨ s = .resume i

structure SameCached (o u : Overlap) : Prop where
  index : u.statuses.index = o.statuses.index
  lists : ∀ kind, u.store.caches.lists kind = o.store.caches.lists kind

theorem SameCached.refl (o : Overlap) : SameCached o o := ⟨rfl, fun _ => rfl⟩

theorem SameCached.trans {v : Overlap} (hou : SameCached o u) (huv : SameCached u v) :
    SameCached o v where
  index := huv.index.trans hou.index
  lists kind := (huv.lists kind).trans (hou.lists kind)

/-- Whether the transaction of the write under the handle has run. -/
def Ran (o : Overlap) (i : Nat) : Prop :=
  ∃ v r phase, o.statuses.flight? i = some ⟨i, .store v (some r), phase⟩

/-- `u` comes from `o` by steps of the write under the handle, which has not returned: its transaction
has run or not. -/
structure Underway (o u : Overlap) (i : Nat) (statements : List Statement) : Prop where
  staffed : u.Staffed
  task : u.task? i = o.task? i
  cached : SameCached o u
  database : u.store.database = o.store.database ∨
    u.Ran i ∧ u.store.database = (o.store.database.transact statements).2

/-! ### Single steps -/

theorem Staffed.perform_write (h : o.Staffed)
    (htask : o.task? i = some (.save action status statements)) :
    Underway o (o.perform i) i statements := by
  have hstaffed : (o.perform i).Staffed := h.step (.perform i)
  unfold Overlap.perform at hstaffed ⊢
  rw [htask] at hstaffed ⊢
  dsimp only at hstaffed ⊢
  by_cases hasking : o.store.caches.statuses.isAsking i = true
  · rw [if_pos hasking] at hstaffed ⊢
    have hf := Tended.asks h htask hasking
    refine ⟨hstaffed, rfl, ⟨rfl, fun kind => ?_⟩, Or.inr ⟨?_, rfl⟩⟩
    · cases kind <;> rfl
    · generalize (o.store.database.transact statements).1 = answer
      have hanswered : (o.statuses.answerStore i answer).flight? i =
          some ⟨i, .store status.barebones (some answer), .running⟩ :=
        (EntityCache.sets_modifyFlight (g := fun f => { f with work := f.work.answerStore answer }) hf
          fun _ => rfl).self
      exact ⟨_, _, _, hanswered⟩
  · rw [if_neg hasking]
    exact ⟨h, rfl, .refl o, Or.inl rfl⟩

/-- The flight of a write is a store, until it returns. -/
theorem Staffed.flight_of_write (h : o.Staffed)
    (htask : o.task? i = some (.save action status statements)) :
    ∃ r phase, o.statuses.flight? i = some ⟨i, .store status.barebones r, phase⟩ := by
  have hpaired := Tended.paired h i
  rw [htask] at hpaired
  cases hflight : o.statuses.flight? i with
  | none =>
    rw [hflight] at hpaired
    cases hpaired with
    | idle hsave => exact absurd rfl (hsave _ _ _)
  | some f =>
    obtain rfl : f.handle = i := EntityCache.handle_of_flight? hflight
    rw [hflight] at hpaired
    cases hpaired with
    | load hloads => cases hloads
    | save _ => exact ⟨_, _, rfl⟩

/-- A write that is polled returns, or its transaction has not run and nothing that is cached
changes. -/
theorem Staffed.poll_write (h : o.Staffed)
    (htask : o.task? i = some (.save action status statements)) :
    (∃ r, (o.store.caches.poll i).1 = .status (.stored r)) ∨
      ¬ o.Ran i ∧ ∃ statuses, statuses.index = o.statuses.index ∧
        o.store.caches.poll i = (.status .pending, { o.store.caches with statuses }) := by
  obtain ⟨r, phase, hf⟩ := h.flight_of_write htask
  obtain ⟨hm, -⟩ := (Tended.sound h).toGripped.poll_moves i
  have hannounced := EntityCache.announced_of_poll (c := o.statuses) (i := i)
  have hpolled := hm.polled hf
  have hstill : (o.statuses.poll i).1 = .pending → ∃ statuses, statuses.index = o.statuses.index ∧
      o.store.caches.poll i = (.status .pending, { o.store.caches with statuses }) := by
    intro hpending
    refine ⟨(o.statuses.poll i).2.2, ?_, ?_⟩
    · rw [hpending] at hm
      exact hm.index_of_store hf
    · rw [Caches.poll_eq (Tended.unlisted h)]
      show o.store.caches.afterStep (o.statuses.poll i) = _
      simp only [Caches.afterStep, hannounced (hpending ▸ nofun), hpending]
      rfl
  have hquery : (Work.store status.barebones r).isAnswered = false → ¬ o.Ran i := by
    rintro hquery ⟨v, r', phase', hran⟩
    rw [hf] at hran
    cases hran
    cases hquery
  generalize hprogress : (o.statuses.poll i).1 = p at hpolled hstill
  cases hpolled with
  | asking hnone => exact Or.inr ⟨hquery hnone, hstill rfl⟩
  | blocked _ => exact Or.inr ⟨hquery ((Tended.sound h).unanswered hf rfl), hstill rfl⟩
  | persists => exact Or.inr ⟨hquery rfl, hstill rfl⟩
  | stored _ =>
    left
    rw [Caches.poll_eq (Tended.unlisted h)]
    exact ⟨_, congrArg CallProgress.status hprogress⟩

theorem Staffed.resume_write (h : o.Staffed)
    (htask : o.task? i = some (.save action status statements))
    (hstays : (o.resume i).task? i ≠ none) :
    ¬ o.Ran i ∧ Underway o (o.resume i) i statements := by
  have hstaffed : (o.resume i).Staffed := h.step (.resume i)
  unfold Overlap.resume at hstaffed hstays ⊢
  rw [htask] at hstaffed hstays ⊢
  dsimp only at hstaffed hstays ⊢
  rcases h.poll_write htask with ⟨r, hreturns⟩ | ⟨hnotyet, statuses, hindex, hpoll⟩
  · -- The call returns, so it is gone.
    rw [hreturns] at hstays
    refine absurd ?_ hstays
    unfold Overlap.afterFlight
    dsimp only
    rw [task?_finish, if_pos rfl]
  · rw [hpoll] at hstaffed ⊢
    refine ⟨hnotyet, hstaffed, rfl, ⟨hindex, fun kind => ?_⟩, Or.inl rfl⟩
    cases kind <;> rfl

/-- A transaction runs once. -/
theorem Ran.perform_write (h : o.Ran i)
    (htask : o.task? i = some (.save action status statements)) : o.perform i = o := by
  obtain ⟨v, r, phase, hf⟩ := h
  have hanswered : ¬ o.store.caches.statuses.isAsking i = true := by
    have hf : o.store.caches.statuses.flight? i = some ⟨i, .store v (some r), phase⟩ := hf
    simp [EntityCache.isAsking, hf, Work.isAnswered]
  unfold Overlap.perform
  rw [htask]
  exact if_neg hanswered

/-! ### Runs of a write alone -/

theorem Underway.step {s : OverlapStep} (h : Underway o u i statements)
    (htask : o.task? i = some (.save action status statements)) (hs : Own i s)
    (hstays : (u.step s).task? i ≠ none) : Underway o (u.step s) i statements := by
  have htask' : u.task? i = some (.save action status statements) := h.task.trans htask
  have hnext : (u.Ran i → u.step s = u) ∧ (¬ u.Ran i → Underway u (u.step s) i statements) := by
    rcases hs with rfl | rfl
    · exact ⟨fun hran => hran.perform_write htask', fun _ => h.staffed.perform_write htask'⟩
    · obtain ⟨hnotyet, hunderway⟩ := h.staffed.resume_write htask' hstays
      exact ⟨fun hran => absurd hran hnotyet, fun _ => hunderway⟩
  by_cases hran : u.Ran i
  · rw [hnext.1 hran]
    exact h
  · have hunderway := hnext.2 hran
    have hsame : u.store.database = o.store.database := h.database.resolve_right fun hr => hran hr.1
    exact {
      staffed := hunderway.staffed
      task := hunderway.task.trans h.task
      cached := h.cached.trans hunderway.cached
      database := hsame ▸ hunderway.database }

/-- The call under the handle has returned, so its own steps do nothing. -/
theorem run_of_gone (hgone : o.task? i = none) (hown : ∀ s ∈ steps, Own i s) : o.run steps = o := by
  induction steps with
  | nil => rfl
  | cons s steps ih =>
    obtain ⟨hs, hrest⟩ := List.forall_mem_cons.1 hown
    have hsame : o.step s = o := by
      rcases hs with rfl | rfl
      · simp only [step, perform, hgone]
      · simp only [step, resume, hgone]
    rw [run, List.foldl_cons, hsame]
    exact ih hrest

theorem Underway.run (h : Underway o u i statements)
    (htask : o.task? i = some (.save action status statements)) (hown : ∀ s ∈ steps, Own i s)
    (hstays : (u.run steps).task? i ≠ none) : Underway o (u.run steps) i statements := by
  induction steps generalizing u with
  | nil => exact h
  | cons s steps ih =>
    obtain ⟨hs, hrest⟩ := List.forall_mem_cons.1 hown
    have hthere : (u.step s).task? i ≠ none := by
      intro hgone
      have hsame : (u.step s).run steps = u.step s := run_of_gone hgone hrest
      exact hstays ((congrArg (·.task? i) hsame).trans hgone)
    exact ih (h.step htask hs hthere) hrest hstays

/-- A write that is dropped leaves the caches and the database as they are. -/
theorem Staffed.cancel_write (h : o.Staffed)
    (htask : o.task? i = some (.save action status statements)) :
    (o.cancel i).task? i = none ∧ SameCached o (o.cancel i) ∧
      (o.cancel i).store.database = o.store.database := by
  obtain ⟨r, phase, hf⟩ := h.flight_of_write htask
  have hindex : (o.statuses.cancel i).2.index = o.statuses.index := by
    simp only [EntityCache.cancel, hf]
    rfl
  unfold Overlap.cancel
  rw [htask]
  dsimp only
  rw [Caches.cancel_spec (Tended.unlisted h)]
  refine ⟨?_, ⟨hindex, fun kind => ?_⟩, rfl⟩
  · exact (task?_finish o i (.unit (.ok ())) i).trans (if_pos rfl)
  · cases kind <;> rfl

/-! ### What is out of date afterwards -/

/-- Of what is cached and was right about the tables of `o`, what is wrong about those of `u` is of
the row with the id, and it has changed, or it is a list that the row has come into or gone out of. -/
structure StaleBy (id : String) (o u : Overlap) : Prop where
  statuses : ∀ {k : String} {w : Status}, u.statuses.index.get? k = some w → o.tables.Agrees w →
    (u.tables.Agrees w ↔ (w.id = id → u.tables.content? id = o.tables.content? id))
  lists : ∀ {kind : ListKind} {k : String} {l : IdList},
    (u.store.caches.lists kind).index.get? k = some l →
    l.ids = o.tables.listed kind l.target →
    (l.ids = u.tables.listed kind l.target ↔
      (u.tables.linkOf? kind id = some l.target ↔ o.tables.linkOf? kind id = some l.target))

theorem staleBy_same (id : String) (h : u.tables = o.tables) : StaleBy id o u where
  statuses _ hw := by simp [h, hw]
  lists _ hl := by simp [h, hl]

theorem staleBy_written (healthy : o.store.database.Healthy) (hwrites : Writes status statements)
    (hok : (o.store.database.transact statements).1 = .ok ())
    (htables : u.tables = (o.store.database.transact statements).2.tables) :
    StaleBy status.id o u where
  statuses {k w} _ hw := by
    have hintact := (healthy.written hwrites).1.intact
    have hothers : w.id ≠ status.id → u.tables.content? w.id = o.tables.content? w.id := by
      rw [htables]
      exact healthy.content?_written hwrites
    rw [← htables] at hintact
    rw [healthy.intact.agrees_iff_of_agrees hintact hw]
    constructor
    · intro hsame hid
      rw [← hid]
      exact hsame
    · intro hown
      by_cases hid : w.id = status.id
      · rw [hid]
        exact hown hid
      · exact hothers hid
  lists {kind k l} _ hl := by
    rw [hl, eq_comm, htables]
    exact healthy.listed_written_iff hwrites hok

/-- A write that is dropped before it returns has changed nothing that is cached.  In the tables it
has changed nothing either, or its transaction has been committed; then what depends on its row is
out of date, and nothing else that was not so before. -/
theorem run_interrupted {config : Config} {db : Database} {start : Store}
    {events : List Store.Event} {before : List OverlapStep}
    (hstart : Store.ofDatabase config db = .ok start) (intact : db.tables.Intact)
    (healthy : (start.afterAll events).database.Healthy)
    (htask : (run { store := start.afterAll events } before).task? i =
      some (.save action status statements))
    (hown : ∀ s ∈ steps, Own i s)
    (hstays : ((run { store := start.afterAll events } before).run steps).task? i ≠ none) :
    let o := run { store := start.afterAll events } before
    let u := (o.run steps).cancel i
    u.task? i = none ∧ SameCached o u ∧ StaleBy status.id o u ∧
      (u.tables = o.tables ∨
        (o.store.database.transact statements).1 = .ok () ∧
          u.tables = (o.store.database.transact statements).2.tables) := by
  intro o u
  have hstaffed : o.Staffed := (staffed_afterAll hstart intact events healthy).run before
  have hbegun : Underway o o i statements := ⟨hstaffed, rfl, .refl o, Or.inl rfl⟩
  have hunderway := hbegun.run htask hown hstays
  obtain ⟨hgone, hcached, hdatabase⟩ :=
    hunderway.staffed.cancel_write (hunderway.task.trans htask)
  have hwrites : Writes status statements := Tended.writes hstaffed htask
  have hhealthy : o.store.database.Healthy := Tended.healthy hstaffed
  refine ⟨hgone, hunderway.cached.trans hcached, ?_⟩
  have htables : u.tables = (o.run steps).store.database.tables := congrArg Database.tables hdatabase
  rcases hunderway.database with hsame | ⟨-, hran⟩
  · have hsame : u.tables = o.tables := htables.trans (congrArg Database.tables hsame)
    exact ⟨staleBy_same status.id hsame, Or.inl hsame⟩
  · have hafter : u.tables = (o.store.database.transact statements).2.tables :=
      htables.trans (congrArg Database.tables hran)
    cases hanswer : (o.store.database.transact statements).1 with
    | error e =>
      have hsame : u.tables = o.tables := hafter.trans (tables_of_transact_error hanswer)
      exact ⟨staleBy_same status.id hsame, Or.inl hsame⟩
    | ok _ => exact ⟨staleBy_written hhealthy hwrites hanswer hafter, Or.inr ⟨rfl, hafter⟩⟩

/-! ### A status and the replies to it -/

def question : Status := { (default : Status) with id := "Q", uri := "Q", content := "before" }

def reply : Status := { (default : Status) with id := "R", uri := "R", inReplyToId := some "Q" }

def asked : List Store.Event := [
  .use (.put question ⟨"T", default⟩),
  .use (.read (.countReplies "Q") .barebones)]

def revision : Request := .update { question with content := "after" } [.content] default

def saving? (o : Overlap) (i : Nat) : Option String :=
  match o.task? i with
  | some (.save _ status _) => some status.id
  | _ => none

theorem task_of_saving? {o : Overlap} {i : Nat} {id : String} (h : o.saving? i = some id) :
    ∃ action status statements,
      o.task? i = some (.save action status statements) ∧ status.id = id := by
  unfold saving? at h
  split at h
  · rename_i htask
    exact ⟨_, _, _, htask, Option.some.inj h⟩
  · cases h

/-- If the update is dropped when it has been committed, only what is cached of the status is out of
date. -/
theorem run_interrupted_revision :
    let o := run { store := Store.beginning.afterAll asked } [.begin 0 revision]
    let u := (o.run [.resume 0, .perform 0]).cancel 0
    u.task? 0 = none ∧ SameCached o u ∧ StaleBy "Q" o u := by
  intro o u
  have hempty : Tables.Intact {} := ⟨by simp, by simp⟩
  have healthy : (Store.beginning.afterAll asked).database.Healthy :=
    ⟨by decide +kernel, by decide +kernel, by decide +kernel, by decide +kernel⟩
  have hsaving : o.saving? 0 = some "Q" := by decide +kernel
  obtain ⟨_, status, _, htask, hid⟩ := task_of_saving? hsaving
  have hown : ∀ s ∈ [OverlapStep.resume 0, .perform 0], Own 0 s := by simp [Own]
  have hstays : (o.run [.resume 0, .perform 0]).task? 0 ≠ none :=
    Option.isSome_iff_ne_none.1 (by decide +kernel)
  obtain ⟨hgone, hcached, hstale, -⟩ :=
    run_interrupted Store.ofDatabase_beginning hempty healthy htask hown hstays
  rw [hid] at hstale
  exact ⟨hgone, hcached, hstale⟩

/-- The update is dropped when it has been committed, and so is a reply after it. -/
def abandoned : List OverlapStep := [
  .begin 0 revision, .perform 0, .cancel 0,
  .begin 1 (.put reply ⟨"U", default⟩), .perform 1, .cancel 1]

/-- Then the status is served as it was before, and it has no replies, though both are stored. -/
theorem cancel_leaves_stale :
    let o := run { store := Store.beginning.afterAll asked } abandoned
    o.calls.isEmpty = true ∧
      (o.statuses.get? (.ofLookup (.id "Q"))).map (·.content) = some "before" ∧
      (o.tables.status (.id "Q")).toOption.map (·.content) = some "after" ∧
      o.store.caches.list? .replies "Q" = some [] ∧
      o.tables.listed .replies "Q" = ["R"] := by
  decide +kernel

end Overlap

end StatusStore
