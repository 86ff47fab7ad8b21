/-
  StatusStore/Proofs/Store/Tended.lean
  ====================================
  **What calls in progress keep up.**  Every flight of the status cache belongs to a
  call, and whatever is cached is right about the tables or a call in progress will
  see to it (`Tended`, for any notion of being right).  The steps of the calls keep
  this up, given two things of those that change the tables: a write that commits is
  right about its own status, and where a deletion returns, a write of the same
  status that has been committed and is yet to be cached is right too.

  Main statement: `Tended.step`.
-/
import StatusStore.Proofs.Store.Access
import StatusStore.Proofs.Store.Calls

namespace StatusStore

open Cache Database

def Task.loads : Task → Bool
  | .lookup _ _ | .preload _ => true
  | .fill status _ (part :: _) => (Population.loaded? status part).isSome
  | _ => false

def Task.flies : Task → Bool
  | .save _ _ _ => true
  | task => task.loads

namespace Overlap

variable {P : Tables → Status → Prop} {o u : Overlap} {i j : Nat} {t : Option Task} {task : Task}
  {a : Action Status} {p : Progress Status}

def statuses (o : Overlap) : EntityCache Status := o.store.caches.statuses

def tables (o : Overlap) : Tables := o.store.database.tables

/-- A deletion of the id has taken effect and has not returned. -/
def Removing (o : Overlap) (id : String) : Prop :=
  ∃ i existing answer, o.task? i = some (.remove id existing (some answer))

/-- Whether a task goes with a flight, or with none. -/
inductive Paired : Option Task → Option (Flight Status) → Prop
  | idle {t : Option Task} : (∀ action status statements, t ≠ some (.save action status statements)) →
      Paired t none
  | load {task : Task} {h : Nat} {key : Key} {r : Option (Except Error Status)} {phase : Phase} :
      task.loads = true → Paired (some task) (some ⟨h, .load key r, phase⟩)
  | save {action : StatusAction} {status : Status} {statements : List Statement} {h : Nat}
      {r : Option (Except Error Unit)} {phase : Phase} : Writes status statements →
      Paired (some (.save action status statements)) (some ⟨h, .store status.barebones r, phase⟩)

/-- Every flight belongs to a call, and what is cached is right, in the sense of `P`, or will be
seen to. -/
structure Tended (P : Tables → Status → Prop) (o : Overlap) : Prop where
  healthy : o.store.database.Healthy
  sound : o.statuses.Sound
  index : o.statuses.index.Sound
  unlisted : o.store.caches.Unlisted
  paired : ∀ i, Paired (o.task? i) (o.statuses.flight? i)
  current : EntityCache.Current (P o.tables) o.Removing o.statuses

/-- A flight goes with its task until it has ended. -/
theorem Paired.next {c c' : EntityCache Status} (h : Paired t (c.flight? i))
    (hm : EntityCache.Moves c a p c') (hstay : a ≠ .cancel i)
    (hstarts : ∀ w, a ≠ EntityCache.starting i w) :
    Paired t (c'.flight? i) ∨
      c'.flight? i = none ∧ a = .poll i ∧ ((∃ r, p = .loaded r) ∨ ∃ r, p = .stored r) := by
  cases hf : c.flight? i with
  | none =>
    rcases hm.fate_of_unused hf with hnone | ⟨w, phase, ha, -⟩
    · rw [hf] at h
      rw [hnone]
      exact Or.inl h
    · exact absurd ha (hstarts w)
  | some f =>
    have hfate := hm.fate hf hstay
    rw [hf] at h
    generalize c'.flight? i = g at hfate ⊢
    cases hfate with
    | same => exact Or.inl h
    | admitted _ _ =>
      left
      cases h with
      | load hloads => exact .load hloads
      | save hwrites => exact .save hwrites
    | answeredLoad _ =>
      left
      cases h with
      | load hloads => exact .load hloads
    | answeredStore _ =>
      left
      cases h with
      | save hwrites => exact .save hwrites
    | loaded ha hp => exact Or.inr ⟨rfl, ha, Or.inl ⟨_, hp⟩⟩
    | stored ha hp => exact Or.inr ⟨rfl, ha, Or.inr ⟨_, hp⟩⟩

theorem Tended.flight?_eq_none (h : o.Tended P) (htask : (o.task? i).any Task.flies = false) :
    o.statuses.flight? i = none := by
  have hpaired := h.paired i
  generalize o.task? i = t at hpaired htask
  generalize o.statuses.flight? i = f at hpaired ⊢
  cases hpaired with
  | idle _ => rfl
  | @load task _ _ _ _ hloads =>
    have hflies : task.flies = true := by
      cases task <;> first | exact hloads | rfl
    simp [hflies] at htask
  | save _ => cases htask

/-! ### Single changes -/

theorem task?_same (o : Overlap) (i j : Nat) :
    o.task? j = if j = i then o.task? i else o.task? j := by
  split
  · rename_i hj
    rw [hj]
  · rfl

/-- `u` comes from `o` by an action on the status cache, and the call under `i` has the task `t`. -/
structure Follows (o u : Overlap) (i : Nat) (t : Option Task) (a : Action Status) : Prop where
  moves : ∃ p, EntityCache.Moves o.statuses a p u.statuses
  gripped : u.statuses.Gripped
  stays : ∀ j, a ≠ .cancel j
  handle : ∀ j, a.handle? = some j → j = i
  unlisted : u.store.caches.Unlisted
  tasks : ∀ j, u.task? j = if j = i then t else o.task? j
  paired : Paired t (u.statuses.flight? i)

theorem Tended.follow (h : o.Tended P) (hfollows : Follows o u i t a)
    (healthy : u.store.database.Healthy)
    (current : EntityCache.Current (P u.tables) u.Removing u.statuses) : u.Tended P where
  healthy := healthy
  sound := by
    obtain ⟨p, hm⟩ := hfollows.moves
    exact h.sound.of_moves hfollows.gripped hm
  index := by
    obtain ⟨p, hm⟩ := hfollows.moves
    exact EntityCache.Sound.index_of_moves h.index hm
  unlisted := hfollows.unlisted
  paired j := by
    rw [hfollows.tasks]
    split
    · rename_i hj
      rw [hj]
      exact hfollows.paired
    · rename_i hj
      obtain ⟨p, hm⟩ := hfollows.moves
      rw [hm.others fun hown => hj (hfollows.handle j hown)]
      exact h.paired j
  current := current

/-- A change that leaves the tables alone, and ends no deletion. -/
theorem Tended.quiet (h : o.Tended P) (hfollows : Follows o u i t a)
    (htables : u.store.database.tables = o.store.database.tables)
    (hclosed : u.store.database.isClosed = o.store.database.isClosed)
    (hremains : ∀ id existing answer, o.task? i ≠ some (.remove id existing (some answer)))
    (hanswered : ∀ j v, a = .answerLoad j (.ok v) → P o.tables v)
    (hwritten : ∀ j, a ≠ .answerStore j (.ok ())) : u.Tended P := by
  refine h.follow hfollows (h.healthy.of_eq htables hclosed) ?_
  have hsame : u.tables = o.tables := htables
  have hremoving : ∀ id, o.Removing id → u.Removing id := by
    rintro id ⟨j, existing, answer, htask⟩
    refine ⟨j, existing, answer, ?_⟩
    rw [hfollows.tasks, if_neg]
    · exact htask
    · rintro rfl
      exact hremains _ _ _ htask
  obtain ⟨p, hm⟩ := hfollows.moves
  rw [hsame]
  refine h.current.of_moves hfollows.stays (fun w hw => Or.inl hw)
    (fun id hid => Or.inl (hremoving id hid)) (fun {j v} hf => ?_) hanswered h.sound h.index hm
  rcases hm.commits_before h.sound.toGripped hf with hbefore | ⟨ha, -⟩
  · exact (h.current.saved hbefore).imp_right (hremoving v.id)
  · exact absurd ha (hwritten j)

/-- A call without a flight that goes on without one. -/
theorem follows_still (h : o.Tended P) (hcaches : u.store.caches = o.store.caches)
    (htasks : ∀ j, u.task? j = if j = i then t else o.task? j)
    (hflight : o.statuses.flight? i = none)
    (hsave : ∀ action status statements, t ≠ some (.save action status statements)) :
    Follows o u i t (.poll i) where
  moves := by
    refine ⟨.over, .idle (.unused hflight) ?_ fun j => ?_⟩ <;> rw [statuses, hcaches] <;> rfl
  gripped := by
    rw [statuses, hcaches]
    exact h.sound.toGripped
  stays := by simp
  handle j hj := Option.some.inj hj.symm
  unlisted := hcaches ▸ h.unlisted
  tasks := htasks
  paired := by
    rw [statuses, hcaches, show o.store.caches.statuses.flight? i = none from hflight]
    exact .idle hsave

theorem Tended.still (h : o.Tended P) (hcaches : u.store.caches = o.store.caches)
    (htables : u.store.database.tables = o.store.database.tables)
    (hclosed : u.store.database.isClosed = o.store.database.isClosed)
    (htasks : ∀ j, u.task? j = if j = i then t else o.task? j)
    (hflight : o.statuses.flight? i = none)
    (hsave : ∀ action status statements, t ≠ some (.save action status statements))
    (hremains : ∀ id existing answer, o.task? i ≠ some (.remove id existing (some answer))) :
    u.Tended P :=
  h.quiet (follows_still h hcaches htasks hflight hsave) htables hclosed hremains
    (by simp) (by simp)

/-! ### Calls that go on -/

theorem Tended.finish (h : o.Tended P) (hflight : o.statuses.flight? i = none)
    (hremains : ∀ id existing answer, o.task? i ≠ some (.remove id existing (some answer)))
    (result : Returned) : (o.finish i result).Tended P :=
  h.still rfl rfl rfl (task?_finish o i result) hflight (by simp) hremains

theorem Tended.setTask (h : o.Tended P) (hflight : o.statuses.flight? i = none)
    (htask : o.task? i = some task)
    (hremains : ∀ id existing answer, task ≠ .remove id existing (some answer)) {new : Task}
    (hsave : ∀ action status statements, new ≠ .save action status statements) :
    (o.setTask i new).Tended P := by
  refine h.still (t := some new) rfl rfl rfl (fun j => ?_) hflight ?_ ?_
  · rw [task?_setTask, htask, Option.map_some]
  · rintro action status statements ⟨⟩
    exact hsave _ _ _ rfl
  · intro id existing answer hremove
    rw [htask, Option.some.injEq] at hremove
    exact hremains _ _ _ hremove

/-- What comes of starting a flight under a handle without one. -/
theorem Tended.start (h : o.Tended P) (hflight : o.statuses.flight? i = none) {w : Work Status}
    (hquery : w.isAnswered = false) :
    ∃ p c, o.store.caches.start i w = (.status p, c) ∧
      EntityCache.Moves o.statuses (EntityCache.starting i w) p c.statuses ∧
      c.statuses.Gripped ∧ c.Unlisted ∧ (c.statuses.flight? i = none ∨
        p = .pending ∧ ∃ phase, c.statuses.flight? i = some ⟨i, w, phase⟩) := by
  obtain ⟨hprogress, hstatuses, hunlisted⟩ := Caches.start_spec h.unlisted i w
  obtain ⟨hm, hgripped⟩ := h.sound.toGripped.start_moves hflight hquery
  rw [show o.statuses.start i w = o.store.caches.statuses.start i w from rfl, ← hstatuses]
    at hm hgripped
  refine ⟨_, _, Prod.ext hprogress rfl, hm, hgripped, hunlisted, ?_⟩
  rcases hm.fate_of_unused hflight with hnone | ⟨w', phase, hsame, hquery', hpending, hstarted⟩
  · exact Or.inl hnone
  · obtain rfl := EntityCache.starting_inj hsame hquery hquery'
    exact Or.inr ⟨hpending, phase, hstarted⟩

/-- A flight that was started for a call. -/
theorem follows_start {w : Work Status} {c : Caches}
    (hm : EntityCache.Moves o.statuses (EntityCache.starting i w) p c.statuses)
    (hgripped : c.statuses.Gripped) (hunlisted : c.Unlisted) (hcaches : u.store.caches = c)
    (htasks : ∀ j, u.task? j = if j = i then t else o.task? j)
    (hpaired : Paired t (c.statuses.flight? i)) :
    Follows o u i t (EntityCache.starting i w) := by
  subst hcaches
  refine ⟨⟨p, hm⟩, hgripped, ?_, ?_, hunlisted, htasks, hpaired⟩
  · intro j
    cases w <;> simp [EntityCache.starting]
  · intro j hj
    rw [EntityCache.handle?_starting] at hj
    exact Option.some.inj hj.symm

theorem Tended.started {w : Work Status} {c : Caches} (h : o.Tended P)
    (hm : EntityCache.Moves o.statuses (EntityCache.starting i w) p c.statuses)
    (hgripped : c.statuses.Gripped) (hunlisted : c.Unlisted) (hcaches : u.store.caches = c)
    (hdatabase : u.store.database = o.store.database)
    (htasks : ∀ j, u.task? j = if j = i then t else o.task? j)
    (hpaired : Paired t (c.statuses.flight? i))
    (hremains : ∀ id existing answer, o.task? i ≠ some (.remove id existing (some answer))) :
    u.Tended P := by
  refine h.quiet (follows_start hm hgripped hunlisted hcaches htasks hpaired)
    (congrArg Database.tables hdatabase) (congrArg Database.isClosed hdatabase) hremains ?_ ?_
  · intro j v
    cases w <;> simp [EntityCache.starting]
  · intro j
    cases w <;> simp [EntityCache.starting]

/-- The call under the handle neither writes nor deletes. -/
structure Reads (o : Overlap) (i : Nat) : Prop where
  called : (o.task? i).isSome = true
  harmless : o.subject? i = none

theorem Reads.ne_save (h : o.Reads i) (action : StatusAction) (status : Status)
    (statements : List Statement) : o.task? i ≠ some (.save action status statements) := by
  intro hsave
  have hharmless := h.harmless
  rw [subject?, hsave] at hharmless
  cases hharmless

theorem Reads.ne_remove (h : o.Reads i) (id : String) (existing : Option Status)
    (answer : Option (Except Error Unit)) : o.task? i ≠ some (.remove id existing answer) := by
  intro hremove
  have hharmless := h.harmless
  rw [subject?, hremove] at hharmless
  cases hharmless

/-- A status is populated by loads, one after the other. -/
theorem Tended.populate (h : o.Tended P) (hflight : o.statuses.flight? i = none)
    (hreads : o.Reads i) (status : Status) (failures : PopulateError) (parts : List Part) :
    (o.populate i status failures parts).Tended P := by
  induction parts generalizing o status failures with
  | nil => exact h.finish hflight (fun id existing answer => hreads.ne_remove id existing _) _
  | cons part parts ih =>
    have hremains := fun id existing answer => hreads.ne_remove id existing (some answer)
    have hfill : (o.setTask i (.fill status failures (part :: parts))).Tended P := by
      obtain ⟨task, htask⟩ := Option.isSome_iff_exists.1 hreads.called
      exact h.setTask hflight htask (fun id existing answer hremove =>
        hremains id existing answer (htask.trans (congrArg some hremove))) (by simp)
    unfold Overlap.populate
    split
    · rename_i id hid
      obtain ⟨p, c, hstart, hm, hgripped, hunlisted, hflown⟩ :=
        h.start hflight (w := .load (.ofLookup (.id id)) none) rfl
      rw [hstart]
      dsimp only
      split
      · rename_i answer hloaded
        have hnone : c.statuses.flight? i = none := by
          rcases hflown with hnone | ⟨hpending, -⟩
          · exact hnone
          · rw [hpending] at hloaded
            cases hloaded
        have hnext : (o.setCaches c).Tended P := by
          refine h.started hm hgripped hunlisted rfl rfl (o.task?_same i) ?_ hremains
          rw [hnone]
          exact .idle hreads.ne_save
        exact ih hnext hnone ⟨hreads.called, hreads.harmless⟩ _ _
      · -- Whatever was started belongs to a part that is loaded.
        refine h.started (t := some (.fill status failures (part :: parts))) hm hgripped hunlisted
          rfl rfl (fun j => ?_) ?_ hremains
        · rw [task?_setTask]
          split
          · obtain ⟨task, htask⟩ := Option.isSome_iff_exists.1 hreads.called
            rw [show (o.setCaches c).task? i = o.task? i from rfl, htask, Option.map_some]
          · rfl
        · rcases hflown with hnone | ⟨-, phase, hstarted⟩
          · rw [hnone]
            exact .idle (by simp)
          · rw [hstarted]
            exact .load (by simp [Task.loads, hid])
    · split
      · exact hfill
      · exact ih h hflight hreads _ _

/-- The call goes on when its load has come to an end, or waits. -/
theorem Tended.afterLoad (h : o.Tended P) (htask : o.task? i = some task)
    (hloads : task.loads = true)
    (hended : (∃ r, p = .loaded r) ∨ (∃ r, p = .stored r) → o.statuses.flight? i = none) :
    (o.afterFlight i task (.status p)).Tended P := by
  have hremains : ∀ id existing answer, task ≠ .remove id existing (some answer) := by
    rintro id existing answer rfl
    cases hloads
  have hfinish : o.statuses.flight? i = none → ∀ result, (o.finish i result).Tended P := by
    intro hflight
    refine h.finish hflight fun id existing answer hremove => ?_
    rw [htask, Option.some.injEq] at hremove
    exact hremains id existing answer hremove
  have hreads : task.subject? = none → o.Reads i := by
    intro hsubject
    exact ⟨by simp [htask], by rw [subject?, htask, Option.bind_some, hsubject]⟩
  cases p with
  | loaded r =>
    have hflight := hended (Or.inl ⟨r, rfl⟩)
    unfold Overlap.afterFlight
    dsimp only
    split
    · exact h.setTask hflight htask hremains (by simp)
    · exact h.populate hflight (hreads rfl) _ _ _
    · exact h.populate hflight (hreads rfl) _ _ _
    · exact hfinish hflight _
  | stored r =>
    have hflight := hended (Or.inr ⟨r, rfl⟩)
    unfold Overlap.afterFlight
    dsimp only
    split
    · cases hloads
    · exact hfinish hflight _
  | _ => exact h

/-- A call is begun, unless its handle is in use. -/
theorem Tended.launch_load (h : o.Tended P) (hloads : task.loads = true) (key : Key) :
    (o.launch i task (.load key none)).Tended P := by
  unfold Overlap.launch
  split
  · exact h
  · rename_i hfree
    have hnone : o.task? i = none := by simpa using hfree
    have hflight : o.statuses.flight? i = none := h.flight?_eq_none (by simp [hnone])
    obtain ⟨p, c, hstart, hm, hgripped, hunlisted, hflown⟩ := h.start hflight (w := .load key none) rfl
    rw [hstart]
    dsimp only
    have hnosave : ∀ action status statements, some task ≠ some (.save action status statements) := by
      rintro action status statements ⟨⟩
      cases hloads
    have hbegun : (({ o with calls := o.calls ++ [⟨i, task⟩] } : Overlap).setCaches c).Tended P := by
      refine h.started (t := some task) hm hgripped hunlisted rfl rfl (task?_append hnone task) ?_ ?_
      · rcases hflown with hnone | ⟨-, phase, hstarted⟩
        · rw [hnone]
          exact .idle hnosave
        · rw [hstarted]
          exact .load hloads
      · simp [hnone]
    refine hbegun.afterLoad ?_ hloads fun hended => ?_
    · exact (task?_append hnone task i).trans (if_pos rfl)
    · rcases hflown with hnone | ⟨rfl, -⟩
      · exact hnone
      · rcases hended with ⟨r, hr⟩ | ⟨r, hr⟩ <;> cases hr

theorem Tended.launch_save {action : StatusAction} {status : Status} {statements : List Statement}
    (h : o.Tended P) (hwrites : Writes status statements) :
    (o.launch i (.save action status statements) (.store status.barebones none)).Tended P := by
  unfold Overlap.launch
  split
  · exact h
  · rename_i hfree
    have hnone : o.task? i = none := by simpa using hfree
    have hflight : o.statuses.flight? i = none := h.flight?_eq_none (by simp [hnone])
    obtain ⟨p, c, hstart, hm, hgripped, hunlisted, hflown⟩ :=
      h.start hflight (w := .store status.barebones none) rfl
    rw [hstart]
    dsimp only
    rcases hflown with hmissing | ⟨rfl, phase, hstarted⟩
    · exact absurd hmissing (hm.stores hflight (by simp [Cacheable.keys]))
    · refine h.started (t := some (.save action status statements)) hm hgripped hunlisted rfl rfl
        (task?_append hnone _) ?_ (by simp [hnone])
      rw [hstarted]
      exact .save hwrites

theorem Tended.begin (h : o.Tended P) (request : Request) : (o.begin i request).Tended P := by
  cases request with
  | get l mode => exact h.launch_load rfl _
  | put status fresh => exact h.launch_save (.put _)
  | update status columns now => exact h.launch_save (.update columns)
  | delete id => exact h.launch_load rfl _

/-! ### The database answers -/

/-- A load is told what the tables say. -/
theorem Tended.performLoad (hP : Notion P) (h : o.Tended P)
    (hremains : ∀ id existing answer, o.task? i ≠ some (.remove id existing (some answer)))
    (l : Lookup) : (o.performLoad i l).Tended P := by
  unfold Overlap.performLoad
  split
  · rename_i hasking
    have hasking : o.statuses.isAsking i = true := hasking
    obtain ⟨hm, hgripped⟩ :=
      h.sound.toGripped.answerLoad_moves i (o.store.database.status l).1
    rw [if_pos hasking] at hm hgripped
    have hpaired : Paired (o.task? i)
        ((o.statuses.answerLoad i (o.store.database.status l).1).flight? i) := by
      rcases (h.paired i).next hm (by simp) (fun w => by cases w <;> simp [EntityCache.starting]) with
        hpaired | ⟨-, ha, -⟩
      · exact hpaired
      · cases ha
    have hunlisted : (o.store.caches.answerLoad i (o.store.database.status l).1).Unlisted :=
      h.unlisted.withStatuses _
    refine h.quiet ⟨⟨_, hm⟩, hgripped, by simp, ?_, hunlisted, o.task?_same i, hpaired⟩ rfl rfl
      hremains ?_ (by simp)
    · rintro j ⟨⟩
      rfl
    · intro j v ha
      have hanswer : (o.store.database.status l).1 = .ok v := (Action.answerLoad.inj ha).2
      have hread : (o.store.database.status l).1 = o.store.database.tables.status l :=
        select_of_ready h.healthy.isOpen (h.healthy.require _) _
      exact hP.read h.healthy (hread.symm.trans hanswer)
  · exact h

/-- A part that is not loaded through the cache changes no tables. -/
theorem store_fill {q : Population} {part : Part}
    (hnone : Population.loaded? q.status part = none) :
    ∃ db : Database, (q.fill part).store = { q.store with database := db } ∧
      db.tables = q.store.database.tables ∧ db.isClosed = q.store.database.isClosed := by
  have hone : ∀ {α : Type} [Identified α] [Persistent α] (part : Part) (wanted : Option String)
      (current : Option α) (attach : Status → α → Status), ∃ db : Database,
      (q.one part wanted current (Store.fetch α) attach).store = { q.store with database := db } ∧
        db.tables = q.store.database.tables ∧ db.isClosed = q.store.database.isClosed := by
    intro α _ _ part wanted current attach
    unfold Population.one
    split
    · exact ⟨q.store.database, rfl, rfl, rfl⟩
    · rw [Store.store_settle]
      exact ⟨_, rfl, rfl, rfl⟩
  have hmany : ∀ {α : Type} [Persistent α] (part : Part) (relation : Relation α)
      (attach : Status → Relation α → Status), ∃ db : Database,
      (q.many part relation attach).store = { q.store with database := db } ∧
        db.tables = q.store.database.tables ∧ db.isClosed = q.store.database.isClosed := by
    intro α _ part relation attach
    rcases Store.store_many q part relation attach with hstore | hstore
    · exact ⟨q.store.database, hstore, rfl, rfl⟩
    · refine ⟨_, hstore, ?_, ?_⟩ <;> unfold fetchAll <;> split <;> rfl
  have hloaded : ∀ {wanted : Option String} {current : Option Status}
      {attach : Status → Status → Status} (part : Part), Population.stale? wanted current = none →
      (q.one part wanted current (·.load <| .id ·) attach).store = q.store := by
    intro wanted current attach part hstale
    simp only [Population.one, hstale]
  cases part with
  | author => exact hone _ _ _ _
  | parent => exact ⟨q.store.database, hloaded .parent hnone, rfl, rfl⟩
  | parentAuthor => exact hone _ _ _ _
  | boost => exact ⟨q.store.database, hloaded .boost hnone, rfl, rfl⟩
  | boostAuthor => exact hone _ _ _ _
  | poll => exact hone _ _ _ _
  | attachments => exact hmany _ _ _
  | tags => exact hmany _ _ _
  | mentions => exact hmany _ _ _
  | emojis => exact hmany _ _ _
  | application => exact hone _ _ _ _

theorem Tended.writes {action : StatusAction} {status : Status} {statements : List Statement}
    (h : o.Tended P) (htask : o.task? i = some (.save action status statements)) :
    Writes status statements := by
  have hpaired := h.paired i
  rw [htask] at hpaired
  generalize o.statuses.flight? i = f at hpaired
  cases hpaired with
  | idle hsave => exact absurd rfl (hsave _ _ _)
  | load hloads => cases hloads
  | save hwrites => exact hwrites

theorem Tended.asks {action : StatusAction} {status : Status} {statements : List Statement}
    (h : o.Tended P) (htask : o.task? i = some (.save action status statements))
    (hasking : o.statuses.isAsking i = true) :
    o.statuses.flight? i = some ⟨i, .store status.barebones none, .running⟩ := by
  obtain ⟨f, hf, hruns, hquery⟩ := EntityCache.isAsking_iff.1 hasking
  have hpaired := h.paired i
  rw [htask, hf] at hpaired
  cases hpaired with
  | load hloads => cases hloads
  | @save _ _ _ k r phase _ =>
    obtain rfl : k = i := EntityCache.handle_of_flight? hf
    obtain rfl : phase = .running := hruns
    obtain rfl : r = none := by simpa [Work.isAnswered] using hquery
    exact hf

/-- No two writes of one status are under way. -/
theorem commits_apart {c : EntityCache Status} {v w : Status} (hc : c.Gripped) (hv : c.Commits j v)
    (hf : c.flight? i = some ⟨i, .store w none, .running⟩) : v.id ≠ w.id := by
  intro hid
  have hsame : j = i := by
    refine hc.alone hv hf rfl rfl ?_
    show (Key.ofLookup (.id v.id)).encode = (Key.ofLookup (.id w.id)).encode
    rw [hid]
  subst hsame
  rw [show c.flight? j = _ from hv] at hf
  cases hf

/-- A write takes effect in the tables, or fails. -/
theorem Tended.performSave {action : StatusAction} {status : Status} {statements : List Statement}
    (hP : Notion P) (h : o.Tended P) (htask : o.task? i = some (.save action status statements))
    (hasking : o.statuses.isAsking i = true)
    (hown : (o.store.database.transact statements).1 = .ok () →
      P (o.store.database.transact statements).2.tables status.barebones) :
    ((o.setDatabase (o.store.database.transact statements).2).setCaches
      (o.store.caches.answerStore i (o.store.database.transact statements).1)).Tended P := by
  have hf := h.asks htask hasking
  have hwrites : Writes status statements := h.writes htask
  obtain ⟨healthy, hothers⟩ := h.healthy.written hwrites
  have hclosed := isClosed_transact o.store.database statements
  have hfailed : ∀ {e}, (o.store.database.transact statements).1 = .error e →
      (o.store.database.transact statements).2.tables = o.store.database.tables :=
    tables_of_transact_error
  generalize o.store.database.transact statements = answered at *
  obtain ⟨answer, db⟩ := answered
  obtain ⟨hm, hgripped⟩ := h.sound.toGripped.answerStore_moves i answer
  rw [if_pos hasking] at hm hgripped
  have hself : (o.statuses.answerStore i answer).flight? i =
      some ⟨i, .store status.barebones (some answer), .running⟩ :=
    (EntityCache.sets_modifyFlight (g := fun f => { f with work := f.work.answerStore answer }) hf
      fun _ => rfl).self
  have hfollows : Follows o ((o.setDatabase db).setCaches (o.store.caches.answerStore i answer)) i
      (o.task? i) (.answerStore i answer) := by
    refine ⟨⟨_, hm⟩, hgripped, by simp, ?_, h.unlisted.withStatuses _, o.task?_same i, ?_⟩
    · rintro j ⟨⟩
      rfl
    · rw [htask]
      exact hself ▸ Paired.save hwrites
  cases answer with
  | error e =>
    refine h.quiet hfollows (hfailed rfl) hclosed ?_ (by simp) (by simp)
    simp [htask]
  | ok _ =>
    -- The write will be cached, so what is cached of the status now does not matter.
    refine h.follow hfollows healthy (h.current.of_moves hfollows.stays ?_ ?_ ?_
      (fun _ _ ha => by cases ha) h.sound h.index hm)
    · intro w hw
      by_cases hid : w.id = status.id
      · exact Or.inr (Or.inr ⟨i, status.barebones, hself, hid.symm⟩)
      · exact Or.inl (hP.depends (hothers w.id hid) hw)
    · exact fun id hid => Or.inl hid
    · intro j v hcommits
      rcases hm.commits_before h.sound.toGripped hcommits with hbefore | ⟨ha, hasked⟩
      · have hid : v.id ≠ status.id :=
          commits_apart (w := status.barebones) h.sound.toGripped hbefore hf
        exact (h.current.saved hbefore).imp_left fun hv => hP.depends (hothers v.id hid) hv
      · obtain rfl : j = i := (Action.answerStore.inj ha).1.symm
        rw [hasked] at hf
        cases hf
        exact Or.inl (hown rfl)

/-- A deletion takes effect. -/
theorem Tended.performRemove {id : String} {existing : Option Status} (hP : Notion P)
    (h : o.Tended P) (htask : o.task? i = some (.remove id existing none)) :
    ((o.setDatabase (o.store.database.deleteStatus id).2).setTask i
      (.remove id existing (some (o.store.database.deleteStatus id).1))).Tended P := by
  have hflight : o.statuses.flight? i = none := by
    refine h.flight?_eq_none ?_
    rw [htask]
    rfl
  obtain ⟨-, healthy, -⟩ := h.healthy.delete id
  have hothers : ∀ other, other ≠ id → (o.store.database.deleteStatus id).2.tables.rowsOf other =
      o.store.database.tables.rowsOf other := fun other hother => h.healthy.deleted hother
  generalize o.store.database.deleteStatus id = answered at healthy hothers ⊢
  obtain ⟨answer, db⟩ := answered
  have htasks : ∀ j, ((o.setDatabase db).setTask i (.remove id existing (some answer))).task? j =
      if j = i then some (.remove id existing (some answer)) else o.task? j := by
    intro j
    rw [task?_setTask, show (o.setDatabase db).task? i = o.task? i from rfl, htask, Option.map_some]
    rfl
  have hfollows := follows_still h (u := (o.setDatabase db).setTask i
    (.remove id existing (some answer))) rfl htasks hflight (by simp)
  have hremoving : ∀ other, o.Removing other → Overlap.Removing ((o.setDatabase db).setTask i
      (.remove id existing (some answer))) other := by
    rintro other ⟨j, e, x, hj⟩
    refine ⟨j, e, x, ?_⟩
    rw [htasks, if_neg]
    · exact hj
    · rintro rfl
      rw [htask] at hj
      cases hj
  have hown : Overlap.Removing ((o.setDatabase db).setTask i
      (.remove id existing (some answer))) id :=
    ⟨i, existing, answer, (htasks i).trans (if_pos rfl)⟩
  obtain ⟨p, hm⟩ := hfollows.moves
  refine h.follow hfollows healthy (h.current.of_moves hfollows.stays ?_ ?_ ?_
    (fun _ _ ha => by cases ha) h.sound h.index hm)
  · intro w hw
    by_cases hid : w.id = id
    · exact Or.inr (Or.inl (hid ▸ hown))
    · exact Or.inl (hP.depends (hothers w.id hid) hw)
  · exact fun other hother => Or.inl (hremoving other hother)
  · intro j v hcommits
    by_cases hid : v.id = id
    · exact Or.inr (hid ▸ hown)
    · exact (h.current.saved hcommits).imp (hP.depends (hothers v.id hid)) (hremoving v.id)

theorem Tended.perform (hP : Notion P) (h : o.Tended P)
    (hown : ∀ action status statements, o.task? i = some (.save action status statements) →
      (o.store.database.transact statements).1 = .ok () →
      P (o.store.database.transact statements).2.tables status.barebones) :
    (o.perform i).Tended P := by
  have hload : ∀ task l, o.task? i = some task → task.subject? = none ∨ (∃ id, task = .preload id) →
      (o.performLoad i l).Tended P := by
    intro task l htask hkind
    refine h.performLoad hP ?_ l
    intro id existing answer hremove
    rw [htask, Option.some.injEq] at hremove
    rcases hkind with hnone | ⟨id, rfl⟩
    · rw [hremove] at hnone
      cases hnone
    · cases hremove
  unfold Overlap.perform
  split
  · exact h
  · rename_i l mode htask
    exact hload _ l htask (Or.inl rfl)
  · rename_i status failures part rest htask
    split
    · rename_i id _
      exact hload _ (.id id) htask (Or.inl rfl)
    · rename_i hnone
      have hflight : o.statuses.flight? i = none :=
        h.flight?_eq_none (by simp [htask, Task.flies, Task.loads, hnone])
      obtain ⟨db, hstore, htables, hclosed⟩ :=
        store_fill (q := ⟨o.store, status, failures⟩) hnone
      generalize (Population.mk o.store status failures).fill part = q at hstore ⊢
      refine h.still (t := some (.filled q.status q.failures rest)) ?_ ?_ ?_ (fun j => ?_) hflight
        (by simp) ?_
      · show q.store.caches = o.store.caches
        rw [hstore]
      · show q.store.database.tables = o.store.database.tables
        rw [hstore]
        exact htables
      · show q.store.database.isClosed = o.store.database.isClosed
        rw [hstore]
        exact hclosed
      · have htask' : Overlap.task? { o with store := q.store } i =
            some (.fill status failures (part :: rest)) := htask
        rw [task?_setTask, htask']
        rfl
      · simp [htask]
  · rename_i id htask
    exact hload _ (.id id) htask (Or.inr ⟨id, rfl⟩)
  · rename_i action status statements htask
    split
    · rename_i hasking
      exact h.performSave hP htask hasking (hown action status statements htask)
    · exact h
  · rename_i id existing htask
    exact h.performRemove hP htask
  all_goals exact h

/-! ### Calls are resumed -/

theorem Tended.holder (h : o.Tended P) (htask : o.task? i = some task) :
    o.statuses.flight? i = none ∨ task.loads = true ∨
      ∃ action status statements, task = .save action status statements := by
  have hpaired := h.paired i
  rw [htask] at hpaired
  generalize o.statuses.flight? i = f at hpaired ⊢
  cases hpaired with
  | idle _ => exact Or.inl rfl
  | load hloads => exact Or.inr (Or.inl hloads)
  | save _ => exact Or.inr (Or.inr ⟨_, _, _, rfl⟩)

/-- A call is polled that may have a flight. -/
theorem Tended.pollFlight (h : o.Tended P) (htask : o.task? i = some task)
    (hremains : ∀ id existing answer, task ≠ .remove id existing (some answer)) :
    ((o.setCaches (o.store.caches.poll i).2).afterFlight i task (o.store.caches.poll i).1).Tended
      P := by
  obtain ⟨hprogress, hstatuses, hunlisted⟩ := Caches.poll_spec h.unlisted i
  obtain ⟨hm, hgripped⟩ := h.sound.toGripped.poll_moves i
  rw [show o.statuses.poll i = o.store.caches.statuses.poll i from rfl, ← hstatuses]
    at hm hgripped
  have hover : o.statuses.flight? i = none → (o.store.caches.statuses.poll i).1 = .over := by
    intro hnone
    have hnone : o.store.caches.statuses.flight? i = none := hnone
    simp [EntityCache.poll, hnone]
  rw [hprogress]
  generalize (o.store.caches.statuses.poll i).1 = p at hm hover ⊢
  generalize (o.store.caches.poll i).2 = c at hm hgripped hunlisted ⊢
  have hnext := (h.paired i).next hm (by simp) (fun w => by cases w <;> simp [EntityCache.starting])
  have hquiet : ∀ {u : Overlap} {t : Option Task}, u.store.caches = c →
      u.store.database = o.store.database → (∀ j, u.task? j = if j = i then t else o.task? j) →
      Paired t (c.statuses.flight? i) → u.Tended P := by
    rintro u t rfl hdatabase htasks hpaired
    have hfollows : Follows o u i t (.poll i) :=
      ⟨⟨p, hm⟩, hgripped, by simp, fun j hj => Option.some.inj hj.symm, hunlisted, htasks, hpaired⟩
    refine h.quiet hfollows (congrArg _ hdatabase) (congrArg _ hdatabase) ?_ (by simp) (by simp)
    rw [htask]
    rintro id existing answer ⟨⟩
    exact hremains _ _ _ rfl
  rcases h.holder htask with hnone | hloads | ⟨action, status, statements, rfl⟩
  · obtain rfl := hover hnone
    refine hquiet rfl rfl (o.task?_same i) ?_
    rcases hnext with hpaired | ⟨-, -, ⟨r, hr⟩ | ⟨r, hr⟩⟩
    · exact hpaired
    · cases hr
    · cases hr
  · have hpaired : Paired (o.task? i) (c.statuses.flight? i) := by
      rcases hnext with hpaired | ⟨hgone, -⟩
      · exact hpaired
      · rw [hgone, htask]
        refine .idle ?_
        rintro action status statements ⟨⟩
        cases hloads
    have hpolled : (o.setCaches c).Tended P := hquiet rfl rfl (o.task?_same i) hpaired
    exact hpolled.afterLoad htask hloads hm.ended
  · rcases hnext with hpaired | ⟨hgone, -, hended⟩
    · -- The flight of the write goes on, so the call waits.
      have hflight : c.statuses.flight? i ≠ none := by
        intro hgone
        rw [hgone, htask] at hpaired
        cases hpaired with
        | idle hsave => exact hsave _ _ _ rfl
      have hpolled : (o.setCaches c).Tended P := hquiet rfl rfl (o.task?_same i) hpaired
      cases p with
      | loaded r => exact absurd (hm.ended (Or.inl ⟨r, rfl⟩)) hflight
      | stored r => exact absurd (hm.ended (Or.inr ⟨r, rfl⟩)) hflight
      | _ => exact hpolled
    · have hidle : Paired none (c.statuses.flight? i) := by
        rw [hgone]
        exact .idle (by simp)
      obtain ⟨r, rfl⟩ | ⟨r, rfl⟩ := hended
      · exact hquiet rfl rfl (task?_finish (o.setCaches c) i _) hidle
      · unfold Overlap.afterFlight
        dsimp only
        split
        · exact hquiet rfl rfl
            (task?_finish { o with store := ((o.setCaches c).store.publish _ _).2 } i _) hidle
        · exact hquiet rfl rfl (task?_finish (o.setCaches c) i _) hidle

/-- A deletion returns, and takes the cache entry along. -/
theorem Tended.removed {id : String} {existing : Option Status} {answer : Except Error Unit}
    (h : o.Tended P) (htask : o.task? i = some (.remove id existing (some answer)))
    (hcalm : ∀ j v, o.statuses.Commits j v → v.id = id → P o.tables v)
    (hcaches : u.store.caches = o.store.caches.invalidate (.ofLookup (.id id)))
    (hdatabase : u.store.database = o.store.database)
    (htasks : ∀ j, u.task? j = if j = i then none else o.task? j) : u.Tended P := by
  obtain ⟨hstatuses, hunlisted⟩ := Caches.invalidate_spec h.unlisted (.ofLookup (.id id))
  obtain ⟨hm, hgripped⟩ := h.sound.toGripped.moves (.invalidate (.ofLookup (.id id)))
  have hnone : o.statuses.flight? i = none := by
    refine h.flight?_eq_none ?_
    rw [htask]
    rfl
  rw [← hcaches] at hstatuses hunlisted
  have hafter : u.statuses = (o.statuses.invalidate (.ofLookup (.id id))).2 := hstatuses
  have hflights : ∀ j, u.statuses.flight? j = o.statuses.flight? j := by
    intro j
    rw [hafter]
    exact hm.others (by simp [Action.handle?])
  have hfollows : Follows o u i none (.invalidate (.ofLookup (.id id))) := by
    refine ⟨⟨_, hafter ▸ hm⟩, hafter ▸ hgripped, by simp, by simp [Action.handle?], hunlisted,
      htasks, ?_⟩
    rw [hflights, hnone]
    exact .idle (by simp)
  have hsame : u.tables = o.tables := congrArg Database.tables hdatabase
  -- Of the deletions in progress only this one ends.
  have hremoving : ∀ other, o.Removing other → u.Removing other ∨ other = id := by
    rintro other ⟨j, e, x, hj⟩
    by_cases hij : j = i
    · rw [hij, htask] at hj
      cases hj
      exact Or.inr rfl
    · exact Or.inl ⟨j, e, x, by rw [htasks, if_neg hij]; exact hj⟩
  refine h.follow hfollows (h.healthy.of_eq hsame (congrArg _ hdatabase)) ?_
  rw [hsame]
  refine h.current.of_moves (a := .invalidate (.ofLookup (.id id))) hfollows.stays
    (fun w hw => Or.inl hw) ?_ ?_ (by simp) h.sound h.index (hafter ▸ hm)
  · intro other hother
    rcases hremoving other hother with hstill | rfl
    · exact Or.inl hstill
    · exact Or.inr rfl
  · intro j v hcommits
    have hbefore : o.statuses.Commits j v := (hflights j).symm.trans hcommits
    rcases h.current.saved hbefore with hcurrent | hremoved
    · exact Or.inl hcurrent
    · rcases hremoving v.id hremoved with hstill | hid
      · exact Or.inr hstill
      · exact Or.inl (hcalm j v hbefore hid)

theorem Tended.resume (h : o.Tended P)
    (hcalm : ∀ id existing answer, o.task? i = some (.remove id existing (some answer)) →
      ∀ j v, o.statuses.Commits j v → v.id = id → P o.tables v) : (o.resume i).Tended P := by
  unfold Overlap.resume
  split
  · exact h
  · exact h
  · rename_i id _ _ htask
    split
    · exact h.removed htask (hcalm _ _ _ htask) rfl rfl
        (task?_finish (Overlap.evict { o with store := (o.store.publish .delete _).2 } id) i _)
    · exact h.removed htask (hcalm _ _ _ htask) rfl rfl (task?_finish (o.evict id) i _)
  · rename_i status failures parts htask
    have hflight : o.statuses.flight? i = none := by
      refine h.flight?_eq_none ?_
      rw [htask]
      rfl
    have hreads : o.Reads i := ⟨by simp [htask], by rw [subject?, htask]; rfl⟩
    exact h.populate hflight hreads _ _ _
  · rename_i task hpending hremove hfilled htask
    refine h.pollFlight htask ?_
    rintro id existing answer rfl
    exact hremove _ _ _ rfl

/-! ### Steps -/

/-- What a step may do while calls are tended: nothing is dropped, a write that commits is right
about its status, and where a deletion returns so is every write of its id that is yet to be cached. -/
structure Heeds (P : Tables → Status → Prop) (o : Overlap) (s : OverlapStep) : Prop where
  stays : ∀ i, s ≠ .cancel i
  commits : ∀ i action status statements, s = .perform i →
    o.task? i = some (.save action status statements) →
    (o.store.database.transact statements).1 = .ok () →
    P (o.store.database.transact statements).2.tables status.barebones
  returns : ∀ i id existing answer, s = .resume i →
    o.task? i = some (.remove id existing (some answer)) →
    ∀ j v, o.statuses.Commits j v → v.id = id → P o.tables v

theorem Tended.step {s : OverlapStep} (hP : Notion P) (h : o.Tended P) (hheeds : Heeds P o s) :
    (o.step s).Tended P := by
  cases s with
  | begin i request => exact h.begin request
  | perform i =>
    exact h.perform hP fun action status statements =>
      hheeds.commits i action status statements rfl
  | resume i =>
    exact h.resume fun id existing answer => hheeds.returns i id existing answer rfl
  | cancel i => exact absurd rfl (hheeds.stays i)

end Overlap

end StatusStore
