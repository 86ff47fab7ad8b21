/-
  StatusStore/Proofs/Store/Interleaving.lean
  ==========================================
  **What is cached after calls have overlapped.**  Lookups, writes and deletions
  take their steps in any order.  If no write of a status overlaps a deletion of
  it, and updates write all columns and keep the origin of the row, then whatever
  is cached when all calls have returned is what the database answers
  (`run_agrees`).

  If writes do overlap deletions, less is true.  A write is cached when its call is
  resumed, without a look at what has happened since its transaction.  A deletion
  that was committed after that transaction and has returned before is missed: the
  status stays cached without a row (`run_backed_fails`).  Where that order is
  ruled out, every cached status has its row (`run_backed`).
-/
import StatusStore.Proofs.Store.Tended
import StatusStore.Proofs.Store.Transparency

namespace StatusStore

open Cache Database

namespace Overlap

variable {P : Tables → Status → Prop} {o : Overlap} {s : OverlapStep} {steps : List OverlapStep}

/-! ### Runs -/

/-- Every step of a run is of the kind `A` where it is taken. -/
def Along (A : Overlap → OverlapStep → Prop) (o : Overlap) : List OverlapStep → Prop
  | [] => True
  | s :: rest => A o s ∧ Along A (o.step s) rest

instance decidableAlong (A : Overlap → OverlapStep → Prop) [∀ o s, Decidable (A o s)] (o : Overlap) :
    (steps : List OverlapStep) → Decidable (Along A o steps)
  | [] => inferInstanceAs (Decidable True)
  | s :: rest =>
    have := decidableAlong A (o.step s) rest
    inferInstanceAs (Decidable (A o s ∧ Along A (o.step s) rest))

/-- What the steps of a kind keep up, a run of them keeps up. -/
theorem Along.keeps {A : Overlap → OverlapStep → Prop} {I : Overlap → Prop}
    (hstep : ∀ o s, I o → A o s → I (o.step s)) (h : I o) (hsteps : Along A o steps) :
    I (o.run steps) := by
  induction steps generalizing o with
  | nil => exact h
  | cons s rest ih =>
    obtain ⟨hs, hrest⟩ := hsteps
    exact ih (hstep o s h hs) hrest

theorem tended_start {config : Config} {db : Database} {start : Store}
    (hstart : Store.ofDatabase config db = .ok start) (healthy : db.Healthy) :
    Tended P { store := start } := by
  obtain ⟨queue, rfl⟩ := Store.ofDatabase_ok hstart
  exact {
    healthy := healthy
    sound := EntityCache.sound_withGcFrequency "status" config.lockGcFrequency
    index := Index.sound_empty
    unlisted := Caches.unlisted_withGcFrequency config.lockGcFrequency
    paired := fun _ => .idle (by simp [task?])
    current := EntityCache.current_withGcFrequency _ _ "status" config.lockGcFrequency }

/-- Where no call is in progress, whatever is cached is right. -/
theorem Tended.of_idle (h : o.Tended P) (hidle : o.calls = []) {n : Nat} {e : Entry Status}
    (he : o.statuses.index.entries.get? n = some e) : P o.tables e.value := by
  have htask : ∀ i, o.task? i = none := by
    intro i
    simp [task?, hidle]
  have hplace := h.index.placed he (h.index.canonical he (mem_aliases_id e.value))
  have hheld : o.statuses.get? (.ofLookup (.id e.value.id)) = some e.value :=
    Index.get?_eq_some.2 ⟨n, e, hplace, he, rfl⟩
  rcases h.current.held hheld with hright | ⟨i, existing, answer, hremove⟩ | ⟨i, v, hcommits, -⟩
  · exact hright
  · rw [htask] at hremove
    cases hremove
  · have hpaired := h.paired i
    rw [htask, show o.statuses.flight? i = _ from hcommits] at hpaired
    cases hpaired

/-! ### Writes and deletions kept apart -/

namespace Subject

def writes? : Subject → Option String
  | .write _ status _ => some status.id
  | .deletion _ => none

def deletes? : Subject → Option String
  | .write _ _ _ => none
  | .deletion id => some id

end Subject

def written (o : Overlap) : List String :=
  o.calls.filterMap fun c => c.task.subject?.bind Subject.writes?

def deleted (o : Overlap) : List String :=
  o.calls.filterMap fun c => c.task.subject?.bind Subject.deletes?

theorem exists_call_of_subject? {i : Nat} {x : Subject} (h : o.subject? i = some x) :
    ∃ c ∈ o.calls, c.task.subject? = some x := by
  obtain ⟨task, htask, hx⟩ := Option.bind_eq_some_iff.1 h
  obtain ⟨c, hc, rfl⟩ := Option.map_eq_some_iff.1 htask
  exact ⟨c, List.mem_of_find?_eq_some hc, hx⟩

theorem mem_written {i : Nat} {action : StatusAction} {status : Status} {statements : List Statement}
    (h : o.subject? i = some (.write action status statements)) : status.id ∈ o.written := by
  obtain ⟨c, hc, hx⟩ := exists_call_of_subject? h
  exact List.mem_filterMap.2 ⟨c, hc, by rw [hx]; rfl⟩

theorem mem_deleted {i : Nat} {id : String} (h : o.subject? i = some (.deletion id)) :
    id ∈ o.deleted := by
  obtain ⟨c, hc, hx⟩ := exists_call_of_subject? h
  exact List.mem_filterMap.2 ⟨c, hc, by rw [hx]; rfl⟩

def update? (o : Overlap) (i : Nat) : Option Status :=
  match o.task? i with
  | some (.save .update status _) => some status
  | _ => none

/-- No write of a status begins while it is being deleted, and no deletion while it is being written.
An update writes all columns, and finds the origin of the row as its status has it.  Nothing is
dropped. -/
def Admits (o : Overlap) : OverlapStep → Prop
  | .begin _ (.get _ _) => True
  | .begin _ (.put status _) => status.id ∉ o.deleted
  | .begin _ (.update status columns _) => columns = [] ∧ status.id ∉ o.deleted
  | .begin _ (.delete id) => id ∉ o.written
  | .perform i => ∀ status ∈ o.update? i, ∀ r ∈ o.tables.statuses,
      r.value.id = status.id → StatusRow.SameOrigin status.toRow r.value
  | .resume _ => True
  | .cancel _ => False

instance (o : Overlap) : (s : OverlapStep) → Decidable (o.Admits s)
  | .begin _ (.get _ _) => inferInstanceAs (Decidable True)
  | .begin _ (.put status _) => inferInstanceAs (Decidable (status.id ∉ o.deleted))
  | .begin _ (.update status columns _) =>
    inferInstanceAs (Decidable (columns = [] ∧ status.id ∉ o.deleted))
  | .begin _ (.delete id) => inferInstanceAs (Decidable (id ∉ o.written))
  | .perform i => inferInstanceAs (Decidable (∀ status ∈ o.update? i, ∀ r ∈ o.tables.statuses,
      r.value.id = status.id → StatusRow.SameOrigin status.toRow r.value))
  | .resume _ => inferInstanceAs (Decidable True)
  | .cancel _ => inferInstanceAs (Decidable False)

inductive Whole : StatusAction → Status → List Statement → Prop
  | put {status : Status} (newThread : Option Thread) :
      Whole .create status (Statement.put status newThread)
  | update {status : Status} : Whole .update status (Statement.update status [])

/-- No status is written and deleted at once, and updates write all columns. -/
structure Orderly (o : Overlap) : Prop where
  apart : ∀ {i j : Nat} {action : StatusAction} {status : Status} {statements : List Statement}
    {id : String}, o.subject? i = some (.write action status statements) →
    o.subject? j = some (.deletion id) → status.id ≠ id
  whole : ∀ {i : Nat} {action : StatusAction} {status : Status} {statements : List Statement},
    o.subject? i = some (.write action status statements) → Whole action status statements

theorem orderly_start (store : Store) : Orderly { store } where
  apart h := by cases h
  whole h := by cases h

/-- A write that begins is of a status that nobody deletes. -/
theorem Admits.write {i : Nat} {request : Request} {action : StatusAction} {status : Status}
    {statements : List Statement} (h : o.Admits (.begin i request))
    (hx : request.subject? = some (.write action status statements)) :
    status.id ∉ o.deleted ∧ Whole action status statements := by
  cases request with
  | get l mode => cases hx
  | put given fresh =>
    have hid : (given.startThread fresh).2.id = given.id := by
      unfold Status.startThread
      split <;> rfl
    simp only [Request.subject?] at hx
    generalize given.startThread fresh = started at hid hx
    cases hx
    rw [hid]
    exact ⟨h, .put _⟩
  | update given columns now =>
    obtain ⟨rfl, hapart⟩ := h
    cases hx
    exact ⟨hapart, .update⟩
  | delete id => cases hx

theorem Admits.deletion {i : Nat} {request : Request} {id : String}
    (h : o.Admits (.begin i request)) (hx : request.subject? = some (.deletion id)) :
    id ∉ o.written := by
  cases request with
  | delete given =>
    cases hx
    exact h
  | _ => cases hx

theorem Orderly.step (h : o.Orderly) (hadmits : o.Admits s) : (o.step s).Orderly where
  apart {i j action status statements id} hwrite hdelete := by
    rcases subject?_step hwrite with hwriting | ⟨request, rfl, hwrites⟩
    · rcases subject?_step hdelete with hdeleting | ⟨request, rfl, hdeletes⟩
      · exact h.apart hwriting hdeleting
      · rintro rfl
        exact hadmits.deletion hdeletes (mem_written hwriting)
    · rcases subject?_step hdelete with hdeleting | ⟨other, hsame, hdeletes⟩
      · rintro rfl
        exact (hadmits.write hwrites).1 (mem_deleted hdeleting)
      · cases hsame
        rw [hwrites] at hdeletes
        cases hdeletes
  whole {i action status statements} hwrite := by
    rcases subject?_step hwrite with hwriting | ⟨request, rfl, hwrites⟩
    · exact h.whole hwriting
    · exact (hadmits.write hwrites).2

/-- Kept apart, writes and deletions do what is asked of them. -/
theorem Tended.heeds (h : o.Tended Tables.Agrees) (horderly : o.Orderly) (hadmits : o.Admits s) :
    Heeds Tables.Agrees o s where
  stays i := by
    rintro rfl
    exact hadmits
  commits := by
    rintro i action status statements rfl htask hcommitted
    have hsubject : o.subject? i = some (.write action status statements) := by
      rw [subject?, htask]
      rfl
    have hwhole := horderly.whole hsubject
    cases hwhole with
    | put newThread => exact agrees_put h.healthy hcommitted
    | update =>
      have hupdate : o.update? i = some status := by
        rw [update?, htask]
      exact agrees_update h.healthy hcommitted (hadmits status hupdate)
  returns := by
    rintro i id existing answer rfl htask j v hcommits hid
    -- A write of the status would overlap its deletion.
    have hdeletion : o.subject? i = some (.deletion id) := by
      rw [subject?, htask]
      rfl
    have hpaired := h.paired j
    generalize hwriting : o.task? j = t at hpaired
    rw [show o.statuses.flight? j = _ from hcommits] at hpaired
    cases hpaired with
    | @save action status statements =>
      have hwrite : o.subject? j = some (.write action status statements) := by
        rw [subject?, hwriting]
        rfl
      have hapart : status.id ≠ id := horderly.apart hwrite hdeletion
      exact absurd hid hapart

/-- After an admissible run in which all calls have returned, whatever is cached is what the database
answers to its id. -/
theorem run_agrees {config : Config} {db : Database} {start : Store} {n : Nat} {e : Entry Status}
    (hstart : Store.ofDatabase config db = .ok start) (healthy : db.Healthy)
    (hsteps : Along Admits { store := start } steps)
    (hidle : (run { store := start } steps).calls = [])
    (he : (run { store := start } steps).store.caches.statuses.index.entries.get? n = some e) :
    ((run { store := start } steps).store.database.status (.id e.value.id)).1 = .ok e.value := by
  have hkept : (run { store := start } steps).Tended Tables.Agrees ∧
      (run { store := start } steps).Orderly := by
    refine hsteps.keeps (I := fun o => o.Tended Tables.Agrees ∧ o.Orderly) ?_
      ⟨tended_start hstart healthy, orderly_start start⟩
    rintro o s ⟨htended, horderly⟩ hadmits
    exact ⟨htended.step notion_agrees (htended.heeds horderly hadmits), horderly.step hadmits⟩
  have hagrees := hkept.1.of_idle hidle he
  have hanswer : ((run { store := start } steps).store.database.status (.id e.value.id)).1 =
      (run { store := start } steps).tables.status (.id e.value.id) :=
    select_of_ready hkept.1.healthy.isOpen (hkept.1.healthy.require _) _
  exact hanswer.trans hagrees

/-- A status is put while it is looked up; then it is deleted while another is put, which is looked up
in turn while it is updated. -/
def overlapping : List OverlapStep :=
  let first : Status := { (default : Status) with id := "01A", uri := "https://ex.test/01A" }
  let second : Status := { (default : Status) with id := "01B", uri := "https://ex.test/01B" }
  [.begin 0 (.put first ⟨"T", default⟩), .begin 1 (.get (.uri first.uri) .barebones),
    .perform 0, .perform 1, .resume 0, .resume 1,
    .begin 2 (.put second ⟨"U", default⟩), .begin 3 (.delete "01A"),
    .perform 3, .perform 2, .resume 3, .resume 2,
    .begin 4 (.update { second with content := "again" } [] default),
    .begin 5 (.get (.boost "01A" "") .barebones), .perform 5, .perform 4, .resume 4, .resume 5]

theorem run_agrees_overlapping :
    Along Admits { store := Store.beginning } overlapping ∧
      ∃ n e, (run { store := Store.beginning } overlapping).statuses.index.entries.get? n = some e ∧
        e.value.content = "again" ∧
        ((run { store := Store.beginning } overlapping).store.database.status (.id "01B")).1 =
          .ok e.value := by
  have hsteps : Along Admits { store := Store.beginning } overlapping := by decide +kernel
  have hidle : (run { store := Store.beginning } overlapping).calls = [] :=
    List.isEmpty_iff.1 (by decide +kernel)
  have hcached : (((run { store := Store.beginning } overlapping).statuses.index.entries.get? 3).map
      fun e => (e.value.id, e.value.content)) = some ("01B", "again") := by decide +kernel
  obtain ⟨e, he, hvalue⟩ := Option.map_eq_some_iff.1 hcached
  obtain ⟨hid, hcontent⟩ := Prod.mk.inj hvalue
  have hstart : Store.ofDatabase ⟨"", 1, 1, "info", "pretty"⟩ {} = .ok Store.beginning := rfl
  have healthy : Database.Healthy {} := ⟨rfl, rfl, by simp, by simp⟩
  refine ⟨hsteps, 3, e, he, hcontent, ?_⟩
  rw [← hid]
  exact run_agrees hstart healthy hsteps hidle he

/-! ### Writes that overlap deletions -/

/-- The id whose deletion has taken effect and returns when the handle is resumed. -/
def returning? (o : Overlap) (i : Nat) : Option String :=
  match o.task? i with
  | some (.remove id _ (some _)) => some id
  | _ => none

/-- The statuses whose write has been committed and is yet to be cached. -/
def committed (o : Overlap) : List Status :=
  o.statuses.flights.filterMap fun
    | ⟨_, .store v (some (.ok ())), .running⟩ => some v
    | _ => none

/-- Where a deletion returns, a write of the status that was committed and is yet to be cached was
committed after it, so that there is a row.  Nothing is dropped. -/
def Settles (o : Overlap) : OverlapStep → Prop
  | .resume i => ∀ id ∈ o.returning? i, ∀ v ∈ o.committed, v.id = id → o.tables.Has v
  | .cancel _ => False
  | _ => True

instance (t : Tables) (v : Status) : Decidable (t.Has v) :=
  inferInstanceAs (Decidable (∃ r ∈ t.statuses, r.value.id = v.id))

instance (o : Overlap) : (s : OverlapStep) → Decidable (o.Settles s)
  | .begin _ _ | .perform _ => inferInstanceAs (Decidable True)
  | .resume i => inferInstanceAs
    (Decidable (∀ id ∈ o.returning? i, ∀ v ∈ o.committed, v.id = id → o.tables.Has v))
  | .cancel _ => inferInstanceAs (Decidable False)

theorem mem_committed {i : Nat} {v : Status} (h : o.statuses.Commits i v) : v ∈ o.committed :=
  List.mem_filterMap.2 ⟨_, List.mem_of_find?_eq_some h, rfl⟩

theorem Tended.heeds_of_settles (h : o.Tended Tables.Has) (hsettles : o.Settles s) :
    Heeds Tables.Has o s where
  stays i := by
    rintro rfl
    exact hsettles
  commits := by
    rintro i action status statements rfl htask hcommitted
    have hhas := has_written h.healthy (h.writes htask) hcommitted
    exact hhas
  returns := by
    rintro i id existing answer rfl htask j v hcommits hid
    have hreturning : o.returning? i = some id := by
      rw [returning?, htask]
    exact hsettles id hreturning v (mem_committed hcommits) hid

/-- After a settled run in which all calls have returned, every cached status has a row. -/
theorem run_backed {config : Config} {db : Database} {start : Store} {n : Nat} {e : Entry Status}
    (hstart : Store.ofDatabase config db = .ok start) (healthy : db.Healthy)
    (hsteps : Along Settles { store := start } steps)
    (hidle : (run { store := start } steps).calls = [])
    (he : (run { store := start } steps).store.caches.statuses.index.entries.get? n = some e) :
    ∃ r ∈ (run { store := start } steps).store.database.tables.statuses,
      r.value.id = e.value.id := by
  have hkept : (run { store := start } steps).Tended Tables.Has :=
    hsteps.keeps (I := (Tended Tables.Has)) (fun o s htended hsettles =>
      htended.step notion_has (htended.heeds_of_settles hsettles)) (tended_start hstart healthy)
  exact hkept.of_idle hidle he

def note : Status := { (default : Status) with id := "01A", uri := "https://ex.test/01A" }

/-- A status is put, and put again while its deletion, which has been committed, is yet to return. -/
def renewed : List OverlapStep := [
  .begin 0 (.put note ⟨"T", default⟩), .perform 0, .resume 0,
  .begin 1 (.delete "01A"), .perform 1,
  .begin 2 (.put note ⟨"U", default⟩), .perform 2, .resume 1, .resume 2]

theorem run_backed_renewed :
    Along Settles { store := Store.beginning } renewed ∧
      ∃ n e, (run { store := Store.beginning } renewed).statuses.index.entries.get? n = some e ∧
        ∃ r ∈ (run { store := Store.beginning } renewed).store.database.tables.statuses,
          r.value.id = e.value.id := by
  have hsteps : Along Settles { store := Store.beginning } renewed := by decide +kernel
  have hidle : (run { store := Store.beginning } renewed).calls = [] :=
    List.isEmpty_iff.1 (by decide +kernel)
  have hcached : ((run { store := Store.beginning } renewed).statuses.index.entries.get? 2).isSome =
      true := by decide +kernel
  obtain ⟨e, he⟩ := Option.isSome_iff_exists.1 hcached
  have hstart : Store.ofDatabase ⟨"", 1, 1, "info", "pretty"⟩ {} = .ok Store.beginning := rfl
  have healthy : Database.Healthy {} := ⟨rfl, rfl, by simp, by simp⟩
  exact ⟨hsteps, 2, e, he, run_backed hstart healthy hsteps hidle he⟩

/-- An update is committed before the deletion of its status, and resumed after it has returned. -/
def overtaken : List OverlapStep := [
  .begin 0 (.put note ⟨"T", default⟩), .perform 0, .resume 0,
  .begin 1 (.update { note with threadId := some "T", content := "again" } [] default), .perform 1,
  .begin 2 (.delete "01A"), .perform 2, .resume 2, .resume 1]

/-- Then all calls have succeeded, and the status is still served from the cache. -/
theorem run_backed_fails :
    (run { store := Store.beginning } overtaken).calls.isEmpty = true ∧
      ((run { store := Store.beginning } overtaken).returned.map fun
        | (i, .unit (.ok ())) => some i
        | _ => none) = [some 1, some 2, some 0] ∧
      ((run { store := Store.beginning } overtaken).statuses.get? (.ofLookup (.id "01A"))).map
        (·.content) = some "again" ∧
      (run { store := Store.beginning } overtaken).store.database.tables.statuses = [] := by
  refine ⟨by decide +kernel, by decide +kernel, by decide +kernel, ?_⟩
  exact List.isEmpty_iff.1 (by decide +kernel)

end Overlap

end StatusStore
