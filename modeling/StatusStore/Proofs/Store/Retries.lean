/-
  StatusStore/Proofs/Store/Retries.lean
  =====================================
  **Putting a status again that could not be put.**  A status without a thread and
  without a parent starts one when it is put, and the caller's status names it from
  then on, even if the put fails.  The thread itself is inserted by the transaction,
  which a failure undoes; and when the status is put again it has a thread already,
  so that none is inserted.  Thus after failures the row and the join name a thread
  that is not there, unless it came there in some other way.

  Main statements: `threads_afterAll`, which says where threads come from in a run,
  `threads_retried`, and `retried_thread`.
-/
import StatusStore.Proofs.Store.Atomicity
import StatusStore.Proofs.Store.Joins

namespace StatusStore

open Cache Database

namespace Database

variable {t u : Tables} {s : Status}

/-! ### Threads that a call starts -/

def Statement.thread? : Statement → Option Thread
  | insertThread thread => some thread
  | _ => none

def threadRows (threads : List Thread) : List (Stored Thread) := threads.map ({ value := · })

theorem threadRows_append (old new : List Thread) :
    threadRows (old ++ new) = threadRows old ++ threadRows new :=
  List.map_append

theorem Statement.threads_apply {x : Statement} (h : x.apply t = .ok u) :
    u.threads = t.threads ++ threadRows x.thread?.toList := by
  cases x with
  | insertThread thread =>
    obtain ⟨-, rfl⟩ := insert_ok h
    rfl
  | insertStatus row =>
    obtain ⟨-, rfl⟩ := insert_ok h
    exact (List.append_nil _).symm
  | updateStatus source columns =>
    simp only [apply] at h
    split at h
    · cases h
    · split at h <;> cases h
      exact (List.append_nil _).symm
  | _ =>
    cases h
    exact (List.append_nil _).symm

/-- Statements add the threads that they insert, and take none away. -/
theorem Statement.threads_runAll {xs : List Statement} (h : runAll t xs = .ok u) :
    u.threads = t.threads ++ threadRows (xs.filterMap thread?) := by
  induction xs generalizing t with
  | nil =>
    cases h
    exact (List.append_nil _).symm
  | cons x xs ih =>
    obtain ⟨v, happly, hall⟩ := runAll_cons_ok h
    rw [ih hall, threads_apply happly, List.append_assoc]
    cases hthread : x.thread? <;> simp [threadRows, hthread]

theorem Statement.filterMap_thread?_joins (s : Status) : (joins s).filterMap thread? = [] := by
  rw [List.filterMap_eq_nil_iff]
  intro x hx
  simp only [joins, List.mem_append, List.mem_map, Option.mem_toList, Option.map_eq_some_iff] at hx
  rcases hx with ((⟨_, -, rfl⟩ | ⟨_, -, rfl⟩) | ⟨_, -, rfl⟩) | ⟨_, -, rfl⟩ <;> rfl

def Call.thread? : Call → Option Thread
  | put _ newThread => newThread
  | _ => none

theorem Call.filterMap_thread? (c : Call) :
    c.statements.filterMap Statement.thread? = c.thread?.toList := by
  cases c with
  | put status newThread =>
    have hfirst : (newThread.map Statement.insertThread).toList.filterMap Statement.thread? =
        newThread.toList := by
      cases newThread <;> rfl
    simp [Call.statements, Statement.put, Call.thread?, hfirst, Statement.filterMap_thread?_joins,
      Statement.thread?]
  | update status columns =>
    simp [Call.statements, Statement.update, Call.thread?, Statement.filterMap_thread?_joins,
      Statement.thread?]
  | delete id => rfl

def inserts (db : Database) (c : Call) : List Thread :=
  match (db.call c).1 with
  | .ok () => c.thread?.toList
  | .error _ => []

theorem threads_call (db : Database) (c : Call) :
    (db.call c).2.tables.threads = db.tables.threads ++ threadRows (db.inserts c) := by
  rw [inserts, call_eq]
  cases hanswer : (db.transact c.statements).1 with
  | error e =>
    rw [tables_of_transact_error hanswer]
    exact (List.append_nil _).symm
  | ok _ => rw [Statement.threads_runAll (transact_ok hanswer).2, c.filterMap_thread?]

end Database

namespace Store

variable {s : Store}

/-! ### Threads that a run starts -/

def inserts (s : Store) : Event → List Thread
  | .use operation => (operation.call?.map s.database.inserts).getD []
  | .outage _ _ => []

def insertsAll : Store → List Event → List Thread
  | _, [] => []
  | s, event :: rest => s.inserts event ++ (s.after event).insertsAll rest

theorem threads_after (s : Store) (event : Event) :
    (s.after event).database.tables.threads =
      s.database.tables.threads ++ threadRows (s.inserts event) := by
  cases event with
  | outage isClosed dropped => exact (List.append_nil _).symm
  | use operation =>
    rw [show s.after (.use operation) = s.perform operation from rfl,
      (s.frame_perform operation).2, inserts]
    cases operation.call? with
    | none => exact (List.append_nil _).symm
    | some c => exact s.database.threads_call c

theorem threads_afterAll (s : Store) (events : List Event) :
    (s.afterAll events).database.tables.threads =
      s.database.tables.threads ++ threadRows (s.insertsAll events) := by
  induction events generalizing s with
  | nil => exact (List.append_nil _).symm
  | cons event events ih =>
    have hrest := ih (s.after event)
    rw [threads_after, List.append_assoc] at hrest
    rw [insertsAll, threadRows_append]
    exact hrest

/-! ### Attempts in turn -/

/-- An attempt to put a status, with all that happens before it, what the caller changes in the
status besides its thread and its parent, and the thread that the status starts if it is in need of
one.  A fault cannot be that a row is there already, which only the tables tell. -/
structure Trial where
  meanwhile : List Event := []
  edit : Status → Status := id
  threadId_edit : ∀ w, (edit w).threadId = w.threadId := by exact fun _ => rfl
  inReplyToId_edit : ∀ w, (edit w).inReplyToId = w.inReplyToId := by exact fun _ => rfl
  fresh : Thread
  faults : Faults := {}
  honest : ∀ n, faults.statement n ≠ some .alreadyExists

namespace Trial

def begun (a : Trial) (x : Status × Store) : Status × Store :=
  (a.edit x.1, x.2.afterAll a.meanwhile)

/-- The answer to an attempt, and the status as the caller keeps it with the store. -/
def make (a : Trial) (x : Status × Store) : Except Error Unit × Status × Store :=
  (a.begun x).2.attempt (.put (a.begun x).1 a.fresh) a.faults

end Trial

/-- The status in the caller's hands and the store after attempts in turn. -/
def retried (trials : List Trial) (x : Status × Store) : Status × Store :=
  trials.foldl (fun x a => (a.make x).2) x

def AllFail : List Trial → Status × Store → Prop
  | [], _ => True
  | a :: rest, x => (∃ e, (a.make x).1 = .error e) ∧ AllFail rest (a.make x).2

def startedBetween : List Trial → Status × Store → List Thread
  | [], _ => []
  | a :: rest, x => x.2.insertsAll a.meanwhile ++ startedBetween rest (a.make x).2

variable {x : Status × Store} {a last : Trial} {trials failures : List Trial} {id : String}

theorem status_attempt (s : Store) (w : Write) (faults : Faults) :
    (s.attempt w faults).2.1 = w.status := by
  unfold attempt
  split <;> rfl

theorem database_attempt (s : Store) (w : Write) (faults : Faults) :
    (s.attempt w faults).2.2.database = (s.database.transactUnder faults w.statements).2 := by
  rw [← s.database_save w.status (·.transactUnder faults w.statements)]
  unfold attempt
  split
  all_goals
    rename_i hsave
    exact congrArg (·.2.database) hsave.symm

/-- A status without a parent has a thread when it is put, and starts it if it had none. -/
theorem startThread_of_top {w : Status} (hparent : w.inReplyToId = none) (fresh : Thread) :
    (w.startThread fresh).1 = (if w.threadId = none then some fresh else none) ∧
      (w.startThread fresh).2.threadId = some (w.threadId.getD fresh.id) ∧
      (w.startThread fresh).2.inReplyToId = none := by
  cases hthread : w.threadId <;> simp [Status.startThread, hthread, hparent]

theorem Trial.begun_top (hparent : x.1.inReplyToId = none) : (a.begun x).1.inReplyToId = none :=
  (a.inReplyToId_edit x.1).trans hparent

theorem Trial.status_make (hparent : x.1.inReplyToId = none) :
    (a.make x).2.1.threadId = some (x.1.threadId.getD a.fresh.id) ∧
      (a.make x).2.1.inReplyToId = none := by
  have hkept : (a.make x).2.1 = ((a.begun x).1.startThread a.fresh).2 := status_attempt _ _ _
  have hthread : (a.begun x).1.threadId = x.1.threadId := a.threadId_edit x.1
  obtain ⟨-, hnamed, hnone⟩ := startThread_of_top (Trial.begun_top hparent) a.fresh
  rw [hkept, ← hthread]
  exact ⟨hnamed, hnone⟩

/-- The thread that the first attempt gives the status stays its thread. -/
theorem status_retried (trials : List Trial) (hparent : x.1.inReplyToId = none) :
    (retried trials x).1.threadId = x.1.threadId.or (trials.head?.map (·.fresh.id)) ∧
      (retried trials x).1.inReplyToId = none := by
  induction trials generalizing x with
  | nil => exact ⟨Option.or_none.symm, hparent⟩
  | cons a rest ih =>
    obtain ⟨hthread, hstill⟩ := a.status_make hparent
    obtain ⟨hthreads, hparents⟩ := ih hstill
    refine ⟨hthreads.trans ?_, hparents⟩
    rw [hthread]
    cases x.1.threadId <;> rfl

/-- Attempts that fail start no threads. -/
theorem threads_retried (hfail : AllFail trials x) :
    (retried trials x).2.database.tables.threads =
      x.2.database.tables.threads ++ threadRows (startedBetween trials x) := by
  induction trials generalizing x with
  | nil => exact (List.append_nil _).symm
  | cons a rest ih =>
    obtain ⟨⟨e, hfailed⟩, hrest⟩ := hfail
    have hthreads : (a.make x).2.2.database.tables.threads =
        x.2.database.tables.threads ++ threadRows (x.2.insertsAll a.meanwhile) := by
      obtain ⟨queries, started, hsame⟩ := attempt_error hfailed
      rw [← x.2.threads_afterAll a.meanwhile]
      exact congrArg (·.database.tables.threads) hsame
    have hlater := ih hrest
    rw [hthreads, List.append_assoc] at hlater
    rw [startedBetween, threadRows_append]
    exact hlater

/-- What an attempt that succeeds has written. -/
theorem Trial.written (hok : (a.make x).1 = .ok ()) :
    let tables := (a.make x).2.2.database.tables
    let kept := (a.make x).2.1
    { value := kept.toRow } ∈ tables.statuses ∧
      (∀ id, kept.threadId = some id → (id, kept.id) ∈ tables.threadStatuses) ∧
      tables.threads = (a.begun x).2.database.tables.threads ++
        threadRows ((a.begun x).1.startThread a.fresh).1.toList := by
  intro tables kept
  have hkept : kept = ((a.begun x).1.startThread a.fresh).2 := status_attempt _ _ _
  have hanswer := ((a.begun x).2.attempt_fst _ a.faults).symm.trans hok
  have hrun : Statement.runAll (a.begun x).2.database.tables
      (Call.put kept ((a.begun x).1.startThread a.fresh).1).statements = .ok tables := by
    have hran := transactUnder_ok a.honest hanswer
    rw [← database_attempt] at hran
    rw [hkept]
    exact hran
  obtain ⟨-, hstatuses, -⟩ := Statement.put_ok hrun
  refine ⟨?_, fun id hid => ?_, ?_⟩
  · rw [hstatuses]
    exact List.mem_append_right _ (List.mem_singleton_self _)
  · rw [mem_joins_thread, Prod.swap_prod_mk, Statement.mem_joins_written (.put _) hrun]
    exact Or.inr ⟨rfl, Option.mem_toList.2 hid⟩
  · rw [Statement.threads_runAll hrun, Call.filterMap_thread?]
    rfl

/-- A status that had no thread and no parent is put, whatever attempts failed before.  Its row and
its join name the thread that the first attempt gave it.  That thread is there just if the first
attempt was the one that succeeded, or if it came into the tables in some other way. -/
theorem retried_thread (hthread : x.1.threadId = none) (hparent : x.1.inReplyToId = none)
    (hfail : AllFail failures x) (hok : (last.make (retried failures x)).1 = .ok ()) :
    let fresh := (failures.head?.getD last).fresh
    let others := startedBetween failures x ++ (retried failures x).2.insertsAll last.meanwhile
    let kept := (last.make (retried failures x)).2.1
    let tables := (last.make (retried failures x)).2.2.database.tables
    kept.threadId = some fresh.id ∧
    { value := kept.toRow } ∈ tables.statuses ∧
    (fresh.id, kept.id) ∈ tables.threadStatuses ∧
    tables.threads = x.2.database.tables.threads ++
      threadRows (others ++ if failures = [] then [fresh] else []) ∧
    ((∃ r ∈ tables.threads, r.value.id = fresh.id) ↔ failures = [] ∨
      (∃ r ∈ x.2.database.tables.threads, r.value.id = fresh.id) ∨
        ∃ thread ∈ others, thread.id = fresh.id) := by
  intro fresh others kept tables
  obtain ⟨hnamed, hstill⟩ := status_retried failures hparent
  obtain ⟨hkept, -⟩ := last.status_make hstill
  obtain ⟨hrow, hjoin, hthreads⟩ := Trial.written hok
  have hfresh : kept.threadId = some fresh.id := by
    rw [hkept, hnamed, hthread]
    cases failures <;> rfl
  have hstarts : ((last.begun (retried failures x)).1.startThread last.fresh).1.toList =
      if failures = [] then [fresh] else [] := by
    have hbegun : (last.begun (retried failures x)).1.threadId =
        failures.head?.map (·.fresh.id) := by
      rw [← Option.none_or (o := failures.head?.map _), ← hthread, ← hnamed]
      exact last.threadId_edit _
    rw [(startThread_of_top (Trial.begun_top hstill) last.fresh).1, hbegun]
    cases failures <;> rfl
  have hbefore : (last.begun (retried failures x)).2.database.tables.threads =
      x.2.database.tables.threads ++ threadRows others := by
    rw [threadRows_append, ← List.append_assoc, ← threads_retried hfail]
    exact (retried failures x).2.threads_afterAll last.meanwhile
  have hall : tables.threads = x.2.database.tables.threads ++
      threadRows (others ++ if failures = [] then [fresh] else []) := by
    rw [hthreads, hstarts, hbefore, threadRows_append others, List.append_assoc]
  refine ⟨hfresh, hrow, hjoin _ hfresh, hall, ?_⟩
  simp only [hall, threadRows, List.mem_append, List.mem_map, or_and_right, exists_or]
  by_cases hnone : failures = [] <;> simp [hnone]

/-! ### A uri that is taken -/

def twin (id : String) : Status := { (default : Status) with id, uri := "a" }

theorem honest_none (n : Nat) : ({} : Faults).statement n ≠ some .alreadyExists := nofun

/-- The second of them cannot be put.  Its caller gives it another uri. -/
def refused : Trial where
  meanwhile := [.use (.put (twin "01A") ⟨"S", default⟩)]
  fresh := ⟨"T", default⟩
  honest := honest_none

def renamed : Trial where
  edit w := { w with uri := "b" }
  fresh := ⟨"U", default⟩
  honest := honest_none

theorem retried_thread_renamed :
    AllFail [refused] (twin "01B", beginning) ∧
      (renamed.make (retried [refused] (twin "01B", beginning))).1 = .ok () ∧
      let tables := (renamed.make (retried [refused] (twin "01B", beginning))).2.2.database.tables
      ("T", "01B") ∈ tables.threadStatuses ∧ ¬ ∃ r ∈ tables.threads, r.value.id = "T" := by
  have hfail : AllFail [refused] (twin "01B", beginning) := ⟨⟨.alreadyExists, rfl⟩, trivial⟩
  have hok : (renamed.make (retried [refused] (twin "01B", beginning))).1 = .ok () := rfl
  obtain ⟨-, -, hjoin, -, hthere⟩ := retried_thread rfl rfl hfail hok
  refine ⟨hfail, hok, hjoin, fun hthread => ?_⟩
  have hothers : (startedBetween [refused] (twin "01B", beginning) ++
      (retried [refused] (twin "01B", beginning)).2.insertsAll renamed.meanwhile).map (·.id) =
        ["S"] := by decide +kernel
  rcases hthere.1 hthread with hnone | ⟨r, hr, -⟩ | ⟨thread, hstarted, hid⟩
  · cases hnone
  · cases hr
  · have hnamed := List.mem_map_of_mem (f := (·.id)) hstarted
    rw [hothers, List.mem_singleton, show thread.id = "T" from hid] at hnamed
    exact absurd hnamed (by decide)

/-- A status whose first put failed is put, and its thread is not there. -/
theorem put_again_without_thread :
    let first := (beginning.afterAll refused.meanwhile).put (twin "01B") ⟨"T", default⟩
    let second := first.2.2.put { first.2.1 with uri := "b" } ⟨"U", default⟩
    let tables := second.2.2.database.tables
    first.1.toOption = none ∧ second.1.toOption = some () ∧
      tables.statuses.map (fun r => (r.value.id, r.value.threadId)) =
        [("01A", some "S"), ("01B", some "T")] ∧
      tables.threadStatuses = [("S", "01A"), ("T", "01B")] ∧
      tables.threads.map (·.value.id) = ["S"] := by
  decide +kernel

end Store

end StatusStore
