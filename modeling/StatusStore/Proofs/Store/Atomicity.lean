/-
  StatusStore/Proofs/Store/Atomicity.lean
  =======================================
  **A write that fails leaves nothing behind.**  Putting or updating a status is one
  transaction, after which the status is cached, lists are dropped and an event is
  published.  Whatever stops the transaction, be it what the tables hold or a fault
  that strikes one of its steps, neither the tables nor any cache nor the queue is
  changed; only the attempt itself is counted.

  Main statement: `attempt_atomic`.
-/
import StatusStore.Proofs.Database.Faults
import StatusStore.Proofs.Store.Access

namespace StatusStore.Store

open Cache Database

/-! ### Writes under faults -/

inductive Write
  | put (status : Status) (fresh : Thread)
  | update (status : Status) (columns : List StatusColumn) (now : Timestamp)

namespace Write

/-- The status as it is written, and as the caller keeps it. -/
def status : Write → Status
  | put status fresh => (status.startThread fresh).2
  | update status _ now => { status with updatedAt := now }

def statements : Write → List Statement
  | put status fresh => Statement.put (status.startThread fresh).2 (status.startThread fresh).1
  | update status columns now => Statement.update { status with updatedAt := now } columns

def action : Write → StatusAction
  | put _ _ => .create
  | update _ _ _ => .update

end Write

def write (s : Store) : Write → Except Error Unit × Status × Store
  | .put status fresh => s.put status fresh
  | .update status columns now => s.update status columns now

def attempt (s : Store) (w : Write) (faults : Faults) : Except Error Unit × Status × Store :=
  match s.save w.status (·.transactUnder faults w.statements) with
  | (.ok (), s) => (.ok (), w.status, (s.publish w.action w.status).2)
  | (.error e, s) => (.error e, w.status, s)

variable {s : Store} {w : Write} {faults : Faults} {e : Error}

/-- A write that nothing strikes is the write itself. -/
theorem attempt_none (s : Store) (w : Write) : s.attempt w {} = s.write w := by
  simp only [attempt, transactUnder_none]
  cases w <;> rfl

/-- The answer of a write is that of its transaction. -/
theorem attempt_fst (s : Store) (w : Write) (faults : Faults) :
    (s.attempt w faults).1 = (s.database.transactUnder faults w.statements).1 := by
  unfold attempt
  rcases s.save_cases w.status (·.transactUnder faults w.statements) with
    ⟨e, hwrite, started, hsave⟩ | ⟨hwrite, hsave⟩ <;> rw [hsave, hwrite]

theorem attempt_error (h : (s.attempt w faults).1 = .error e) :
    ∃ queries started, (s.attempt w faults).2.2 =
      { s with
        database := { s.database with queries }
        caches := { s.caches with statuses := { s.caches.statuses with started } } } := by
  rw [attempt_fst] at h
  obtain ⟨queries, hrolledBack⟩ :=
    transactUnder_error (u := (s.database.transactUnder faults w.statements).2) (Prod.ext h rfl)
  unfold attempt
  rcases s.save_cases w.status (·.transactUnder faults w.statements) with
    ⟨e', -, started, hsave⟩ | ⟨hwrite, -⟩
  · refine ⟨queries, started, ?_⟩
    rw [hsave, hrolledBack]
  · rw [h] at hwrite
    cases hwrite

/-- A write that fails, because of what is stored or because a fault strikes it at any point, leaves
the store as it was but for the counts of queries and computations; and it does fail if a fault
strikes its beginning, its commit or a statement that does not forgive it. -/
theorem attempt_atomic (s : Store) (w : Write) :
    s.attempt w {} = s.write w ∧ ∀ faults,
      (∀ e, (s.attempt w faults).1 = .error e → ∃ queries started,
        (s.attempt w faults).2.2 =
          { s with
            database := { s.database with queries }
            caches := { s.caches with statuses := { s.caches.statuses with started } } }) ∧
      ∀ e, (faults.start = some e ∨ faults.commit = some e ∨ ∃ i x, w.statements[i]? = some x ∧
          faults.statement i = some e ∧ x.forgives e = false) →
        ∃ e, (s.attempt w faults).1 = .error e := by
  refine ⟨s.attempt_none w, fun faults => ⟨fun e h => attempt_error h, fun e hstruck => ?_⟩⟩
  rw [attempt_fst]
  exact transactUnder_struck hstruck s.database

/-! ### A write that fails at its last statement -/

/-- A store with a status, and an attachment that has no status yet. -/
def occupied : Store where
  database.tables := {
    statuses := [{
      value := { (default : StatusRow) with id := "01A", uri := "https://ex.test/01A" } }]
    attachments := [{
      value := ⟨"M", none, "ACC", "https://ex.test/M", "image/png", none, default, default⟩ }] }

/-- A status of the same uri, which starts a thread and is to be joined with two emojis and a tag. -/
def intruder : Status :=
  { (default : Status) with
    id := "01B"
    uri := "https://ex.test/01A"
    emojis := .ofIds ["E", "F"]
    tags := .ofIds ["G"]
    attachments := .ofIds ["M"] }

theorem attempt_atomic_intruder :
    (occupied.put intruder ⟨"T", default⟩).1 = .error .alreadyExists ∧
      (occupied.put intruder ⟨"T", default⟩).2.2.database.tables = occupied.database.tables ∧
      (occupied.put intruder ⟨"T", default⟩).2.2.queue = occupied.queue := by
  have hfails : (occupied.attempt (.put intruder ⟨"T", default⟩) {}).1 =
      .error .alreadyExists := rfl
  obtain ⟨hsame, hatomic⟩ := attempt_atomic occupied (.put intruder ⟨"T", default⟩)
  obtain ⟨queries, started, hleft⟩ := (hatomic {}).1 _ hfails
  rw [hsame] at hleft
  refine ⟨rfl, ?_, ?_⟩
  · exact congrArg (·.database.tables) hleft
  · exact congrArg (·.queue) hleft

end StatusStore.Store
