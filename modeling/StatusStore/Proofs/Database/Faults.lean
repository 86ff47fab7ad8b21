/-
  StatusStore/Proofs/Database/Faults.lean
  =======================================
  **Transactions that are struck by faults.**  Beginning a transaction, any of its
  statements and its commit may fail for reasons that lie outside the tables.  Here
  a transaction goes statement by statement: each changes the tables in place, and
  the tables as they were before it are kept for the rollback, which is what becomes
  of a transaction that is given up at any point before it is committed.

  A statement that joins takes "already there" for success, also as a fault.

  Main statements: `transactUnder_none` (without faults this is `transact`),
  `transactUnder_error` (a transaction that fails leaves all but the counts of the
  queries as it was) and `transactUnder_struck` (a fault makes it fail).
-/
import StatusStore.Database.Write

namespace StatusStore.Database

/-- What strikes a transaction: its beginning, its statements by their positions, its commit. -/
structure Faults where
  start : Option Error := none
  statement : Nat → Option Error := fun _ => none
  commit : Option Error := none

/-- A transaction that has begun, with the tables as a rollback brings them back. -/
structure Transaction where
  database : Database
  journal : Tables

/-- Whether a statement takes "already there" for success. -/
def Statement.forgives : Statement → Error → Bool
  | joinEmoji _ _, .alreadyExists | joinTag _ _, .alreadyExists
  | joinThread _ _, .alreadyExists => true
  | _, _ => false

def Statement.forgive (x : Statement) : Except Error Unit → Except Error Unit
  | .error e => if x.forgives e then .ok () else .error e
  | .ok () => .ok ()

namespace Transaction

def rollback (x : Transaction) : Database := { x.database with tables := x.journal }

def execute (x : Transaction) (fault : Option Error) (s : Statement) :
    Except Error Unit × Transaction :=
  let counted := { x with database := x.database.observe s.query }
  match fault with
  | some e => (s.forgive (.error e), counted)
  | none =>
    match s.run x.database.tables with
    | .error e => (s.forgive (.error e), counted)
    | .ok tables => (.ok (), { counted with database := { counted.database with tables } })

/-- Try statements in turn, of which the first has position `n`, up to the first that fails. -/
def executeAll (faults : Faults) (x : Transaction) (n : Nat) :
    List Statement → Except Error Unit × Transaction
  | [] => (.ok (), x)
  | s :: rest =>
    match x.execute (faults.statement n) s with
    | (.ok (), x) => x.executeAll faults (n + 1) rest
    | (.error e, x) => (.error e, x)

def commit (x : Transaction) : Option Error → Except Error Unit × Database
  | some e => (.error e, x.rollback)
  | none => (.ok (), x.database)

end Transaction

def transactUnder (faults : Faults) (db : Database) (statements : List Statement) :
    Except Error Unit × Database :=
  match db.requireOpen, faults.start with
  | .error e, _ | .ok (), some e => (.error e, db)
  | .ok (), none =>
    match (Transaction.mk db db.tables).executeAll faults 0 statements with
    | (.ok (), x) => x.commit faults.commit
    | (.error e, x) => (.error e, x.rollback)

variable {faults : Faults} {x y : Transaction} {db u : Database} {e : Error}

/-! ### What a transaction leaves while it runs -/

namespace Transaction

/-- A transaction that has gone on: it can still be rolled back to where it began, and all that it
has changed besides the tables is how many queries were counted. -/
structure GoneOn (x y : Transaction) : Prop where
  journal : y.journal = x.journal
  isClosed : y.database.isClosed = x.database.isClosed

theorem GoneOn.refl (x : Transaction) : GoneOn x x := ⟨rfl, rfl⟩

theorem GoneOn.trans {z : Transaction} (hxy : GoneOn x y) (hyz : GoneOn y z) : GoneOn x z :=
  ⟨hyz.journal.trans hxy.journal, hyz.isClosed.trans hxy.isClosed⟩

theorem GoneOn.rollback (h : GoneOn x y) :
    y.rollback = { x.database with tables := x.journal, queries := y.database.queries } := by
  simp only [Transaction.rollback, h.journal, ← h.isClosed]

theorem goneOn_execute (x : Transaction) (fault : Option Error) (s : Statement) :
    GoneOn x (x.execute fault s).2 := by
  unfold execute
  cases fault with
  | some e => exact ⟨rfl, rfl⟩
  | none => cases s.run x.database.tables <;> exact ⟨rfl, rfl⟩

theorem goneOn_executeAll (faults : Faults) (x : Transaction) (n : Nat)
    (statements : List Statement) : GoneOn x (x.executeAll faults n statements).2 := by
  induction statements generalizing x n with
  | nil => exact .refl x
  | cons s rest ih =>
    have hfirst := x.goneOn_execute (faults.statement n) s
    simp only [executeAll]
    generalize x.execute (faults.statement n) s = tried at hfirst
    obtain ⟨e | _, y⟩ := tried
    · exact hfirst
    · exact hfirst.trans (ih y (n + 1))

end Transaction

/-- A transaction that fails has changed nothing, wherever it failed; its queries may count. -/
theorem transactUnder_error {statements : List Statement}
    (h : db.transactUnder faults statements = (.error e, u)) :
    ∃ queries, u = { db with queries } := by
  have hrun := Transaction.goneOn_executeAll faults ⟨db, db.tables⟩ 0 statements
  unfold transactUnder at h
  split at h
  · cases h
    exact ⟨db.queries, rfl⟩
  · cases h
    exact ⟨db.queries, rfl⟩
  generalize Transaction.executeAll faults ⟨db, db.tables⟩ 0 statements = run at h hrun
  obtain ⟨e' | _, x⟩ := run
  · cases h
    exact ⟨_, hrun.rollback⟩
  · cases hcommit : faults.commit with
    | none =>
      simp only [Transaction.commit, hcommit] at h
      cases h
    | some e' =>
      simp only [Transaction.commit, hcommit] at h
      cases h
      exact ⟨_, hrun.rollback⟩

/-! ### Without faults -/

/-- A join that its table is there for succeeds, so there is nothing to forgive. -/
theorem Statement.forgive_run {s : Statement} {t : Tables} (h : s.run t = .error e) :
    s.forgives e = false := by
  cases s with
  | joinEmoji statusId emojiId | joinTag statusId tagId | joinThread threadId statusId =>
    simp only [Statement.run, Statement.apply, Tables.require] at h
    split at h <;> cases h
    rfl
  | _ => rfl

theorem Transaction.execute_none (x : Transaction) (s : Statement) :
    x.execute none s = match s.run x.database.tables with
      | .error e => (.error e, { x with database := x.database.observe s.query })
      | .ok tables =>
        (.ok (), { x with database := { x.database.observe s.query with tables } }) := by
  simp only [execute]
  cases hrun : s.run x.database.tables with
  | error e => simp [Statement.forgive, Statement.forgive_run hrun]
  | ok tables => rfl

theorem observe_setTables (db : Database) (tables : Tables) (q : Query) :
    { db with tables }.observe q = { db.observe q with tables } := rfl

theorem foldl_observe_setTables (db : Database) (tables : Tables) (statements : List Statement) :
    statements.foldl (·.observe ·.query) { db with tables } =
      { statements.foldl (·.observe ·.query) db with tables } := by
  induction statements generalizing db with
  | nil => rfl
  | cons s rest ih =>
    rw [List.foldl_cons, observe_setTables, ih]
    rfl

theorem Transaction.executeAll_none (x : Transaction) (n : Nat) (statements : List Statement) :
    let counted := (Statement.attempted x.database.tables statements).foldl (·.observe ·.query)
      x.database
    match Statement.runAll x.database.tables statements with
    | .error e => ∃ tables, x.executeAll {} n statements =
        (.error e, { x with database := { counted with tables } })
    | .ok tables => x.executeAll {} n statements =
        (.ok (), { x with database := { counted with tables } }) := by
  induction statements generalizing x n with
  | nil => rfl
  | cons s rest ih =>
    simp only [executeAll, x.execute_none s, Statement.runAll, Statement.attempted]
    cases s.run x.database.tables with
    | error e => exact ⟨x.database.tables, rfl⟩
    | ok tables =>
      have hrest := ih { x with database := { x.database.observe s.query with tables } } (n + 1)
      simp only [foldl_observe_setTables] at hrest
      exact hrest

/-- Without faults the statements take effect one after the other as they do all at once. -/
theorem transactUnder_none (db : Database) (statements : List Statement) :
    db.transactUnder {} statements = db.transact statements := by
  have hrun := Transaction.executeAll_none ⟨db, db.tables⟩ 0 statements
  unfold transactUnder transact
  cases db.requireOpen with
  | error e => rfl
  | ok _ =>
    simp only at hrun ⊢
    cases hall : Statement.runAll db.tables statements with
    | error e =>
      rw [hall] at hrun
      obtain ⟨tables, hrun⟩ := hrun
      rw [hrun]
      exact congrArg _ (foldl_observe_setTables db db.tables _).symm
    | ok tables =>
      rw [hall] at hrun
      rw [hrun]
      rfl

/-! ### With faults -/

theorem Transaction.executeAll_struck {statements : List Statement} {s : Statement} {i n : Nat}
    (hs : statements[i]? = some s) (hfault : faults.statement (n + i) = some e)
    (hunforgiven : s.forgives e = false) (x : Transaction) :
    ∃ e, (x.executeAll faults n statements).1 = .error e := by
  induction statements generalizing x i n with
  | nil => cases hs
  | cons s' rest ih =>
    simp only [executeAll]
    cases htried : x.execute (faults.statement n) s' with
    | mk answer y =>
      cases answer with
      | error e => exact ⟨e, rfl⟩
      | ok _ =>
        cases i with
        | zero =>
          obtain rfl : s' = s := Option.some.inj hs
          have hfault : faults.statement n = some e := hfault
          simp [execute, hfault, Statement.forgive, hunforgiven] at htried
        | succ i =>
          refine ih hs ?_ y
          rw [Nat.add_right_comm, Nat.add_assoc]
          exact hfault

/-- A fault makes the transaction fail, unless what it strikes forgives it. -/
theorem transactUnder_struck {statements : List Statement}
    (hfault : faults.start = some e ∨ faults.commit = some e ∨ ∃ i s, statements[i]? = some s ∧
      faults.statement i = some e ∧ s.forgives e = false) (db : Database) :
    ∃ e, (db.transactUnder faults statements).1 = .error e := by
  unfold transactUnder
  split
  · exact ⟨_, rfl⟩
  · exact ⟨_, rfl⟩
  rename_i hbegun
  cases hrun : Transaction.executeAll faults ⟨db, db.tables⟩ 0 statements with
  | mk answer x =>
    cases answer with
    | error e => exact ⟨e, rfl⟩
    | ok _ =>
      rcases hfault with hstart | hcommit | ⟨i, s, hs, hfault, hunforgiven⟩
      · rw [hstart] at hbegun
        cases hbegun
      · exact ⟨e, by simp only [Transaction.commit, hcommit]⟩
      · obtain ⟨e, he⟩ := Transaction.executeAll_struck (n := 0) hs (by simpa using hfault)
          hunforgiven ⟨db, db.tables⟩
        rw [hrun] at he
        cases he

end StatusStore.Database
