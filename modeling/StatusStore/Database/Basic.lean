/-
  StatusStore/Database/Basic.lean
  ===============================
  **The database**: its tables, whether its connections are closed, and how often
  each query was made.

  A query is counted when it is tried, so one that fails counts.  A transaction
  takes a connection before its first statement, so on a closed database none of
  its statements counts.  `transact_error` says that a transaction that fails
  leaves the tables as they were.
-/
import StatusStore.Database.Statement
import StatusStore.KeyMap

namespace StatusStore

open Database in
structure Database where
  tables : Tables := {}
  isClosed : Bool := false
  /-- How often each query was made. -/
  queries : KeyMap Query Nat := {}
deriving Inhabited

namespace Database

def requireOpen (db : Database) : Except Error Unit :=
  if db.isClosed then .error (.database .closedPool) else .ok ()

def close (db : Database) : Database := { db with isClosed := true }

/-! ### Queries -/

def timesOf (db : Database) (q : Query) : Nat := (db.queries.get? q).getD 0

def observe (db : Database) (q : Query) : Database :=
  { db with queries := db.queries.insert q (db.timesOf q + 1) }

def select {α : Type} (db : Database) (table : TableName) (read : Tables → Except Error α) :
    Except Error α × Database :=
  let answer := do
    db.requireOpen
    db.tables.require table
    read db.tables
  (answer, db.observe ⟨.select, table⟩)

def insert {α : Type} [Persistent α] (db : Database) (a : α) : Except Error Unit × Database :=
  let counted := db.observe ⟨.insert, Tables.tableOf α⟩
  match db.requireOpen with
  | .error e => (.error e, counted)
  | .ok () =>
    match db.tables.insert a with
    | .error e => (.error e, counted)
    | .ok tables => (.ok (), { counted with tables })

/-- Run statements as one transaction: all of them take effect or none. -/
def transact (db : Database) (statements : List Statement) : Except Error Unit × Database :=
  match db.requireOpen with
  | .error e => (.error e, db)
  | .ok () =>
    let counted := (Statement.attempted db.tables statements).foldl (·.observe ·.query) db
    match Statement.runAll db.tables statements with
    | .error e => (.error e, counted)
    | .ok tables => (.ok (), { counted with tables })

@[simp] theorem tables_observe (db : Database) (q : Query) : (db.observe q).tables = db.tables :=
  rfl

@[simp] theorem isClosed_observe (db : Database) (q : Query) :
    (db.observe q).isClosed = db.isClosed := rfl

@[simp] theorem select_tables {α : Type} (db : Database) (table : TableName)
    (read : Tables → Except Error α) : (db.select table read).2.tables = db.tables := rfl

theorem select_eq_ok {α : Type} {db : Database} {table : TableName} {read : Tables → Except Error α}
    {a : α} : (db.select table read).1 = .ok a ↔
      db.isClosed = false ∧ db.tables.require table = .ok () ∧ read db.tables = .ok a := by
  unfold select requireOpen
  cases db.isClosed with
  | true => exact ⟨nofun, nofun⟩
  | false =>
    cases db.tables.require table with
    | error e => exact ⟨nofun, nofun⟩
    | ok there => exact ⟨fun h => ⟨rfl, rfl, h⟩, fun h => h.2.2⟩

theorem foldl_observe_tables (db : Database) (statements : List Statement) :
    (statements.foldl (·.observe ·.query) db).tables = db.tables := by
  induction statements generalizing db with
  | nil => rfl
  | cons s rest ih => rw [List.foldl_cons, ih, tables_observe]

theorem transact_error {db db' : Database} {statements : List Statement} {e : Error}
    (h : db.transact statements = (.error e, db')) : db'.tables = db.tables := by
  unfold transact at h
  split at h
  · cases h
    rfl
  · split at h <;> cases h
    exact foldl_observe_tables db (Statement.attempted db.tables statements)

/-! ### Access by name

Tables and columns can also be reached by their names, past the queries and their counts. -/

def count (db : Database) (name : String) : Except Error Nat := do
  db.requireOpen
  return db.tables.count (← db.tables.named name)

def drop (db : Database) (name : String) : Except Error Database := do
  db.requireOpen
  return { db with tables := ← db.tables.drop (← db.tables.named name) }

/-- Overwrite one column of a row with a text, or with nothing; answers the number of rows
changed. -/
def overwrite (db : Database) (name id column : String) (text : Option String) :
    Except Error (Nat × Database) := do
  db.requireOpen
  let (changed, tables) ← db.tables.overwrite (← db.tables.named name) id column text
  return (changed, { db with tables })

end Database

end StatusStore
