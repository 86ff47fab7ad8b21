/-
  StatusStore/Database/Write.lean
  ===============================
  **The writes of statuses**, each one transaction.
-/
import StatusStore.Database.Basic

namespace StatusStore.Database

def putStatus (db : Database) (s : Status) (newThread : Option Thread) :
    Except Error Unit × Database :=
  db.transact (Statement.put s newThread)

/-- Write `columns` of a stored status and its time of update; no columns mean all of them. -/
def updateStatus (db : Database) (s : Status) (columns : List StatusColumn) :
    Except Error Unit × Database :=
  db.transact (Statement.update s columns)

def deleteStatus (db : Database) (id : String) : Except Error Unit × Database :=
  db.transact (Statement.delete id)

end StatusStore.Database
