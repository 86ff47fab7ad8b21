/-
  StatusStore/Error.lean
  ======================
  **What can go wrong**, as causes.  A missing row and a conflict of unique
  values are causes of their own, since callers act on them; every other failure
  of the database is `database`.  All wording is in the `message` functions.
-/
import StatusStore.Config.Path
import StatusStore.Database.Opening
import StatusStore.FileTree
import StatusStore.Model.Status
import StatusStore.Text.Quoted

namespace StatusStore

inductive DatabaseFault
  | closedPool
  | poolTimeout
  | columnNotFound (column : String)
  /-- The stored value of a column does not read as a value of the column's type. -/
  | unreadable (column reason : String)
  | noSuchTable (table : String)
  | noSuchColumn (column : String)
  | nullRefused (table column : String)
  | undroppable (table : String)
  | unchangeable (table : String)
  /-- The path is something that no database can be opened from. -/
  | cannotOpen
  /-- The file is something else than a database. -/
  | notADatabase
  /-- The directory of the database cannot be made. -/
  | directory (fault : FileTree.Fault)
  | address (fault : Database.AddressFault)
  /-- The name of the file holds the character with the number zero. -/
  | zeroInName
  | opening (fault : Database.OpeningFault)
  /-- The file cannot be written. -/
  | readOnly
  /-- What stands at the path can be opened and not be read. -/
  | unreadableFile
  /-- The lock of the file cannot be made. -/
  | cannotLock
  /-- The file whose mode is wanted is missing. -/
  | noFileState
deriving DecidableEq, Repr

namespace DatabaseFault

def message : DatabaseFault → String
  | closedPool => "attempted to acquire a connection on a closed pool"
  | poolTimeout => "pool timed out while waiting for an open connection"
  | columnNotFound column => "no column found for name: " ++ column
  | unreadable column reason =>
    "error occurred while decoding column " ++ Text.quoted column ++ ": " ++ reason
  | noSuchTable table => "error returned from database: (code: 1) no such table: " ++ table
  | noSuchColumn column => "error returned from database: (code: 1) no such column: " ++ column
  | nullRefused table column =>
    "error returned from database: (code: 1299) NOT NULL constraint failed: "
      ++ table ++ "." ++ column
  | undroppable table =>
    "error returned from database: (code: 1) table " ++ table ++ " may not be dropped"
  | unchangeable table =>
    "error returned from database: (code: 1) table " ++ table ++ " may not be modified"
  | cannotOpen => "error returned from database: (code: 14) unable to open database file"
  | notADatabase => "error returned from database: (code: 26) file is not a database"
  | directory fault => "error communicating with database: " ++ fault.message
  | address fault => "error with configuration: " ++ fault.message
  | zeroInName =>
    "error communicating with database: filename passed to SQLite must not contain nul bytes"
  | opening fault => "error returned from database: " ++ fault.message
  | readOnly => "error returned from database: (code: 8) attempt to write a readonly database"
  | unreadableFile => "error returned from database: (code: 266) disk I/O error"
  | cannotLock => "error returned from database: (code: 3850) disk I/O error"
  | noFileState => "error returned from database: (code: 1802) disk I/O error"

end DatabaseFault

inductive VariableFault
  /-- The name or the value holds the character with the number zero. -/
  | zeroInside
  /-- The name is empty or holds `=`. -/
  | noName
deriving DecidableEq, Repr

namespace VariableFault

def message : VariableFault → String
  | zeroInside => "file name contained an unexpected NUL byte"
  | noName => "Invalid argument (os error 22)"

end VariableFault

inductive ConfigFault
  /-- A layer cannot be read, or a setting is missing or of another kind. -/
  | unreadable
  /-- A variable names a place that no list has. -/
  | misplaced (fault : Config.StepFault)
  | impossible (name value : String) (fault : VariableFault)
  | zeroGcFrequency
  | zeroCapacity
  | unknownFormat (format : String)
  | other (text : String)
deriving DecidableEq, Repr

namespace ConfigFault

def message : ConfigFault → String
  | unreadable => "unreadable configuration"
  | misplaced .beforeStart =>
    "index out of bounds: the len is 0 but the index is 18446744073709551615"
  | misplaced .tooLong => "capacity overflow"
  | impossible name value fault =>
    let shown (s : String) := "\x60" ++ (Text.quoted s).replace "'" "\\'" ++ "\x60"
    "failed to set environment variable " ++ shown name ++ " to " ++ shown value ++ ": "
      ++ fault.message
  | zeroGcFrequency => "cache.lock_gc_frequency must be greater than 0"
  | zeroCapacity => "queue.capacity must be greater than 0"
  | unknownFormat format =>
    "logging.format must be \"pretty\" or \"json\", got " ++ Text.quoted format
  | other text => text

end ConfigFault

inductive InternalFault
  /-- A value without any key was to be stored in the cache of this name. -/
  | noCacheKey (cache : String)
  /-- The file cannot be migrated. -/
  | cannotMigrate (fault : DatabaseFault)
  /-- A migration differs from the one that was applied under its number. -/
  | migrationModified (version : Nat)
  /-- Following replies to replies, or parents of parents, never ends. -/
  | cyclicReplies
  | other (text : String)
deriving DecidableEq, Repr

namespace InternalFault

def message : InternalFault → String
  | noCacheKey cache => cache ++ " value has no cache key"
  | cannotMigrate fault => "Migration failed: while executing migrations: " ++ fault.message
  | migrationModified version =>
    "Migration failed: migration " ++ Nat.repr version
      ++ " was previously applied but has been modified"
  | cyclicReplies => "the replies form a cycle"
  | other text => text

end InternalFault

/-- The parts of a status that could not be fetched, one message each. -/
structure PopulateError where
  messages : List String := []
deriving DecidableEq, Repr, Inhabited

namespace PopulateError

def push (e : PopulateError) (message : String) : PopulateError := ⟨e.messages ++ [message]⟩

def size (e : PopulateError) : Nat := e.messages.length

def isEmpty (e : PopulateError) : Bool := e.messages.isEmpty

def text (e : PopulateError) : String := "; ".intercalate e.messages

def toResult (e : PopulateError) : Except PopulateError Unit :=
  if e.isEmpty then .ok () else .error e

end PopulateError

inductive Error
  /-- There is no such row. -/
  | notFound
  /-- A value that must be unique is taken. -/
  | alreadyExists
  | database (fault : DatabaseFault)
  /-- The status was found and could not be fetched in full. -/
  | incomplete (status : Status) (failures : PopulateError)
  | config (fault : ConfigFault)
  | internal (fault : InternalFault)
deriving Repr, Inhabited

namespace Error

def message : Error → String
  | notFound => "Resource not found"
  | alreadyExists => "Resource already exists"
  | database fault => "Database error: " ++ fault.message
  | incomplete _ failures => failures.text
  | config fault => "Configuration error: " ++ fault.message
  | internal fault => "Internal error: " ++ fault.message

def isNotFound : Error → Bool
  | notFound => true
  | _ => false

def isAlreadyExists : Error → Bool
  | alreadyExists => true
  | _ => false

def status? : Error → Option Status
  | incomplete status _ => some status
  | _ => none

end Error

/-- A status that was found, even if not in full. -/
def acceptIncomplete : Except Error Status → Except Error Status
  | .error (.incomplete status _) => .ok status
  | r => r

end StatusStore
