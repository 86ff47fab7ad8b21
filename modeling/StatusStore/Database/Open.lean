/-
  StatusStore/Database/Open.lean
  ==============================
  **Opening a database at a path.**  The directories of the path are made first.
  Where nothing stands a database is made; an existing database is taken as it
  is, provided that it was migrated by the migrations of this program.
-/
import StatusStore.Database.Basic
import StatusStore.FileTree

namespace StatusStore.Database

inductive Content
  | blank
  | database (db : Database)
  /-- A database whose migration of this number was another one. -/
  | modified (version : Nat)
  /-- Something that is no database. -/
  | other
deriving Inhabited

/-- Files, some of which are databases. -/
abbrev Files := FileTree Content

namespace Opening

/-- The bytes that the name of a journal has more than that of its database. -/
def journalSize : Nat := 8

/-- The most bytes in the path of a journal on the disk. -/
def longestJournal : Nat := 512

/-- The most bytes in the path of a journal in memory. -/
def longestInMemory : Nat := 1024

/-- The bytes that the name of a lock has more than that of its database, where there is a file
for it. -/
def lockSize : Nat := 5

/-- Set up a database in memory.  One that is not shared belongs to the connection that sets it up,
and the next connection finds no tables. -/
def setUpInMemory (isReadOnly isShared : Bool) : Except Error Database :=
  if isReadOnly then .error (.internal (.cannotMigrate .readOnly))
  else if isShared then .ok {}
  else .ok { tables := { dropped := TableName.all } }

def isReadOnly (o : Opening) : Bool := o.access = .read || o.isImmutable

/-- Set up a database at a place where none is.  This takes a lock and a journal, so a name that
leaves no room for theirs gets no further than a blank file. -/
def setUp (o : Opening) (files : Files) (place : Place) : Except Error Database × Files :=
  let room := FileTree.longestName - (place.getLastD "").utf8ByteSize
  let refused (fault : DatabaseFault) : Except Error Database × Files :=
    (.error (.internal (.cannotMigrate fault)), files.insert place (.file .blank))
  if o.isReadOnly then refused .readOnly
  else if o.fileModule = lockFileModule && room < lockSize then refused .cannotLock
  else if room < journalSize then refused .cannotOpen
  else (.ok {}, files.insert place (.file (.database {})))

def runAt (o : Opening) (files : Files) (place : Place) : Except Error Database × Files :=
  if longestJournal < FileTree.pathSize place + journalSize then
    (.error (.database .cannotOpen), files)
  else if (o.modeOf.map fun path => !files.contains path).getD false then
    (.error (.database .noFileState), files)
  else
    match files.get? place with
    | some .directory =>
      let isOpened := o.access = .read && place ≠ []
      (.error (.database (if isOpened then .unreadableFile else .cannotOpen)), files)
    | some (.file .blank) => o.setUp files place
    | some (.file (.database db)) => (.ok db, files)
    | some (.file (.modified version)) => (.error (.internal (.migrationModified version)), files)
    | some (.file .other) => (.error (.internal (.cannotMigrate .notADatabase)), files)
    | none =>
      if o.access = .make && files.isDirectoryAt place.dropLast then o.setUp files place
      else (.error (.database .cannotOpen), files)

def run (o : Opening) (files : Files) : Except Error Database × Files :=
  if o.isInMemory then (setUpInMemory (o.access = .read) o.isShared, files)
  else if o.fileModule = memoryModule then
    if longestInMemory < o.file.utf8ByteSize + journalSize then
      (.error (.database .cannotOpen), files)
    else (setUpInMemory o.isReadOnly true, files)
  else
    match files.reduce [] (FileTree.parts o.file) with
    | some place => o.runAt files place
    | none => (.error (.database .cannotOpen), files)

end Opening

namespace Files

def openAddress (files : Files) (a : Address) : Except Error Database × Files :=
  if (a.request?.getD a.file).contains '\x00' then (.error (.database .zeroInName), files)
  else
    match Opening.ofAddress a with
    | .error fault => (.error (.database (.opening fault)), files)
    | .ok o => o.run files

/-- Open the database at a path; answers which files there are afterwards, too. -/
def connect (files : Files) (path : String) : Except Error Database × Files :=
  match files.makeDirectories (FileTree.directoryParts path) with
  | .error fault => (.error (.database (.directory fault)), files)
  | .ok files =>
    match Address.ofPath path with
    | .error fault => (.error (.database (.address fault)), files)
    | .ok a => openAddress files a

/-- The files with the migration of a number exchanged in every database. -/
def withModified (files : Files) (version : Nat) : Files :=
  files.mapContents fun
    | .database _ => .modified version
    | content => content

end Files

end StatusStore.Database
