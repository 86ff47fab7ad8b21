/-
  StatusStore/Database/Address.lean
  =================================
  **Addresses of databases**: the path of a file, in which bytes may be written
  with percent signs, and after the first question mark fields that say how the
  file is opened.  A field with another name or with a value that its name does
  not have is refused.
-/
import StatusStore.Text.Percent
import StatusStore.Text.Quoted

namespace StatusStore.Database

open Text

/-- Where a database is, and how it is opened. -/
structure Address where
  /-- The path of the file. -/
  file : String
  /-- Whether the file is only read. -/
  isReadOnly : Bool := false
  /-- Whether the file is made if it is missing. -/
  isMade : Bool := false
  /-- Whether the database is kept in memory, and no file is used. -/
  isInMemory : Bool := false
  /-- Whether connections share what they have read. -/
  isShared : Bool := false
  /-- Whether the file is taken for one that never changes. -/
  isImmutable : Bool := false
  /-- The module that reads and writes the file, unless it is the usual one, with more fields. -/
  fileModule : Option String := none
deriving DecidableEq, Repr

inductive AddressFault
  | unreadable (fault : Utf8.Fault)
  | unknownValue (field value : String)
  | unknownField (field : String)
deriving DecidableEq, Repr

def AddressFault.message : AddressFault → String
  | unreadable fault => fault.message
  | unknownValue field value => "unknown value " ++ quoted value ++ " for \x60" ++ field ++ "\x60"
  | unknownField field =>
    "unknown query parameter \x60" ++ field ++ "\x60 while parsing connection URL"

namespace Address

def withField (a : Address) (field value : String) : Except AddressFault Address :=
  match field, value with
  | "mode", "ro" => .ok { a with isReadOnly := true }
  | "mode", "rw" => .ok a
  | "mode", "rwc" => .ok { a with isMade := true }
  | "mode", "memory" => .ok { a with isInMemory := true, isShared := true }
  | "cache", "private" => .ok { a with isShared := false }
  | "cache", "shared" => .ok { a with isShared := true }
  | "immutable", "true" | "immutable", "1" => .ok { a with isImmutable := true }
  | "immutable", "false" | "immutable", "0" => .ok { a with isImmutable := false }
  | "vfs", name => .ok { a with fileModule := some name }
  | "mode", _ | "cache", _ | "immutable", _ => .error (.unknownValue field value)
  | _, _ => .error (.unknownField field)

def ofText (text : String) : Except AddressFault Address := do
  let pieces := text.splitOn "?"
  let file ← (Percent.decode (pieces.headD "")).mapError .unreadable
  let fields := Percent.fields ("?".intercalate pieces.tail)
  fields.foldlM (fun (a : Address) (field, value) => a.withField field value) { file }

def ofPath (path : String) : Except AddressFault Address := ofText (path ++ "?mode=rwc")

/-- What is asked of the module of the file, if it has to be asked for anything. -/
def request? (a : Address) : Option String :=
  match a.isImmutable, a.fileModule with
  | false, none => none
  | true, none => some "immutable=true"
  | false, some name => some ("vfs=" ++ name)
  | true, some name => some ("immutable=true&vfs=" ++ name)

end Address

end StatusStore.Database
