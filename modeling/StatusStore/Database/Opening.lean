/-
  StatusStore/Database/Opening.lean
  =================================
  **Openings**: what an address comes to.  The module of a file may be asked for
  by a name that has more fields after it; these can narrow the access to the
  file, and never widen it.
-/
import StatusStore.Database.Address
import StatusStore.Text.Json
import StatusStore.Text.Reader

namespace StatusStore.Database

open Text

inductive Access
  | read
  | update
  /-- Update the file, and make it if it is missing. -/
  | make
deriving DecidableEq, Repr

def Access.rank : Access → Nat
  | read => 0
  | update => 1
  | make => 2

structure Opening where
  file : String
  access : Access
  /-- Whether the database is kept in memory, and no file is used. -/
  isInMemory : Bool := false
  /-- Whether connections share what they have read. -/
  isShared : Bool := false
  /-- Whether the file is taken for one that never changes. -/
  isImmutable : Bool := false
  /-- The module that reads and writes the file. -/
  fileModule : String := "unix"
  /-- The path of a file of which a new file has the mode. -/
  modeOf : Option String := none
deriving DecidableEq, Repr

inductive OpeningFault
  | noSuchModule (name : String)
  | noSuchMode (kind mode : String)
  | forbiddenMode (kind mode : String)
deriving DecidableEq, Repr

def OpeningFault.message : OpeningFault → String
  | noSuchModule name => "(code: 1) no such vfs: " ++ name
  | noSuchMode kind mode => "(code: 1) no such " ++ kind ++ " mode: " ++ mode
  | forbiddenMode kind mode => "(code: 3) " ++ kind ++ " mode not allowed: " ++ mode

namespace Opening

/-- The module that takes a lock by making a file for it. -/
def lockFileModule : String := "unix-dotfile"

def diskModules : List String := ["unix", "unix-none", lockFileModule, "unix-excl"]

def memoryModule : String := "memdb"

/-- The opening with another access, if that is allowed.  In memory every access is. -/
def withAccess (o : Opening) (mode : String) (access : Access) : Except OpeningFault Opening :=
  if o.isInMemory || access.rank ≤ o.access.rank then
    .ok { o with access, isInMemory := false }
  else .error (.forbiddenMode "access" mode)

def withField (o : Opening) (field value : String) : Except OpeningFault Opening :=
  match field, value with
  | "vfs", name => .ok { o with fileModule := name }
  | "cache", "private" => .ok { o with isShared := false }
  | "cache", "shared" => .ok { o with isShared := true }
  | "cache", mode => .error (.noSuchMode "cache" mode)
  | "mode", "ro" => o.withAccess "ro" .read
  | "mode", "rw" => o.withAccess "rw" .update
  | "mode", "rwc" => o.withAccess "rwc" .make
  | "mode", "memory" => .ok { o with access := .update, isInMemory := true }
  | "mode", mode => .error (.noSuchMode "access" mode)
  | _, _ => .ok o

/-- The number of 31 bits that a text begins with, in decimal or in hexadecimal; without one
it is zero. -/
def leadingNumber (text : List Char) : Nat :=
  let bounded (n : Nat) : Nat := if n < Nat.pow 2 31 then n else 0
  let decimal := bounded (digitsValue (text.takeWhile isDigit))
  match text with
  | '0' :: x :: rest =>
    if x = 'x' || x = 'X' then
      bounded ((Json.hexNumber? (rest.takeWhile fun c => (Json.hexValue? c).isSome)).getD 0)
    else decimal
  | _ => decimal

/-- Whether the value of a field says yes: by a word, or by a number of which the last 8 bits
are not all zero. -/
def isYes (value : String) : Bool :=
  if (value.toList.head?.map isDigit).getD false then leadingNumber value.toList % 256 ≠ 0
  else ["on", "yes", "true"].contains value.toLower

def ofAddress (a : Address) : Except OpeningFault Opening :=
  let access :=
    if a.isReadOnly then Access.read else if a.isMade then Access.make else Access.update
  let isInMemory := a.isInMemory
  let isShared := a.isShared
  match a.request? with
  | none => .ok { file := a.file, access, isInMemory, isShared }
  | some request => do
    let fields := Percent.requestFields request
    let file := String.ofList (a.file.toList.takeWhile (· ≠ '\x00'))
    let isImmutable := ((fields.lookup "immutable").map isYes).getD false
    let modeOf := fields.lookup "modeof"
    let o : Opening := { file, access, isInMemory, isShared, isImmutable, modeOf }
    let o ← fields.foldlM (fun (o : Opening) (field, value) => o.withField field value) o
    if o.fileModule = memoryModule || diskModules.contains o.fileModule then return o
    else throw (.noSuchModule o.fileModule)

end Opening

end StatusStore.Database
