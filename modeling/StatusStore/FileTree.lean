/-
  StatusStore/FileTree.lean
  =========================
  **Files and directories.**  A place is the list of names that lead to it from
  the root.  A path is text: names between slashes, where an empty name and `.`
  stay and `..` goes back.  A path leads to a place in two ways: step by step
  through directories that exist, or by its text alone.

  Main statement: `get?_insert` says what stands at each place after a change.
-/
import StatusStore.KeyMap

namespace StatusStore

/-- The names that lead from the root to a file or a directory. -/
abbrev Place := List String

inductive FileTree.Entry (α : Type)
  | directory
  | file (content : α)
deriving Inhabited

structure FileTree (α : Type) where
  entries : KeyMap Place (FileTree.Entry α) := {}
deriving Inhabited

namespace FileTree

inductive Fault
  /-- A name in the path holds the character with the number zero. -/
  | zeroInName
  | nameTooLong
  /-- A file stands where the directory should be. -/
  | isFile
  /-- A file stands where a directory on the way should be. -/
  | notDirectory
deriving DecidableEq, Repr

def Fault.message : Fault → String
  | zeroInName => "file name contained an unexpected NUL byte"
  | nameTooLong => "File name too long (os error 36)"
  | isFile => "File exists (os error 17)"
  | notDirectory => "Not a directory (os error 20)"

/-! ### Names -/

def longestName : Nat := 255

/-- The number of bytes that a path may not reach. -/
def pathBound : Nat := 4096

def parts (path : String) : List String := path.splitOn "/"

/-- Whether a part of a path stays where it is. -/
def stays (part : String) : Bool := part = "" || part = "."

def directoryParts (path : String) : List String :=
  ((parts path).filter (!stays ·)).dropLast

def pathSize (place : Place) : Nat :=
  place.foldl (fun size name => size + (name.utf8ByteSize + 1)) 0

/-- The most bytes in the path to a place that a text leads to or through. -/
def longestPath : Nat := 511

variable {α : Type}

/-! ### Entries -/

/-- What stands at a place; the root is a directory. -/
def get? (t : FileTree α) (place : Place) : Option (Entry α) :=
  if place = [] then some .directory else t.entries.get? place

def insert (t : FileTree α) (place : Place) (e : Entry α) : FileTree α :=
  ⟨t.entries.insert place e⟩

def mapContents (t : FileTree α) (f : α → α) : FileTree α :=
  ⟨t.entries.mapValues fun
    | .directory => .directory
    | .file content => .file (f content)⟩

theorem get?_insert (t : FileTree α) {place : Place} (h : place ≠ []) (e : Entry α)
    (other : Place) :
    (t.insert place e).get? other = if other = place then some e else t.get? other := by
  by_cases ho : other = []
  · have hp : other ≠ place := fun hp => h (hp ▸ ho)
    simp [get?, ho, Ne.symm h]
  · simp [get?, insert, ho]

def isDirectoryAt (t : FileTree α) (place : Place) : Bool :=
  match t.get? place with
  | some .directory => true
  | _ => false

def isFileAt (t : FileTree α) (place : Place) : Bool :=
  match t.get? place with
  | some (.file _) => true
  | _ => false

/-! ### Paths -/

/-- The place that the parts of a path lead to from `place`, through directories that exist. -/
def walk (t : FileTree α) (place : Place) : List String → Option Place
  | [] => some place
  | part :: rest =>
    if !t.isDirectoryAt place || longestName < part.utf8ByteSize then none
    else if stays part then t.walk place rest
    else if part = ".." then t.walk place.dropLast rest
    else t.walk (place ++ [part]) rest

/-- The place that the parts of a path lead to from `place` by their text.  Names that cannot
be looked up lead nowhere: those that are too long, by themselves or with those before them, and
those below a file. -/
def reduce (t : FileTree α) (place : Place) : List String → Option Place
  | [] => some place
  | part :: rest =>
    if stays part then t.reduce place rest
    else if part = ".." then t.reduce place.dropLast rest
    else if t.isFileAt place || longestName < part.utf8ByteSize then none
    else if longestPath < pathSize (place ++ [part]) then none
    else t.reduce (place ++ [part]) rest

def isFile (t : FileTree α) (path : String) : Bool :=
  ((t.walk [] (parts path)).map t.isFileAt).getD false

def contains (t : FileTree α) (path : String) : Bool :=
  path.startsWith "/" && ((t.walk [] (parts path)).bind t.get?).isSome

/-- Make the directories that the parts lead through from `place`, unless they exist. -/
def makeFrom (t : FileTree α) (place : Place) : List String → Except Fault (FileTree α)
  | [] => .ok t
  | part :: rest =>
    if part = ".." then t.makeFrom place.dropLast rest
    else if longestName < part.utf8ByteSize then .error .nameTooLong
    else
      match t.get? (place ++ [part]) with
      | some .directory => t.makeFrom (place ++ [part]) rest
      | some (.file _) => .error (if rest.isEmpty then .isFile else .notDirectory)
      | none => (t.insert (place ++ [part]) .directory).makeFrom (place ++ [part]) rest

def makeDirectories (t : FileTree α) (parts : List String) : Except Fault (FileTree α) :=
  if parts.any (·.contains '\x00') then .error .zeroInName
  else if pathBound ≤ pathSize parts then .error .nameTooLong
  else t.makeFrom [] parts

def write (t : FileTree α) (path : String) (content : α) : FileTree α :=
  match t.walk [] (parts path) with
  | some place =>
    if !path.contains '\x00' && !t.isDirectoryAt place && t.isDirectoryAt place.dropLast then
      t.insert place (.file content)
    else t
  | none => t

end FileTree

end StatusStore
