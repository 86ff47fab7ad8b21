/-
  StatusStore/Config/File.lean
  ============================
  **Configuration files**, which are TOML text: entries, and headers that open
  tables for the entries after them.

  A table is opened once.  It may stand there before that, because a table within
  it was opened; a table that the names of an entry have made is never opened,
  and a table that was opened is never entered by the names of an entry.
-/
import StatusStore.Config.Moment
import StatusStore.Config.Setting
import StatusStore.Text.Toml

namespace StatusStore.Config.File

open Text Text.Reader

inductive Origin
  /-- By a header of its own. -/
  | opened
  /-- By the header of a table within it. -/
  | implied
  /-- By the names of an entry. -/
  | named
deriving DecidableEq, Repr

inductive Node
  | value (setting : Setting)
  | table (origin : Origin) (entries : List (String × Node))
  /-- The tables that were opened under one name, in turn. -/
  | tables (items : List (List (String × Node)))
deriving Inhabited

abbrev Entries := List (String × Node)

/-! ### Tables -/

/-- Change what `name` stands for, or fail. -/
def update (entries : Entries) (name : String) (f : Option Node → Option Node) : Option Entries :=
  match entries.lookup name with
  | some node =>
    (f (some node)).map fun node => entries.map fun (k, old) => (k, if k = name then node else old)
  | none => (f none).map fun node => entries ++ [(name, node)]

def updateLast (items : List Entries) (f : Entries → Option Entries) : Option (List Entries) :=
  items.getLast?.bind fun last => (f last).map fun last => items.dropLast ++ [last]

/-- Change the table at the end of a path of headers.  Tables on the way are made. -/
def within (f : Entries → Option Entries) : List String → Entries → Option Entries
  | [], entries => f entries
  | name :: path, entries =>
    update entries name fun
      | none => (within f path []).map (.table .implied)
      | some (.table origin inner) => (within f path inner).map (.table origin)
      | some (.tables items) => (updateLast items (within f path)).map .tables
      | some (.value _) => none

/-- Add an entry at the end of a path of names.  `isFitting` tells whether the table in hand can
take an entry. -/
def assign (setting : Setting) (isFitting : Bool) : List String → Entries → Option Entries
  | [], _ => none
  | [name], entries =>
    if isFitting then
      update entries name fun
        | none => some (.value setting)
        | some _ => none
    else none
  | name :: path, entries =>
    update entries name fun
      | none => (assign setting true path []).map (.table .named)
      | some (.table .opened _) => none
      | some (.table origin inner) =>
        (assign setting (origin = .named) path inner).map (.table origin)
      | some (.tables items) => (updateLast items (assign setting false path)).map .tables
      | some (.value _) => none

def openTable (path : List String) : Entries → Option Entries :=
  within (fun entries => update entries (path.getLastD "") fun
    | none => some (.table .opened [])
    | some (.table .implied inner) => some (.table .opened inner)
    | some _ => none) path.dropLast

/-- Open one more of the tables of a name. -/
def openItem (path : List String) : Entries → Option Entries :=
  within (fun entries => update entries (path.getLastD "") fun
    | none => some (.tables [[]])
    | some (.tables items) => some (.tables (items ++ [[]]))
    | some _ => none) path.dropLast

mutual

def Node.setting : Node → Setting
  | .value setting => setting
  | .table _ entries => .table (settings entries)
  | .tables items => .list (listed items)

def settings : List (String × Node) → List (String × Setting)
  | [] => []
  | (name, node) :: rest => (name, node.setting) :: settings rest

def listed : List (List (String × Node)) → List Setting
  | [] => []
  | entries :: rest => .table (settings entries) :: listed rest

end

/-! ### Values -/

/-- The items of a list after its bracket, each read by `item`, at most `fuel` of them. -/
def items {α : Type} (item : Reader α) : Nat → Reader (List α)
  | 0 => failure
  | fuel + 1 => do
    Toml.gap
    if ← literal? ']' then return []
    let a ← item
    Toml.gap
    if ← literal? ',' then return a :: (← items item fuel)
    literal ']'
    return [a]

def entry (value : Reader Setting) : Reader (List String × Setting) := do
  let path ← Toml.path
  literal '='
  Toml.spaces
  return (path, ← value)

/-- The entries of a table in braces after the first brace, at most `fuel` of them. -/
def inlineEntries (value : Reader Setting) : Nat → Reader (List (List String × Setting))
  | 0 => failure
  | fuel + 1 => do
    let e ← entry value
    Toml.spaces
    if ← literal? ',' then return e :: (← inlineEntries value fuel)
    literal '\x7d'
    return [e]

def inlineTable (value : Reader Setting) : Reader Setting := do
  literal '\x7b'
  Toml.spaces
  if ← literal? '\x7d' then return .table []
  let es ← inlineEntries value ((← get).length + 1)
  match es.foldlM (fun entries (path, setting) => assign setting true path entries) [] with
  | some entries => return .table (settings entries)
  | none => failure

/-- A value without brackets and braces. -/
def scalar : Reader Setting :=
  let text : Reader Setting := do return .text (← Toml.string)
  let yes : Reader Setting := do Toml.word "true"; return .flag true
  let no : Reader Setting := do Toml.word "false"; return .flag false
  let moment : Reader Setting := do return .text (← Moment.moment)
  let number : Reader Setting := do
    match ← Toml.number with
    | .whole n => return .whole n
    | .real x => return .real x
  text <|> yes <|> no <|> moment <|> number

/-- A value with brackets and braces in one another up to a depth. -/
def value : Nat → Reader Setting
  | 0 => scalar
  | depth + 1 =>
    let list : Reader Setting := do
      literal '['
      return .list (← items (value depth) ((← get).length + 1))
    scalar <|> list <|> inlineTable (value depth)

/-! ### Lines -/

inductive Line
  | blank
  | entry (path : List String) (setting : Setting)
  | header (path : List String)
  | itemHeader (path : List String)

def line : Reader Line := do
  Toml.spaces
  let line ← match ← get with
    | [] | '#' :: _ | '\n' :: _ | '\r' :: _ => pure .blank
    | '[' :: '[' :: s => do
      set s
      let path ← Toml.path
      literal ']'
      literal ']'
      pure (.itemHeader path)
    | '[' :: s => do
      set s
      let path ← Toml.path
      literal ']'
      pure (.header path)
    | _ => do
      let (path, setting) ← entry (value Toml.deepest)
      pure (.entry path setting)
  Toml.restOfLine
  return line

def lines : Nat → Reader (List Line)
  | 0 => fun s => if s.isEmpty then some ([], []) else none
  | fuel + 1 => do
    if (← get).isEmpty then return []
    let first ← line
    return first :: (← lines fuel)

/-- A file while it is read: its entries, and the path of the table that was opened last. -/
structure Draft where
  entries : Entries := []
  path : List String := []

def Draft.add (d : Draft) : Line → Option Draft
  | .blank => some d
  | .entry path setting => do
    return { d with entries := ← within (assign setting true path) d.path d.entries }
  | .header path => do return ⟨← openTable path d.entries, path⟩
  | .itemHeader path => do return ⟨← openItem path d.entries, path⟩

/-- The lines of a file, before which there may be a byte order mark. -/
def document : Reader (List Line) := do
  let _ ← Reader.literal? '\ufeff'
  lines ((← get).length + 1)

def read? (text : String) : Option (List (String × Setting)) := do
  let lines ← document.readAll? text
  let draft ← lines.foldlM Draft.add {}
  return settings draft.entries

end StatusStore.Config.File
