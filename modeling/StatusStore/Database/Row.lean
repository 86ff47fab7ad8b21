/-
  StatusStore/Database/Row.lean
  =============================
  **Stored rows.**  The columns of a table are text, and a row is kept as the
  value that its columns read as.  A column may have been overwritten with text
  that does not read as a value of its type; the row then remembers the column
  and cannot be read until the column is written again.
-/
import StatusStore.Database.Numeric
import StatusStore.Error
import StatusStore.Text.StringList

namespace StatusStore.Database

/-- A row: its value, and the columns that do not read, each with the reason. -/
structure Stored (α : Type) where
  value : α
  garbled : List (String × String) := []
deriving Repr, DecidableEq

structure Column (α : Type) where
  name : String
  /-- Overwrite the column with a text; a text that does not read gives a reason. -/
  write : String → α → Except String α
  /-- Overwrite the column with nothing, if that is allowed. -/
  clear : Option (α → α) := none

namespace Column

variable {α : Type}

def text (name : String) (set : String → α → α) : Column α where
  name
  write s a := .ok (set s a)

def text? (name : String) (set : Option String → α → α) : Column α where
  name
  write s a := .ok (set (some s) a)
  clear := some (set none)

def readTimestamp (s : String) : Except String Timestamp :=
  match Timestamp.ofStored? s with
  | some t => .ok t
  | none => .error ("invalid datetime: " ++ s)

def timestamp (name : String) (set : Timestamp → α → α) : Column α where
  name
  write s a := (readTimestamp s).map (set · a)

def timestamp? (name : String) (set : Option Timestamp → α → α) : Column α where
  name
  write s a := (readTimestamp s).map fun t => set (some t) a
  clear := some (set none)

def mismatch (c : Cell) : String :=
  "mismatched types; Rust type `bool` (as SQL type `BOOLEAN`) is not compatible with SQL type `"
    ++ c.kind ++ "`"

def flag (name : String) (set : Bool → α → α) : Column α where
  name
  write s a :=
    match (Cell.ofText s).flag? with
    | some b => .ok (set b a)
    | none => .error (mismatch (Cell.ofText s))

def texts (name : String) (set : List String → α → α) : Column α where
  name
  write s a := (Text.readStringList s).map (set · a)

end Column

namespace Stored

variable {α : Type}

/-- The row with `columns` written anew, which read from now on. -/
def writeColumns (r : Stored α) (columns : List String) (f : α → α) : Stored α where
  value := f r.value
  garbled := r.garbled.filter fun (column, _) => !columns.contains column

/-- The value of a row, or its first column (in the order of `columns`) that does not read. -/
def read (columns : List (Column α)) (r : Stored α) : Except Error α :=
  let fault := columns.findSome? fun c =>
    (r.garbled.lookup c.name).map (DatabaseFault.unreadable c.name)
  match fault with
  | some fault => .error (.database fault)
  | none => .ok r.value

theorem read_eq_ok {columns : List (Column α)} {r : Stored α} {v : α} :
    r.read columns = .ok v ↔ (∀ c ∈ columns, r.garbled.lookup c.name = none) ∧ r.value = v := by
  have hfault : (columns.findSome? fun c =>
      (r.garbled.lookup c.name).map (DatabaseFault.unreadable c.name)) = none ↔
      ∀ c ∈ columns, r.garbled.lookup c.name = none := by
    simp only [List.findSome?_eq_none_iff, Option.map_eq_none_iff]
  unfold read
  rw [← hfault]
  cases columns.findSome? fun c =>
      (r.garbled.lookup c.name).map (DatabaseFault.unreadable c.name) with
  | none => simp
  | some fault => simp

theorem read_eq_error {columns : List (Column α)} {r : Stored α} {e : Error}
    (h : r.read columns = .error e) : ∃ fault, e = .database fault := by
  unfold read at h
  dsimp only at h
  split at h
  · rename_i fault _
    exact ⟨fault, (Except.error.inj h).symm⟩
  · cases h

theorem read_of_garbled_nil (columns : List (Column α)) (r : Stored α) (h : r.garbled = []) :
    r.read columns = .ok r.value :=
  read_eq_ok.2 ⟨by simp [h], rfl⟩

/-- The row that is found is the one that meets `p`, if no other does. -/
theorem find?_eq_some_of_alone {rows : List (Stored α)} {p : α → Bool} {r : Stored α}
    (halone : ∀ q ∈ rows, ∀ r ∈ rows, p q.value = true → p r.value = true → q = r) :
    rows.find? (p ·.value) = some r ↔ r ∈ rows ∧ p r.value = true := by
  constructor
  · intro hfound
    have hmeets := List.find?_some hfound
    exact ⟨List.mem_of_find?_eq_some hfound, hmeets⟩
  · rintro ⟨hr, hmeets⟩
    cases hfound : rows.find? (p ·.value) with
    | none => exact absurd hmeets (List.find?_eq_none.1 hfound r hr)
    | some q =>
      have hq := List.mem_of_find?_eq_some hfound
      have hqmeets := List.find?_some hfound
      rw [halone q hq r hr hqmeets hmeets]

def overwrite (table : String) (c : Column α) (text : Option String) (r : Stored α) :
    Except Error (Stored α) :=
  match text with
  | none =>
    match c.clear with
    | some clear => .ok (r.writeColumns [c.name] clear)
    | none => .error (.database (.nullRefused table c.name))
  | some s =>
    match c.write s r.value with
    | .ok value => .ok (r.writeColumns [c.name] fun _ => value)
    | .error reason =>
      .ok { r.writeColumns [c.name] id with
            garbled := (c.name, reason) :: (r.writeColumns [c.name] id).garbled }

end Stored

end StatusStore.Database
