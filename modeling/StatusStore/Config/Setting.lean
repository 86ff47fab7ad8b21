/-
  StatusStore/Config/Setting.lean
  ===============================
  **Settings**: scalars, lists and tables of settings, as layers of a
  configuration give them.  A later layer is laid over an earlier one name by
  name: tables are merged, everything else is replaced.  Names are compared
  without regard to case.

  A setting is read as the kind that is wanted, if there is a fair way to: numbers
  and flags can be written as text, and a flag counts as 1 or 0.
-/
import StatusStore.Config.Path
import StatusStore.Text.Shortest

namespace StatusStore.Config

open Text

/-- A setting.  Where settings have been laid over one another the names are in lower case. -/
inductive Setting
  | flag (value : Bool)
  | whole (value : Int)
  | real (value : Float)
  | text (value : String)
  /-- No value yet: what stands in the gaps of a list. -/
  | nothing
  | list (items : List Setting)
  | table (entries : List (String × Setting))
deriving Inhabited

/-- A name in lower case.  The Kelvin sign is the one character outside ASCII that has a letter of
ASCII as its lower case. -/
def lowered (name : String) : String :=
  name.map fun c => if c = '\u212a' then 'k' else c.toLower

namespace Setting

def entries : Setting → List (String × Setting)
  | table entries => entries
  | _ => []

def items : Setting → List Setting
  | list items => items
  | _ => []

def get? (s : Setting) (name : String) : Option Setting := s.entries.lookup name

def insert (s : Setting) (name : String) (value : Setting) : Setting :=
  .table ((name, value) :: s.entries.filter (·.1 ≠ name))

mutual

/-- Lay the setting `layer` on the entry `name` of a table; what is no table becomes one. -/
def lay (s : Setting) (name : String) (layer : Setting) : Setting :=
  let name := lowered name
  match layer with
  | .table entries => s.insert name (layAll ((s.get? name).getD (.table [])) entries)
  | _ => s.insert name layer

def layAll (s : Setting) : List (String × Setting) → Setting
  | [] => s
  | (name, layer) :: rest => layAll (lay s name layer) rest

end

/-! ### Steps of a path -/

def padded (items : List Setting) (n : Nat) : List Setting :=
  items ++ List.replicate (n + 1 - items.length) .nothing

/-- Lay a setting on what is at the end of a path.  What is no table, or no list, on the way becomes
one. -/
def layAt (s : Setting) : List Step → Setting → Except StepFault Setting
  | [], value => .ok value
  | [.name name], value => .ok (s.lay name value)
  | .name name :: path, value => do
    let name := lowered name
    return s.insert name (← layAt ((s.get? name).getD .nothing) path value)
  | .place index :: path, value => do
    let n ← Step.position index s.items.length
    let items := padded s.items n
    return .list (items.set n (← layAt (items.getD n .nothing) path value))

def ofText (s : String) : Setting :=
  match s.toLower with
  | "true" => .flag true
  | "false" => .flag false
  | _ =>
    match (integer.readAll? s).filter isInt64 with
    | some n => .whole n
    | none =>
      match readFloat? s with
      | some x => .real x
      | none => .text s

/-! ### Settings as values -/

/-- A whole number without a sign, of 64 bits. -/
def nat? : Setting → Option Nat
  | .whole n => if 0 ≤ n then some n.toNat else none
  | .flag b => some b.toNat
  | .real x => some x.round.toUInt64.toNat
  | .text s =>
    if ["true", "on", "yes"].contains s.toLower then some 1
    else if ["false", "off", "no"].contains s.toLower then some 0
    else
      let n := Reader.readAll? (do let _ ← Reader.literal? '+'; Reader.allDigits) s
      (n.map digitsValue).filter (· < Nat.pow 2 64)
  | .nothing | .list _ | .table _ => none

/-- A field of a record: by its name in a table, by its place in a list. -/
def field? (s : Setting) (name : String) (place : Nat) : Option Setting :=
  match s with
  | .list items => items[place]?
  | _ => s.get? name

def text? : Setting → Option String
  | .text s => some s
  | .flag b => some (if b then "true" else "false")
  | .whole n => some (Int.repr n)
  | .real x => some (floatText x)
  | .nothing | .list _ | .table _ => none

end Setting

end StatusStore.Config
