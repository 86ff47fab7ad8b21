/-
  StatusStore/Model/Document.lean
  ===============================
  **Documents**: the tree form in which records come in and go out.  A record
  type says with a list of named fields how it is read from a document
  (`Fields`) and how it is written to one.

  Reading is strict about kinds, so a number is never taken for a text, and
  lenient about shape: unknown names are skipped, an optional field may be left
  out, and a plain list of all the fields in order is as good as an object.
-/
import StatusStore.Model.Timestamp.Text

namespace StatusStore

/-- A tree of values.  A number that is not written as a whole one, or that 64 bits do not hold, is
a floating-point number. -/
inductive Document
  | null
  | bool (value : Bool)
  | whole (n : Int)
  | real (x : Float)
  | text (value : String)
  | list (items : List Document)
  | object (fields : List (String × Document))
deriving Inhabited, Repr

namespace Document

def field? : Document → String → Option Document
  | .object fields, name => fields.lookup name
  | _, _ => none

def text? : Document → Option String
  | .text s => some s
  | _ => none

def bool? : Document → Option Bool
  | .bool b => some b
  | _ => none

def list? : Document → Option (List Document)
  | .list items => some items
  | _ => none

def texts? (d : Document) : Option (List String) := do (← d.list?).mapM text?

def timestamp? (d : Document) : Option Timestamp := do Timestamp.ofText? (← d.text?)

def nullable? {α : Type} (read : Document → Option α) : Document → Option (Option α)
  | .null => some none
  | d => (read d).map some

def ofTexts (items : List String) : Document := .list (items.map .text)

def ofTimestamp (t : Timestamp) : Document := .text t.toText

def ofOption {α : Type} (write : α → Document) : Option α → Document
  | none => .null
  | some a => write a

end Document

class Documented (α : Type) where
  ofDocument? : Document → Option α
  toDocument : α → Document

export Documented (ofDocument? toDocument)

/-- The fields of a record that are still to be read: by name, or by position. -/
inductive Fields
  | named (fields : List (String × Document))
  | listed (items : List Document)

namespace Fields

def ofDocument? : Document → Option Fields
  | .object fields => some (.named fields)
  | .list items => some (.listed items)
  | _ => none

/-- Take the next field; a missing one is `absent`, which only names allow. -/
def next? {α : Type} (name : String) (read : Document → Option α) (absent : Option α) :
    StateT Fields Option α := fun
  | .named fields =>
    match fields.lookup name with
    | some d => (read d).map (·, .named fields)
    | none => absent.map (·, .named fields)
  | .listed (d :: items) => (read d).map (·, .listed items)
  | .listed [] => none

def required {α : Type} (name : String) (read : Document → Option α) : StateT Fields Option α :=
  next? name read none

def optional {α : Type} (name : String) (read : Document → Option α) :
    StateT Fields Option (Option α) :=
  next? name (Document.nullable? read) (some none)

def text (name : String) : StateT Fields Option String := required name Document.text?

def text? (name : String) : StateT Fields Option (Option String) := optional name Document.text?

def timestamp (name : String) : StateT Fields Option Timestamp :=
  required name Document.timestamp?

/-- Read a record; in a list, nothing may be left over. -/
def readAll? {α : Type} (read : StateT Fields Option α) (d : Document) : Option α := do
  let (a, rest) ← read.run (← ofDocument? d)
  match rest with
  | .listed (_ :: _) => none
  | _ => some a

end Fields

end StatusStore
