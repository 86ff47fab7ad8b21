/-
  StatusStore/Text/Reader.lean
  ============================
  **Reading text from the left.**  A reader takes characters off the front of
  what is left, or fails.  The forms of times and numbers are written with the
  few readers of this module.
-/

namespace StatusStore.Text

/-- White space, in ASCII and beyond. -/
def isBlank (c : Char) : Bool :=
  let n := c.toNat
  (0x9 ≤ n && n ≤ 0xd) || n = 0x20 || n = 0x85 || n = 0xa0 || n = 0x1680
    || (0x2000 ≤ n && n ≤ 0x200a) || n = 0x2028 || n = 0x2029 || n = 0x202f
    || n = 0x205f || n = 0x3000

def isDigit (c : Char) : Bool := '0' ≤ c && c ≤ '9'

def digitsValue (ds : List Char) : Nat :=
  ds.foldl (fun n d => 10 * n + (d.toNat - '0'.toNat)) 0

/-- Takes a value off the front of a text, or fails. -/
abbrev Reader (α : Type) := StateT (List Char) Option α

namespace Reader

def readAll? {α : Type} (r : Reader α) (s : String) : Option α :=
  match r.run s.toList with
  | some (a, []) => some a
  | _ => none

def skipWhile (p : Char → Bool) : Reader Unit := fun s => some ((), s.dropWhile p)

def blanks : Reader Unit := skipWhile isBlank

def one (p : Char → Bool) : Reader Char := fun
  | c :: s => if p c then some (c, s) else none
  | [] => none

def literal (c : Char) : Reader Unit := fun s => (one (· = c) s).map fun (_, s) => ((), s)

/-- Take the character `c` if it comes next; answers whether it did. -/
def literal? (c : Char) : Reader Bool := fun
  | d :: s => if d = c then some (true, s) else some (false, d :: s)
  | [] => some (false, [])

/-- Take as many digits as come next, `max` at the most and `min` at the least. -/
def digits (min max : Nat) : Reader (List Char) := fun s =>
  let ds := (s.take max).takeWhile isDigit
  if min ≤ ds.length then some (ds, s.drop ds.length) else none

def anyDigits : Reader (List Char) := fun s => some (s.takeWhile isDigit, s.dropWhile isDigit)

def allDigits : Reader (List Char) := fun s =>
  let ds := s.takeWhile isDigit
  if ds.isEmpty then none else some (ds, s.drop ds.length)

def number (min max : Nat) : Reader Nat := do return digitsValue (← digits min max)

end Reader

end StatusStore.Text
