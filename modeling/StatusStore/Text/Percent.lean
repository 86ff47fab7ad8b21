/-
  StatusStore/Text/Percent.lean
  =============================
  **Percent signs and fields in addresses.**  A percent sign with two digits in
  hexadecimal stands for a byte; any other percent sign stands for itself.
  Fields are parted by `&`, a name from its value by the first `=`, and in both
  `+` stands for a blank.
-/
import StatusStore.Text.Utf8

namespace StatusStore.Text.Percent

def hexValue? (b : UInt8) : Option UInt8 :=
  if 0x30 ≤ b ∧ b ≤ 0x39 then some (b - 0x30)
  else if 0x41 ≤ b ∧ b ≤ 0x46 then some (b - 0x37)
  else if 0x61 ≤ b ∧ b ≤ 0x66 then some (b - 0x57)
  else none

def decodeBytes : List UInt8 → List UInt8
  | 0x25 :: high :: low :: rest =>
    match hexValue? high, hexValue? low with
    | some h, some l => (16 * h + l) :: decodeBytes rest
    | _, _ => 0x25 :: decodeBytes (high :: low :: rest)
  | b :: rest => b :: decodeBytes rest
  | [] => []

def decode (text : String) : Except Utf8.Fault String :=
  Utf8.decode (decodeBytes text.toUTF8.toList)

def decodeField (text : String) : String :=
  let blank : UInt8 := 0x20
  let bytes := text.toUTF8.toList.map fun b => if b = 0x2b then blank else b
  Utf8.decodeLoosely (decodeBytes bytes)

def field (text : String) : String × String :=
  match text.splitOn "=" with
  | name :: value => (decodeField name, decodeField ("=".intercalate value))
  | [] => ("", "")

def fields (text : String) : List (String × String) :=
  ((text.splitOn "&").filter (· ≠ "")).map field

/-- The text that a part of a request stands for, up to a byte that is zero. -/
def decodePart (text : String) : String :=
  Utf8.decodeLoosely ((decodeBytes text.toUTF8.toList).takeWhile (· ≠ 0))

/-- The fields of a request, which ends before `#`, without those that have no name.  In these
`+` stands for itself. -/
def requestFields (text : String) : List (String × String) :=
  let parts := ((text.splitOn "#").headD "").splitOn "&"
  let fields := parts.map fun part =>
    match part.splitOn "=" with
    | name :: value => (decodePart name, decodePart ("=".intercalate value))
    | [] => ("", "")
  fields.filter (·.1 ≠ "")

end StatusStore.Text.Percent
