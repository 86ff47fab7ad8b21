/-
  StatusStore/Text/Utf8.lean
  ==========================
  **Bytes as text.**  The first byte of a character says how many bytes follow
  and in which range each of them lies.  Bytes are cut into pieces from the
  left: a character, a sequence that breaks off at a byte that cannot follow, or
  one that the end of the bytes cuts off.  Reading strictly fails at the first
  piece that is no character; reading loosely puts a mark in its place.
-/

namespace StatusStore.Text.Utf8

inductive Fault
  /-- The bytes from `index` on, `size` of them, begin no character. -/
  | broken (index size : Nat)
  /-- The bytes end within the character that begins at `index`. -/
  | cutOff (index : Nat)
deriving DecidableEq, Repr

def Fault.message : Fault → String
  | broken index size =>
    "invalid utf-8 sequence of " ++ Nat.repr size ++ " bytes from index " ++ Nat.repr index
  | cutOff index => "incomplete utf-8 byte sequence from index " ++ Nat.repr index

/-- The ranges of the bytes that follow the first byte of a character. -/
def ranges? (first : Nat) : Option (List (Nat × Nat)) :=
  let following : Nat × Nat := (0x80, 0xbf)
  if first ≤ 0x7f then some []
  else if 0xc2 ≤ first ∧ first ≤ 0xdf then some [following]
  else if first = 0xe0 then some [(0xa0, 0xbf), following]
  else if first = 0xed then some [(0x80, 0x9f), following]
  else if 0xe1 ≤ first ∧ first ≤ 0xef then some [following, following]
  else if first = 0xf0 then some [(0x90, 0xbf), following, following]
  else if 0xf1 ≤ first ∧ first ≤ 0xf3 then some [following, following, following]
  else if first = 0xf4 then some [(0x80, 0x8f), following, following]
  else none

/-- How many of the bytes lie in the ranges, one after another. -/
def countWithin : List (Nat × Nat) → List UInt8 → Nat
  | (low, high) :: ranges, b :: bytes =>
    if low ≤ b.toNat ∧ b.toNat ≤ high then countWithin ranges bytes + 1 else 0
  | _, _ => 0

inductive Piece
  | char (c : Char) (size : Nat)
  | broken (size : Nat)
  | cutOff (size : Nat)
deriving DecidableEq, Repr

namespace Piece

def size : Piece → Nat
  | char _ size | broken size | cutOff size => size

def shown : Piece → Char
  | char c _ => c
  | broken _ | cutOff _ => '\uFFFD'

end Piece

/-- The character of the first byte and of those that follow it: six bits are in each of these,
and the first byte has one bit fewer for each. -/
def charOf (first : UInt8) (following : List UInt8) : Char :=
  let start := if following.isEmpty then first.toNat else first.toNat % Nat.pow 2 (6 - following.length)
  Char.ofNat (following.foldl (fun n b => 64 * n + b.toNat % 64) start)

def pieceOf (first : UInt8) (rest : List UInt8) : Piece :=
  match ranges? first.toNat with
  | none => .broken 1
  | some ranges =>
    let n := countWithin ranges rest
    if n = ranges.length then .char (charOf first (rest.take n)) (n + 1)
    else if n = rest.length then .cutOff (n + 1)
    else .broken (n + 1)

def pieces : List UInt8 → List Piece
  | [] => []
  | first :: rest =>
    let piece := pieceOf first rest
    piece :: pieces (rest.drop (piece.size - 1))
termination_by bytes => bytes.length
decreasing_by simp only [List.length_drop, List.length_cons]; omega

def charsOf (index : Nat) : List Piece → Except Fault (List Char)
  | [] => .ok []
  | .char c size :: ps => (charsOf (index + size) ps).map (c :: ·)
  | .broken size :: _ => .error (.broken index size)
  | .cutOff _ :: _ => .error (.cutOff index)

def decode (bytes : List UInt8) : Except Fault String :=
  (charsOf 0 (pieces bytes)).map String.ofList

/-- The text of the bytes, with a mark for each piece that is no character. -/
def decodeLoosely (bytes : List UInt8) : String := String.ofList ((pieces bytes).map Piece.shown)

end StatusStore.Text.Utf8
