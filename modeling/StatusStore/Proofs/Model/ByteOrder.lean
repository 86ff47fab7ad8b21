/-
  StatusStore/Proofs/Model/ByteOrder.lean
  =======================================
  **The order of texts is that of their bytes.**  A character is written as a first
  byte, which tells how many follow, and bytes with six of its bits each.  Of two
  characters the greater has the greater first byte that differs, so texts compare
  byte by byte as they do character by character.

  Main statement: `le_iff_bytes_le`.
-/
import Mathlib.Algebra.Group.Nat.Defs
import StatusStore.Model.IdOrder

namespace StatusStore.Text

/-! ### The bytes of a character -/

def bytes (s : String) : List UInt8 := s.toList.flatMap String.utf8EncodeChar

def following (n : Nat) : Nat :=
  if n ≤ 0x7f then 0 else if n ≤ 0x7ff then 1 else if n ≤ 0xffff then 2 else 3

def firstByte (n : Nat) : Nat :=
  if n ≤ 0x7f then n
  else if n ≤ 0x7ff then n / 64 + 192
  else if n ≤ 0xffff then n / 64 ^ 2 + 224
  else n / 64 ^ 3 + 240

/-- The last `k` bytes of a character, each with six of its bits. -/
def lastBytes (n : Nat) : Nat → List UInt8
  | 0 => []
  | k + 1 => UInt8.ofNat (n / 64 ^ k % 64 + 128) :: lastBytes n k

variable {m n : Nat} {as bs : List UInt8}

theorem cons_lt_cons {x y : Nat} (hx : x < 256) (hy : y < 256) :
    UInt8.ofNat x :: as < UInt8.ofNat y :: bs ↔ x < y ∨ x = y ∧ as < bs := by
  rw [List.cons_lt_cons_iff, UInt8.lt_iff_toNat_lt, ← UInt8.toNat_inj, UInt8.toNat_ofNat',
    UInt8.toNat_ofNat', Nat.mod_eq_of_lt hx, Nat.mod_eq_of_lt hy]

theorem val_lt (c : Char) : c.val.toNat < 0x110000 := by
  have hvalid : c.val.toNat < 0xd800 ∨ (0xdfff < c.val.toNat ∧ c.val.toNat < 0x110000) := c.valid
  omega

theorem firstByte_lt_256 (hmax : n < 0x110000) : firstByte n < 256 := by
  unfold firstByte
  split
  · omega
  split
  · omega
  split <;> omega

theorem encode_eq (c : Char) : String.utf8EncodeChar c =
    UInt8.ofNat (firstByte c.val.toNat) :: lastBytes c.val.toNat (following c.val.toNat) := by
  have hmax := val_lt c
  unfold String.utf8EncodeChar firstByte following
  generalize c.val.toNat = n at hmax ⊢
  dsimp only
  split
  · rfl
  split
  · rw [Nat.mod_eq_of_lt (by omega : n / 64 < 32)]
    simp [lastBytes]
  split
  · rw [Nat.mod_eq_of_lt (by omega : n / 4096 < 16)]
    simp [lastBytes]
  · rw [Nat.mod_eq_of_lt (by omega : n / 262144 < 8)]
    simp [lastBytes]

/-! ### The order of bytes -/

theorem lastBytes_lt {k : Nat} (hlt : m < n) (hsame : m / 64 ^ k = n / 64 ^ k) :
    lastBytes m k ++ as < lastBytes n k ++ bs := by
  induction k with
  | zero => simp at hsame; omega
  | succ k ih =>
    have hdigit : ∀ x, x % 64 + 128 < 256 := by
      intro x
      omega
    refine (cons_lt_cons (hdigit _) (hdigit _)).2 ?_
    have hle : m / 64 ^ k ≤ n / 64 ^ k := Nat.div_le_div_right (Nat.le_of_lt hlt)
    rw [Nat.pow_succ, ← Nat.div_div_eq_div_mul, ← Nat.div_div_eq_div_mul] at hsame
    by_cases hhigh : m / 64 ^ k = n / 64 ^ k
    · exact Or.inr ⟨by rw [hhigh], ih hhigh⟩
    · exact Or.inl (by omega)

/-- A character with more bytes has a greater first byte, and so has one with more in its high bits. -/
theorem firstByte_lt (hlt : m < n) (hmax : n < 0x110000) :
    firstByte m < firstByte n ∨ firstByte m = firstByte n ∧ following m = following n ∧
      m / 64 ^ following n = n / 64 ^ following n := by
  unfold firstByte following
  split <;> split <;> (repeat' split) <;> simp <;> omega

theorem encode_append_lt {c d : Char} (h : c < d) (as bs : List UInt8) :
    String.utf8EncodeChar c ++ as < String.utf8EncodeChar d ++ bs := by
  have hlt : c.val.toNat < d.val.toNat := h
  rw [encode_eq, encode_eq, List.cons_append, List.cons_append]
  refine (cons_lt_cons (firstByte_lt_256 (val_lt c)) (firstByte_lt_256 (val_lt d))).2 ?_
  rcases firstByte_lt hlt (val_lt d) with hfirst | ⟨hfirst, hsize, hhigh⟩
  · exact Or.inl hfirst
  · rw [hsize]
    exact Or.inr ⟨hfirst, lastBytes_lt hlt hhigh⟩

theorem flatMap_encode_lt {cs ds : List Char} (h : cs < ds) :
    cs.flatMap String.utf8EncodeChar < ds.flatMap String.utf8EncodeChar := by
  induction h with
  | nil =>
    rename_i d ds
    rw [List.flatMap_nil, List.flatMap_cons]
    cases hd : String.utf8EncodeChar d with
    | nil => exact absurd hd String.utf8EncodeChar_ne_nil
    | cons b rest => exact List.nil_lt_cons _ _
  | rel hlt => exact encode_append_lt hlt _ _
  | cons _ ih => exact List.append_left_lt ih

/-- Texts are in the order of their bytes. -/
theorem le_iff_bytes_le {s t : String} : s ≤ t ↔ bytes s ≤ bytes t := by
  have hlt : ∀ {s t : String}, s < t → bytes s < bytes t := fun h => flatMap_encode_lt h
  constructor
  · intro hle hcontra
    by_cases hback : s < t
    · exact List.lt_irrefl _ (List.lt_trans (hlt hback) hcontra)
    · rw [String.le_antisymm hle hback] at hcontra
      exact List.lt_irrefl _ hcontra
  · intro hle hcontra
    exact hle (hlt hcontra)

end StatusStore.Text
