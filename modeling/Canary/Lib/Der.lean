import Canary.Lib.Bytes
import Mathlib.Data.Nat.Log

/-!
# Encoded values

The distinguished encoding of values: a tag, the number of bytes of the content, and the content.
A number below 128 takes one byte, and a larger one as many as it has, the highest first, behind a
byte that says how many. Integers are written with the highest byte first, and with a zero in
front if the highest bit would be set.
-/

namespace Der

/-- How many bytes a number has, at least one. -/
def size (n : ℕ) : ℕ := n.log2 / 8 + 1

/-- The number of bytes of a content. -/
def lengthOctets (n : ℕ) : List UInt8 :=
  if n < 128 then [UInt8.ofNat n]
  else UInt8.ofNat (128 + size n) :: (Bytes.encode (size n) n).reverse

/-- The content of a natural number, with room for the bit of the sign. -/
def octets (n : ℕ) : List UInt8 := (Bytes.encode (size (2 * n)) n).reverse

def tlv (tag : UInt8) (content : List UInt8) : List UInt8 :=
  tag :: (lengthOctets content.length ++ content)

/-- `INTEGER` -/
def integer (n : ℕ) : List UInt8 := tlv 2 (octets n)

/-- `OBJECT IDENTIFIER` -/
def objectIdentifier (content : List UInt8) : List UInt8 := tlv 6 content

/-- `NULL` -/
def null : List UInt8 := tlv 5 []

/-- `OCTET STRING` -/
def octetString (content : List UInt8) : List UInt8 := tlv 4 content

/-- `SEQUENCE` -/
def sequence (values : List (List UInt8)) : List UInt8 := tlv 48 values.flatten

theorem lt_size (n : ℕ) : n < 256 ^ size n := by
  refine Nat.lt_log2_self.trans_le ?_
  rw [show 256 = 2 ^ 8 by rfl, ← Nat.pow_mul]
  refine Nat.pow_le_pow_right (by decide) ?_
  rw [size]
  omega

theorem lt_size_two_mul (n : ℕ) : n < 256 ^ size (2 * n) :=
  (Nat.le_mul_of_pos_left n (by decide)).trans_lt (lt_size (2 * n))

/-- The content of a number is the number. -/
theorem decode_octets (n : ℕ) : Bytes.decode (octets n).reverse = n := by
  rw [octets, List.reverse_reverse, Bytes.decode_encode]
  exact Nat.mod_eq_of_lt (lt_size_two_mul n)

theorem octets_ne_nil (n : ℕ) : octets n ≠ [] := by
  intro h
  have hlength : (octets n).length = size (2 * n) := by
    rw [octets, List.length_reverse, Bytes.length_encode]
  rw [h, List.length_nil, size] at hlength
  omega

theorem size_of_lt {n : ℕ} (h : n < 256) : size n = 1 := by
  rw [size]
  rcases Nat.eq_zero_or_pos n with rfl | hpos
  · rfl
  · have : n.log2 < 8 := (Nat.log2_lt hpos.ne').2 h
    omega

theorem size_of_le_of_lt {n : ℕ} (hle : 256 ≤ n) (hlt : n < 65536) : size n = 2 := by
  have hlower : 8 ≤ n.log2 := (Nat.le_log2 (by omega)).2 hle
  have hupper : n.log2 < 16 := (Nat.log2_lt (by omega)).2 hlt
  rw [size]
  omega

/-- The three forms of a number of up to two bytes. -/
theorem lengthOctets_cases {n : ℕ} (h : n < 65536) :
    (n < 128 ∧ lengthOctets n = [UInt8.ofNat n]) ∨
    (n < 256 ∧ lengthOctets n = [129, UInt8.ofNat n]) ∨
    lengthOctets n = [130, UInt8.ofNat (n / 256), UInt8.ofNat n] := by
  rw [lengthOctets]
  by_cases hshort : n < 128
  · rw [if_pos hshort]
    exact .inl ⟨hshort, rfl⟩
  · rw [if_neg hshort]
    by_cases hone : n < 256
    · rw [size_of_lt hone]
      exact .inr (.inl ⟨hone, rfl⟩)
    · rw [size_of_le_of_lt (Nat.le_of_not_lt hone) h]
      exact .inr (.inr rfl)

end Der
