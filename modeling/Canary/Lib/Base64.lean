import Mathlib.Data.Nat.Init
import Mathlib.Tactic.Common

/-!
# Base64

Three bytes are written as four characters, each of which stands for six bits. At the end, one byte
is written as two characters and two bytes as three, and `=` fills up the four. There are two
alphabets, which differ in the last two characters: the standard one and the one for URLs.
-/

namespace Base64

/-- The character for six bits. -/
def char (url : Bool) (v : ℕ) : UInt8 :=
  if v < 26 then UInt8.ofNat (v + 'A'.toNat)
  else if v < 52 then UInt8.ofNat (v - 26 + 'a'.toNat)
  else if v < 62 then UInt8.ofNat (v - 52 + '0'.toNat)
  else if v = 62 then UInt8.ofNat (if url then '-' else '+').toNat
  else UInt8.ofNat (if url then '_' else '/').toNat

/-- `=` -/
def pad : UInt8 := 61

/-- The six bits of each of the characters. -/
def first (a : UInt8) : ℕ := a.toNat / 4
def second (a b : UInt8) : ℕ := a.toNat % 4 * 16 + b.toNat / 16
def third (b c : UInt8) : ℕ := b.toNat % 16 * 4 + c.toNat / 64
def fourth (c : UInt8) : ℕ := c.toNat % 64

def encode (url : Bool) : List UInt8 → List UInt8
  | [] => []
  | [a] => [char url (first a), char url (second a 0), pad, pad]
  | [a, b] => [char url (first a), char url (second a b), char url (third b 0), pad]
  | a :: b :: c :: l => char url (first a) :: char url (second a b) :: char url (third b c) ::
      char url (fourth c) :: encode url l

theorem first_lt (a : UInt8) : first a < 64 := by
  have := a.toNat_lt
  rw [first]
  omega

theorem second_lt (a b : UInt8) : second a b < 64 := by
  have := b.toNat_lt
  rw [second]
  omega

theorem third_lt (b c : UInt8) : third b c < 64 := by
  have := c.toNat_lt
  rw [third]
  omega

theorem fourth_lt (c : UInt8) : fourth c < 64 := Nat.mod_lt _ (by decide)

/-- Four characters for each three bytes. -/
theorem length_encode (url : Bool) (l : List UInt8) :
    (encode url l).length = 4 * ((l.length + 2) / 3) := by
  induction l using encode.induct with
  | case1 => rfl
  | case2 a =>
    rw [encode]
    simp only [List.length_cons, List.length_nil]
  | case3 a b =>
    rw [encode]
    simp only [List.length_cons, List.length_nil]
  | case4 a b c l ih =>
    rw [encode]
    simp only [List.length_cons, ih]
    omega

end Base64
