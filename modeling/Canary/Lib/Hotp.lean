import Canary.Lib.Sha1
import Mathlib.Tactic.Common

/-!
# HMAC and HOTP

The keyed hash HMAC of a text, with SHA-1: a key that is longer than a block is hashed first. Its
value for a counter gives a one-time password (HOTP): the last four bits of the value are an offset,
and of the number of 31 bits there, the last digits are the password (`hotp`).
-/

namespace Hotp

open Sha1

/-- The key with the length of a block. -/
def blockKey (key : List UInt8) : List UInt8 :=
  let key := if 64 < key.length then digest key else key
  key ++ List.replicate (64 - key.length) 0

def hmac (key text : List UInt8) : List UInt8 :=
  digest ((blockKey key).map (· ^^^ 0x5C) ++ digest ((blockKey key).map (· ^^^ 0x36) ++ text))

/-- Dynamic truncation, to 31 bits. -/
def truncate (value : List UInt8) : ℕ :=
  let offset := (value.getD 19 0).toNat % 16
  Bytes.decode ((value.drop offset).take 4).reverse % 2 ^ 31

/-- The last `n` decimal digits of a number. -/
def digits : ℕ → ℕ → List Char
  | 0, _ => []
  | n + 1, v => digits n (v / 10) ++ [Nat.digitChar (v % 10)]

/-- The password of `n` digits for a counter. -/
def hotp (n : ℕ) (key : List UInt8) (counter : ℕ) : List Char :=
  digits n (truncate (hmac key (Bytes.encode 8 counter).reverse) % 10 ^ n)

theorem digits_zero (n : ℕ) : digits n 0 = List.replicate n '0' := by
  induction n with
  | zero => rfl
  | succ n ih =>
    rw [digits, Nat.zero_div, ih, Nat.zero_mod, List.replicate_succ']
    rfl

/-- The digits are those of the remainder. -/
theorem digits_mod (n v : ℕ) : digits n (v % 10 ^ n) = digits n v := by
  induction n generalizing v with
  | zero => rfl
  | succ n ih =>
    have hdiv : v % 10 ^ (n + 1) / 10 = v / 10 % 10 ^ n := by
      rw [Nat.pow_succ', Nat.mod_mul_right_div_self]
    have hmod : v % 10 ^ (n + 1) % 10 = v % 10 := by
      rw [Nat.pow_succ', Nat.mod_mul_right_mod]
    rw [digits, hdiv, ih, hmod, digits]

/-- A decimal number, cut to `n` digits or filled up to them with zeros. -/
theorem digits_eq (n v : ℕ) : digits n v =
    List.replicate (n - min (Nat.toDigits 10 v).length n) '0' ++
      (Nat.toDigits 10 v).drop ((Nat.toDigits 10 v).length - min (Nat.toDigits 10 v).length n) := by
  induction n generalizing v with
  | zero =>
    rw [Nat.min_zero, Nat.sub_zero, Nat.sub_zero, List.drop_length]
    rfl
  | succ n ih =>
    rw [digits]
    by_cases hlt : v < 10
    · rw [Nat.toDigits_of_lt_base hlt, Nat.div_eq_of_lt hlt, digits_zero, Nat.mod_eq_of_lt hlt,
        List.length_singleton, Nat.min_eq_left (Nat.succ_le_succ (Nat.zero_le n))]
      rfl
    · rw [Nat.toDigits_of_base_le (by decide) (Nat.le_of_not_lt hlt), ih, List.length_append,
        List.length_singleton, Nat.succ_min_succ, Nat.add_sub_add_right, Nat.add_sub_add_right,
        List.drop_append_of_le_length (Nat.sub_le _ _), List.append_assoc]

end Hotp
