import Canary.Lib.Hotp
import Canary.Utils.SHA1

/-!
# Tokens

`generateToken` makes the token of an authenticator for a counter. The key is put into two pads of
64 bytes, which are hashed with the counter; the digits of the first hash, and of an offset in the
second one, are read as numbers again.

The token is the one-time password of the standard if the key fits into the pads. A longer key is
not hashed, as the standard has it: it is written behind the pads (`tokens_of_standard`).
-/

namespace Canary.Utils

open Sha1 (hex digest)

/-! ## Numbers in strings -/

/-- A hexadecimal digit. -/
def hexDigit (c : Char) : Option ℕ :=
  if '0' ≤ c ∧ c ≤ '9' then some (c.toNat - '0'.toNat)
  else if 'a' ≤ c ∧ c ≤ 'f' then some (c.toNat - 'a'.toNat + 10)
  else if 'A' ≤ c ∧ c ≤ 'F' then some (c.toNat - 'A'.toNat + 10)
  else none

/-- The digits that follow a number. -/
def stolFrom (n : ℕ) : List Char → ℕ
  | [] => n
  | c :: str =>
    match hexDigit c with
    | some v => stolFrom (16 * n + v) str
    | none => n

/-- `std::stol(str, nullptr, 16)`, where a number begins with a digit. A `long` has 64 bits, more
    than those of the numbers here. -/
def stol : List Char → Option ℕ
  | [] => none
  | c :: str => (hexDigit c).map fun v => stolFrom v str

def substr (str : List Char) (pos n : ℕ) : List Char := (str.drop pos).take n

/-! ## Tokens -/

def AUTHENTICATOR_DIGITS : ℕ := 6

/-- The loop over `message`, from its end on. -/
def tickBytes (ticks : BitVec 32) : List UInt8 :=
  ([7, 6, 5, 4, 3, 2, 1].foldl
    (fun (message, ticks) i =>
      (message.set i (UInt8.ofBitVec ((ticks &&& 0xFF).setWidth 8)), ticks >>> 8))
    (List.replicate 8 (0 : UInt8), ticks)).1

/-- The loop over the key, from an index on. An index outside of the pads is `none`; so the index
    never gets to the end of its 8 bits. -/
def padKeys (i : ℕ) (iKeyPad oKeyPad : List UInt8) :
    List UInt8 → Option (List UInt8 × List UInt8)
  | [] => some (iKeyPad, oKeyPad)
  | k :: key =>
    if i < iKeyPad.length ∧ i < oKeyPad.length then
      padKeys (i + 1) (iKeyPad.set i (iKeyPad.getD i 0 ^^^ k))
        (oKeyPad.set i (oKeyPad.getD i 0 ^^^ k)) key
    else none

/-- The loop over the digits, two at a time. -/
def fromHex : List Char → Option (List UInt8)
  | [] => some []
  | [a] => do
    let n ← stol [a]
    return [UInt8.ofNat n]
  | a :: b :: message => do
    let n ← stol [a, b]
    let rest ← fromHex message
    return UInt8.ofNat n :: rest

/-- `none` if a byte outside of the pads is accessed, or a string is not a number. -/
def generateToken (key : List UInt8) (ticks : BitVec 32) : Option (List Char) := do
  let (iKeyPad, oKeyPad) ← padKeys 0 (List.replicate 64 0x36) (List.replicate 64 0x5C) key
  let message := transformToSHA1 (iKeyPad ++ tickBytes ticks)
  let message := transformToSHA1 (oKeyPad ++ (← fromHex message))
  let offset := (← stol (substr message 39 1)) &&& 0xF
  let truncHash := (← stol (substr message (2 * offset) 8)) &&& 0x7FFFFFFF
  let message := Nat.toDigits 10 truncHash
  let hashLen := message.length
  let message := message.drop (hashLen - min hashLen AUTHENTICATOR_DIGITS)
  return List.replicate (AUTHENTICATOR_DIGITS - min hashLen AUTHENTICATOR_DIGITS) '0' ++ message

/-! ## The pads -/

/-- A pad into which a part of the key was put. -/
def pad (c : UInt8) (done : List UInt8) : List UInt8 :=
  done.map (· ^^^ c) ++ List.replicate (64 - done.length) c

theorem length_pad {done : List UInt8} (h : done.length ≤ 64) (c : UInt8) :
    (pad c done).length = 64 := by
  rw [pad, List.length_append, List.length_map, List.length_replicate]
  omega

/-- The next byte of the key. -/
theorem set_pad {done : List UInt8} (h : done.length < 64) (c k : UInt8) :
    (pad c done).set done.length ((pad c done).getD done.length 0 ^^^ k) =
      pad c (done ++ [k]) := by
  obtain ⟨m, hm⟩ := Nat.exists_eq_add_of_lt h
  have hlen : (done.map (· ^^^ c)).length = done.length := List.length_map _
  have hleft : 64 - done.length = m + 1 := by omega
  have hright : 64 - (done ++ [k]).length = m := by
    rw [List.length_append, List.length_singleton]
    omega
  rw [pad, pad, hleft, hright, List.getD_append_right _ _ _ _ (Nat.le_of_eq hlen),
    List.set_append_right _ _ (Nat.le_of_eq hlen), hlen, Nat.sub_self, List.replicate_succ,
    List.map_append, List.append_assoc]
  rw [List.set_cons_zero, List.getD_cons_zero, UInt8.xor_comm c k]
  rfl

/-- The key is put into the pads if and only if it fits. -/
theorem padKeys_eq {done : List UInt8} (h : done.length ≤ 64) (key : List UInt8) :
    padKeys done.length (pad 0x36 done) (pad 0x5C done) key =
      if done.length + key.length ≤ 64 then some (pad 0x36 (done ++ key), pad 0x5C (done ++ key))
      else none := by
  induction key generalizing done with
  | nil =>
    rw [padKeys, List.append_nil]
    exact (if_pos h).symm
  | cons k key ih =>
    rw [padKeys, length_pad h, length_pad h, List.length_cons]
    by_cases hlt : done.length < 64
    · have hsucc : (done ++ [k]).length ≤ 64 := by
        rw [List.length_append, List.length_singleton]
        exact hlt
      have hnext := ih hsucc
      rw [List.length_append, List.length_singleton, List.append_assoc] at hnext
      rw [if_pos ⟨hlt, hlt⟩, set_pad hlt, set_pad hlt, hnext, Nat.add_right_comm]
      rfl
    · rw [if_neg (fun h => hlt h.1), if_neg (by omega)]

theorem pad_eq_blockKey {key : List UInt8} (h : key.length ≤ 64) (c : UInt8) :
    pad c key = (Hotp.blockKey key).map (· ^^^ c) := by
  rw [Hotp.blockKey, if_neg (Nat.not_lt.2 h), List.map_append, List.map_replicate, UInt8.zero_xor]
  rfl

theorem mask_eq (x : BitVec 32) : (x &&& 0xFF).setWidth 8 = x.setWidth 8 := by
  have hones : (0xFF : BitVec 32).setWidth 8 = BitVec.allOnes 8 := by decide
  rw [BitVec.setWidth_and, hones, BitVec.and_allOnes]

theorem shift_eq_zero (x : BitVec 32) : x >>> 32 = 0 := by
  refine BitVec.eq_of_toNat_eq ?_
  rw [BitVec.toNat_ushiftRight, Nat.shiftRight_eq_div_pow]
  exact Nat.div_eq_of_lt x.isLt

theorem tickBytes_eq (ticks : BitVec 32) :
    tickBytes ticks = (Bytes.encode 8 ticks.toNat).reverse := by
  have hencode : Bytes.encode 8 ticks.toNat = Bytes.encode 4 ticks.toNat ++ List.replicate 4 0 :=
    Bytes.encode_add_of_lt ticks.isLt 4
  rw [hencode, List.reverse_append, List.reverse_replicate, ← wordBytes_eq]
  simp only [tickBytes, List.foldl_cons, List.foldl_nil, mask_eq, ← BitVec.shiftRight_add,
    Nat.reduceAdd, shift_eq_zero]
  rfl

/-! ## Digits that are read again -/

theorem hexDigit_digitChar : ∀ n < 16, hexDigit (Nat.digitChar n) = some n := by decide

theorem stolFrom_cons {n v : ℕ} (hv : v < 16) (str : List Char) :
    stolFrom n (Nat.digitChar v :: str) = stolFrom (16 * n + v) str := by
  rw [stolFrom, hexDigit_digitChar v hv]

theorem hex_cons (b : UInt8) (l : List UInt8) :
    hex (b :: l) = Nat.digitChar (b.toNat / 16) :: Nat.digitChar (b.toNat % 16) :: hex l := rfl

theorem stolFrom_hex (n : ℕ) (l : List UInt8) :
    stolFrom n (hex l) = n * 256 ^ l.length + Bytes.decode l.reverse := by
  induction l generalizing n with
  | nil => rw [List.length_nil, Nat.pow_zero, Nat.mul_one]; rfl
  | cons b l ih =>
    have hlt := b.toNat_lt
    have hbyte : 16 * (16 * n + b.toNat / 16) + b.toNat % 16 = n * 256 + b.toNat := by omega
    rw [hex_cons, stolFrom_cons (by omega), stolFrom_cons (by omega), hbyte, ih,
      List.reverse_cons, Bytes.decode_append, List.length_reverse, List.length_cons,
      Nat.pow_succ', Nat.add_mul, Nat.mul_assoc]
    rw [Bytes.decode, Bytes.decode, Nat.mul_zero, Nat.add_zero, Nat.mul_comm b.toNat,
      Nat.add_assoc, Nat.add_comm (Bytes.decode _)]

theorem stol_hex {l : List UInt8} (h : l ≠ []) : stol (hex l) = some (Bytes.decode l.reverse) := by
  obtain ⟨b, l, rfl⟩ := List.exists_cons_of_ne_nil h
  have hlt := b.toNat_lt
  have hfrom := stolFrom_hex 0 (b :: l)
  rw [hex_cons, stolFrom_cons (by omega), Nat.mul_zero, Nat.zero_add, Nat.zero_mul,
    Nat.zero_add] at hfrom
  rw [hex_cons, stol, hexDigit_digitChar _ (by omega), Option.map_some, hfrom]

/-- The bytes are read back from their digits. -/
theorem fromHex_hex (l : List UInt8) : fromHex (hex l) = some l := by
  induction l with
  | nil => rfl
  | cons b l ih =>
    have hb : stol [Nat.digitChar (b.toNat / 16), Nat.digitChar (b.toNat % 16)] = some b.toNat :=
      stol_hex (List.cons_ne_nil b [])
    rw [hex_cons, fromHex, hb, ih, Option.bind_eq_bind, Option.bind_some, Option.bind_eq_bind,
      Option.bind_some, UInt8.ofNat_toNat]
    rfl

theorem drop_hex (n : ℕ) (l : List UInt8) : (hex l).drop (2 * n) = hex (l.drop n) := by
  induction n generalizing l with
  | zero => rfl
  | succ n ih =>
    cases l with
    | nil => rfl
    | cons b l => exact ih l

theorem take_hex (n : ℕ) (l : List UInt8) : (hex l).take (2 * n) = hex (l.take n) := by
  induction n generalizing l with
  | zero => rfl
  | succ n ih =>
    cases l with
    | nil => rfl
    | cons b l =>
      rw [List.take_succ_cons, hex_cons, hex_cons, ← ih]
      rfl

/-- The digits of a range of bytes. -/
theorem substr_hex (l : List UInt8) (n k : ℕ) :
    substr (hex l) (2 * n) (2 * k) = hex ((l.drop n).take k) := by
  rw [substr, drop_hex, take_hex]

/-- The last digit. -/
theorem substr_last {l : List UInt8} (h : l.length = 20) :
    substr (hex l) 39 1 = [Nat.digitChar ((l.getD 19 0).toNat % 16)] := by
  have hlt : 19 < l.length := by omega
  have hlast : l.drop 19 = [l.getD 19 0] := by
    rw [List.drop_eq_getElem_cons hlt, List.drop_of_length_le (Nat.le_of_eq h),
      List.getD_eq_getElem?_getD, List.getElem?_eq_getElem hlt, Option.getD_some]
  have hdrop : (hex l).drop 39 = ((hex l).drop (2 * 19)).drop 1 := by rw [List.drop_drop]
  rw [substr, hdrop, drop_hex, hlast, hex_cons]
  rfl

/-- The digits of the last byte are read as the truncation has it. -/
theorem stol_offset {l : List UInt8} (h : l.length = 20) :
    stol (substr (hex l) 39 1) = some ((l.getD 19 0).toNat % 16) := by
  rw [substr_last h, stol, hexDigit_digitChar _ (Nat.mod_lt _ (by decide))]
  rfl

/-- So are those of four bytes. -/
theorem stol_substr {l : List UInt8} (h : l.length = 20) {offset : ℕ} (hoffset : offset < 16) :
    stol (substr (hex l) (2 * offset) 8) =
      some (Bytes.decode ((l.drop offset).take 4).reverse) := by
  refine (congrArg stol (substr_hex l offset 4)).trans (stol_hex fun hnil => ?_)
  have hlen := congrArg List.length hnil
  rw [List.length_take, List.length_drop, List.length_nil] at hlen
  omega

/-! ## The result -/

theorem padKeys_nil (key : List UInt8) :
    padKeys 0 (List.replicate 64 0x36) (List.replicate 64 0x5C) key =
      if key.length ≤ 64 then some (pad 0x36 key, pad 0x5C key) else none := by
  have h := @padKeys_eq [] (Nat.zero_le _) key
  rwa [List.length_nil, Nat.zero_add] at h

theorem generateToken_of_le {key : List UInt8} (h : key.length ≤ 64) (ticks : BitVec 32) :
    generateToken key ticks = some (Hotp.hotp AUTHENTICATOR_DIGITS key ticks.toNat) := by
  have hpads := (padKeys_nil key).trans (if_pos h)
  have hoffset (n : ℕ) : n % 16 &&& 0xF = n % 16 := by
    rw [Nat.and_two_pow_sub_one_eq_mod _ 4, Nat.mod_mod]
  have htrunc (n : ℕ) : n &&& 0x7FFFFFFF = n % 2 ^ 31 := Nat.and_two_pow_sub_one_eq_mod _ 31
  have hdigest (text : List UInt8) : (digest text).length = 20 := Sha1.length_digest text
  rw [pad_eq_blockKey h, pad_eq_blockKey h] at hpads
  rw [generateToken, hpads]
  simp only [Option.bind_eq_bind, Option.bind_some, transformToSHA1_eq, tickBytes_eq, fromHex_hex,
    stol_offset (hdigest _), stol_substr (hdigest _) (Nat.mod_lt _ (Nat.zero_lt_succ 15)), hoffset,
    htrunc]
  rw [Hotp.hotp, Hotp.digits_mod, Hotp.digits_eq]
  rfl

theorem generateToken_of_lt {key : List UInt8} (h : 64 < key.length) (ticks : BitVec 32) :
    generateToken key ticks = none := by
  rw [generateToken, padKeys_nil, if_neg (Nat.not_le.2 h)]
  rfl

/-- Every text gives its digest in hexadecimal digits. A key gives the one-time password of the
    standard, without an access outside of the pads, if and only if it has at most 64 bytes. -/
theorem tokens_of_standard (input key : List UInt8) (ticks : BitVec 32) :
    transformToSHA1 input = hex (digest input) ∧
      (generateToken key ticks = some (Hotp.hotp AUTHENTICATOR_DIGITS key ticks.toNat) ↔
        key.length ≤ 64) := by
  refine ⟨transformToSHA1_eq input, fun h => ?_, fun h => generateToken_of_le h ticks⟩
  by_contra hlt
  rw [generateToken_of_lt (Nat.lt_of_not_le hlt)] at h
  exact Option.some_ne_none _ h.symm

/-- A key of 65 bytes is written behind the pads. -/
theorem long_key : generateToken (List.replicate 65 0x41) 1 ≠
    some (Hotp.hotp AUTHENTICATOR_DIGITS (List.replicate 65 0x41) 1) := by
  rw [generateToken_of_lt (by decide)]
  exact (Option.some_ne_none _).symm

end Canary.Utils
