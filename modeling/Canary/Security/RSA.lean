import Canary.Lib.Bytes
import Canary.Lib.Exponents
import Canary.Lib.Memory
import Mathlib.Data.Int.GCD
import Mathlib.Data.Nat.Log

/-!
# RSA

The key of the server has two primes `p` and `q`: the modulus is their product, and the exponent is
the inverse of 65537 modulo `(p - 1) * (q - 1)`. `decrypt` takes a block of 128 bytes as a number,
the highest byte first, takes its power modulo the product, and puts the number that it gets at the
end of the block, behind zeros.

The place of the number comes from its size, which is 1 for the number 0. But the export of 0
writes nothing, so the last byte of the block stays as it was. That happens with the multiples of
the modulus, whose last byte is not zero in general: then, and only then, the block is not the one
of the power (`decrypt_spec`). What was encrypted is decrypted, the number 0 included.
-/

namespace Canary.Security

/-! ## Numbers of GMP -/

/-- A digit of a base up to 36. -/
def digit (base : ℕ) (c : Char) : Option ℕ :=
  let v :=
    if '0' ≤ c ∧ c ≤ '9' then c.toNat - '0'.toNat
    else if 'a' ≤ c ∧ c ≤ 'z' then c.toNat - 'a'.toNat + 10
    else if 'A' ≤ c ∧ c ≤ 'Z' then c.toNat - 'A'.toNat + 10
    else base
  if v < base then some v else none

/-- `mpz_set_str`, of a string of digits -/
def mpz_set_str (str : List Char) (base : ℕ) : Option ℕ :=
  if str.isEmpty then none
  else str.foldlM (fun n c => (digit base c).map fun v => base * n + v) 0

/-- `mpz_invert`, with the inverse from 0 on: the sign of the modulus does not matter. -/
def mpz_invert (e : ℕ) (m : ℤ) : ℕ := (e.gcdA m.natAbs % m).toNat

/-- `mpz_import`, the highest byte first -/
def mpz_import (l : List UInt8) : ℕ := Bytes.decode l.reverse

/-- `mpz_sizeinbase`, in base 2: the number 0 has one digit -/
def mpz_sizeinbase (m : ℕ) : ℕ := if m = 0 then 1 else m.log2 + 1

/-- `(mpz_sizeinbase(m, 2) + 7) / 8` -/
def count (m : ℕ) : ℕ := (mpz_sizeinbase m + 7) / 8

/-- `mpz_export`, the highest byte first: nothing is written for the number 0 -/
def mpz_export (m : ℕ) : List UInt8 := if m = 0 then [] else (Bytes.encode (count m) m).reverse

/-! ## The key -/

structure RSA where
  n : ℕ
  d : ℕ
  deriving DecidableEq

namespace RSA

/-- A string that is not a number leaves 0. -/
def setKey (pString qString : List Char) (base : ℕ) : RSA :=
  let p := (mpz_set_str pString base).getD 0
  let q := (mpz_set_str qString base).getD 0
  { n := p * q, d := mpz_invert 65537 (((p : ℤ) - 1) * ((q : ℤ) - 1)) }

/-- The block at `msg` is decrypted. A number of more than 128 bytes does not fit. -/
def decrypt (rsa : RSA) (msg : ℕ) (mem : Memory UInt8) : Option (Memory UInt8) :=
  let c := mpz_import (mem.read msg 128)
  let m := c ^ rsa.d % rsa.n
  if 128 < count m then none
  else
    let mem := mem.write msg (List.replicate (128 - count m) 0)
    some (mem.write (msg + (128 - count m)) (mpz_export m))

end RSA

/-- The block of a number: 128 bytes, the highest first. -/
def block (m : ℕ) : List UInt8 := (Bytes.encode 128 m).reverse

theorem length_block (m : ℕ) : (block m).length = 128 := by
  rw [block, List.length_reverse, Bytes.length_encode]

/-! ## Blocks -/

theorem mpz_invert_modEq {e m : ℕ} (hm : 1 < m) (h : e.Coprime m) :
    e * mpz_invert e m ≡ 1 [MOD m] := by
  have hpos : (0 : ℤ) < m := by exact_mod_cast Nat.zero_lt_of_lt hm
  have hgcd : (1 : ℤ) = e * e.gcdA m + m * e.gcdB m := by
    rw [← Nat.gcd_eq_gcd_ab, h.gcd_eq_one, Nat.cast_one]
  rw [← Int.natCast_modEq_iff, Nat.cast_mul, mpz_invert, Int.natAbs_natCast,
    Int.toNat_of_nonneg (Int.emod_nonneg _ hpos.ne'), Nat.cast_one, hgcd]
  calc (e : ℤ) * (e.gcdA m % m) ≡ e * e.gcdA m [ZMOD m] := (Int.mod_modEq _ _).mul_left _
    _ ≡ e * e.gcdA m + m * e.gcdB m [ZMOD m] := by
      exact Int.modEq_iff_dvd.2 ⟨e.gcdB m, by ring⟩

theorem lt_count (m : ℕ) : m < 256 ^ count m := by
  have hsize : m < 2 ^ mpz_sizeinbase m := by
    rw [mpz_sizeinbase]
    split_ifs with h
    · rw [h]
      exact Nat.two_pow_pos _
    · exact Nat.lt_log2_self
  refine Nat.lt_of_lt_of_le hsize ?_
  rw [show 256 = 2 ^ 8 by rfl, ← pow_mul]
  refine Nat.pow_le_pow_right (by decide) ?_
  rw [count]
  omega

theorem count_le {m k : ℕ} (h : m < 2 ^ (8 * k)) (hk : 0 < k) : count m ≤ k := by
  have hsize : mpz_sizeinbase m ≤ 8 * k := by
    rw [mpz_sizeinbase]
    split_ifs with hm
    · omega
    · exact (Nat.log2_lt hm).2 h
  rw [count]
  omega

theorem bits_eq : 1024 = 8 * 128 := rfl

theorem bytes_eq : 2 ^ 1024 = 256 ^ 128 := by
  have h : 2 ^ 8 = 256 := rfl
  rw [bits_eq, pow_mul, h]

theorem import_block {m : ℕ} (h : m < 256 ^ 128) : mpz_import (block m) = m := by
  rw [mpz_import, block, List.reverse_reverse, Bytes.decode_encode]
  exact Nat.mod_eq_of_lt h

theorem block_eq {m : ℕ} (h : count m ≤ 128) :
    block m = List.replicate (128 - count m) 0 ++ (Bytes.encode (count m) m).reverse := by
  have hadd : 128 = count m + (128 - count m) := by omega
  rw [block, hadd, Bytes.encode_add_of_lt (lt_count m), List.reverse_append,
    List.reverse_replicate, ← hadd]

/-! ## Decryption -/

namespace RSA

variable {rsa : RSA} {msg c : ℕ} {mem mem' : Memory UInt8}

/-- What is written is 128 bytes at most. -/
theorem length_export (m : ℕ) : (mpz_export m).length ≤ count m := by
  rw [mpz_export]
  split_ifs
  · exact Nat.zero_le _
  · rw [List.length_reverse, Bytes.length_encode]

theorem exists_decrypt (h : count (mpz_import (mem.read msg 128) ^ rsa.d % rsa.n) ≤ 128) :
    ∃ mem', rsa.decrypt msg mem = some mem' :=
  ⟨_, if_neg (Nat.not_lt.2 h)⟩

/-- Nothing is written outside of the block. -/
theorem decrypt_of_disjoint (h : rsa.decrypt msg mem = some mem') {i : ℕ}
    (hi : i < msg ∨ msg + 128 ≤ i) : mem' i = mem i := by
  rw [decrypt] at h
  dsimp only at h
  split_ifs at h with hcount
  obtain rfl := Option.some.inj h
  have hlen := length_export (mpz_import (mem.read msg 128) ^ rsa.d % rsa.n)
  rw [Memory.write_of_disjoint _ (by omega), Memory.write_of_disjoint]
  rw [List.length_replicate]
  omega

/-- A number that is not 0 fills its place. -/
theorem read_decrypt (h : rsa.decrypt msg mem = some mem')
    (hm : mpz_import (mem.read msg 128) ^ rsa.d % rsa.n ≠ 0) :
    mem'.read msg 128 = block (mpz_import (mem.read msg 128) ^ rsa.d % rsa.n) := by
  rw [decrypt] at h
  dsimp only at h
  generalize mpz_import (mem.read msg 128) ^ rsa.d % rsa.n = m at h hm ⊢
  split_ifs at h with hcount
  obtain rfl := Option.some.inj h
  have hcount : count m ≤ 128 := Nat.le_of_not_lt hcount
  have hlen : (Bytes.encode (count m) m).reverse.length = count m := by
    rw [List.length_reverse, Bytes.length_encode]
  have hzeros : (List.replicate (128 - count m) (0 : UInt8)).length = 128 - count m :=
    List.length_replicate
  have hread := mem.read_write_write (p := msg) hzeros hlen
  rw [Nat.sub_add_cancel hcount] at hread
  rw [mpz_export, if_neg hm, hread, block_eq hcount]

/-- The number 0 leaves the last byte as it was. -/
theorem read_decrypt_zero (h : rsa.decrypt msg mem = some mem')
    (hm : mpz_import (mem.read msg 128) ^ rsa.d % rsa.n = 0) :
    mem'.read msg 128 = List.replicate 127 0 ++ [mem (msg + 127)] := by
  rw [decrypt] at h
  dsimp only at h
  rw [hm] at h
  obtain rfl : mem.write msg (List.replicate 127 0) = mem' := by
    rw [← Memory.write_nil (mem.write msg _) (msg + 127)]
    exact Option.some.inj h
  have hread := mem.read_write msg (List.replicate 127 (0 : UInt8))
  have hlast : mem.write msg (List.replicate 127 0) (msg + 127) = mem (msg + 127) :=
    Memory.write_of_disjoint _ (.inr (Nat.le_of_eq (by rw [List.length_replicate])))
  rw [List.length_replicate] at hread
  rw [Memory.read_add _ msg 127 1, hread, ← hlast]
  rfl

theorem block_zero : block 0 = List.replicate 127 0 ++ [0] := by decide

theorem last_eq {b : UInt8} (h : mem.read msg 128 = List.replicate 127 0 ++ [b]) :
    mem (msg + 127) = b := by
  rw [Memory.read_add _ msg 127 1] at h
  have hlast := (List.append_inj h (by rw [Memory.length_read, List.length_replicate])).2
  exact List.head_eq_of_cons_eq hlast

/-! ## The key of two primes -/

variable {p q base : ℕ} {pString qString : List Char}

theorem setKey_eq (hp : 0 < p) (hq : 0 < q) (hpString : mpz_set_str pString base = some p)
    (hqString : mpz_set_str qString base = some q) :
    setKey pString qString base = ⟨p * q, mpz_invert 65537 ((p - 1) * (q - 1) : ℕ)⟩ := by
  rw [setKey, hpString, hqString, Nat.cast_mul, Nat.cast_sub hp, Nat.cast_sub hq, Nat.cast_one]
  rfl

/-- A block is decrypted if and only if it is not a multiple of the modulus, or ends with a zero;
    nothing is written outside of it. What was encrypted is decrypted. -/
theorem decrypt_spec (hp : p.Prime) (hq : q.Prime) (hne : p ≠ q) (hbits : p * q < 2 ^ 1024)
    (hcop : Nat.Coprime 65537 ((p - 1) * (q - 1))) (hpString : mpz_set_str pString base = some p)
    (hqString : mpz_set_str qString base = some q) (msg : ℕ) (mem : Memory UInt8) :
    let rsa := setKey pString qString base
    let c := mpz_import (mem.read msg 128)
    rsa.n = p * q ∧ 65537 * rsa.d ≡ 1 [MOD (p - 1) * (q - 1)] ∧
      ∃ mem', rsa.decrypt msg mem = some mem' ∧
        ((mem'.read msg 128 = block (c ^ rsa.d % rsa.n) ∧
          ∀ i, i < msg ∨ msg + 128 ≤ i → mem' i = mem i) ↔
            ¬p * q ∣ c ∨ mem (msg + 127) = 0) ∧
        ∀ m < p * q, mem.read msg 128 = block (m ^ 65537 % (p * q)) →
          mem'.read msg 128 = block m := by
  intro rsa c
  have hrsa : rsa = ⟨p * q, mpz_invert 65537 ((p - 1) * (q - 1) : ℕ)⟩ :=
    setKey_eq hp.pos hq.pos hpString hqString
  clear_value rsa
  have hn : rsa.n = p * q := by rw [hrsa]
  have htot : 1 < (p - 1) * (q - 1) := Exponents.one_lt_totient hp hq hne
  have hd : 65537 * rsa.d ≡ 1 [MOD (p - 1) * (q - 1)] := by
    rw [hrsa]
    exact mpz_invert_modEq htot hcop
  have hpos : 0 < 65537 * rsa.d := Exponents.pos_of_modEq_one htot hd
  have hzero : c ^ rsa.d % rsa.n = 0 ↔ p * q ∣ c := by
    rw [hn, ← Nat.dvd_iff_mod_eq_zero]
    exact Exponents.mul_dvd_pow_iff hp hq hne (Nat.pos_of_mul_pos_left hpos) c
  have hcount : count (c ^ rsa.d % rsa.n) ≤ 128 := by
    refine count_le (Nat.lt_trans ?_ (bits_eq ▸ hbits)) (by decide)
    rw [hn]
    exact Nat.mod_lt _ (Nat.mul_pos hp.pos hq.pos)
  obtain ⟨mem', hmem⟩ := exists_decrypt hcount
  refine ⟨hn, hd, mem', hmem, ⟨?_, ?_⟩, ?_⟩
  · rintro ⟨hread, -⟩
    by_contra hnot
    rw [not_or, not_not] at hnot
    have hm := hzero.2 hnot.1
    rw [hm, block_zero, read_decrypt_zero hmem hm] at hread
    have hlast := List.append_cancel_left hread
    exact hnot.2 (List.head_eq_of_cons_eq hlast)
  · intro hok
    refine ⟨?_, fun i hi => decrypt_of_disjoint hmem hi⟩
    by_cases hm : c ^ rsa.d % rsa.n = 0
    · rw [hm, block_zero, read_decrypt_zero hmem hm, hok.resolve_left (not_not.2 (hzero.1 hm))]
    · exact read_decrypt hmem hm
  · intro m hm hread
    have hpow : m ^ 65537 % (p * q) < p * q := Nat.mod_lt _ (Nat.mul_pos hp.pos hq.pos)
    have hc : c = m ^ 65537 % (p * q) := by
      rw [← import_block (Nat.lt_trans hpow (bytes_eq ▸ hbits)), ← hread]
    have hback : c ^ rsa.d % rsa.n = m := by
      rw [hc, hn]
      exact Nat.mod_eq_of_modEq (Exponents.pow_pow_modEq hp hq hne hd hpos m) hm
    by_cases hm₀ : m = 0
    · have hc₀ : mem.read msg 128 = block 0 := by
        rw [hread, hm₀, Nat.zero_pow (by decide), Nat.zero_mod]
      rw [read_decrypt_zero hmem (hback.trans hm₀), last_eq (hc₀.trans block_zero), hm₀, block_zero]
    · rw [← hback]
      exact read_decrypt hmem (hback.symm ▸ hm₀)

/-- The key of the primes 3 and 11. -/
def key : RSA := setKey ['3'] ['1', '1'] 10

/-- The block of the number 4, encrypted. -/
def encrypted : Memory UInt8 := Memory.write (fun _ => 0) 0 (block (4 ^ 65537 % (3 * 11)))

theorem decrypt_encrypted :
    ∃ mem', key.decrypt 0 encrypted = some mem' ∧ mem'.read 0 128 = block 4 := by
  have hbits : 3 * 11 < 2 ^ 1024 := by
    rw [bytes_eq]
    exact Nat.lt_of_lt_of_le (by decide : 3 * 11 < 256 ^ 1)
      (Nat.pow_le_pow_right (by decide) (by decide))
  obtain ⟨-, -, mem', hmem, -, hback⟩ := decrypt_spec Nat.prime_three Nat.prime_eleven (by decide)
    hbits (by decide) (by decide : mpz_set_str ['3'] 10 = some 3)
    (by decide : mpz_set_str ['1', '1'] 10 = some 11) 0 encrypted
  have hread : encrypted.read 0 128 = block (4 ^ 65537 % (3 * 11)) := by
    have h := Memory.read_write (fun _ => 0) 0 (block (4 ^ 65537 % (3 * 11)))
    rwa [length_block] at h
  exact ⟨mem', hmem, hback 4 (by decide) hread⟩

/-- The block of the modulus. -/
def multiple : Memory UInt8 := fun i => if i = 127 then 33 else 0

/-- The modulus is not decrypted: the last byte of the block stays. -/
theorem multiple_left :
    ∃ mem', key.decrypt 0 multiple = some mem' ∧ mem' 127 = 33 ∧
      mem'.read 0 128 ≠ block (mpz_import (multiple.read 0 128) ^ key.d % key.n) := by
  have hkey : key = ⟨33, 13⟩ := by decide +kernel
  have hc : mpz_import (multiple.read 0 128) = 33 := by decide +kernel
  have hm : mpz_import (multiple.read 0 128) ^ key.d % key.n = 0 := by
    rw [hc, hkey]
    rfl
  have hcount : count (mpz_import (multiple.read 0 128) ^ key.d % key.n) ≤ 128 := by
    rw [hm]
    decide
  obtain ⟨mem', hmem⟩ := exists_decrypt hcount
  have hlast : mem' (0 + 127) = 33 := last_eq (read_decrypt_zero hmem hm)
  refine ⟨mem', hmem, hlast, fun h => ?_⟩
  rw [hm, block_zero] at h
  have hzero : mem' (0 + 127) = 0 := last_eq h
  rw [hlast] at hzero
  exact absurd hzero (by decide)

end RSA

end Canary.Security
