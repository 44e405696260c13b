import Mathlib.FieldTheory.Finite.Basic

/-!
# Exponents modulo two primes

Powers modulo the product of two different primes `p` and `q`. An exponent that is 1 modulo
`(p - 1) * (q - 1)` gives every number back, also one that is not coprime to the product
(`pow_modEq_self_mul`). So two exponents that are inverse to each other undo each other
(`pow_pow_modEq`), and no power of a number is 0 unless the number is (`mul_dvd_pow_iff`).
-/

namespace Exponents

variable {p q e : ℕ}

/-- An exponent that is 1 modulo `p - 1` gives every number back. -/
theorem pow_modEq_self (hp : p.Prime) (he : e ≡ 1 [MOD p - 1]) (hpos : 0 < e) (m : ℕ) :
    m ^ e ≡ m [MOD p] := by
  have hdvd : p - 1 ∣ e - 1 := (Nat.modEq_iff_dvd' hpos).1 he.symm
  have hpow := Int.ModEq.pow_eq_pow hp hdvd hpos Nat.one_pos m
  rw [pow_one, ← Nat.cast_pow] at hpow
  exact Int.natCast_modEq_iff.1 hpow

theorem pos_of_modEq_one {k : ℕ} (hk : 1 < k) (he : e ≡ 1 [MOD k]) : 0 < e := by
  refine Nat.pos_of_ne_zero ?_
  rintro rfl
  rw [Nat.ModEq, Nat.zero_mod, Nat.mod_eq_of_lt hk] at he
  exact absurd he Nat.zero_ne_one

variable (hp : p.Prime) (hq : q.Prime) (hne : p ≠ q)

include hp hq hne

theorem pow_modEq_self_mul (he : e ≡ 1 [MOD (p - 1) * (q - 1)]) (hpos : 0 < e) (m : ℕ) :
    m ^ e ≡ m [MOD p * q] :=
  (Nat.modEq_and_modEq_iff_modEq_mul ((Nat.coprime_primes hp hq).2 hne)).1
    ⟨pow_modEq_self hp (he.of_mul_right _) hpos m, pow_modEq_self hq (he.of_mul_left _) hpos m⟩

/-- Inverse exponents undo each other. -/
theorem pow_pow_modEq {d : ℕ} (hed : e * d ≡ 1 [MOD (p - 1) * (q - 1)]) (hpos : 0 < e * d)
    (m : ℕ) : (m ^ e % (p * q)) ^ d ≡ m [MOD p * q] :=
  calc (m ^ e % (p * q)) ^ d ≡ (m ^ e) ^ d [MOD p * q] := (Nat.mod_modEq _ _).pow d
    _ = m ^ (e * d) := (pow_mul m e d).symm
    _ ≡ m [MOD p * q] := pow_modEq_self_mul hp hq hne hed hpos m

theorem mul_dvd_pow_iff (hpos : 0 < e) (m : ℕ) : p * q ∣ m ^ e ↔ p * q ∣ m := by
  have hcop : p.Coprime q := (Nat.coprime_primes hp hq).2 hne
  refine ⟨fun h => ?_, fun h => h.trans (dvd_pow_self m hpos.ne')⟩
  have hpm : p ∣ m := hp.dvd_of_dvd_pow ((Nat.dvd_mul_right p q).trans h)
  have hqm : q ∣ m := hq.dvd_of_dvd_pow ((Nat.dvd_mul_left q p).trans h)
  exact hcop.mul_dvd_of_dvd_of_dvd hpm hqm

/-- One of the primes is not 2. -/
theorem one_lt_totient : 1 < (p - 1) * (q - 1) := by
  have hp₂ := hp.two_le
  have hq₂ := hq.two_le
  obtain h | h := Nat.lt_or_gt_of_ne hne
  · have : 1 * 2 ≤ (p - 1) * (q - 1) := Nat.mul_le_mul (by omega) (by omega)
    omega
  · have : 2 * 1 ≤ (p - 1) * (q - 1) := Nat.mul_le_mul (by omega) (by omega)
    omega

end Exponents
