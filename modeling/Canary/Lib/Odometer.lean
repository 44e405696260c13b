import Mathlib.Algebra.Order.Group.Nat
import Mathlib.Algebra.Order.Ring.Nat
import Mathlib.Data.Nat.Notation
import Mathlib.Tactic.Ring

/-!
# Counting with three digits

A number is written with three digits: the first below `w`, the second below `h`, and the third for
what is left (`digits`). To count on by one is to turn the first digit on, which carries when it is
around (`digits_succ`). Below `w * h * d`, the numbers are as many as the digits
(`exists_digits_iff`, `digits_injective`).
-/

namespace Odometer

variable {w h d i j : ℕ}

/-- The digits of a number, the lowest first. -/
def digits (w h i : ℕ) : ℕ × ℕ × ℕ := (i % w, i / w % h, i / w / h)

/-- The next digits: a digit that is around is 0 again, and carries. -/
def next (w h : ℕ) : ℕ × ℕ × ℕ → ℕ × ℕ × ℕ
  | (a, b, c) => if a + 1 = w then if b + 1 = h then (0, 0, c + 1) else (0, b + 1, c)
    else (a + 1, b, c)

/-- One digit turns on. -/
theorem mod_div_succ (hw : 0 < w) : ((i + 1) % w, (i + 1) / w) =
    if i % w + 1 = w then (0, i / w + 1) else (i % w + 1, i / w) := by
  have hlt := Nat.mod_lt i hw
  have hmod : (i + 1) % w = (i % w + 1) % w := (Nat.mod_add_mod i w 1).symm
  have hsum := Nat.div_add_mod i w
  split_ifs with hend
  · have hdvd : i + 1 = w * (i / w + 1) := by rw [mul_add, mul_one]; omega
    rw [hdvd, Nat.mul_mod_right, Nat.mul_div_cancel_left _ hw]
  · have hsmall : (i % w + 1) % w = i % w + 1 := Nat.mod_eq_of_lt (by omega)
    refine Prod.ext (hmod.trans hsmall) ((Nat.div_eq_iff hw).2 ?_)
    dsimp only
    rw [mul_comm w] at hsum
    omega

theorem digits_succ (hw : 0 < w) (hh : 0 < h) : digits w h (i + 1) = next w h (digits w h i) := by
  have hlow := mod_div_succ (i := i) hw
  have hhigh := mod_div_succ (i := i / w) hh
  rw [digits, digits, next]
  split_ifs at hlow hhigh ⊢ with ha hb <;> simp_all

theorem digits_zero : digits w h 0 = (0, 0, 0) := by
  rw [digits, Nat.zero_mod, Nat.zero_div, Nat.zero_mod, Nat.zero_div]

theorem digits_lt (hw : 0 < w) (hh : 0 < h) (hi : i < w * h * d) :
    (digits w h i).1 < w ∧ (digits w h i).2.1 < h ∧ (digits w h i).2.2 < d := by
  refine ⟨Nat.mod_lt i hw, Nat.mod_lt _ hh, ?_⟩
  rw [digits, Nat.div_div_eq_div_mul]
  exact Nat.div_lt_of_lt_mul hi

/-- A number is known by its digits. -/
theorem digits_injective (hij : digits w h i = digits w h j) : i = j := by
  rw [digits, digits, Prod.mk.injEq, Prod.mk.injEq] at hij
  obtain ⟨hlow, hmid, hhigh⟩ := hij
  have hdiv : i / w = j / w := by
    rw [← Nat.div_add_mod (i / w) h, ← Nat.div_add_mod (j / w) h, hmid, hhigh]
  rw [← Nat.div_add_mod i w, ← Nat.div_add_mod j w, hdiv, hlow]

/-- The number past the last one. -/
theorem digits_end (hw : 0 < w) (hh : 0 < h) : digits w h (w * h * d) = (0, 0, d) := by
  rw [digits, mul_assoc, Nat.mul_mod_right, Nat.mul_div_cancel_left _ hw, Nat.mul_mod_right,
    Nat.mul_div_cancel_left _ hh]

/-- All digits are those of a number. -/
theorem exists_digits_iff (hw : 0 < w) (hh : 0 < h) {a b c : ℕ} :
    (∃ i < w * h * d, digits w h i = (a, b, c)) ↔ a < w ∧ b < h ∧ c < d := by
  constructor
  · rintro ⟨i, hi, hdigits⟩
    have hlt := digits_lt hw hh hi
    rwa [hdigits] at hlt
  · rintro ⟨ha, hb, hc⟩
    have hmid : (b + h * c) % h = b := by rw [Nat.add_mul_mod_self_left, Nat.mod_eq_of_lt hb]
    have hhigh : (b + h * c) / h = c := by
      rw [Nat.add_mul_div_left _ _ hh, Nat.div_eq_of_lt hb, Nat.zero_add]
    refine ⟨a + w * (b + h * c), ?_, ?_⟩
    · calc a + w * (b + h * c)
        _ < w + w * (b + h * c) := Nat.add_lt_add_right ha _
        _ = w * (b + 1 + h * c) := by ring
        _ ≤ w * (h + h * c) := Nat.mul_le_mul_left w (Nat.add_le_add_right hb _)
        _ = w * h * (c + 1) := by ring
        _ ≤ w * h * d := Nat.mul_le_mul_left _ hc
    · rw [digits, Nat.add_mul_mod_self_left, Nat.mod_eq_of_lt ha, Nat.add_mul_div_left _ _ hw,
        Nat.div_eq_of_lt ha, Nat.zero_add, hmid, hhigh]

end Odometer
