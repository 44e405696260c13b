import Mathlib.Algebra.Order.Group.Unbundled.Int
import Mathlib.Tactic.Linarith
import Mathlib.Tactic.Ring

/-!
# Lines on a grid

The line from `(0, 0)` to `(a, b)`, for `0 ≤ b ≤ a`, passes the column `k` at the height
`b * k / a`. The point of the grid next to it (`height`) is off by `gap`, which is at most half a
step (`gap_bounds`), and from one column to the next it rises by one or not at all
(`height_succ`).

A walker that compares how far from the line a step aside, a step up and a step to both sides would
lead, and prefers the shorter ones, goes along these points (`rises_iff`, `advances`).
-/

namespace GridLine

variable {a b k : ℤ}

/-- The height at the column `k`, rounded to the grid, and down if it is in the middle. -/
def height (a b k : ℤ) : ℤ := (2 * (b * k) + a - 1) / (2 * a)

/-- How far the line is above the point, in units of `1 / a`. -/
def gap (a b k : ℤ) : ℤ := b * k - a * height a b k

theorem gap_bounds (ha : 0 < a) : -a < 2 * gap a b k ∧ 2 * gap a b k ≤ a := by
  have hdiv := Int.mul_ediv_add_emod (2 * (b * k) + a - 1) (2 * a)
  have hpos := Int.emod_nonneg (2 * (b * k) + a - 1) (by omega : 2 * a ≠ 0)
  have hlt := Int.emod_lt_of_pos (2 * (b * k) + a - 1) (by omega : 0 < 2 * a)
  rw [gap, height]
  have hassoc : 2 * a * ((2 * (b * k) + a - 1) / (2 * a)) =
      2 * (a * ((2 * (b * k) + a - 1) / (2 * a))) := by
    ring
  rw [hassoc] at hdiv
  constructor <;> omega

/-- The rounded height is the only one that is off by so little. -/
theorem height_unique (ha : 0 < a) {v : ℤ} (hlt : -a < 2 * (b * k - a * v))
    (hle : 2 * (b * k - a * v) ≤ a) : height a b k = v := by
  obtain ⟨hlt', hle'⟩ := gap_bounds (b := b) (k := k) ha
  rw [gap] at hlt' hle'
  rcases lt_trichotomy (height a b k) v with h | h | h
  · have := mul_le_mul_of_nonneg_left (Int.add_one_le_of_lt h) ha.le
    rw [mul_add, mul_one] at this
    omega
  · exact h
  · have := mul_le_mul_of_nonneg_left (Int.add_one_le_of_lt h) ha.le
    rw [mul_add, mul_one] at this
    omega

theorem height_zero (ha : 0 < a) : height a b 0 = 0 :=
  height_unique ha (by rw [mul_zero, mul_zero]; omega) (by rw [mul_zero, mul_zero]; omega)

theorem height_self (ha : 0 < a) : height a b a = b :=
  height_unique ha (by rw [mul_comm b a]; omega) (by rw [mul_comm b a]; omega)

/-- The line rises by `b / a`, and the rounded height by one if that is nearer. -/
theorem height_succ (ha : 0 < a) (hb : 0 ≤ b) (hba : b ≤ a) :
    height a b (k + 1) = height a b k + if a < 2 * (gap a b k + b) then 1 else 0 := by
  obtain ⟨hlt, hle⟩ := gap_bounds (b := b) (k := k) ha
  have hnext : ∀ c, b * (k + 1) - a * (height a b k + c) = gap a b k + b - a * c := by
    intro c
    rw [gap]
    ring
  split_ifs with hrise
  · exact height_unique ha (by rw [hnext]; omega) (by rw [hnext]; omega)
  · exact height_unique ha (by rw [hnext]; omega) (by rw [hnext]; omega)

theorem height_mono (ha : 0 < a) (hb : 0 ≤ b) {k k' : ℤ} (h : k ≤ k') :
    height a b k ≤ height a b k' := by
  have := mul_le_mul_of_nonneg_left h hb
  exact Int.ediv_le_ediv (by omega) (by omega)

theorem height_nonneg (ha : 0 < a) (hb : 0 ≤ b) (hk : 0 ≤ k) : 0 ≤ height a b k :=
  (height_zero ha).symm.le.trans (height_mono ha hb hk)

theorem height_le (ha : 0 < a) (hb : 0 ≤ b) (hk : k ≤ a) : height a b k ≤ b :=
  (height_mono ha hb hk).trans_eq (height_self ha)

theorem height_bounds (hb : 0 ≤ b) (hba : b ≤ a) (hk : 0 ≤ k) (hka : k ≤ a) :
    0 ≤ height a b k ∧ height a b k ≤ b := by
  rcases (hb.trans hba).lt_or_eq with ha | ha
  · exact ⟨height_nonneg ha hb hk, height_le ha hb hka⟩
  · rw [height, ← ha, mul_zero, Int.ediv_zero]
    omega

/-- At the top before the end, the line does not rise further. -/
theorem not_rises_of_height_eq (ha : 0 < a) (hb : 0 ≤ b) (hk : k < a) (h : height a b k = b) :
    ¬a < 2 * (gap a b k + b) := by
  have hgap : gap a b k + b = -(b * (a - (k + 1))) := by
    rw [gap, h]
    ring
  have := mul_nonneg hb (by omega : 0 ≤ a - (k + 1))
  omega

/-! ## Walkers -/

section walker

/-- Up is nearer than aside, or than both. `t` is the gap. -/
def Rises (a b t : ℤ) : Prop := |t - a| < |t + b| ∨ |t + b - a| < |t + b|

/-- Aside is nearer than up, or both are. -/
def Advances (a b t : ℤ) : Prop := |t + b| < |t - a| ∨ |t + b - a| < |t - a|

variable {t : ℤ}

theorem rises_iff (hb : 0 < b) (hba : b ≤ a) (hlt : -a < 2 * t) (hle : 2 * t ≤ a) :
    Rises a b t ↔ a < 2 * (t + b) := by
  have hup : |t - a| = a - t := by
    rw [abs_of_nonpos (by omega)]
    omega
  rw [Rises, hup]
  rcases le_total 0 (t + b) with h | h <;> rcases le_total 0 (t + b - a) with h' | h' <;>
    simp only [abs_of_nonneg, abs_of_nonpos, h, h'] <;> omega

/-- A walker always advances; on the diagonal the gap is a multiple of `a`, and not the half. -/
theorem advances (hb : 0 < b) (hba : b ≤ a) (hle : 2 * t ≤ a) (hdiag : b = a → 2 * t ≠ a) :
    Advances a b t := by
  have hup : |t - a| = a - t := by
    rw [abs_of_nonpos (by omega)]
    omega
  refine .inr ?_
  rw [hup]
  rcases le_total 0 (t + b - a) with h' | h'
  · rw [abs_of_nonneg h']
    omega
  · rw [abs_of_nonpos h']
    omega

/-- The gap on the diagonal. -/
theorem two_mul_gap_ne (ha : 0 < a) : 2 * gap a a k ≠ a := by
  intro h
  have hgap : gap a a k = a * (k - height a a k) := by
    rw [gap]
    ring
  rw [hgap, ← mul_assoc, mul_comm 2 a, mul_assoc] at h
  have : 2 * (k - height a a k) = 1 := by
    refine Int.eq_of_mul_eq_mul_left ha.ne' ?_
    rw [h, mul_one]
  omega

end walker

end GridLine
